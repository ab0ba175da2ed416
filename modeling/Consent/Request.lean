import Consent.Decision

/-! Answering a site that asks for a permission. -/

namespace Consent

structure Answer where
  allowed : Bool
  /-- Whether the answer holds beyond the session. -/
  persistent : Bool
  deriving DecidableEq, Repr

namespace Answer

def state (a : Answer) : State := if a.allowed then .allow else .block

def scope (a : Answer) : Scope := if a.persistent then .persistent else .session

end Answer

/-- How a request ends: with a decision and, if the lookup failed, with the cause of that. -/
structure Resolution where
  state : State
  cause : Option Failure := none
  deriving DecidableEq, Repr

abbrev Prompter (σ : Type) := String → Kind → Action σ Answer

namespace Request

variable {σ : Type}

/-- Asks, remembers the answer if it can be stored, and returns it. -/
def ask (p : Policy) (repo : Repository σ) (prompter : Option (Prompter σ)) (origin : String)
    (kind : Kind) : Action σ State := do
  let fields := [Log.text "kind" kind]
  match prompter with
  | none =>
    Action.emit .warn "no prompter available, blocking" fields
    pure .block
  | some prompt =>
    match ← (prompt origin kind).attempt with
    | .error e =>
      Action.emit .debug "prompt dismissed, blocking" (fields ++ [Log.cause e])
      pure .block
    | .ok answer =>
      Action.emit .debug "user answered permission prompt"
        (fields ++ [Log.text "state" answer.state.name, Log.text "scope" answer.scope.name])
      match ← (Decision.set p repo origin kind answer.state answer.scope).attempt with
      | .error e =>
        Action.emit .warn "failed to remember permission answer" (fields ++ [Log.cause e])
        pure answer.state
      | .ok () => pure answer.state

/-- Answers a request: a stored decision to allow or block holds, anything else is asked, and what
cannot be looked up or asked is blocked. -/
def handle [Host.SuffixList] (p : Policy) (repo : Repository σ) (prompter : Option (Prompter σ))
    (origin : String) (kind : Kind) : Action σ Resolution :=
  Action.withFields [Log.text "component" "permission", Log.text "origin" origin] do
    let fields := [Log.text "kind" kind]
    if origin = "" then
      Action.emit .warn "permission request with empty origin, blocking" fields
      pure { state := .block }
    else
      match ← (Decision.get p repo origin kind).attempt with
      | .error e => pure { state := .block, cause := some e }
      | .ok stored =>
        if stored.state.isAllowing then
          Action.emit .debug "using stored permission: allowed"
            (fields ++ [Log.text "scope" stored.scope.name])
          pure { state := stored.state }
        else if stored.state = .block then
          Action.emit .debug "using stored permission: blocked"
            (fields ++ [Log.text "scope" stored.scope.name])
          pure { state := .block }
        else
          let state ← ask p repo prompter origin kind
          pure { state }

end Request

end Consent

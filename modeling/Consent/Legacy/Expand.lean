import Consent.History.Resolver

/-! Carrying decisions stored by host over to origins. -/

namespace Consent.Legacy

open Text Host

variable {ι : Type}

/-- The schemes of a host that was never visited. -/
def dualSchemes : List SchemePort := [⟨"http", 0⟩, ⟨"https", 0⟩]

def Row.hostName (r : Row) : String := .ofList (stripBrackets (lower r.host.toList))

def Row.keyAt (r : Row) (sp : SchemePort) : String :=
  (Origin.make sp.scheme r.hostName sp.port r.attributes).key

/-- The pairs visited under a host; a failing index counts as no history. -/
def visitedPairs [SuffixList] (ask : AskIndex ι) (host : String) :
    Action (Resolver ι) (List SchemePort) := do
  match ← (Resolver.resolve ask host).attempt with
  | .ok pairs => pure pairs
  | .error e =>
    Action.emit .warn "visit index lookup failed, assuming no history"
      [Log.cause e, Log.text "host" host]
    pure []

/-- One record for each origin that a row stands for, none if its time has come. -/
def expand [SuffixList] (ask : AskIndex ι) (now : Instant) (row : Option Row) :
    Action (Resolver ι) (List Record) := do
  match row with
  | none => .fail (.row .missing)
  | some r =>
    Action.ofExcept (r.check.mapError .row)
    if r.isExpired now then pure []
    else if isVerbatim r.host.toList then pure [r.recordAt r.host]
    else
      let visited ← visitedPairs ask r.hostName
      let pairs := if visited.isEmpty then dualSchemes else visited
      pure (pairs.map fun sp => r.recordAt (r.keyAt sp))

end Consent.Legacy

import Consent.Host.Registrable
import Consent.Legacy.Row
import Consent.Store.Repository

/-! Reading and writing the decisions of a site. -/

namespace Consent

open Text Host

/-- What the use of decisions needs beside a repository: the kinds and the time. -/
structure Policy where
  kinds : Registry := .default
  now : Instant
  deriving Repr

namespace Decision

variable {σ : Type}

def readOrigin (raw : String) : Action σ Origin := Action.ofExcept ((Origin.parse raw).mapError .origin)

/-- Stores a decision for an origin and a kind; deciding `unknown` deletes the entry. -/
def store (p : Policy) (repo : Repository σ) (raw : String) (kind : Kind) (state : State)
    (expiry : Expiry) (expireAt : Instant) : Action σ Unit := do
  let fields := [Log.text "component" "site-permissions", Log.text "origin" raw,
    Log.text "kind" kind]
  if !p.kinds.admits kind state then
    Action.emit .debug "rejecting state not available for kind"
      (fields ++ [Log.text "state" state.name])
    .fail (.unavailable kind state)
  else
    let origin ← readOrigin raw
    if state = .unknown then repo.delete origin.key kind
    else
      let r : Record := ⟨origin.key, kind, state, expiry, expireAt, p.now⟩
      match ← (repo.set r).attempt with
      | .error e =>
        Action.emit .warn "failed to persist permission" (fields ++ [Log.cause e])
        .fail (.during (.set kind r.origin) e)
      | .ok () =>
        Action.emit .debug "permission stored"
          (fields ++ [Log.text "state" state.name, Log.text "scope" r.scope.name])

/-- Stores a decision of a scope. -/
def set (p : Policy) (repo : Repository σ) (raw : String) (kind : Kind) (state : State)
    (scope : Scope) : Action σ Unit :=
  store p repo raw kind state (.ofScope scope) .unset

def setUntil (p : Policy) (repo : Repository σ) (raw : String) (kind : Kind) (state : State)
    (expireAt : Instant) : Action σ Unit :=
  if p.now < expireAt then store p repo raw kind state .timed expireAt
  else .fail (.notFuture expireAt)

/-- Whether an entry that names no origin is removed by its stored text. -/
def isRemovable (raw : List Char) : OriginError → Bool
  | .unsupportedScheme _ => !raw.isEmpty
  | _ => !raw.isEmpty && Legacy.isVerbatim raw

/-- Deletes the entry stored for exactly this origin. -/
def remove (repo : Repository σ) (raw : String) (kind : Kind) : Action σ Unit := do
  match Origin.parse raw with
  | .ok origin => repo.delete origin.key kind
  | .error e =>
    if isRemovable (trim raw.toList) e then
      let stored := trimString raw
      Action.emit .debug "removing opaque permission entry" [Log.text "origin" stored]
      repo.delete stored kind
    else .fail (.origin e)

/-- The origins whose decisions apply to an origin, nearest first: itself and, unless the kind binds
the exact host, its parents up to the registrable domain. -/
def candidates [SuffixList] (kinds : Registry) (origin : Origin) (kind : Kind) : List Origin :=
  if kinds.exactHost kind then [origin]
  else origin :: (ancestors origin.host.toList).map fun host => origin.withHost (.ofList host)

def lookUp (p : Policy) (repo : Repository σ) (kind : Kind) : List Origin → Action σ Verdict
  | [] => pure (.unknown kind)
  | o :: rest => do
    match ← Action.during (.lookUp kind o.key) (repo.get o.key kind) with
    | some r => if r.isExpired p.now then lookUp p repo kind rest else pure (.ofRecord r)
    | none => lookUp p repo kind rest

/-- The decision that applies to an origin. An origin that cannot carry permissions has none. -/
def get [SuffixList] (p : Policy) (repo : Repository σ) (raw : String) (kind : Kind) :
    Action σ Verdict :=
  match Origin.parse raw with
  | .ok origin => lookUp p repo kind (candidates p.kinds origin kind)
  | .error (.unsupportedScheme _) => pure (.unknown kind)
  | .error e => .fail (.origin e)

/-- Whether a record stands for a decision about a registered kind. -/
def isListed (p : Policy) (r : Record) : Bool :=
  p.kinds.isRegistered r.kind && !r.isExpired p.now && r.state ≠ .unknown

/-- The decisions stored for exactly this origin, in the order they were first made. -/
def getAll (p : Policy) (repo : Repository σ) (raw : String) : Action σ (List Verdict) := do
  match Origin.parse raw with
  | .ok origin =>
    let records ← Action.during (.list origin.key) (repo.getAll origin.key)
    pure ((records.filter (isListed p)).map .ofRecord)
  | .error (.unsupportedScheme _) => pure []
  | .error e => .fail (.origin e)

def all (p : Policy) (repo : Repository σ) : Action σ (List Record) := do
  let records ← repo.list
  pure (records.filter (!·.isExpired p.now))

def removeAll (repo : Repository σ) : Action σ Unit := do
  Action.emit .info "removing all site permissions" []
  repo.deleteAll

/-- Deletes the decisions that lapsed at or before a time, and counts them. -/
def purgeExpired (repo : Repository σ) (time : Instant) : Action σ Nat := do
  let n ← Action.during .purge (repo.deleteExpired time)
  if 0 < n then Action.emit .debug "purged expired permissions" [Log.number "count" n]
  pure n

end Decision

end Consent

import Consent.Permission.Registry
import Consent.Time.Duration

/-! Stored decisions, and what a lookup reports of them. -/

namespace Consent

inductive Scope where
  | persistent
  | session
  deriving DecidableEq, Repr, Inhabited

namespace Scope

def name : Scope → String
  | .persistent => "persistent"
  | .session => "session"

/-- Any text but the name of the session scope means the persistent one. -/
def ofName (text : String) : Scope := if text = "session" then .session else .persistent

end Scope

/-- When a decision lapses, by its stored number. -/
structure Expiry where
  code : Int
  deriving DecidableEq, Repr, Inhabited

namespace Expiry

def never : Expiry := ⟨0⟩

def session : Expiry := ⟨1⟩

def timed : Expiry := ⟨2⟩

def ofScope : Scope → Expiry
  | .persistent => never
  | .session => session

end Expiry

structure Record where
  /-- The stored key of the origin. -/
  origin : String
  kind : Kind
  state : State
  expiry : Expiry := .never
  /-- Only meaningful for timed decisions. -/
  expireAt : Instant := .unset
  modified : Instant := .unset
  deriving DecidableEq, Repr, Inhabited

namespace Record

def scope (r : Record) : Scope := if r.expiry = .session then .session else .persistent

/-- Whether a timed decision has lapsed: its last moment is not after `now`. -/
def isExpired (r : Record) (now : Instant) : Bool := r.expiry = .timed && !(now < r.expireAt)

def describeExpiry (r : Record) (now : Instant) : String :=
  if r.expiry = .session then "end of session"
  else if r.expiry = .timed then
    if r.isExpired now then "expired"
    else "in " ++ (Duration.between now r.expireAt).roundToSecond.text
  else "never"

def cells (r : Record) (now : Instant) : List String :=
  [r.origin, r.kind, r.state.name, r.describeExpiry now]

end Record

structure Verdict where
  kind : Kind
  state : State
  scope : Scope
  deriving DecidableEq, Repr

namespace Verdict

def unknown (kind : Kind) : Verdict := ⟨kind, .unknown, .persistent⟩

def ofRecord (r : Record) : Verdict := ⟨r.kind, r.state, r.scope⟩

end Verdict

end Consent

import Consent.Store.Repository

/-! A repository that answers from a fixed list, notes every call, and fails where it is told to. -/

namespace Consent.Scripted

inductive Call where
  | get (origin : String) (kind : Kind)
  | set (record : Option Record)
  | delete (origin : String) (kind : Kind)
  | getAll (origin : String)
  | list
  | deleteAll
  | deleteExpired (time : Instant)
  | deleteSession
  deriving DecidableEq, Repr

def Call.name : Call → String
  | .get _ _ => "Get"
  | .set _ => "Set"
  | .delete _ _ => "Delete"
  | .getAll _ => "GetAll"
  | .list => "List"
  | .deleteAll => "DeleteAll"
  | .deleteExpired _ => "DeleteExpired"
  | .deleteSession => "DeleteSessionScoped"

/-- The records to answer from, the operations that fail with their words, and the calls so far. -/
structure Script where
  records : List Record
  failures : List (String × String) := []
  calls : List Call := []
  deriving Repr

/-- Notes a call, and fails if its operation is to fail. -/
def note {α : Type} (c : Call) (f : List Record → α) : Action Script α := do
  let s ← Action.get
  Action.set { s with calls := s.calls ++ [c] }
  match s.failures.lookup c.name with
  | some text => .fail (.reported text)
  | none => pure (f s.records)

def repository : Repository Script where
  get origin kind := note (.get origin kind) fun rs =>
    rs.find? fun r => r.origin = origin && r.kind = kind
  set r := note (.set (some r)) fun _ => ()
  delete origin kind := note (.delete origin kind) fun _ => ()
  getAll origin := note (.getAll origin) fun rs => rs.filter (·.origin = origin)
  list := note .list id
  deleteAll := note .deleteAll fun _ => ()
  deleteExpired time := note (.deleteExpired time) fun rs => (rs.filter (·.isExpired time)).length
  deleteSession := note .deleteSession fun rs => (rs.filter (·.expiry = .session)).length

end Consent.Scripted

import Consent.Permission.Record

/-! The table of stored decisions: rows in the order of their ids, one for each origin and kind. -/

namespace Consent.Store

/-- A row. Times are stored in milliseconds, 0 or less standing for none. -/
structure Row where
  id : Int
  origin : String
  kind : Kind
  state : State
  expiry : Expiry
  expireMillis : Int
  modifiedMillis : Int
  deriving DecidableEq, Repr

def toMillis (t : Instant) : Int := if t = .unset then 0 else t.millis

def ofMillis (n : Int) : Instant := if n ≤ 0 then .unset else .atMillis n

namespace Row

def hasKey (origin : String) (kind : Kind) (r : Row) : Bool := r.origin = origin && r.kind = kind

def record (r : Row) : Record where
  origin := r.origin
  kind := r.kind
  state := r.state
  expiry := r.expiry
  expireAt := ofMillis r.expireMillis
  modified := ofMillis r.modifiedMillis

/-- The row of a decision. One without a time of change was changed `now`. -/
def ofRecord (id : Int) (now : Instant) (r : Record) : Row where
  id := id
  origin := r.origin
  kind := r.kind
  state := r.state
  expiry := r.expiry
  expireMillis := toMillis r.expireAt
  modifiedMillis := if r.modified = .unset then now.millis else r.modified.millis

/-- Whether the row is a timed decision whose stored time is not after `now`. -/
def isLapsed (now : Instant) (r : Row) : Bool := r.expiry = .timed && r.expireMillis ≤ now.millis

def isSession (r : Row) : Bool := r.expiry = .session

end Row

abbrev Table := List Row

namespace Table

/-- The id of the next new row. Ids stay below 2^63 - 1; from there on they would not ascend. -/
def nextId (t : Table) : Int :=
  match t.getLast? with
  | none => 1
  | some r => r.id + 1

def find? (t : Table) (origin : String) (kind : Kind) : Option Row :=
  List.find? (Row.hasKey origin kind) t

/-- Replaces the values of the row that has the record's key, and keeps its place. -/
def replace (now : Instant) (r : Record) : Table → Table
  | [] => []
  | row :: rest =>
    if row.hasKey r.origin r.kind then Row.ofRecord row.id now r :: rest
    else row :: replace now r rest

/-- Stores a decision: in the row that has its key, or in a new row at the end. -/
def upsert (now : Instant) (r : Record) (t : Table) : Table :=
  if (t.find? r.origin r.kind).isSome then t.replace now r
  else t ++ [Row.ofRecord t.nextId now r]

def erase (t : Table) (origin : String) (kind : Kind) : Table :=
  t.filter (!·.hasKey origin kind)

def records (t : Table) : List Record := t.map Row.record

def recordsAt (t : Table) (origin : String) : List Record :=
  (t.filter (·.origin = origin)).map Row.record

/-- The table of decisions as they were saved, with ids from 1 on. -/
def ofRecords (rs : List Record) : Table :=
  rs.zipIdx.map fun (r, n) =>
    { Row.ofRecord (n + 1) .unset r with modifiedMillis := toMillis r.modified }

end Table

end Consent.Store

import Consent.Text.Shortest

/-! Documents of nested tables, and the rules by which tables may be added to. -/

namespace Consent.Toml

inductive Fractional where
  | finite (negative : Bool) (size : Text.Binary64)
  | infinite (negative : Bool)
  | notANumber
  deriving DecidableEq, Repr, Inhabited

/-- How a table came to be, which decides how it may grow. -/
inductive Mode where
  /-- By its own header. -/
  | header
  /-- By the header of a table below it. -/
  | implied
  /-- By a dotted key. -/
  | dotted
  /-- As a value between braces. -/
  | inline
  deriving DecidableEq, Repr, Inhabited

inductive Node where
  | text (s : String)
  | integer (n : Int)
  | real (r : Fractional)
  | boolean (b : Bool)
  /-- A date, a time or both. -/
  | moment
  | list (items : List Node)
  | table (mode : Mode) (entries : List (String × Node))
  /-- The tables of one repeated header. -/
  | tables (items : List (List (String × Node)))
  deriving Inhabited

abbrev Entries := List (String × Node)

namespace Entries

def put (key : String) (n : Node) : Entries → Entries
  | [] => [(key, n)]
  | (k, m) :: rest => if k = key then (k, n) :: rest else (k, m) :: put key n rest

def changeLast (f : Entries → Option Entries) : List Entries → Option (List Entries)
  | [] => none
  | [es] => (f es).map fun es' => [es']
  | es :: rest => (changeLast f rest).map (es :: ·)

/-- Goes to the table at a path of headers, making tables on the way, and changes its parent there
with the last name of the path. -/
def atHeader (last : String → Entries → Option Entries) : List String → Entries → Option Entries
  | [], _ => none
  | [k], es => last k es
  | k :: rest, es =>
    match es.lookup k with
    | none => (atHeader last rest []).map fun inner => es ++ [(k, .table .implied inner)]
    | some (.table .inline _) => none
    | some (.table mode inner) => (atHeader last rest inner).map fun i => put k (.table mode i) es
    | some (.tables items) =>
      (changeLast (atHeader last rest) items).map fun items => put k (.tables items) es
    | some _ => none

def openTable : List String → Entries → Option Entries :=
  atHeader fun k es =>
    match es.lookup k with
    | none => some (es ++ [(k, .table .header [])])
    | some (.table .implied inner) => some (put k (.table .header inner) es)
    | some _ => none

def openRepeated : List String → Entries → Option Entries :=
  atHeader fun k es =>
    match es.lookup k with
    | none => some (es ++ [(k, .tables [[]])])
    | some (.tables items) => some (put k (.tables (items ++ [[]])) es)
    | some _ => none

/-- Changes the table that was opened last at a path. -/
def atSection (f : Entries → Option Entries) : List String → Entries → Option Entries
  | [], es => f es
  | k :: rest, es =>
    match es.lookup k with
    | some (.table mode inner) => (atSection f rest inner).map fun i => put k (.table mode i) es
    | some (.tables items) =>
      (changeLast (atSection f rest) items).map fun items => put k (.tables items) es
    | _ => none

/-- Adds a value under a dotted key. A name is defined once, and a dotted key reaches only into
tables without a header of their own. -/
def addKey (n : Node) : List String → Entries → Option Entries
  | [], _ => none
  | [k], es => if (es.lookup k).isSome then none else some (es ++ [(k, n)])
  | k :: rest, es =>
    match es.lookup k with
    | none => (addKey n rest []).map fun inner => es ++ [(k, .table .dotted inner)]
    | some (.table .dotted inner) => (addKey n rest inner).map fun i => put k (.table .dotted i) es
    | some (.table .implied inner) =>
      (addKey n rest inner).map fun i => put k (.table .implied i) es
    | some _ => none

end Entries

end Consent.Toml

import Consent.Legacy.Row
import Consent.Store.Table
import Consent.Text.LetterCase

/-! The table of decisions by host as it is found in a database: any columns, any values. -/

namespace Consent.Legacy

open Text

/-- A stored value. A decimal is `mantissa` divided by ten to the power of `places`. -/
inductive Cell where
  | null
  | integer (n : Int)
  | decimal (mantissa : Int) (places : Nat)
  | text (s : String)
  /-- Bytes that spell a text; no column converts them. -/
  | blob (s : String)
  deriving DecidableEq, Repr

namespace Cell

def fits (n : Int) : Bool := -9223372036854775808 ≤ n && n ≤ 9223372036854775807

structure Numeral where
  negative : Bool
  whole : List Char
  fraction : List Char
  exponent : Int

def readSign : List Char → Bool × List Char
  | '-' :: rest => (true, rest)
  | '+' :: rest => (false, rest)
  | s => (false, s)

def readExponent? : List Char → Option Int
  | [] => some 0
  | c :: rest =>
    if c = 'e' || c = 'E' then
      let (negative, ds) := readSign rest
      if ds.isEmpty || !ds.all isDigit then none
      else some (if negative then -valueOf ds else valueOf ds)
    else none

def readNumeral? (s : List Char) : Option Numeral :=
  let s := trimWhile (fun c => c = ' ' || c = '\t' || c = '\n' || c.toNat = 0x0b || c.toNat = 0x0c
    || c = '\r') s
  let (negative, s) := readSign s
  let whole := s.takeWhile isDigit
  let (fraction, rest) := match s.dropWhile isDigit with
    | '.' :: t => (t.takeWhile isDigit, t.dropWhile isDigit)
    | t => ([], t)
  if whole.isEmpty && fraction.isEmpty then none
  else (readExponent? rest).map fun exponent => ⟨negative, whole, fraction, exponent⟩

def wholeNumber? (mantissa : Int) (exponent : Int) : Option Int :=
  if mantissa = 0 then some 0
  else if exponent < 0 then
    if 40 < -exponent then none
    else
      let d : Int := Nat.pow 10 (-exponent).toNat
      if mantissa % d = 0 && fits (mantissa / d) then some (mantissa / d) else none
  else if 20 < exponent then none
  else
    let n := mantissa * Nat.pow 10 exponent.toNat
    if fits n then some n else none

def Numeral.integer? (n : Numeral) : Option Int :=
  let m : Int := valueOf (n.whole ++ n.fraction)
  wholeNumber? (if n.negative then -m else m) (n.exponent - n.fraction.length)

/-- A value put into a column of integers: texts and decimals that amount to one become one. -/
def toIntegerColumn : Cell → Cell
  | .text s =>
    match (readNumeral? s.toList).bind Numeral.integer? with
    | some n => .integer n
    | none => .text s
  | .decimal m places =>
    match wholeNumber? m (-places) with
    | some n => .integer n
    | none => .decimal m places
  | c => c

def decimalText (mantissa : Int) (places : Nat) : String :=
  let ds := paddedDigits (places + 1) mantissa.natAbs
  let whole := ds.take (ds.length - places)
  let fraction := ((ds.drop (ds.length - places)).reverse.dropWhile (· = '0')).reverse
  .ofList ((if mantissa < 0 then ['-'] else []) ++ whole ++ '.' ::
    (if fraction.isEmpty then ['0'] else fraction))

/-- A value put into a column of texts: numbers become their text. -/
def toTextColumn : Cell → Cell
  | .integer n => .text (Text.decimal n)
  | .decimal m places => .text (decimalText m places)
  | c => c

/-- The value read as a text; no value reads as the empty text. Columns of texts hold no numbers. -/
def readText? : Cell → Option String
  | .null => some ""
  | .text s | .blob s => some s
  | .integer _ | .decimal _ _ => none

/-- The value read as an integer; no value reads as 0. -/
def readInteger? : Cell → Option Int
  | .null => some 0
  | .integer n => some n
  | .decimal _ _ => none
  | .text s | .blob s => (readInteger s.toList).toOption

end Cell

structure HostTable where
  columns : List String
  rows : List (Int × List Cell)
  deriving DecidableEq, Repr

namespace HostTable

def standardColumns : List String :=
  ["host", "type", "permission", "expireType", "expireTime", "modificationTime", "appId",
    "isInBrowserElement"]

def fresh : HostTable := ⟨standardColumns, []⟩

/-- Columns of texts; all others hold integers. -/
def isTextColumn (column : String) : Bool := ["host", "type"].contains (lowerString column)

def storeCell (column : String) (c : Cell) : Cell :=
  if isTextColumn column then c.toTextColumn else c.toIntegerColumn

/-- Where a column stands; names match in any letter case. -/
def indexOf? (t : HostTable) (column : String) : Option Nat :=
  t.columns.findIdx? fun c => lowerString c = lowerString column

/-- The values of a table put in row by row. A column `id` gives the ids; otherwise they count
from 1. -/
def ofValues (columns : List String) (values : List (List Cell)) : HostTable :=
  let isId (c : String) : Bool := lowerString c = "id"
  let rows := values.zipIdx.map fun (cells, n) =>
    let named := columns.zip cells
    let id := match named.find? fun p => isId p.1 with
      | some (_, c) => (c.toIntegerColumn.readInteger?).getD (n + 1)
      | none => (n : Int) + 1
    (id, (named.filter fun p => !isId p.1).map fun (c, v) => storeCell c v)
  ⟨columns.filter (!isId ·), rows.mergeSort fun a b => a.1 ≤ b.1⟩

def mandatory : List String := ["host", "type", "permission"]

def isReadable (t : HostTable) : Bool := mandatory.all fun c => (t.indexOf? c).isSome

/-- The value of a row in a column; a missing column holds 0. -/
def cell (t : HostTable) (cells : List Cell) (column : String) : Cell :=
  match t.indexOf? column with
  | some i => (cells[i]?).getD .null
  | none => .integer 0

/-- A stored app id cut to 32 bits; a negative one means none. -/
def appIdOf (n : Int) : UInt32 := (max n 0).toNat.toUInt32

/-- Reads a row. A value that does not suit its column makes the row unreadable. -/
def readRow? (t : HostTable) (row : Int × List Cell) : Option Row := do
  let text (column : String) := (t.cell row.2 column).readText?
  let integer (column : String) := (t.cell row.2 column).readInteger?
  let host ← text "host"
  let kind ← text "type"
  let state ← integer "permission"
  let expiry ← integer "expireType"
  let expireAt ← integer "expireTime"
  let modified ← integer "modificationTime"
  let appId ← integer "appId"
  let inBrowser ← integer "isInBrowserElement"
  some {
    id := row.1
    host, kind
    state := ⟨state⟩
    expiry := ⟨expiry⟩
    expireAt := Store.ofMillis expireAt
    modified := Store.ofMillis modified
    attributes := ⟨appIdOf appId, inBrowser ≠ 0⟩ }

end HostTable

end Consent.Legacy

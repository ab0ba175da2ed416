import Consent.Text.Decimal

/-! Numerals that people write: with a sign, in another base, or too large. -/

namespace Consent.Text

def isAlnum (c : Char) : Bool :=
  isDigit c || ('a' ≤ c && c ≤ 'z') || ('A' ≤ c && c ≤ 'Z')

def isHexDigit (c : Char) : Bool :=
  isDigit c || ('a' ≤ c && c ≤ 'f') || ('A' ≤ c && c ≤ 'F')

def hexValue (c : Char) : Nat :=
  if isDigit c then c.toNat - 48 else if 'a' ≤ c then c.toNat - 87 else c.toNat - 55

def isDigitOf (base : Nat) (c : Char) : Bool := isHexDigit c && hexValue c < base

inductive NumeralFault where
  | malformed
  | range
  deriving DecidableEq, Repr

def NumeralFault.message : NumeralFault → String
  | .malformed => "invalid syntax"
  | .range => "value out of range"

/-- Reads further digits of a number that must stay below `bound`. The first digit that leaves the
range or the first character that is no digit decides the fault; underscores are passed over if they
are allowed. -/
def readDigits (base bound : Nat) (underscores : Bool) (value : Nat) :
    List Char → Except NumeralFault Nat
  | [] => .ok value
  | c :: rest =>
    if underscores && c = '_' then readDigits base bound underscores value rest
    else if isDigitOf base c then
      let value := base * value + hexValue c
      if value < bound then readDigits base bound underscores value rest else .error .range
    else .error .malformed

/-- Whether every underscore stands between two digits; `digit` says whether a digit stands before
the text. -/
def underscoresDivide (digit : Bool) : List Char → Bool
  | [] => true
  | '_' :: c :: rest => digit && isHexDigit c && underscoresDivide true rest
  | ['_'] => false
  | _ :: rest => underscoresDivide true rest

/-- The base that a numeral without sign names at its front, and its digits. Octal digits keep the
zero in front of them. -/
def baseOf (s : List Char) : Nat × List Char :=
  match s with
  | '0' :: 'x' :: c :: rest | '0' :: 'X' :: c :: rest => (16, c :: rest)
  | '0' :: 'o' :: c :: rest | '0' :: 'O' :: c :: rest => (8, c :: rest)
  | '0' :: 'b' :: c :: rest | '0' :: 'B' :: c :: rest => (2, c :: rest)
  | '0' :: rest => (8, '0' :: rest)
  | _ => (10, s)

def signOf (s : List Char) : Bool × List Char :=
  match s with
  | '-' :: rest => (true, rest)
  | '+' :: rest => (false, rest)
  | _ => (false, s)

def limit63 : Nat := 9223372036854775808

def limit64 : Nat := 18446744073709551616

def withSign (negative : Bool) (size : Nat) : Except NumeralFault Int :=
  if negative then if size ≤ limit63 then .ok (-size) else .error .range
  else if size < limit63 then .ok size else .error .range

def readInteger (s : List Char) : Except NumeralFault Int := do
  let (negative, s) := signOf s
  if s.isEmpty then .error .malformed
  else withSign negative (← readDigits 10 limit64 false 0 s)

/-- A number of 64 bits with an optional sign: decimal, or in the base that `0x`, `0o`, `0b` or `0`
at its front names. Underscores may stand between digits and after a base. -/
def readNumber (s : List Char) : Except NumeralFault Int := do
  let (negative, s) := signOf s
  if s.isEmpty then .error .malformed
  else
    let (base, ds) := baseOf s
    let size ← readDigits base limit64 true 0 ds
    if underscoresDivide (ds.length < s.length) ds then withSign negative size
    else .error .malformed

def readTruth? (word : List Char) : Option Bool :=
  let word := String.ofList word
  if ["1", "t", "T", "TRUE", "true", "True"].contains word then some true
  else if ["0", "f", "F", "FALSE", "false", "False"].contains word then some false
  else none

end Consent.Text

import Consent.Text.Numeral
import Consent.Text.Quoted
import Consent.Time.Duration

/-! Spans of time as people write them, such as `1h30m` or `1.5s`. -/

namespace Consent

open Text

inductive DurationFault where
  | malformed
  | missingUnit
  | unknownUnit (unit : String)
  deriving DecidableEq, Repr

def DurationFault.message (text : String) : DurationFault → String
  | .malformed => "time: invalid duration " ++ quoteAscii text.toList
  | .missingUnit => "time: missing unit in duration " ++ quoteAscii text.toList
  | .unknownUnit unit =>
    "time: unknown unit " ++ quoteAscii unit.toList ++ " in duration " ++ quoteAscii text.toList

namespace Duration

def unitNanos? (unit : List Char) : Option Nat :=
  match String.ofList unit with
  | "ns" => some 1
  | "us" | "\u00b5s" | "\u03bcs" => some 1000
  | "ms" => some 1000000
  | "s" => some 1000000000
  | "m" => some 60000000000
  | "h" => some 3600000000000
  | _ => none

def isNumeric (c : Char) : Bool := isDigit c || c = '.'

structure Term where
  whole : List Char
  /-- The digits after the point. -/
  places : List Char
  unit : List Char

def splitTerm (s : List Char) : Term × List Char :=
  let whole := s.takeWhile isDigit
  let s := s.dropWhile isDigit
  let (places, s) := match s with
    | '.' :: r => (r.takeWhile isDigit, r.dropWhile isDigit)
    | _ => ([], s)
  (⟨whole, places, s.takeWhile (!isNumeric ·)⟩, s.dropWhile (!isNumeric ·))

def Term.nanos (t : Term) : Except DurationFault Nat :=
  if limit63 < valueOf t.whole || (t.whole.isEmpty && t.places.isEmpty) then .error .malformed
  else if t.unit.isEmpty then .error .missingUnit
  else
    match unitNanos? t.unit with
    | none => .error (.unknownUnit (.ofList t.unit))
    | some unit =>
      let n := valueOf t.whole * unit + valueOf t.places * unit / Nat.pow 10 t.places.length
      if limit63 < n then .error .malformed else .ok n

/-- Adds the terms of a text to a sum. Every term has a character, so the length of the text is
fuel enough. -/
def sumTerms : Nat → Nat → List Char → Except DurationFault Nat
  | _, sum, [] => .ok sum
  | 0, _, _ :: _ => .error .malformed
  | fuel + 1, sum, s => do
    let (term, rest) := splitTerm s
    let sum := sum + (← term.nanos)
    if limit63 < sum then .error .malformed else sumTerms fuel sum rest

/-- Reads a span: terms with an optional sign in front; a zero needs no unit. -/
def read (s : List Char) : Except DurationFault Duration := do
  let (negative, s) := signOf s
  if s = ['0'] then .ok ⟨0⟩
  else if s.isEmpty then .error .malformed
  else
    let n ← sumTerms s.length 0 s
    if negative then .ok ⟨-n⟩
    else if n < limit63 then .ok ⟨n⟩
    else .error .malformed

end Duration

end Consent

import Consent.Text.Decimal

/-! Numbers with 53 significant bits: the one nearest to a decimal, and the shortest decimal that is
nearest to it. -/

namespace Consent.Text

/-- The number `mantissa` times two to the power of `exponent`. -/
structure Binary64 where
  mantissa : Nat
  exponent : Int
  deriving DecidableEq, Repr, Inhabited

namespace Binary64

/-- The quotient rounded to the nearest whole number; of two equally near ones, to the even one. -/
def roundDiv (num den : Nat) : Nat :=
  let q := num / den
  let twice := 2 * (num % den)
  if twice < den then q
  else if den < twice then q + 1
  else q + q % 2

def scale (num den : Nat) (power : Int) : Nat × Nat :=
  if 0 ≤ power then (num * Nat.pow 2 power.toNat, den) else (num, den * Nat.pow 2 power.natAbs)

def leastMantissa : Nat := 4503599627370496

def lastBit (num den : Nat) : Int :=
  let guess : Int := (Nat.log2 num : Int) - Nat.log2 den - 52
  let (n, d) := scale num den (-guess)
  let q := if n < leastMantissa * d then guess - 1 else guess
  max q (-1074)

def ofFraction? (num den : Nat) : Option Binary64 :=
  if num = 0 then some ⟨0, -1074⟩
  else
    let q := lastBit num den
    let (n, d) := scale num den (-q)
    let m := roundDiv n d
    let b : Binary64 := if m = 2 * leastMantissa then ⟨leastMantissa, q + 1⟩ else ⟨m, q⟩
    if 971 < b.exponent then none else some b

/-- The number nearest to `n` times ten to the power of `e`; none if it is too large. -/
def ofDecimal? (n : Nat) (e : Int) : Option Binary64 :=
  let magnitude : Int := (digits n).length + e
  if n = 0 || magnitude < -330 then some ⟨0, -1074⟩
  else if 320 < magnitude then none
  else if 0 ≤ e then ofFraction? (n * Nat.pow 10 e.toNat) 1
  else ofFraction? n (Nat.pow 10 e.natAbs)

def fraction (b : Binary64) : Nat × Nat := scale b.mantissa 1 b.exponent

def floor (b : Binary64) : Nat := b.fraction.1 / b.fraction.2

def isNearest (b : Binary64) (num den : Nat) : Bool := ofFraction? num den = some b

/-- The multiples of ten to the power of `e` next to the number that are read as the number; the
nearer one first. -/
def onGrid (b : Binary64) (e : Int) : List Nat :=
  let (num, den) := b.fraction
  let (gn, gd) : Nat × Nat := if 0 ≤ e then (Nat.pow 10 e.toNat, 1) else (1, Nat.pow 10 e.natAbs)
  let low := num * gd / (den * gn)
  let above := 2 * (num * gd % (den * gn))
  let both := if above < den * gn || (above = den * gn && low % 2 = 0) then [low, low + 1]
    else [low + 1, low]
  both.filter fun n => 0 < n && b.isNearest (n * gn) gd

/-- The decimal with the fewest digits that is read as the number, as digits and a power of ten; the
search starts at a power of ten and goes down. -/
def shortestFrom (b : Binary64) : Nat → Int → Nat × Int
  | 0, e => (0, e)
  | fuel + 1, e =>
    match b.onGrid e with
    | n :: _ => (n, e)
    | [] => shortestFrom b fuel (e - 1)

def shortest (b : Binary64) : Nat × Int :=
  if b.mantissa = 0 then (0, 0)
  else
    let (num, den) := b.fraction
    let top : Int := ((digits (num / den)).length : Int) + 1
    shortestFrom b 400 top

def plainDecimal (n : Nat) (e : Int) : List Char :=
  if 0 ≤ e then if n = 0 then ['0'] else digits n ++ List.replicate e.toNat '0'
  else
    let ds := paddedDigits (e.natAbs + 1) n
    ds.take (ds.length - e.natAbs) ++ '.' :: ds.drop (ds.length - e.natAbs)

def plain (b : Binary64) : List Char :=
  let (n, e) := b.shortest
  plainDecimal n e

end Binary64

end Consent.Text

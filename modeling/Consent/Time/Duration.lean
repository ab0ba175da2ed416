import Consent.Time.Instant

/-! Spans of time in nanoseconds, as 64-bit numbers that stop at their ends. -/

namespace Consent

open Text

structure Duration where
  nanos : Int
  deriving DecidableEq, Repr, Inhabited

namespace Duration

def greatest : Int := 9223372036854775807

def least : Int := -9223372036854775808

def clamp (nanos : Int) : Duration :=
  if greatest < nanos then ⟨greatest⟩ else if nanos < least then ⟨least⟩ else ⟨nanos⟩

def between (start stop : Instant) : Duration := clamp (stop.nanos - start.nanos)

def second : Int := 1000000000

/-- Whole seconds, a half going away from zero. -/
def roundToSecond (d : Duration) : Duration :=
  let n : Int := d.nanos.natAbs
  let r := n % second
  let n := if r + r < second then n - r else n + second - r
  clamp (if d.nanos < 0 then -n else n)

/-- Digits of a fraction with `places` places, with the point and without trailing zeros. -/
def fraction (places n : Nat) : List Char :=
  let ds := (paddedDigits places n).reverse.dropWhile (· = '0')
  if ds.isEmpty then [] else '.' :: ds.reverse

/-- Hours, minutes and seconds, such as `1h0m2.5s`; below a second the largest unit that leaves a
whole part. -/
def text (d : Duration) : String :=
  let n := d.nanos.natAbs
  let body : List Char :=
    if n = 0 then ['0', 's']
    else if n < 1000 then digits n ++ ['n', 's']
    else if n < 1000000 then digits (n / 1000) ++ fraction 3 (n % 1000) ++ ['µ', 's']
    else if n < 1000000000 then digits (n / 1000000) ++ fraction 6 (n % 1000000) ++ ['m', 's']
    else
      let seconds := n / 1000000000
      let tail := digits (seconds % 60) ++ fraction 9 (n % 1000000000) ++ ['s']
      if seconds < 60 then tail
      else
        let tail := digits (seconds / 60 % 60) ++ 'm' :: tail
        if seconds < 3600 then tail else digits (seconds / 3600) ++ 'h' :: tail
  .ofList (if d.nanos < 0 then '-' :: body else body)

end Duration

end Consent

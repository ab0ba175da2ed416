import Consent.Text.Split
import Consent.Toml.Node
import Consent.Toml.Text

/-! Numbers, dates and times. -/

namespace Consent.Toml

open Text

/-- The digits without the underscores, each of which must stand between two digits. -/
def stripUnderscores? (isDigit : Char → Bool) : List Char → Option (List Char)
  | [] => some []
  | [c] => if isDigit c then some [c] else none
  | c :: '_' :: d :: rest =>
    if isDigit c && isDigit d then (stripUnderscores? isDigit (d :: rest)).map (c :: ·) else none
  | c :: rest => if isDigit c then (stripUnderscores? isDigit rest).map (c :: ·) else none

def integer? (n : Int) : Option Node :=
  if -9223372036854775808 ≤ n && n ≤ 9223372036854775807 then some (.integer n) else none

def readBase? (base : Nat) (isDigit : Char → Bool) (s : List Char) : Option Node := do
  if s.isEmpty then none
  else
    let ds ← stripUnderscores? isDigit s
    integer? (ds.foldl (fun n c => base * n + hexValue c) 0)

/-- The whole part of a number: digits without needless zeros at the front. -/
def readWhole? (s : List Char) : Option (List Char) := do
  if s.isEmpty then none
  else
    let ds ← stripUnderscores? isDigit s
    if 1 < ds.length && ds.head? = some '0' then none else some ds

def readPower? (s : List Char) : Option Int := do
  let (negative, ds) := match s with
    | '-' :: rest => (true, rest)
    | '+' :: rest => (false, rest)
    | _ => (false, s)
  if ds.isEmpty then none
  else
    let ds ← stripUnderscores? isDigit ds
    some (if negative then -valueOf ds else valueOf ds)

def readDecimal? (negative : Bool) (s : List Char) : Option Node := do
  let signed (n : Nat) : Int := if negative then -n else n
  let (body, power) := match cut 'e' (s.map fun c => if c = 'E' then 'e' else c) with
    | (body, some power) => (body, some power)
    | (body, none) => (body, none)
  let (whole, fraction) := cut '.' body
  let ws ← readWhole? whole
  match fraction, power with
  | none, none => integer? (signed (valueOf ws))
  | _, _ =>
    let fs ← match fraction with
      | none => some []
      | some f => if f.isEmpty then none else stripUnderscores? isDigit f
    let p ← match power with
      | none => some 0
      | some p => readPower? p
    let size ← Binary64.ofDecimal? (valueOf (ws ++ fs)) (p - fs.length)
    some (.real (.finite negative size))

def readTwo? (most : Nat) : List Char → Option (List Char)
  | a :: b :: rest =>
    if isDigit a && isDigit b && valueOf [a, b] ≤ most then some rest else none
  | _ => none

def readClock? (s : List Char) : Option (List Char) := do
  let s ← readTwo? 23 s
  let s ← dropFront? [':'] s
  let s ← readTwo? 59 s
  let s ← dropFront? [':'] s
  let s ← readTwo? 60 s
  match s with
  | '.' :: rest => if (rest.takeWhile isDigit).isEmpty then none else some (rest.dropWhile isDigit)
  | _ => some s

def isZone (s : List Char) : Bool :=
  match s with
  | [] => true
  | ['Z'] | ['z'] => true
  | c :: rest =>
    (c = '+' || c = '-') && (do
      let s ← readTwo? 23 rest
      let s ← dropFront? [':'] s
      readTwo? 59 s) == some []

def daysIn (year month : Nat) : Nat :=
  if month = 2 then
    if year % 4 = 0 && (year % 100 ≠ 0 || year % 400 = 0) then 29 else 28
  else if [4, 6, 9, 11].contains month then 30
  else 31

def readDate? : List Char → Option (List Char)
  | a :: b :: c :: d :: '-' :: e :: f :: '-' :: g :: h :: rest =>
    if [a, b, c, d, e, f, g, h].all isDigit then
      let month := valueOf [e, f]
      let day := valueOf [g, h]
      if 1 ≤ month && month ≤ 12 && 1 ≤ day && day ≤ daysIn (valueOf [a, b, c, d]) month then
        some rest
      else none
    else none
  | _ => none

def isMoment (s : List Char) : Bool :=
  match readDate? s with
  | some [] => true
  | some (c :: rest) =>
    (c = 'T' || c = 't' || c = ' ') && ((readClock? rest).map isZone).getD false
  | none => readClock? s == some []

def readScalar? (s : List Char) : Option Node :=
  match s with
  | ['t', 'r', 'u', 'e'] => some (.boolean true)
  | ['f', 'a', 'l', 's', 'e'] => some (.boolean false)
  | ['i', 'n', 'f'] | ['+', 'i', 'n', 'f'] => some (.real (.infinite false))
  | ['-', 'i', 'n', 'f'] => some (.real (.infinite true))
  | ['n', 'a', 'n'] | ['+', 'n', 'a', 'n'] | ['-', 'n', 'a', 'n'] => some (.real .notANumber)
  | '0' :: 'x' :: ds => readBase? 16 isHexDigit ds
  | '0' :: 'o' :: ds => readBase? 8 (fun c => '0' ≤ c && c ≤ '7') ds
  | '0' :: 'b' :: ds => readBase? 2 (fun c => c = '0' || c = '1') ds
  | '-' :: ds => readDecimal? true ds
  | '+' :: ds => readDecimal? false ds
  | _ => if isMoment s then some .moment else readDecimal? false s

end Consent.Toml

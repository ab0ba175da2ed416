import Consent.Text.Quoted
import Consent.Text.Split
import Consent.Time.Instant

/-! Timestamps as people write them, such as `2024-02-29T08:05:00Z` or with `+02:00` at the end. -/

namespace Consent

open Text

inductive TimestampFault where
  /-- Some element is not there, but the rest. -/
  | unlike (element rest : String)
  | outOfRange (element : String)
  | extra (rest : String)
  deriving DecidableEq, Repr

structure TimestampError where
  text : String
  fault : TimestampFault
  deriving DecidableEq, Repr

namespace TimestampError

/-- The form of a timestamp, by example. -/
def model : String := "2006-01-02T15:04:05Z07:00"

def message (e : TimestampError) : String :=
  "parsing time " ++ quoteAscii e.text.toList ++
    match e.fault with
    | .unlike element rest =>
      " as " ++ quoteAscii model.toList ++ ": cannot parse " ++ quoteAscii rest.toList ++ " as "
        ++ quoteAscii element.toList
    | .outOfRange element => ": " ++ element ++ " out of range"
    | .extra rest => ": extra text: " ++ quoteAscii rest.toList

end TimestampError

namespace Timestamp

abbrev Reader (α : Type) := List Char → Except TimestampFault (α × List Char)

def divider (c : Char) : Reader Unit
  | [] => .error (.unlike (.ofList [c]) "")
  | d :: rest => if d = c then .ok ((), rest) else .error (.unlike (.ofList [c]) (.ofList (d :: rest)))

def year : Reader Nat := fun s =>
  let ds := s.take 4
  if ds.length = 4 && ds.all isDigit then .ok (valueOf ds, s.drop 4)
  else .error (.unlike "2006" (.ofList s))

def number (element : String) (oneIsEnough : Bool) : Reader Nat := fun s =>
  match (s.take 2).takeWhile isDigit with
  | [a, b] => .ok (valueOf [a, b], s.drop 2)
  | [a] => if oneIsEnough then .ok (valueOf [a], s.drop 1) else .error (.unlike element (.ofList s))
  | _ => .error (.unlike element (.ofList s))

def require (holds : Bool) (element : String) : Except TimestampFault Unit :=
  if holds then .ok () else .error (.outOfRange element)

/-- The nanoseconds of a fraction of a second after a point or a comma; there may be none. Digits
after the ninth are passed over. -/
def fraction (s : List Char) : Nat × List Char :=
  match s with
  | mark :: d :: rest =>
    if (mark = '.' || mark = ',') && isDigit d then
      let ds := (d :: rest).takeWhile isDigit
      (valueOf ((ds ++ List.replicate 9 '0').take 9), (d :: rest).dropWhile isDigit)
    else (0, s)
  | _ => (0, s)

/-- How many minutes the clock is ahead: none after `Z`, else hours and minutes with a sign. -/
def zone : Reader Int
  | 'Z' :: rest => .ok (0, rest)
  | s =>
    let bad : TimestampFault := .unlike "Z07:00" (.ofList s)
    match s with
    | sign :: h1 :: h2 :: ':' :: m1 :: m2 :: rest => do
      let hours := valueOf [h1, h2]
      let minutes := valueOf [m1, m2]
      let readable := isDigit m1 && isDigit m2
      if !(isDigit h1 && isDigit h2) then .error bad
      else
        require (!readable || minutes ≤ 60) "time zone offset minute"
        require (hours ≤ 24) "time zone offset hour"
        let ahead : Int := hours * 60 + minutes
        if !readable then .error bad
        else if sign = '+' then .ok (ahead, rest)
        else if sign = '-' then .ok (-ahead, rest)
        else .error bad
    | _ => .error bad

def isLeapYear (y : Nat) : Bool := y % 4 = 0 && (y % 100 ≠ 0 || y % 400 = 0)

def daysIn (y m : Nat) : Nat :=
  if m = 2 then if isLeapYear y then 29 else 28
  else if [4, 6, 9, 11].contains m then 30
  else 31

def dayOf (y m d : Nat) : Int :=
  let y : Int := if m ≤ 2 then (y : Int) - 1 else y
  let era := y / 400
  let yoe := y - era * 400
  let mp : Int := ((m : Int) + 9) % 12
  let doy := (153 * mp + 2) / 5 + d - 1
  era * 146097 + yoe * 365 + yoe / 4 - yoe / 100 + doy - 719468

def read (s : List Char) : Except TimestampFault Instant := do
  let (y, s) ← year s
  let ((), s) ← divider '-' s
  let (m, s) ← number "01" false s
  require (1 ≤ m && m ≤ 12) "month"
  let ((), s) ← divider '-' s
  let (d, s) ← number "02" false s
  let ((), s) ← divider 'T' s
  let (hour, s) ← number "15" true s
  require (hour < 24) "hour"
  let ((), s) ← divider ':' s
  let (minute, s) ← number "04" false s
  require (minute < 60) "minute"
  let ((), s) ← divider ':' s
  let (second, s) ← number "05" false s
  require (second < 60) "second"
  let (nanos, s) := fraction s
  let (ahead, s) ← zone s
  if !s.isEmpty then .error (.extra (.ofList s))
  else
    require (1 ≤ d && d ≤ daysIn y m) "day"
    let seconds := dayOf y m d * 86400 + hour * 3600 + minute * 60 + second - ahead * 60
    .ok ⟨seconds * 1000000000 + nanos⟩

end Timestamp

def Instant.ofTimestamp (text : String) : Except TimestampError Instant :=
  (Timestamp.read text.toList).mapError fun fault => ⟨text, fault⟩

end Consent

import Consent.Text.Decimal

/-! Instants on the UTC time line, the whole milliseconds that are stored of them, and their
calendar text. -/

namespace Consent

open Text

structure Instant where
  nanos : Int
  deriving DecidableEq, Repr, Inhabited

/-- By how many seconds local clocks are ahead at an instant. -/
abbrev Zone := Instant → Int

namespace Instant

/-- The start of year 1, which stands for "no time given". -/
def unset : Instant := ⟨-62135596800000000000⟩

def atMillis (n : Int) : Instant := ⟨n * 1000000⟩

/-- The whole milliseconds since the start of 1970; what is left of the last one is cut off. -/
def millis (t : Instant) : Int := t.nanos / 1000000

instance : LT Instant := ⟨fun a b => a.nanos < b.nanos⟩

instance : LE Instant := ⟨fun a b => a.nanos ≤ b.nanos⟩

instance (a b : Instant) : Decidable (a < b) := inferInstanceAs (Decidable (a.nanos < b.nanos))

instance (a b : Instant) : Decidable (a ≤ b) := inferInstanceAs (Decidable (a.nanos ≤ b.nanos))

def addNanos (t : Instant) (nanos : Int) : Instant := ⟨t.nanos + nanos⟩

def inZone (zone : Zone) (t : Instant) : Instant := t.addNanos (zone t * 1000000000)

def civil (day : Int) : Int × Int × Int :=
  let z := day + 719468
  let era := z / 146097
  let doe := z - era * 146097
  let yoe := (doe - doe / 1460 + doe / 36524 - doe / 146096) / 365
  let doy := doe - (365 * yoe + yoe / 4 - yoe / 100)
  let mp := (5 * doy + 2) / 153
  let d := doy - (153 * mp + 2) / 5 + 1
  let m := if mp < 10 then mp + 3 else mp - 9
  (yoe + era * 400 + (if m ≤ 2 then 1 else 0), m, d)

def padded (width : Nat) (n : Int) : List Char :=
  (if n < 0 then ['-'] else []) ++ paddedDigits width n.natAbs

/-- Date, hour, minute and second, such as `2024-02-29T08:05:00Z`; `T` and `Z` are `divider` and
`ending`. -/
def calendarText (divider ending : String) (withSeconds : Bool) (t : Instant) : String :=
  let seconds := t.nanos / 1000000000
  let (y, m, d) := civil (seconds / 86400)
  let s := seconds % 86400
  .ofList (padded 4 y ++ '-' :: padded 2 m ++ '-' :: padded 2 d) ++ divider
    ++ .ofList (padded 2 (s / 3600) ++ ':' :: padded 2 (s / 60 % 60)
      ++ (if withSeconds then ':' :: padded 2 (s % 60) else []))
    ++ ending

def timestamp (t : Instant) : String := t.calendarText "T" "Z" true

end Instant

end Consent

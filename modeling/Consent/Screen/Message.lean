import Consent.Text.Numeral

/-! What a terminal reports to a dialog. -/

namespace Consent.Screen

open Text

/-- An event. A key goes by its name; several characters that arrive at once are one key. -/
inductive Message where
  | key (name : String)
  | resize (width height : Int)
  deriving DecidableEq, Repr

/-- Characters that arrive together as one key: all but controls and space. -/
def isRun (c : Char) : Bool := 0x20 < c.toNat && c.toNat ≠ 0x7f

def controlName (c : Char) : String :=
  match c.toNat with
  | 0x03 => "ctrl+c"
  | 0x04 => "ctrl+d"
  | 0x09 => "tab"
  | 0x0d => "enter"
  | 0x15 => "ctrl+u"
  | 0x1b => "esc"
  | 0x20 => " "
  | 0x7f => "backspace"
  | n => "ctrl+" ++ String.ofList [Char.ofNat (n + 96)]

def sequenceName? : Char → Option String
  | 'A' => some "up"
  | 'B' => some "down"
  | 'C' => some "right"
  | 'D' => some "left"
  | 'F' => some "end"
  | 'H' => some "home"
  | 'Z' => some "shift+tab"
  | _ => none

def namedSequence? : List Char → Option String
  | '[' :: c :: _ => sequenceName? c
  | 'O' :: c :: _ => if c = 'Z' then none else sequenceName? c
  | _ => none

/-- How many characters a control sequence has after its bracket: parameters, marks and a last
character. -/
def sequenceLength? (s : List Char) : Option Nat :=
  let within (low high : Nat) (c : Char) : Bool := low ≤ c.toNat && c.toNat ≤ high
  let parameters := s.takeWhile (within 0x30 0x3f)
  let marks := (s.drop parameters.length).takeWhile (within 0x20 0x2f)
  match s.drop (parameters.length + marks.length) with
  | c :: _ => if within 0x40 0x7e c then some (parameters.length + marks.length + 1) else none
  | [] => none

def escape : Char := Char.ofNat 0x1b

/-- The key that an escape begins, if it is one, and how many characters behind the escape belong to
it. Another escape, a control or a single character is changed by it. -/
def escapedKey (rest : List Char) : Option String × Nat :=
  match namedSequence? rest with
  | some name => (some name, 2)
  | none =>
    match rest with
    | [] => (some "esc", 0)
    | c :: after =>
      if c = escape then
        match namedSequence? after with
        | some name => (some ("alt+" ++ name), 3)
        | none => (some "alt+esc", 1)
      else if !isRun c then (some ("alt+" ++ controlName c), 1)
      else
        match (if c = '[' then sequenceLength? after else none) with
        | some n => (none, n + 1)
        | none => (some ("alt+" ++ String.ofList [c]), 1)

/-- The key that a character begins, if it is one, and how many characters behind it belong to it. -/
def keyAt (c : Char) (rest : List Char) : Option String × Nat :=
  if c = escape then escapedKey rest
  else if isRun c then
    let together := rest.takeWhile isRun
    (some (.ofList (c :: together)), together.length)
  else (some (controlName c), 0)

def keysOf : List Char → List String
  | [] => []
  | c :: rest =>
    let key := keyAt c rest
    key.1.toList ++ keysOf (rest.drop key.2)
termination_by s => s.length
decreasing_by
  rw [List.length_drop, List.length_cons]
  exact Nat.lt_succ_of_le (Nat.sub_le _ _)

end Consent.Screen

import Consent.Text.Numeral
import Consent.Text.Shortest
import Consent.Text.Split

/-! Colored text on a terminal. -/

namespace Consent.Screen

open Text

inductive ColorMode where
  | plain
  | colored
  deriving DecidableEq, Repr

/-- One of 256 shades of a component that is written as `n` of `most`; it goes through a binary
fraction, so it may come out one lower. -/
def shade (n most : Nat) : Nat :=
  let product (b : Binary64) (k : Nat) : Binary64 :=
    (Binary64.ofFraction? (b.fraction.1 * k) b.fraction.2).getD default
  (product (product ((Binary64.ofFraction? 1 most).getD default) n) 255).floor

def readComponent? (digits : Nat) (s : List Char) : Option (Nat × List Char) :=
  let ds := (s.take digits).takeWhile isHexDigit
  if ds.isEmpty then none
  else some (ds.foldl (fun n c => 16 * n + hexValue c) 0, s.drop ds.length)

/-- The components of a color after the number sign: three digits, or pairs of digits. -/
def readShades? (s : List Char) : Option (List Nat) := do
  let (count, most) := if s.length = 3 then (1, 15) else (2, 255)
  let (r, s) ← readComponent? count s
  let (g, s) ← readComponent? count s
  let (b, _) ← readComponent? count s
  some ([r, g, b].map (shade · most))

def colorCode? (isBackground : Bool) (color : List Char) : Option (List Char) :=
  let shift : Int := if isBackground then 10 else 0
  let code (n : Int) : List Char := (decimal n).toList
  match color with
  | [] => none
  | '#' :: rest =>
    match readShades? rest with
    | some shades => some (joinWith ';' (code (38 + shift) :: ['2'] :: shades.map digits))
    | none => some []
  | _ =>
    match readInteger color with
    | .ok n =>
      if n < 8 then some (code (n + 30 + shift))
      else if n < 16 then some (code (n + 82 + shift))
      else some (joinWith ';' [code (38 + shift), ['5'], code n])
    | .error _ => none

structure Style where
  foreground : String := ""
  background : String := ""
  padding : Nat := 0
  deriving DecidableEq, Repr

namespace Style

def wrap (codes : List (List Char)) (s : List Char) : List Char :=
  let sequence := joinWith ';' codes
  let escape : List Char := [Char.ofNat 0x1b, '[']
  if sequence.isEmpty then s else escape ++ sequence ++ 'm' :: s ++ escape ++ ['0', 'm']

/-- A line in the style. The spaces around it have only the background. -/
def paint (mode : ColorMode) (style : Style) (line : List Char) : List Char :=
  let codes (parts : List (Option (List Char))) : List (List Char) :=
    if mode = .colored then parts.filterMap id else []
  let foreground := colorCode? false style.foreground.toList
  let background := colorCode? true style.background.toList
  let space := List.replicate style.padding ' '
  let space := if space.isEmpty then [] else wrap (codes [background]) space
  space ++ wrap (codes [foreground, background]) line ++ space

end Style

end Consent.Screen

import Consent.Text.Blank
import Consent.Text.LetterCase
import Consent.Text.Numeral
import Consent.Text.Quoted

/-! What was decided about a permission. -/

namespace Consent

open Text

/-- A decision, by its stored number. -/
structure State where
  code : Int
  deriving DecidableEq, Repr, Inhabited

namespace State

def unknown : State := ⟨0⟩
def allow : State := ⟨1⟩
def block : State := ⟨2⟩
def prompt : State := ⟨3⟩
def allowSessionCookies : State := ⟨8⟩

def named : List State := [unknown, allow, block, prompt, allowSessionCookies]

/-- The name of a decision; a number without one is shown in parentheses. -/
def name (s : State) : String :=
  if s = unknown then "unknown"
  else if s = allow then "allow"
  else if s = block then "block"
  else if s = prompt then "prompt"
  else if s = allowSessionCookies then "allow-session-cookies"
  else "state(" ++ decimal s.code ++ ")"

def ofName? (text : String) : Option State := named.find? (·.name = text)

/-- The decision that a person means by a number or a name, in any letter case; an error holds the
name that was looked for. -/
def ofWord (word : String) : Except String State :=
  let word := lowerString (trimString word)
  match readInteger word.toList with
  | .ok n => .ok ⟨n⟩
  | .error _ =>
    match ofName? word with
    | some s => .ok s
    | none => .error word

def isAllowing (s : State) : Bool := s = allow || s = allowSessionCookies

end State

end Consent

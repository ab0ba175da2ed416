import Consent.Request
import Consent.Screen.Message
import Consent.Screen.Theme

/-! The question whether an origin may use a permission. -/

namespace Consent.Dialog

open Screen

def choices : List (String × Answer) := [
  ("Allow once", ⟨true, false⟩),
  ("Always allow", ⟨true, true⟩),
  ("Block once", ⟨false, false⟩),
  ("Never allow", ⟨false, true⟩)]

structure Prompt where
  origin : String
  kind : Kind
  /-- The position of the selected answer. -/
  selected : Nat := 0
  answered : Bool := false
  dismissed : Bool := false
  deriving DecidableEq, Repr

namespace Prompt

def answer (m : Prompt) (position : Nat) : Prompt × Bool :=
  ({ m with selected := position, answered := true }, true)

def update (m : Prompt) : Message → Prompt × Bool
  | .key name =>
    if ["left", "h", "shift+tab"].contains name then
      ({ m with selected := (m.selected + 3) % 4 }, false)
    else if ["right", "l", "tab"].contains name then
      ({ m with selected := (m.selected + 1) % 4 }, false)
    else if name = "a" then m.answer 0
    else if name = "A" then m.answer 1
    else if name = "b" then m.answer 2
    else if name = "B" || name = "n" then m.answer 3
    else if name = "enter" then m.answer m.selected
    else if ["esc", "q", "ctrl+c"].contains name then ({ m with dismissed := true }, true)
    else (m, false)
  | .resize _ _ => (m, false)

def result? (m : Prompt) : Option Answer :=
  if m.answered then (choices[m.selected]?).map (·.2) else none

def describeKind (kind : Kind) : String :=
  match kind with
  | "camera" => "your camera"
  | "microphone" => "your microphone"
  | "geo" => "your location"
  | "desktop-notification" => "desktop notifications"
  | "screen" => "screen sharing"
  | "cookie" => "cookies"
  | "image" => "images"
  | "indexedDB" => "offline storage"
  | "install" => "add-on installation"
  | "popup" => "pop-up windows"
  | _ => .ofList (kind.toList.map fun c => if c = '-' then ' ' else c)

def shown (s : String) : List Char := (Block.ofString s).text

def view (m : Prompt) : Block :=
  if m.answered || m.dismissed then [[]]
  else
    let question := shown m.origin ++ " wants to use ".toList ++ shown (describeKind m.kind)
    let buttons := " ".intercalate (choices.map fun c => "  " ++ c.1 ++ "  ")
    Block.boxed (Block.above [
      [Icon.question :: " Permission request".toList],
      [[]],
      Text.splitOn '\n' question,
      [[]],
      [buttons.toList],
      [[]],
      ["←/→ select • enter confirm • a/A allow • b/B block • esc dismiss".toList]])

/-- Takes keys until the dialog ends. -/
def run (m : Prompt) : List String → Prompt
  | [] => m
  | name :: rest =>
    match m.update (.key name) with
    | (m', true) => m'
    | (m', false) => run m' rest

end Prompt

/-- Asks a person at a terminal, who presses some keys. Without a terminal nobody can be asked. -/
def ask {σ : Type} (interactive : Bool) (keys : List String) : Prompter σ := fun origin kind => do
  if interactive then
    match ((Prompt.mk origin kind 0 false false).run keys).result? with
    | some a => pure a
    | none => .fail .dismissed
  else
    Action.emit .debug "not a terminal, cannot prompt" []
    .fail .noTerminal

end Consent.Dialog

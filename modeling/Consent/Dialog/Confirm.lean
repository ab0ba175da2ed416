import Consent.Screen.Block
import Consent.Screen.Message

/-! A question that is answered with yes or no. -/

namespace Consent.Dialog

open Screen

structure Confirm where
  message : String
  /-- The answer that is selected. -/
  yes : Bool := false
  confirmed : Bool := false
  canceled : Bool := false
  deriving DecidableEq, Repr

namespace Confirm

/-- What an event does, and whether it ends the dialog. -/
def update (m : Confirm) : Message → Confirm × Bool
  | .key name =>
    if ["y", "right", "l"].contains name then ({ m with yes := true }, false)
    else if ["n", "left", "h"].contains name then ({ m with yes := false }, false)
    else if name = "tab" then ({ m with yes := !m.yes }, false)
    else if name = "enter" then ({ m with confirmed := true }, true)
    else if ["esc", "q", "ctrl+c"].contains name then ({ m with canceled := true }, true)
    else (m, false)
  | .resize _ _ => (m, false)

def isDone (m : Confirm) : Bool := m.confirmed || m.canceled

def result (m : Confirm) : Bool := m.confirmed && m.yes

def view (m : Confirm) : Block :=
  if m.isDone then [[]]
  else
    Block.boxed (Block.centered [
      Block.ofString m.message,
      [[]],
      Block.ofString "  No      Yes  ",
      [[]],
      Block.ofString "y/n to select • enter to confirm • esc to cancel"])

end Confirm

end Consent.Dialog

import Consent.Manage.Model
import Consent.Screen.Theme

/-! How the stored decisions are shown. -/

namespace Consent.Manage

open Text Screen

def titles : List String := ["Origin", "Kind", "State", "Expires"]

def columns : List Nat := [40, 22, 24, 16]

def keyGroups : List (List (String × String)) := [
  [("↑/k", "up"), ("↓/j", "down")],
  [("a", "allow"), ("b", "block"), ("x", "delete")],
  [("r", "refresh"), ("?", "help"), ("q", "quit")]]

def shortHelp : Block :=
  let keys := keyGroups.flatten.filter fun k => k.1 ≠ "r" && k.1 ≠ "?"
  [(" • ".intercalate (keys.map fun k => k.1 ++ " " ++ k.2)).toList]

def fullHelp : Block :=
  let group (keys : List (String × String)) : List Block :=
    [keys.map (·.1.toList), [[' ']], keys.map (·.2.toList)]
  Block.row (List.intercalate [["    ".toList]] (keyGroups.map group))

namespace Model

def outcome (m : Model) : Block :=
  match m.failure with
  | some e => Block.ofText (Icon.cross :: ' ' :: e.message.toList)
  | none => if m.status = "" then [[]] else Block.ofText (Icon.check :: ' ' :: m.status.toList)

/-- What is shown, cut to the width of the screen. -/
def view (m : Model) : Block :=
  let title := Icon.database :: (" Site permissions (" ++ decimal m.records.length ++ ")").toList
  let list := if m.records.isEmpty && m.failure.isNone then ["No permissions stored.".toList]
    else Table.header columns titles ++ m.table.body columns
  let lines := [title, []] ++ list ++ m.outcome ++ if m.showsHelp then fullHelp else shortHelp
  Block.cut (max m.width 1).toNat (Block.aligned lines)

end Model

end Consent.Manage

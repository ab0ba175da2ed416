import Consent.Screen.Block

/-! A table in a frame with round corners. -/

namespace Consent.Screen.Grid

open Text

def columnWidths (rows : List (List Block)) : List Nat :=
  rows.foldl (fun widths cells =>
    List.zipWith max (cells.map Block.width) (widths ++ List.replicate cells.length 0)) []

def rule (left middle right : Char) (widths : List Nat) : List Char :=
  left :: joinWith middle (widths.map (List.replicate · '─')) ++ [right]

/-- A row as high as its highest cell, with lines between the columns. -/
def row (widths : List Nat) (cells : List Block) : Block :=
  let height := (cells.map List.length).foldl max 1
  let line : Block := List.replicate height ['│']
  let fill (width : Nat) (cell : Block) : Block :=
    (cell ++ List.replicate (height - cell.length) []).padded width
  Block.row (line :: (List.zipWith fill widths cells).flatMap fun cell => [cell, line])

def cell (s : String) : Block := (Block.ofString s).map fun line => ' ' :: line ++ [' ']

def render (titles : List String) (rows : List (List String)) : Block :=
  let titles := titles.map cell
  let rows := rows.map (·.map cell)
  let widths := columnWidths (titles :: rows)
  [rule '╭' '┬' '╮' widths] ++ row widths titles ++ [rule '├' '┼' '┤' widths]
    ++ rows.flatMap (row widths) ++ [rule '╰' '┴' '╯' widths]

end Consent.Screen.Grid

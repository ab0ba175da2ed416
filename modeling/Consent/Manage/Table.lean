import Consent.Screen.Block

/-! A table with a selected row, of which a window is shown. -/

namespace Consent.Manage

open Text Screen

def clamp (v low high : Int) : Int := min (max v low) high

/-- Rows of cells with a cursor on one of them. Without rows the cursor is before the first. -/
structure Table where
  rows : List (List String) := []
  cursor : Int := 0
  /-- How many rows are shown. -/
  page : Int := 14
  /-- How many columns of the screen are used. -/
  width : Int := 104
  /-- How many of the rows near the cursor are above the window. -/
  offset : Int := 0
  deriving DecidableEq, Repr

namespace Table

/-- The first row near the cursor: at most a page above it. -/
def first (t : Table) : Int :=
  if 0 ≤ t.cursor then clamp (t.cursor - t.page) 0 t.cursor else 0

/-- The end of the rows near the cursor: less than a page below it. -/
def stop (t : Table) : Int := clamp (t.cursor + t.page) t.cursor t.rows.length

/-- How many lines the rows near the cursor take; there is always one. -/
def lineCount (t : Table) : Int := max 1 (t.stop - t.first)

def setOffset (t : Table) (lines offset : Int) : Table :=
  { t with offset := clamp offset 0 (max 0 (lines - t.page)) }

/-- Moves the window back if it has left the lines. -/
def settle (t : Table) : Table :=
  if t.lineCount - 1 < t.offset then t.setOffset t.lineCount t.lineCount else t

def moveTo (t : Table) (row : Int) : Table :=
  { t with cursor := clamp row 0 (t.rows.length - 1) }

def setCursor (t : Table) (row : Int) : Table := (t.moveTo row).settle

/-- Replaces the rows; a cursor behind the last row moves to it. -/
def setRows (t : Table) (rows : List (List String)) : Table :=
  settle { t with rows, cursor := min t.cursor (rows.length - 1) }

def resize (t : Table) (width page : Int) : Table := settle { t with width, page }

def moveUp (t : Table) (n : Int) : Table :=
  let moved := t.moveTo (t.cursor - n)
  settle <|
    if t.first = 0 then moved.setOffset t.lineCount (clamp t.offset 0 moved.cursor)
    else if t.first < t.page then
      { moved with offset := clamp (clamp (t.offset + n) 0 moved.cursor) 0 t.page }
    else if 1 ≤ t.offset then { moved with offset := clamp (t.offset + n) 1 t.page }
    else moved

def moveDown (t : Table) (n : Int) : Table :=
  let t := (t.moveTo (t.cursor + n)).settle
  if t.stop = t.rows.length && 0 < t.offset then
    t.setOffset t.lineCount (clamp (t.offset - n) 1 t.page)
  else if (t.stop - t.first) / 2 < t.cursor && 0 < t.offset then
    t.setOffset t.lineCount (clamp (t.offset - n) 1 t.cursor)
  else if 1 < t.offset then t
  else if t.offset + t.page - 1 < t.cursor then
    t.setOffset t.lineCount (clamp (t.offset + 1) 0 1)
  else t

def press (t : Table) (key : String) : Table :=
  match key with
  | "up" | "k" => t.moveUp 1
  | "down" | "j" => t.moveDown 1
  | "pgup" | "b" => t.moveUp t.page
  | "pgdown" | "f" | " " => t.moveDown t.page
  | "ctrl+u" | "u" => t.moveUp (t.page / 2)
  | "ctrl+d" | "d" => t.moveDown (t.page / 2)
  | "home" | "g" => t.moveUp t.cursor
  | "end" | "G" => t.moveDown t.rows.length
  | _ => t

/-- A cell of a column: cut or filled to its width, with a space on both sides. -/
def cell (columns : Nat) (value : String) : List Char :=
  let line := (Block.expand (truncate columns value.toList)).filter (· ≠ '\n')
  ' ' :: takeColumns columns (padRight columns line) ++ [' ']

def line (columns : List Nat) (row : List String) : List Char :=
  (List.zipWith cell columns row).flatten

def body (columns : List Nat) (t : Table) : Block :=
  let near := (t.rows.take t.stop.toNat).drop t.first.toNat
  let lines := (near.map (line columns)).drop t.offset.toNat
  let shown := Block.cut t.width.toNat (lines.take t.page.toNat)
  let filled := shown ++ List.replicate (t.page.toNat - shown.length) []
  Block.padded (max t.width.toNat (Block.width filled)) filled

def header (columns : List Nat) (titles : List String) : Block :=
  let top := line columns titles
  [top, List.replicate (Text.width top) '─']

end Table

end Consent.Manage

import Consent.Text.Split
import Consent.Text.Width

/-! Rectangles of text, and how they are put together. -/

namespace Consent.Screen

open Text

abbrev Block := List (List Char)

namespace Block

def width (b : Block) : Nat := (b.map Text.width).foldl max 0

def padded (columns : Nat) (b : Block) : Block := b.map (padRight columns)

/-- Several lines filled to the width of the longest; a single line stays as it is. -/
def aligned (b : Block) : Block := if b.length ≤ 1 then b else b.padded b.width

/-- Tabs become four spaces, and a line end is one character. -/
def expand : List Char → List Char
  | [] => []
  | '\r' :: '\n' :: rest => '\n' :: expand rest
  | '\t' :: rest => ' ' :: ' ' :: ' ' :: ' ' :: expand rest
  | c :: rest => c :: expand rest

def ofText (s : List Char) : Block := aligned (splitOn '\n' (expand s))

def ofString (s : String) : Block := ofText s.toList

def text (b : Block) : List Char := joinWith '\n' b

def above (blocks : List Block) : Block :=
  let lines := blocks.flatten
  padded (width lines) lines

/-- A line in the middle of some columns; an odd space goes to the left. -/
def center (columns : Nat) (line : List Char) : List Char :=
  let space := columns - Text.width line
  let left := (space + 1) / 2
  List.replicate left ' ' ++ line ++ List.replicate (space - left) ' '

def centered (blocks : List Block) : Block :=
  let lines := blocks.flatten
  lines.map (center (width lines))

/-- Two blocks side by side; the lower one is filled with empty lines. -/
def beside (left right : Block) : Block :=
  let height := max left.length right.length
  let fill (b : Block) : Block := (b ++ List.replicate (height - b.length) []).padded b.width
  List.zipWith (· ++ ·) (fill left) (fill right)

def row (blocks : List Block) : Block := blocks.foldl beside []

def boxed (b : Block) : Block :=
  let columns := b.width + 4
  let rule (left right : Char) : List Char := left :: List.replicate columns '─' ++ [right]
  let lines := [[]] ++ b.map (fun line => [' ', ' '] ++ line ++ [' ', ' ']) ++ [[]]
  [rule '╭' '╮'] ++ (lines.map fun line => '│' :: padRight columns line ++ ['│']) ++ [rule '╰' '╯']

/-- The block with its lines cut to some columns; no columns means no limit. -/
def cut (columns : Nat) (b : Block) : Block :=
  if columns = 0 then b else b.map (takeColumns columns)

end Block

end Consent.Screen

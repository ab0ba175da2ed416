import Consent.Text.Pieces
import Consent.Text.Printable

/-! Text in double quotes, with escapes for what cannot be shown. -/

namespace Consent.Text

def hexDigit (d : Nat) : Char :=
  if d < 10 then Char.ofNat (d + 48) else Char.ofNat (d + 87)

def hexDigits : Nat → Nat → List Char
  | 0, _ => []
  | width + 1, n => hexDigits width (n / 16) ++ [hexDigit (n % 16)]

/-- A character between double quotes: quotes and backslashes take a backslash, controls their
letter, and what is not printable its number. -/
def quoteChar (c : Char) : List Char :=
  if c = '"' || c = '\\' then ['\\', c]
  else if isPrintable c then [c]
  else
    match c.toNat with
    | 0x07 => ['\\', 'a']
    | 0x08 => ['\\', 'b']
    | 0x09 => ['\\', 't']
    | 0x0a => ['\\', 'n']
    | 0x0b => ['\\', 'v']
    | 0x0c => ['\\', 'f']
    | 0x0d => ['\\', 'r']
    | n =>
      if n < 0x80 then '\\' :: 'x' :: hexDigits 2 n
      else if n < 0x10000 then '\\' :: 'u' :: hexDigits 4 n
      else '\\' :: 'U' :: hexDigits 8 n

def quotePiece : Piece → List Char
  | .char c => quoteChar c
  | .byte b => '\\' :: 'x' :: hexDigits 2 b.toNat

def quotePieces (s : List Piece) : String :=
  .ofList ('"' :: s.flatMap quotePiece ++ ['"'])

def quote (s : List Char) : String :=
  .ofList ('"' :: s.flatMap quoteChar ++ ['"'])

def quoteString (s : String) : String := quote s.toList

def apostrophe : Char := Char.ofNat 39

def quoteSingle (c : Char) : String :=
  let body := if c = apostrophe then ['\\', c] else if c = '"' then [c] else quoteChar c
  .ofList (apostrophe :: body ++ [apostrophe])

/-- A text in double quotes, in ASCII: controls and the bytes of other characters are written by
their numbers. -/
def quoteAscii (s : List Char) : String :=
  let body := s.flatMap fun c =>
    if c = '"' || c = '\\' then ['\\', c]
    else if c.toNat < 0x20 || 0x80 ≤ c.toNat then
      (String.utf8EncodeChar c).flatMap fun b => '\\' :: 'x' :: hexDigits 2 b.toNat
    else [c]
  .ofList ('"' :: body ++ ['"'])

end Consent.Text

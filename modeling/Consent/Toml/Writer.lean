import Consent.Toml.Text

/-! Writing the values of a document. -/

namespace Consent.Toml

open Text

def capitalHexDigit (d : Nat) : Char :=
  if d < 10 then Char.ofNat (d + 48) else Char.ofNat (d + 55)

def writeBasicChar (c : Char) : List Char :=
  match c.toNat with
  | 0x08 => ['\\', 'b']
  | 0x09 => ['\\', 't']
  | 0x0a => ['\\', 'n']
  | 0x0c => ['\\', 'f']
  | 0x0d => ['\\', 'r']
  | 0x22 => ['\\', '"']
  | 0x5c => ['\\', '\\']
  | n =>
    if isForbidden c then ['\\', 'u', '0', '0', capitalHexDigit (n / 16), capitalHexDigit (n % 16)]
    else [c]

/-- A text in single quotes if they can hold it, else in double quotes. -/
def writeText (s : List Char) : List Char :=
  if s.any fun c => c = '\'' || isForbidden c then '"' :: s.flatMap writeBasicChar ++ ['"']
  else '\'' :: s ++ ['\'']

def writeInteger (n : Int) : List Char := (decimal n).toList

def writeBoolean (b : Bool) : List Char := if b then "true".toList else "false".toList

end Consent.Toml

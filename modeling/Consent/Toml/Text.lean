import Consent.Text.Numeral

/-! Texts between quotes, on one line or several. -/

namespace Consent.Toml

open Text

def isGap (c : Char) : Bool := c = ' ' || c = '\t'

/-- Control characters other than tab, which may not stand in a document. -/
def isForbidden (c : Char) : Bool := (c.toNat < 0x20 && c ≠ '\t') || c.toNat = 0x7f

def scalar? (ds : List Char) : Option Char :=
  if ds.all isHexDigit then
    let n := ds.foldl (fun n c => 16 * n + hexValue c) 0
    if n < 0xd800 || (0xe000 ≤ n && n < 0x110000) then some (Char.ofNat n) else none
  else none

def escape? : Char → Option Char
  | 'b' => some (Char.ofNat 0x08)
  | 't' => some '\t'
  | 'n' => some '\n'
  | 'f' => some (Char.ofNat 0x0c)
  | 'r' => some '\r'
  | 'e' => some (Char.ofNat 0x1b)
  | '"' => some '"'
  | '\\' => some '\\'
  | _ => none

def readBasic : List Char → Option (List Char × List Char)
  | [] => none
  | '"' :: rest => some ([], rest)
  | '\\' :: 'u' :: a :: b :: c :: d :: rest => do
    let x ← scalar? [a, b, c, d]
    let (text, rest) ← readBasic rest
    some (x :: text, rest)
  | '\\' :: 'U' :: a :: b :: c :: d :: e :: f :: g :: h :: rest => do
    let x ← scalar? [a, b, c, d, e, f, g, h]
    let (text, rest) ← readBasic rest
    some (x :: text, rest)
  | '\\' :: e :: rest => do
    let x ← escape? e
    let (text, rest) ← readBasic rest
    some (x :: text, rest)
  | c :: rest =>
    if isForbidden c || c = '\\' then none
    else (readBasic rest).map fun (text, rest) => (c :: text, rest)

def readLiteral : List Char → Option (List Char × List Char)
  | [] => none
  | '\'' :: rest => some ([], rest)
  | c :: rest =>
    if isForbidden c then none
    else (readLiteral rest).map fun (text, rest) => (c :: text, rest)

def quotesAhead (q : Char) (s : List Char) : Nat := (s.takeWhile (· = q)).length

/-- The text that three to five closing quotes leave, and what follows them. -/
def closeQuotes (q : Char) (s : List Char) : Option (List Char × List Char) :=
  let n := quotesAhead q s
  if n ≤ 5 then some (List.replicate (n - 3) q, s.drop n) else none

def endsLine (s : List Char) : Bool :=
  match s.dropWhile isGap with
  | '\n' :: _ => true
  | '\r' :: '\n' :: _ => true
  | _ => false

/-- The rest of a text between three double quotes. While `skipping`, white space is left out. -/
def readMultiBasic (skipping : Bool) : List Char → Option (List Char × List Char)
  | [] => none
  | '\\' :: 'u' :: a :: b :: c :: d :: rest => do
    let x ← scalar? [a, b, c, d]
    let (text, rest) ← readMultiBasic false rest
    some (x :: text, rest)
  | '\\' :: 'U' :: a :: b :: c :: d :: e :: f :: g :: h :: rest => do
    let x ← scalar? [a, b, c, d, e, f, g, h]
    let (text, rest) ← readMultiBasic false rest
    some (x :: text, rest)
  | '\\' :: e :: rest =>
    if endsLine (e :: rest) then readMultiBasic true rest
    else do
      let x ← escape? e
      let (text, rest) ← readMultiBasic false rest
      some (x :: text, rest)
  | c :: rest =>
    if c = '"' && 3 ≤ quotesAhead '"' (c :: rest) then closeQuotes '"' (c :: rest)
    else if skipping && (isGap c || c = '\n' || c = '\r') then readMultiBasic true rest
    else if c = '\r' && rest.head? ≠ some '\n' then none
    else if (isForbidden c && c ≠ '\n' && c ≠ '\r') || c = '\\' then none
    else (readMultiBasic false rest).map fun (text, rest) => (c :: text, rest)

def readMultiLiteral : List Char → Option (List Char × List Char)
  | [] => none
  | c :: rest =>
    if c = '\'' && 3 ≤ quotesAhead '\'' (c :: rest) then closeQuotes '\'' (c :: rest)
    else if c = '\r' && rest.head? ≠ some '\n' then none
    else if isForbidden c && c ≠ '\n' && c ≠ '\r' then none
    else (readMultiLiteral rest).map fun (text, rest) => (c :: text, rest)

def dropNewline : List Char → List Char
  | '\n' :: rest => rest
  | '\r' :: '\n' :: rest => rest
  | s => s

end Consent.Toml

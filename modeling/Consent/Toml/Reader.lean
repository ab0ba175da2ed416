import Consent.Toml.Scalar

/-! Reading a document of tables. -/

namespace Consent.Toml

open Text

def skipGaps (s : List Char) : List Char := s.dropWhile isGap

def isNameChar (c : Char) : Bool := isAlnum c || c = '_' || c = '-'

def readName (s : List Char) : Option (String × List Char) :=
  match s with
  | '"' :: rest => (readBasic rest).map fun (text, rest) => (.ofList text, rest)
  | '\'' :: rest => (readLiteral rest).map fun (text, rest) => (.ofList text, rest)
  | _ =>
    let name := s.takeWhile isNameChar
    if name.isEmpty then none else some (.ofList name, s.dropWhile isNameChar)

def readKey : Nat → List Char → Option (List String × List Char)
  | 0, _ => none
  | fuel + 1, s => do
    let (name, rest) ← readName (skipGaps s)
    match skipGaps rest with
    | '.' :: rest' =>
      let (names, rest'') ← readKey fuel rest'
      some (name :: names, rest'')
    | rest' => some ([name], rest')

def skipComment : List Char → Option (List Char)
  | [] => some []
  | '\n' :: rest => some ('\n' :: rest)
  | '\r' :: '\n' :: rest => some ('\r' :: '\n' :: rest)
  | c :: rest => if isForbidden c then none else skipComment rest

def endLine (s : List Char) : Option (List Char) := do
  let s ← match skipGaps s with
    | '#' :: rest => skipComment rest
    | s => some s
  match s with
  | [] => some []
  | '\n' :: rest => some rest
  | '\r' :: '\n' :: rest => some rest
  | _ => none

def skipLines : Nat → List Char → Option (List Char)
  | 0, s => some s
  | fuel + 1, s =>
    match skipGaps s with
    | '\n' :: rest => skipLines fuel rest
    | '\r' :: '\n' :: rest => skipLines fuel rest
    | '#' :: rest => (skipComment rest).bind (skipLines fuel)
    | s => some s

def endsScalar (c : Char) : Bool :=
  isGap c || c = ',' || c = ']' || c = '\x7d' || c = '#' || c = '\n' || c = '\r'

/-- The characters of a value without quotes. A date and its time may have one space between. -/
def scalarText (s : List Char) : List Char :=
  let first := s.takeWhile (!endsScalar ·)
  match s.dropWhile (!endsScalar ·) with
  | ' ' :: rest =>
    let second := rest.takeWhile (!endsScalar ·)
    if readDate? first == some [] && (readTwo? 23 second).isSome then first ++ ' ' :: second
    else first
  | _ => first

mutual

def readValue : Nat → List Char → Option (Node × List Char)
  | 0, _ => none
  | fuel + 1, s =>
    match s with
    | '"' :: '"' :: '"' :: rest =>
      (readMultiBasic false (dropNewline rest)).map fun (t, rest) => (.text (.ofList t), rest)
    | '\'' :: '\'' :: '\'' :: rest =>
      (readMultiLiteral (dropNewline rest)).map fun (t, rest) => (.text (.ofList t), rest)
    | '"' :: rest => (readBasic rest).map fun (t, rest) => (.text (.ofList t), rest)
    | '\'' :: rest => (readLiteral rest).map fun (t, rest) => (.text (.ofList t), rest)
    | '[' :: rest => readItems fuel rest
    | '\x7b' :: rest => readPairs fuel true [] rest
    | _ =>
      let text := scalarText s
      (readScalar? text).map fun n => (n, s.drop text.length)

/-- The rest of a list; an item may be followed by a comma and the end. -/
def readItems : Nat → List Char → Option (Node × List Char)
  | 0, _ => none
  | fuel + 1, s => do
    let s ← skipLines s.length s
    match s with
    | ']' :: rest => some (.list [], rest)
    | _ =>
      let (item, rest) ← readValue fuel s
      let rest ← skipLines rest.length rest
      match rest with
      | ',' :: rest' =>
        match ← readItems fuel rest' with
        | (.list items, rest'') => some (.list (item :: items), rest'')
        | _ => none
      | ']' :: rest' => some (.list [item], rest')
      | _ => none

/-- The rest of a table between braces; only the first place may hold the end at once. -/
def readPairs : Nat → Bool → Entries → List Char → Option (Node × List Char)
  | 0, _, _, _ => none
  | fuel + 1, first, es, s => do
    match first, skipGaps s with
    | true, '\x7d' :: rest => some (.table .inline [], rest)
    | _, s =>
      let (key, rest) ← readKey s.length s
      let rest ← dropFront? ['='] rest
      let (n, rest) ← readValue fuel (skipGaps rest)
      let es ← Entries.addKey n key es
      match skipGaps rest with
      | ',' :: rest' => readPairs fuel false es rest'
      | '\x7d' :: rest' => some (.table .inline es, rest')
      | _ => none

end

/-- A document being read: the path of the open table, and all tables so far. -/
structure Draft where
  path : List String
  root : Entries

def readEntry (d : Draft) (s : List Char) : Option (Draft × List Char) := do
  match s with
  | '[' :: '[' :: rest =>
    let (path, rest) ← readKey rest.length rest
    let rest ← dropFront? [']', ']'] rest
    let root ← d.root.openRepeated path
    some (⟨path, root⟩, rest)
  | '[' :: rest =>
    let (path, rest) ← readKey rest.length rest
    let rest ← dropFront? [']'] rest
    let root ← d.root.openTable path
    some (⟨path, root⟩, rest)
  | _ =>
    let (key, rest) ← readKey s.length s
    let rest ← dropFront? ['='] rest
    let (n, rest) ← readValue (rest.length + 1) (skipGaps rest)
    let root ← d.root.atSection (Entries.addKey n key) d.path
    some (⟨d.path, root⟩, rest)

def readLines : Nat → Draft → List Char → Option Entries
  | 0, d, s => if s.isEmpty then some d.root else none
  | fuel + 1, d, s =>
    match skipGaps s with
    | [] => some d.root
    | '\n' :: rest => readLines fuel d rest
    | '\r' :: '\n' :: rest => readLines fuel d rest
    | '#' :: rest => (endLine ('#' :: rest)).bind (readLines fuel d)
    | s => do
      let (d, rest) ← readEntry d s
      let rest ← endLine rest
      readLines fuel d rest

def read? (s : List Char) : Option Entries := readLines (s.length + 1) ⟨[], []⟩ s

end Consent.Toml

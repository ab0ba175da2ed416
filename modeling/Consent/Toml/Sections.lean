import Consent.Text.Blank
import Consent.Text.Split

/-! A document as lines under headers, and its form with the headers in order. -/

namespace Consent.Toml

open Text

abbrev Line := List Char

structure Section where
  /-- What stands between the brackets. -/
  name : List Char
  header : Line
  body : List Line
  deriving DecidableEq, Repr

/-- The lines before the first header, and the sections. -/
structure Document where
  head : List Line
  sections : List Section
  deriving DecidableEq, Repr

def isHeaderSpace (c : Char) : Bool := c = ' ' || c = '\t' || c = '\r' || c = Char.ofNat 0x0c

/-- The name in a line that holds a header and nothing else. -/
def headerName? (line : Line) : Option (List Char) :=
  match line.dropWhile isHeaderSpace with
  | '[' :: rest =>
    match cut ']' rest with
    | (name, some after) => if !name.isEmpty && after.all isHeaderSpace then some name else none
    | (_, none) => none
  | _ => none

def isBlankLine (line : Line) : Bool := (trim line).isEmpty

def dropBlankEnd : List Line → List Line
  | [] => []
  | line :: rest =>
    match dropBlankEnd rest with
    | [] => if isBlankLine line then [] else [line]
    | rest' => line :: rest'

namespace Document

def addLine (line : Line) (d : Document) : Document :=
  match headerName? line with
  | some name => ⟨[], ⟨name, line, d.head⟩ :: d.sections⟩
  | none => ⟨line :: d.head, d.sections⟩

def ofLines (lines : List Line) : Document := lines.foldr addLine ⟨[], []⟩

def ofText (text : List Char) : Document := ofLines (splitOn '\n' text)

/-- The sections in ascending order of their names, each without blank lines at its end. Sections of
one name stay in their order. -/
def sorted (d : Document) : Document where
  head := d.head
  sections := (d.sections.mergeSort fun a b => !(String.ofList b.name < String.ofList a.name)).map
    fun s => { s with body := dropBlankEnd s.body }

/-- The lines of a document, with an empty one after each section. -/
def lines (d : Document) : List Line :=
  d.head ++ d.sections.flatMap fun s => s.header :: s.body ++ [[]]

def text (d : Document) : List Char := joinWith '\n' d.lines

end Document

def sortSections (text : List Char) : List Char := (Document.ofText text).sorted.text

end Consent.Toml

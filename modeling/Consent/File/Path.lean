import Consent.Text.Split

/-! Paths with slashes, taken as text. -/

namespace Consent.Path

open Text

def isAbsolute (path : List Char) : Bool := path.head? = some '/'

/-- Resolves the elements `.`, `..` and the empty one, from left to right; `kept` holds the
elements so far, last first. -/
def resolve (rooted : Bool) (kept : List (List Char)) : List (List Char) → List (List Char)
  | [] => kept.reverse
  | e :: rest =>
    if e = [] || e = ['.'] then resolve rooted kept rest
    else if e = ['.', '.'] then
      match kept with
      | [] => resolve rooted (if rooted then [] else [e]) rest
      | top :: below => resolve rooted (if top = ['.', '.'] then e :: kept else below) rest
    else resolve rooted (e :: kept) rest

/-- The shortest path with the same meaning; the empty path is the current directory. -/
def clean (path : List Char) : List Char :=
  let rooted := isAbsolute path
  let body := joinWith '/' (resolve rooted [] (splitOn '/' path))
  if rooted then '/' :: body else if body.isEmpty then ['.'] else body

def join (paths : List (List Char)) : List Char :=
  match paths.filter (!·.isEmpty) with
  | [] => []
  | ps => clean (joinWith '/' ps)

def parent (path : List Char) : List Char :=
  match cutLast? '/' path with
  | some (before, _) => clean (before ++ ['/'])
  | none => ['.']

/-- A cleaned path and all the directories above it, outermost first. -/
def lineage (path : List Char) : List (List Char) :=
  let es := (splitOn '/' path).filter (!·.isEmpty)
  (List.range es.length).map fun n =>
    (if isAbsolute path then ['/'] else []) ++ joinWith '/' (es.take (n + 1))

/-- The regular file that stands in the way of creating a directory. -/
def obstacle? (isFile : List Char → Bool) (dir : List Char) : Option (List Char) :=
  (lineage (clean dir)).find? isFile

end Consent.Path

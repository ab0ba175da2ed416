import Consent.File.Path

/-! Regular files, as far as they are read and written by their paths. -/

namespace Consent

/-- The text files, and the paths of the other regular files. -/
structure Files where
  texts : List (String × String) := []
  others : List String := []
  deriving DecidableEq, Repr

namespace Files

def read? (fs : Files) (path : String) : Option String := fs.texts.lookup path

/-- Replaces what is kept at a path, or adds it at the end. -/
def put {α : Type} (path : String) (x : α) : List (String × α) → List (String × α)
  | [] => [(path, x)]
  | (p, y) :: rest => if p = path then (p, x) :: rest else (p, y) :: put path x rest

def write (fs : Files) (path text : String) : Files := { fs with texts := put path text fs.texts }

def isFile (fs : Files) (path : String) : Bool :=
  (fs.read? path).isSome || fs.others.contains path

def obstacle? (fs : Files) (dir : String) : Option String :=
  (Path.obstacle? (fun p => fs.isFile (.ofList p)) dir.toList).map .ofList

theorem lookup_put_self {α : Type} (path : String) (x : α) (kept : List (String × α)) :
    (put path x kept).lookup path = some x := by
  induction kept with
  | nil => simp [put]
  | cons e kept ih =>
    obtain ⟨p, old⟩ := e
    by_cases h : p = path
    · simp [put, h]
    · simp [put, h, List.lookup_cons, beq_eq_false_iff_ne.mpr (Ne.symm h), ih]

theorem lookup_put_of_ne {α : Type} {path other : String} (x : α) (kept : List (String × α))
    (h : other ≠ path) : (put path x kept).lookup other = kept.lookup other := by
  induction kept with
  | nil => simp [put, List.lookup_cons, beq_eq_false_iff_ne.mpr h]
  | cons e kept ih =>
    obtain ⟨p, old⟩ := e
    by_cases hp : p = path
    · subst hp
      simp [put, List.lookup_cons, beq_eq_false_iff_ne.mpr h]
    · simp [put, hp, List.lookup_cons, ih]

@[simp] theorem read?_write (fs : Files) (path text : String) :
    (fs.write path text).read? path = some text :=
  lookup_put_self path text fs.texts

end Files

end Consent

/-! Cutting text at a separator, and looking for one text in another. -/

namespace Consent.Text

/-- The text before the first `sep`, and the text after it if there is a `sep`. -/
def cut (sep : Char) : List Char → List Char × Option (List Char)
  | [] => ([], none)
  | c :: r =>
    if c = sep then ([], some r)
    else
      let (before, after) := cut sep r
      (c :: before, after)

def cutLast? (sep : Char) : List Char → Option (List Char × List Char)
  | [] => none
  | c :: r =>
    match cutLast? sep r with
    | some (before, after) => some (c :: before, after)
    | none => if c = sep then some ([], r) else none

/-- The fields between the separators; text without a separator is one field. -/
def splitOn (sep : Char) : List Char → List (List Char)
  | [] => [[]]
  | c :: r =>
    match splitOn sep r with
    | [] => [[]]
    | field :: fields => if c = sep then [] :: field :: fields else (c :: field) :: fields

def joinWith (sep : Char) : List (List Char) → List Char
  | [] => []
  | [field] => field
  | field :: fields => field ++ sep :: joinWith sep fields

def occursIn (needle : List Char) : List Char → Bool
  | [] => needle.isEmpty
  | c :: r => needle.isPrefixOf (c :: r) || occursIn needle r

def dropFront? : List Char → List Char → Option (List Char)
  | [], s => some s
  | m :: mark, c :: s => if m = c then dropFront? mark s else none
  | _ :: _, [] => none

def dropLastIf (c : Char) (s : List Char) : List Char :=
  if s.getLast? = some c then s.dropLast else s

/-- The last `n` characters of the text, or all of it if it has fewer. -/
def ending (n : Nat) (s : List Char) : List Char := s.drop (s.length - n)

theorem splitOn_ne_nil (sep : Char) (s : List Char) : splitOn sep s ≠ [] := by
  cases s with
  | nil => simp [splitOn]
  | cons c r =>
    unfold splitOn
    split
    · simp
    · split <;> simp

theorem cut_spec (sep : Char) (s : List Char) :
    s = match cut sep s with
        | (before, some after) => before ++ sep :: after
        | (before, none) => before := by
  induction s with
  | nil => rfl
  | cons c r ih =>
    by_cases h : c = sep
    · simp [cut, h]
    · rcases hc : cut sep r with ⟨before, after⟩
      rw [hc] at ih
      cases after <;> simp_all [cut]

theorem not_mem_cut (sep : Char) (s : List Char) : sep ∉ (cut sep s).1 := by
  induction s with
  | nil => simp [cut]
  | cons c r ih =>
    by_cases h : c = sep
    · simp [cut, h]
    · simp [cut, h, ih, Ne.symm h]

theorem joinWith_splitOn (sep : Char) (s : List Char) : joinWith sep (splitOn sep s) = s := by
  induction s with
  | nil => rfl
  | cons c r ih =>
    unfold splitOn
    split
    · exact absurd ‹_› (splitOn_ne_nil sep r)
    · rename_i field fields h
      rw [h] at ih
      by_cases hc : c = sep
      · simp [hc, joinWith, ih]
      · cases fields <;> simp_all [joinWith]

end Consent.Text

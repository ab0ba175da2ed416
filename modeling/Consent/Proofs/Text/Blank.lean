import Mathlib.Data.List.TakeWhile
import Consent.Text.Blank

/-! What trimming takes away: text whose ends are no blanks is its own trimmed form, and whatever
stands before a trimmed end stays. -/

namespace Consent.Text

variable {p : Char → Bool}

theorem dropEndWhile_append_of_ne_nil (s : List Char) {t : List Char} (h : dropEndWhile p t ≠ []) :
    dropEndWhile p (s ++ t) = s ++ dropEndWhile p t := by
  induction s with
  | nil => rfl
  | cons c r ih =>
    have hne : r ++ dropEndWhile p t ≠ [] := by simp [h]
    obtain ⟨d, more, hmore⟩ := List.exists_cons_of_ne_nil hne
    rw [List.cons_append, dropEndWhile, ih, List.cons_append, hmore]

theorem dropEndWhile_cons {c : Char} (hc : p c = false) (r : List Char) :
    dropEndWhile p (c :: r) = c :: dropEndWhile p r := by
  rw [dropEndWhile]
  cases dropEndWhile p r with
  | nil => simp [hc]
  | cons d more => rfl

theorem dropEndWhile_append_cons (s : List Char) {c : Char} (hc : p c = false) (r : List Char) :
    dropEndWhile p (s ++ c :: r) = s ++ c :: dropEndWhile p r := by
  have hr := dropEndWhile_cons hc r
  rw [dropEndWhile_append_of_ne_nil s (by simp [hr]), hr]

/-- Only characters of `p` are dropped. -/
theorem exists_dropEndWhile_append (p : Char → Bool) (s : List Char) :
    ∃ dropped, s = dropEndWhile p s ++ dropped ∧ ∀ c ∈ dropped, p c = true := by
  induction s with
  | nil => exact ⟨[], rfl, by simp⟩
  | cons c r ih =>
    obtain ⟨dropped, hr, hdropped⟩ := ih
    rw [dropEndWhile]
    cases hrest : dropEndWhile p r with
    | cons d more =>
      rw [hrest] at hr
      exact ⟨dropped, congrArg (c :: ·) hr, hdropped⟩
    | nil =>
      rw [hrest, List.nil_append] at hr
      cases hc : p c with
      | false => exact ⟨dropped, by simp [hr], hdropped⟩
      | true => exact ⟨c :: dropped, by simp [hr], by simpa [hc] using hdropped⟩

theorem dropEndWhile_eq_self {s : List Char} (h : ∀ c ∈ s.getLast?, p c = false) :
    dropEndWhile p s = s := by
  rcases List.eq_nil_or_concat s with rfl | ⟨r, c, rfl⟩
  · rfl
  · have hc : p c = false := h c (by simp)
    rw [List.concat_eq_append, dropEndWhile_append_cons r hc, dropEndWhile]

theorem dropEndWhile_eq_nil {s : List Char} (h : ∀ c ∈ s, p c = true) : dropEndWhile p s = [] := by
  induction s with
  | nil => rfl
  | cons c r ih =>
    have hr := ih fun d hd => h d (List.mem_cons_of_mem c hd)
    simp [dropEndWhile, hr, h c List.mem_cons_self]

theorem dropEndWhile_append_of_forall {t : List Char} (ht : ∀ c ∈ t, p c = true) (s : List Char) :
    dropEndWhile p (s ++ t) = dropEndWhile p s := by
  induction s with
  | nil => exact dropEndWhile_eq_nil ht
  | cons c r ih => rw [List.cons_append, dropEndWhile, dropEndWhile, ih]

theorem trimWhile_cons {c : Char} (hc : p c = false) (r : List Char) :
    trimWhile p (c :: r) = c :: dropEndWhile p r := by
  rw [trimWhile, List.dropWhile_cons_of_neg (by simp [hc]), dropEndWhile_cons hc]

theorem trimWhile_eq_self {s : List Char} (hfirst : ∀ c ∈ s.head?, p c = false)
    (hlast : ∀ c ∈ s.getLast?, p c = false) : trimWhile p s = s := by
  cases s with
  | nil => rfl
  | cons c r =>
    have hc : p c = false := hfirst c (by simp)
    rw [trimWhile_cons hc, ← dropEndWhile_cons hc, dropEndWhile_eq_self hlast]

/-- Trimming does not see what is put around a text of other characters. -/
theorem trimWhile_surrounded {before s after : List Char} (hbefore : ∀ c ∈ before, p c = true)
    (hs : ∀ c ∈ s, p c = false) (hafter : ∀ c ∈ after, p c = true) :
    trimWhile p (before ++ (s ++ after)) = s := by
  rw [trimWhile, List.dropWhile_append_of_pos hbefore]
  cases s with
  | nil =>
    have hdrop : after.dropWhile p = [] := List.dropWhile_eq_nil_iff.mpr hafter
    rw [List.nil_append, hdrop, dropEndWhile]
  | cons c r =>
    have hc : p c = false := hs c List.mem_cons_self
    have hlast : ∀ d ∈ (c :: r).getLast?, p d = false := fun d hd =>
      hs d (List.mem_of_getLast? hd)
    rw [List.cons_append, List.dropWhile_cons_of_neg (by simp [hc]), ← List.cons_append,
      dropEndWhile_append_of_forall hafter, dropEndWhile_eq_self hlast]

/-- What is trimmed does not begin with a character that trimming takes away. -/
theorem head?_trimWhile {s : List Char} {c : Char} (h : (trimWhile p s).head? = some c) :
    p c = false := by
  unfold trimWhile at h
  cases hs : s.dropWhile p with
  | nil => simp [hs, dropEndWhile] at h
  | cons d rest =>
    have hd : p d = false := by
      have hnot := List.head_dropWhile_not p (l := s) (by simp [hs])
      simpa [hs] using hnot
    rw [hs, dropEndWhile_cons hd] at h
    rwa [← Option.some.inj h]

theorem getLast?_dropEndWhile {s : List Char} {c : Char}
    (h : (dropEndWhile p s).getLast? = some c) : p c = false := by
  induction s with
  | nil => cases h
  | cons d r ih =>
    rw [dropEndWhile] at h
    split at h
    · split at h
      · cases h
      · rename_i hd
        cases h
        exact eq_false_of_ne_true hd
    · rename_i hne
      obtain ⟨e, more, hmore⟩ := List.exists_cons_of_ne_nil hne
      rw [hmore, List.getLast?_cons_cons, ← hmore] at h
      exact ih h

/-- Trimming once is enough. -/
theorem trim_trim (s : List Char) : trim (trim s) = trim s :=
  trimWhile_eq_self (fun _ => head?_trimWhile) fun _ => getLast?_dropEndWhile

theorem mem_of_mem_trimWhile {s : List Char} {c : Char} (h : c ∈ trimWhile p s) : c ∈ s := by
  obtain ⟨dropped, hs, -⟩ := exists_dropEndWhile_append p (s.dropWhile p)
  have hmem : c ∈ s.dropWhile p := by
    rw [hs]
    exact List.mem_append_left dropped h
  exact (List.dropWhile_suffix p).subset hmem

/-- Trimming goes by the characters, and so is the same before and after a change of characters
that `p` does not tell apart. -/
theorem trimWhile_map {f : Char → Char} (h : ∀ c, p (f c) = p c) (s : List Char) :
    trimWhile p (s.map f) = (trimWhile p s).map f := by
  have hend : ∀ r : List Char, dropEndWhile p (r.map f) = (dropEndWhile p r).map f := by
    intro r
    induction r with
    | nil => rfl
    | cons c r ih =>
      rw [List.map_cons, dropEndWhile, dropEndWhile, ih, h]
      cases dropEndWhile p r with
      | nil => cases p c <;> rfl
      | cons d more => rfl
  have hfront : (s.map f).dropWhile p = (s.dropWhile p).map f := by
    rw [List.dropWhile_map]
    congr 2
    funext c
    exact h c
  rw [trimWhile, trimWhile, hfront, hend]

/-- The visible characters of ASCII are no blanks. -/
theorem isBlank_eq_false {c : Char} (hlo : 33 ≤ c.toNat) (hhi : c.toNat ≤ 126) :
    isBlank c = false := by
  have hspaces : (decide (0x2000 ≤ c.toNat) && decide (c.toNat ≤ 0x200a)) = false := by
    simp only [Bool.and_eq_false_iff, decide_eq_false_iff_not]
    omega
  unfold isBlank
  -- the listed blanks lie outside the range, the others are Unicode spaces
  split <;> omega

end Consent.Text

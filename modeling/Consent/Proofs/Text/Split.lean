import Consent.Text.Split

/-! Cutting and splitting undo joining when the separator stands nowhere else. -/

namespace Consent.Text

variable {sep : Char}

/-- Text without the separator stays whole at the front of a cut. -/
theorem cut_append_left {s : List Char} (h : sep ∉ s) (t : List Char) :
    cut sep (s ++ t) = (s ++ (cut sep t).1, (cut sep t).2) := by
  induction s with
  | nil => rfl
  | cons c r ih =>
    simp only [List.mem_cons, not_or] at h
    simp [cut, Ne.symm h.1, ih h.2]

theorem cut_of_not_mem {s : List Char} (h : sep ∉ s) : cut sep s = (s, none) := by
  simpa [cut] using cut_append_left h []

theorem cut_append {s : List Char} (h : sep ∉ s) (t : List Char) :
    cut sep (s ++ sep :: t) = (s, some t) := by
  simpa [cut] using cut_append_left h (sep :: t)

/-- Cutting at the first separator loses nothing but the separator. -/
theorem append_of_cut {s before after : List Char} (h : cut sep s = (before, some after)) :
    before ++ sep :: after = s := by
  induction s generalizing before with
  | nil => cases h
  | cons c r ih =>
    unfold cut at h
    split at h
    · rename_i hc
      cases h
      rw [hc, List.nil_append]
    · obtain ⟨rfl, hafter⟩ := Prod.mk.inj h
      rw [List.cons_append, ih (Prod.ext rfl hafter)]

theorem isPrefix_cut (sep : Char) (s : List Char) : (cut sep s).1 <+: s := by
  rcases hcut : cut sep s with ⟨before, _ | after⟩
  · have hs := cut_spec sep s
    rw [hcut] at hs
    exact ⟨[], by rw [List.append_nil, hs]⟩
  · exact ⟨sep :: after, append_of_cut hcut⟩

/-- Text without the separator behind a text goes with one of the sides of a cut. -/
theorem cut_append_right {t : List Char} (h : sep ∉ t) (s : List Char) :
    ∃ d e, (d = [] ∨ d = t) ∧ (e = [] ∨ e = t) ∧ (cut sep (s ++ t)).1 = (cut sep s).1 ++ d ∧
      (cut sep (s ++ t)).2.getD [] = (cut sep s).2.getD [] ++ e := by
  induction s with
  | nil => exact ⟨t, [], Or.inr rfl, Or.inl rfl, by simp [cut, cut_of_not_mem h]⟩
  | cons c r ih =>
    by_cases hc : c = sep
    · exact ⟨[], t, Or.inl rfl, Or.inr rfl, by simp [cut, hc]⟩
    · obtain ⟨d, e, hd, he, hfirst, hsecond⟩ := ih
      exact ⟨d, e, hd, he, by simp [cut, hc, hfirst], by simp [cut, hc, hsecond]⟩

/-- A separator in the first text decides the cut. -/
theorem cut_append_of_mem {s : List Char} (h : sep ∈ s) (t : List Char) :
    ∃ before after, cut sep (s ++ t) = (before, some (after ++ t)) := by
  induction s with
  | nil => cases h
  | cons c r ih =>
    by_cases hc : c = sep
    · exact ⟨[], r, by simp [cut, hc]⟩
    · have hr : sep ∈ r := by simpa [Ne.symm hc] using h
      obtain ⟨before, after, hcut⟩ := ih hr
      exact ⟨c :: before, after, by simp [cut, hc, hcut]⟩

/-- Text that is not cut is all before the separator. -/
theorem eq_of_cut {s before : List Char} (h : cut sep s = (before, none)) : before = s := by
  by_cases hmem : sep ∈ s
  · obtain ⟨b, a, hcut⟩ := cut_append_of_mem hmem []
    rw [List.append_nil, h] at hcut
    cases hcut
  · rw [cut_of_not_mem hmem] at h
    exact (Prod.mk.inj h).1.symm

theorem cutLast?_eq_none {s : List Char} (h : sep ∉ s) : cutLast? sep s = none := by
  induction s with
  | nil => rfl
  | cons c r ih =>
    simp only [List.mem_cons, not_or] at h
    simp [cutLast?, Ne.symm h.1, ih h.2]

theorem cutLast?_append {t : List Char} (h : sep ∉ t) (s : List Char) :
    cutLast? sep (s ++ sep :: t) = some (s, t) := by
  induction s with
  | nil => simp [cutLast?, cutLast?_eq_none h]
  | cons c r ih => simp [cutLast?, ih]

theorem cutLast?_append_right {t : List Char} (h : sep ∉ t) (s : List Char) :
    cutLast? sep (s ++ t) = (cutLast? sep s).map fun pair => (pair.1, pair.2 ++ t) := by
  induction s with
  | nil => simp [cutLast?, cutLast?_eq_none h]
  | cons c r ih =>
    rw [List.cons_append, cutLast?, cutLast?, ih]
    cases cutLast? sep r with
    | some pair => rfl
    | none =>
      simp only [Option.map_none]
      split <;> rfl

/-- Cutting at the last separator loses nothing but the separator. -/
theorem append_of_cutLast? {s before after : List Char}
    (h : cutLast? sep s = some (before, after)) : before ++ sep :: after = s := by
  induction s generalizing before with
  | nil => cases h
  | cons c r ih =>
    unfold cutLast? at h
    split at h
    · rename_i before' after' hr
      cases h
      rw [List.cons_append, ih hr]
    · split at h
      · rename_i hc
        cases h
        rw [hc, List.nil_append]
      · cases h

theorem exists_cutLast?_of_mem {s : List Char} (h : sep ∈ s) :
    ∃ before after, cutLast? sep s = some (before, after) := by
  induction s with
  | nil => cases h
  | cons c r ih =>
    unfold cutLast?
    split
    · exact ⟨_, _, rfl⟩
    · rename_i hr
      by_cases hc : c = sep
      · exact ⟨[], r, if_pos hc⟩
      · have hmem : sep ∈ r := by simpa [Ne.symm hc] using h
        obtain ⟨before, after, hcut⟩ := ih hmem
        rw [hr] at hcut
        cases hcut

theorem not_mem_of_cutLast? {s : List Char} (h : cutLast? sep s = none) : sep ∉ s := by
  intro hmem
  obtain ⟨before, after, hcut⟩ := exists_cutLast?_of_mem hmem
  rw [h] at hcut
  cases hcut

theorem splitOn_of_not_mem {s : List Char} (h : sep ∉ s) : splitOn sep s = [s] := by
  induction s with
  | nil => rfl
  | cons c r ih =>
    simp only [List.mem_cons, not_or] at h
    simp [splitOn, ih h.2, Ne.symm h.1]

theorem splitOn_append {s : List Char} (h : sep ∉ s) (t : List Char) :
    splitOn sep (s ++ sep :: t) = s :: splitOn sep t := by
  obtain ⟨field, fields, ht⟩ := List.exists_cons_of_ne_nil (splitOn_ne_nil sep t)
  induction s with
  | nil => simp [splitOn, ht]
  | cons c r ih =>
    simp only [List.mem_cons, not_or] at h
    simp [splitOn, ih h.2, Ne.symm h.1]

theorem joinWith_cons {fields : List (List Char)} (hne : fields ≠ []) (field : List Char) :
    joinWith sep (field :: fields) = field ++ sep :: joinWith sep fields := by
  obtain ⟨next, more, rfl⟩ := List.exists_cons_of_ne_nil hne
  rfl

theorem splitOn_joinWith {fields : List (List Char)} (hne : fields ≠ [])
    (h : ∀ f ∈ fields, sep ∉ f) : splitOn sep (joinWith sep fields) = fields := by
  induction fields with
  | nil => exact absurd rfl hne
  | cons f rest ih =>
    cases rest with
    | nil => exact splitOn_of_not_mem (h f List.mem_cons_self)
    | cons g more =>
      rw [joinWith, splitOn_append (h f List.mem_cons_self),
        ih (List.cons_ne_nil g more) fun x hx => h x (List.mem_cons_of_mem f hx)]
      simp

theorem mem_of_mem_joinWith {fields : List (List Char)} {c : Char} (h : c ∈ joinWith sep fields) :
    c = sep ∨ ∃ f ∈ fields, c ∈ f := by
  induction fields with
  | nil => cases h
  | cons f rest ih =>
    cases rest with
    | nil => exact Or.inr ⟨f, List.mem_cons_self, h⟩
    | cons g more =>
      simp only [joinWith, List.mem_append, List.mem_cons] at h
      rcases h with h | h | h
      · exact Or.inr ⟨f, List.mem_cons_self, h⟩
      · exact Or.inl h
      · obtain hc | ⟨x, hx, hc⟩ := ih h
        · exact Or.inl hc
        · exact Or.inr ⟨x, List.mem_cons_of_mem f hx, hc⟩

theorem not_mem_of_mem_splitOn {s f : List Char} (hf : f ∈ splitOn sep s) : sep ∉ f := by
  induction s generalizing f with
  | nil => simp_all [splitOn]
  | cons c r ih =>
    unfold splitOn at hf
    split at hf
    · simp_all
    · rename_i field fields hr
      split at hf
      · rw [← hr, List.mem_cons] at hf
        rcases hf with rfl | hf
        · simp
        · exact ih hf
      · rename_i hc
        rcases List.mem_cons.mp hf with rfl | hf
        · have := ih (f := field) (by simp [hr])
          simp [this, Ne.symm hc]
        · exact ih (by simp [hr, hf])

theorem occursIn_iff_isInfix {needle s : List Char} : occursIn needle s = true ↔ needle <:+: s := by
  induction s with
  | nil => simp [occursIn]
  | cons c r ih =>
    rw [occursIn, Bool.or_eq_true, List.isPrefixOf_iff_prefix, ih, List.infix_cons_iff]

end Consent.Text

import Consent.Origin.Attributes
import Consent.Proofs.Except
import Consent.Proofs.Text.Numeral
import Consent.Proofs.Text.Split

/-! The suffix of isolation attributes reads back as the attributes. Its keys have capitals in them,
so that text in lower case before it is never taken for a part of it. -/

namespace Consent.Origin.Attributes

open Text

theorem apply_appId (a : Attributes) (id : UInt32) :
    a.apply (appIdKey ++ '=' :: digits id.toNat) = .ok { a with appId := id } := by
  have hcut : cut '=' (appIdKey ++ '=' :: digits id.toNat) = (appIdKey, some (digits id.toNat)) :=
    cut_append (by decide) _
  have hlt : id.toNat < 4294967296 := id.toNat_lt
  have hread : parseAppId (digits id.toNat) = .ok id := by
    simp [parseAppId, digits_ne_nil, readDigits_digits hlt, Except.map]
  simp [apply, hcut, hread]

theorem apply_inBrowser (a : Attributes) :
    a.apply (inBrowserKey ++ ['=', '1']) = .ok { a with inBrowser := true } := by
  have hcut : cut '=' (inBrowserKey ++ ['=', '1']) = (inBrowserKey, some ['1']) :=
    cut_append (by decide) _
  have hne : inBrowserKey ≠ appIdKey := by decide
  simp [apply, hcut, hne]

theorem not_mem_of_mem_params {a : Attributes} {param : List Char} (h : param ∈ a.params) :
    '&' ∉ param := by
  unfold params at h
  rcases List.mem_append.mp h with h | h
  · split at h
    · cases h
    · rw [List.mem_singleton.mp h]
      have hdigits := not_mem_digits (c := '&') (by decide) a.appId.toNat
      simp [appIdKey, hdigits]
  · split at h
    · rw [List.mem_singleton.mp h]
      decide
    · cases h

theorem foldlM_params (a : Attributes) : a.params.foldlM apply {} = .ok a := by
  obtain ⟨id, inBrowser⟩ := a
  by_cases hid : id = 0
  · cases inBrowser <;> simp [params, hid, apply_inBrowser, bind, Except.bind, pure, Except.pure]
  · cases inBrowser <;> simp [params, hid, apply_appId, apply_inBrowser, bind, Except.bind, pure,
      Except.pure]

theorem params_ne_nil {a : Attributes} (h : a.isDefault = false) : a.params ≠ [] := by
  obtain ⟨id, inBrowser⟩ := a
  simp only [isDefault, Bool.and_eq_false_iff, beq_eq_false_iff_ne] at h
  rcases h with h | h
  · simp [params, h]
  · simp at h
    simp [params, h]

theorem eq_of_isDefault {a : Attributes} (h : a.isDefault = true) : a = {} := by
  obtain ⟨id, inBrowser⟩ := a
  simpa [isDefault] using h

theorem joinWith_params_eq_cons {a : Attributes} (h : a.isDefault = false) :
    ∃ c rest, joinWith '&' a.params = c :: rest ∧ c ≠ '^' := by
  obtain ⟨id, inBrowser⟩ := a
  by_cases hid : id = 0
  · cases inBrowser with
    | false => simp [isDefault, hid] at h
    | true => exact ⟨'i', _, by simp [params, hid, inBrowserKey, joinWith]; rfl, by decide⟩
  · cases inBrowser with
    | false => exact ⟨'a', _, by simp [params, hid, appIdKey, joinWith]; rfl, by decide⟩
    | true => exact ⟨'a', _, by simp [params, hid, appIdKey, joinWith]; rfl, by decide⟩

theorem foldlM_splitOn_params {a : Attributes} (h : a.isDefault = false) :
    (splitOn '&' (joinWith '&' a.params)).foldlM apply {} = .ok a := by
  rw [splitOn_joinWith (params_ne_nil h) fun _ => not_mem_of_mem_params, foldlM_params]

/-- Parameters are read without the caret before them, too. -/
theorem parse_params {a : Attributes} (h : a.isDefault = false) :
    parse (joinWith '&' a.params) = .ok a := by
  have hfold := foldlM_splitOn_params h
  obtain ⟨c, rest, hjoin, hc⟩ := joinWith_params_eq_cons h
  rw [hjoin] at hfold ⊢
  unfold parse
  split
  · rename_i heq
    exact absurd (List.cons.inj heq).1 hc
  · simpa using hfold

/-- Reading a suffix gives the attributes back. -/
theorem parse_suffix (a : Attributes) : parse a.suffix = .ok a := by
  cases hd : a.isDefault with
  | true =>
    rw [eq_of_isDefault hd]
    rfl
  | false =>
    have hfold := foldlM_splitOn_params hd
    obtain ⟨c, rest, hjoin, -⟩ := joinWith_params_eq_cons hd
    rw [hjoin] at hfold
    simp [parse, suffix, hd, hjoin, hfold]

theorem suffix_injective {a b : Attributes} (h : a.suffix = b.suffix) : a = b := by
  have := parse_suffix a
  rw [h, parse_suffix b] at this
  exact (Except.ok.inj this).symm

/-- ASCII capitals. -/
def isCapital (c : Char) : Bool := 'A' ≤ c && c ≤ 'Z'

/-- Up to its first capital a suffix is one of three texts, and the capital tells which. -/
theorem suffix_cases (a : Attributes) :
    a.suffix = [] ∨ (∃ rest, a.suffix = '^' :: 'a' :: 'p' :: 'p' :: 'I' :: rest) ∨
      ∃ rest, a.suffix = '^' :: 'i' :: 'n' :: 'B' :: rest := by
  obtain ⟨id, inBrowser⟩ := a
  by_cases hid : id = 0
  · cases inBrowser with
    | false => exact Or.inl (by simp [suffix, isDefault, hid])
    | true =>
      right; right
      exact ⟨_, by simp [suffix, isDefault, params, hid, inBrowserKey, joinWith]; rfl⟩
  · cases inBrowser with
    | false =>
      right; left
      exact ⟨_, by simp [suffix, isDefault, params, hid, appIdKey, joinWith]; rfl⟩
    | true =>
      right; left
      exact ⟨_, by simp [suffix, isDefault, params, hid, appIdKey, joinWith]; rfl⟩

theorem head?_suffix (a : Attributes) : ∀ c ∈ a.suffix.head?, c = '^' := by
  intro c hc
  rcases a.suffix_cases with hs | ⟨rest, hs⟩ | ⟨rest, hs⟩
  · simp [hs] at hc
  · simpa [hs, eq_comm] using hc
  · simpa [hs, eq_comm] using hc

theorem eq_default_of_suffix {a : Attributes} (h : a.suffix = []) : a = {} :=
  suffix_injective (h.trans rfl)

/-- Behind texts without capitals, equal suffixes are those of equal attributes. -/
theorem eq_of_append_suffix {s t : List Char} {a b : Attributes}
    (hs : ∀ c ∈ s, isCapital c = false) (ht : ∀ c ∈ t, isCapital c = false)
    (h : s ++ a.suffix = t ++ b.suffix) : a = b := by
  have hdrop : ∀ {s : List Char} (c : Attributes), (∀ d ∈ s, isCapital d = false) →
      (s ++ c.suffix).dropWhile (!isCapital ·) = c.suffix.dropWhile (!isCapital ·) := by
    intro s c hs
    exact List.dropWhile_append_of_pos fun d hd => by simp [hs d hd]
  have hcapitals := congrArg (List.dropWhile (!isCapital ·)) h
  rw [hdrop a hs, hdrop b ht] at hcapitals
  apply suffix_injective
  rcases a.suffix_cases with ha | ⟨rest, ha⟩ | ⟨rest, ha⟩ <;>
    rcases b.suffix_cases with hb | ⟨rest', hb⟩ | ⟨rest', hb⟩ <;>
    simp_all [isCapital]

/-- Text that reads as parameters begins with the key of one. -/
theorem isPrefix_of_foldlM {s : List Char} {a b : Attributes}
    (h : (splitOn '&' s).foldlM apply a = .ok b) : appIdKey <+: s ∨ inBrowserKey <+: s := by
  obtain ⟨param, params, hsplit⟩ := List.exists_cons_of_ne_nil (splitOn_ne_nil '&' s)
  have hparam : param <+: s := by
    rw [← joinWith_splitOn '&' s, hsplit]
    cases params with
    | nil => exact List.prefix_refl param
    | cons more rest => exact ⟨'&' :: joinWith '&' (more :: rest), rfl⟩
  rw [hsplit, List.foldlM_cons] at h
  obtain ⟨a', happly, -⟩ := Except.bind_eq_ok.mp h
  have hspec := cut_spec '=' param
  unfold apply at happly
  split at happly
  · cases happly
  · rename_i key value hcut
    rw [hcut] at hspec
    have hkey : key <+: s := by
      refine List.IsPrefix.trans ?_ hparam
      rw [hspec]
      exact List.prefix_append key _
    split at happly
    · rename_i heq
      exact Or.inl (heq ▸ hkey)
    · split at happly
      · rename_i heq
        exact Or.inr (heq ▸ hkey)
      · cases happly

/-- No key reaches over a text without capitals into a suffix. -/
theorem not_isPrefix_append_suffix {key s : List Char} (hs : ∀ c ∈ s, isCapital c = false)
    (hcapital : ∃ c ∈ key, isCapital c = true) (hcaret : '^' ∉ key) (a : Attributes) :
    ¬key <+: s ++ a.suffix := by
  obtain ⟨c, hc, hcap⟩ := hcapital
  have hnot : ¬key <+: s := by
    intro hkey
    have := hs c (hkey.subset hc)
    rw [hcap] at this
    cases this
  intro hkey
  rcases List.prefix_or_prefix_of_prefix hkey (List.prefix_append s a.suffix) with hle | ⟨more, rfl⟩
  · exact hnot hle
  · rw [List.prefix_append_right_inj] at hkey
    obtain ⟨rest, hrest⟩ := hkey
    cases more with
    | nil => exact hnot (by simp)
    | cons d more =>
      have hd : d = '^' := a.head?_suffix d (by simp [← hrest])
      exact hcaret (by simp [hd])

/-- What reads as attributes with a suffix at its end is that suffix, but for a caret before it. -/
theorem eq_of_parse_append_suffix {s : List Char} {a b : Attributes}
    (hs : ∀ c ∈ s, isCapital c = false) (h : parse (s ++ a.suffix) = .ok b) :
    b = a ∧ (s = [] ∨ s = ['^']) := by
  have hnone : ∀ {t : List Char} {a' : Attributes}, (∀ c ∈ t, isCapital c = false) →
      (splitOn '&' (t ++ a.suffix)).foldlM apply a' ≠ .ok b := by
    intro t a' ht hfold
    rcases isPrefix_of_foldlM hfold with hkey | hkey
    · exact not_isPrefix_append_suffix ht ⟨'I', by decide, by decide⟩ (by decide) a hkey
    · exact not_isPrefix_append_suffix ht ⟨'B', by decide, by decide⟩ (by decide) a hkey
  cases s with
  | nil =>
    rw [List.nil_append, parse_suffix] at h
    exact ⟨(Except.ok.inj h).symm, Or.inl rfl⟩
  | cons c t =>
    by_cases hc : c = '^'
    · subst hc
      have ht : ∀ d ∈ t, isCapital d = false := fun d hd => hs d (List.mem_cons_of_mem _ hd)
      have hparse : parse ('^' :: (t ++ a.suffix)) = if (t ++ a.suffix).isEmpty then .ok {}
          else (splitOn '&' (t ++ a.suffix)).foldlM apply {} := rfl
      rw [List.cons_append, hparse] at h
      split at h
      · rename_i hempty
        rw [List.isEmpty_iff, List.append_eq_nil_iff] at hempty
        rw [eq_default_of_suffix hempty.2, hempty.1]
        exact ⟨(Except.ok.inj h).symm, Or.inr rfl⟩
      · exact absurd h (hnone ht)
    · have hparse : parse (c :: t ++ a.suffix) =
          (splitOn '&' (c :: t ++ a.suffix)).foldlM apply {} := by
        unfold parse
        split
        · rename_i heq
          exact absurd (List.cons.inj heq).1 hc
        · simp
      rw [hparse] at h
      exact absurd h (hnone hs)

end Consent.Origin.Attributes

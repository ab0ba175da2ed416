import Mathlib.Data.List.Count
import Consent.Proofs.Uri.HostText

/-! What escapes do to the length of a text, which texts they leave as they are, and how much of a
text decides its decoded beginning. -/

namespace Consent.Uri

open Text Host

variable {part : Part}

theorem unescape_cons {c : Char} (hc : c ≠ '%') (s : List Char) :
    unescape part (c :: s) =
      if admitsChar part c then (unescape part s).map (.char c :: ·)
      else .error (.badHostChar c) := by
  conv_lhs => unfold unescape
  split
  · rename_i heq
    cases heq
  · rename_i heq
    exact absurd (List.cons.inj heq).1 hc
  · rename_i heq
    obtain ⟨rfl, rfl⟩ := List.cons.inj heq
    rfl

theorem unescape_of_admits {s : List Char} (h : ∀ c ∈ s, c ≠ '%' ∧ admitsChar part c = true) :
    unescape part s = .ok (s.map .char) := by
  induction s with
  | nil => rfl
  | cons c rest ih =>
    obtain ⟨hc, hadmits⟩ := h c List.mem_cons_self
    have hrest := ih fun d hd => h d (List.mem_cons_of_mem c hd)
    rw [unescape_cons hc, if_pos hadmits, hrest]
    rfl

/-- Text of characters that stand for themselves is its own decoded form. -/
theorem decode_of_admits {s : List Char} (h : ∀ c ∈ s, c ≠ '%' ∧ admitsChar part c = true) :
    decode part s = .ok (s.map .char) := by
  simp [decode, unescape_of_admits h, Except.map]

theorem isAlnum_of_isHexDigit {c : Char} (h : isHexDigit c = true) : isAlnum c = true := by
  simp only [isHexDigit, isAlnum, Bool.or_eq_true, Bool.and_eq_true, decide_eq_true_eq] at h ⊢
  rcases h with (hdigit | ⟨hlo, hhi⟩) | ⟨hlo, hhi⟩
  · exact Or.inl (Or.inl hdigit)
  · exact Or.inl (Or.inr ⟨hlo, Char.le_trans hhi (by decide)⟩)
  · exact Or.inr ⟨hlo, Char.le_trans hhi (by decide)⟩

theorem admitsChar_of_isHexDigit {c : Char} (h : isHexDigit c = true) :
    admitsChar part c = true := by
  simp [admitsChar, isHostChar, isAlnum_of_isHexDigit h]

/-- A text that can be unescaped has only characters that may stand in the part, and percent
signs. -/
theorem admits_of_unescape {s : List Char} {ps : List Piece} (h : unescape part s = .ok ps) :
    ∀ c ∈ s, c = '%' ∨ admitsChar part c = true := by
  fun_induction unescape part s generalizing ps with
  | case1 => simp
  | case2 high low rest hhex hadm ih =>
    obtain ⟨qs, hqs, -⟩ := Except.map_eq_ok.mp h
    rw [Bool.and_eq_true] at hhex
    have hrest := ih hqs
    simp only [List.mem_cons, forall_eq_or_imp, true_or, true_and]
    exact ⟨Or.inr (admitsChar_of_isHexDigit hhex.1), Or.inr (admitsChar_of_isHexDigit hhex.2),
      hrest⟩
  | case6 c rest hc hadm ih =>
    obtain ⟨qs, hqs, -⟩ := Except.map_eq_ok.mp h
    have hrest := ih hqs
    simp only [List.mem_cons, forall_eq_or_imp]
    exact ⟨Or.inr hadm, hrest⟩
  | _ => cases h

/-- Each escape takes two characters out of a text. -/
theorem length_of_unescape {s : List Char} {ps : List Piece} (h : unescape part s = .ok ps) :
    ps.length + 2 * s.count '%' = s.length := by
  fun_induction unescape part s generalizing ps with
  | case1 =>
    cases h
    rfl
  | case2 high low rest hhex hadm ih =>
    obtain ⟨qs, hqs, rfl⟩ := Except.map_eq_ok.mp h
    simp only [Bool.and_eq_true] at hhex
    have hhigh : high ≠ '%' := by
      rintro rfl
      exact absurd hhex.1 (by decide)
    have hlow : low ≠ '%' := by
      rintro rfl
      exact absurd hhex.2 (by decide)
    have hrest := ih hqs
    rw [List.count_cons_self, List.count_cons_of_ne hhigh, List.count_cons_of_ne hlow]
    simp only [List.length_cons]
    omega
  | case6 c rest hc hadm ih =>
    obtain ⟨qs, hqs, rfl⟩ := Except.map_eq_ok.mp h
    have hrest := ih hqs
    rw [List.count_cons_of_ne hc]
    simp only [List.length_cons]
    omega
  | _ => cases h

theorem length_settleFrom_le (skip : Nat) (ps : List Piece) :
    (settleFrom skip ps).length ≤ ps.length := by
  fun_induction settleFrom skip ps with
  | case1 => exact Nat.le_refl _
  | case2 skip q rest ih => exact Nat.le_succ_of_le ih
  | case3 c rest ih => exact Nat.succ_le_succ ih
  | case4 b rest c more hlead ih => exact Nat.succ_le_succ ih
  | case5 b rest hlead ih => exact Nat.succ_le_succ ih

theorem length_of_decode {s : List Char} {ps : List Piece} (h : decode part s = .ok ps) :
    ps.length + 2 * s.count '%' ≤ s.length := by
  obtain ⟨qs, hqs, rfl⟩ := Except.map_eq_ok.mp h
  have hlength := length_of_unescape hqs
  have hsettle := length_settleFrom_le 0 qs
  simp only [settle]
  omega

/-- A host is decoded to its own characters, percent signs, and characters outside ASCII. -/
theorem mem_of_unescape_host {s : List Char} {ps : List Piece} {c : Char}
    (h : unescape .host s = .ok ps) (hc : .char c ∈ ps) :
    c = '%' ∨ c ∈ s ∧ admitsChar .host c = true := by
  fun_induction unescape .host s generalizing ps with
  | case1 =>
    cases h
    cases hc
  | case2 high low rest hhex hadm ih =>
    obtain ⟨qs, hqs, rfl⟩ := Except.map_eq_ok.mp h
    rcases List.mem_cons.mp hc with heq | hc
    · left
      simp only [admitsEscape, Bool.or_eq_true, Bool.and_eq_true, decide_eq_true_eq] at hadm
      rcases hadm with hlarge | ⟨rfl, rfl⟩
      · simp [escapedPiece, Nat.not_lt.mpr hlarge] at heq
      · exact Piece.char.inj heq
    · have hrest := ih hqs hc
      exact hrest.imp_right fun hmem => ⟨by simp [hmem.1], hmem.2⟩
  | case6 d rest hd hadm ih =>
    obtain ⟨qs, hqs, rfl⟩ := Except.map_eq_ok.mp h
    rcases List.mem_cons.mp hc with heq | hc
    · obtain rfl := Piece.char.inj heq
      exact Or.inr ⟨List.mem_cons_self, hadm⟩
    · have hrest := ih hqs hc
      exact hrest.imp_right fun hmem => ⟨List.mem_cons_of_mem d hmem.1, hmem.2⟩
  | _ => cases h

theorem mem_of_mem_settleFrom {skip : Nat} {ps : List Piece} {c : Char}
    (h : ∀ p ∈ ps, Admissible p) (hc : .char c ∈ settleFrom skip ps) :
    0x80 ≤ c.toNat ∨ .char c ∈ ps := by
  fun_induction settleFrom skip ps with
  | case1 => cases hc
  | case2 skip q rest ih =>
    have hrest := ih (fun p hp => h p (List.mem_cons_of_mem q hp)) hc
    exact hrest.imp_right (List.mem_cons_of_mem q)
  | case3 d rest ih =>
    rcases List.mem_cons.mp hc with heq | hc
    · exact Or.inr (heq ▸ List.mem_cons_self)
    · have hrest := ih (fun p hp => h p (List.mem_cons_of_mem _ hp)) hc
      exact hrest.imp_right (List.mem_cons_of_mem _)
  | case4 b rest d more hlead ih =>
    rcases List.mem_cons.mp hc with heq | hc
    · left
      obtain rfl := Piece.char.inj heq
      exact le_toNat_of_leadingChar? (by simpa [Admissible] using h _ List.mem_cons_self) hlead
    · have hrest := ih (fun p hp => h p (List.mem_cons_of_mem _ hp)) hc
      exact hrest.imp_right (List.mem_cons_of_mem _)
  | case5 b rest hlead ih =>
    rcases List.mem_cons.mp hc with heq | hc
    · cases heq
    · have hrest := ih (fun p hp => h p (List.mem_cons_of_mem _ hp)) hc
      exact hrest.imp_right (List.mem_cons_of_mem _)

/-- The characters of a decoded host: percent signs, and those that may stand in a host, of which
the ASCII ones stood in its text. -/
theorem mem_of_decode_host {s : List Char} {ps : List Piece} {c : Char}
    (h : decode .host s = .ok ps) (hc : c ∈ ps.map Piece.toChar) :
    c = '%' ∨ admitsChar .host c = true ∧ (0x80 ≤ c.toNat ∨ c ∈ s) := by
  have hlarge : 0x80 ≤ c.toNat → admitsChar .host c = true := by
    intro hle
    simp [admitsChar, hle]
  obtain ⟨qs, hqs, rfl⟩ := Except.map_eq_ok.mp h
  obtain ⟨q, hq, rfl⟩ := List.mem_map.mp hc
  cases q with
  | byte b =>
    have hle : 0x80 ≤ replacement.toNat := by decide
    exact Or.inr ⟨hlarge hle, Or.inl hle⟩
  | char c =>
    rcases mem_of_mem_settleFrom (unescape_admissible (by decide) hqs) hq with hle | hmem
    · exact Or.inr ⟨hlarge hle, Or.inl hle⟩
    · have hfrom := mem_of_unescape_host hqs hmem
      exact hfrom.imp_right fun hc => ⟨hc.2, Or.inr hc.1⟩

/-- Characters that belong to no escape: neither percent signs nor hexadecimal digits. -/
def IsPlainText (s : List Char) : Prop := ∀ c ∈ s, c ≠ '%' ∧ isHexDigit c = false

theorem eq_of_unescape {s : List Char} {ps : List Piece} (hs : '%' ∉ s)
    (h : unescape part s = .ok ps) : ps = s.map .char := by
  have hne : ∀ c ∈ s, c ≠ '%' := fun c hc heq => hs (heq ▸ hc)
  have hself := unescape_of_admits fun c hc =>
    ⟨hne c hc, (admits_of_unescape h c hc).resolve_left (hne c hc)⟩
  exact Except.ok.inj (h.symm.trans hself)

theorem isHexDigit_of_unescape {rest : List Char} {ps : List Piece}
    (h : unescape part ('%' :: rest) = .ok ps) :
    ∃ high low more, rest = high :: low :: more ∧ isHexDigit high = true ∧
      isHexDigit low = true := by
  match rest, h with
  | [], h => simp [unescape] at h
  | [c], h => simp [unescape] at h
  | high :: low :: more, h =>
    simp only [unescape] at h
    split at h
    · rename_i hhex
      exact ⟨high, low, more, rfl, Bool.and_eq_true_iff.mp hhex⟩
    · cases h

/-- No escape reaches from a text into plain text behind it. -/
theorem unescape_append {s t : List Char} {ps : List Piece} (ht : IsPlainText t)
    (h : unescape part (s ++ t) = .ok ps) :
    ∃ qs, unescape part s = .ok qs ∧ ps = qs ++ t.map .char := by
  fun_induction unescape part s generalizing ps with
  | case1 => exact ⟨[], rfl, eq_of_unescape (fun hmem => (ht _ hmem).1 rfl) h⟩
  | case2 high low rest hhex hadm ih =>
    simp only [List.cons_append, unescape, hhex, hadm, if_true] at h
    obtain ⟨ps', hps', rfl⟩ := Except.map_eq_ok.mp h
    obtain ⟨qs, hqs, rfl⟩ := ih hps'
    exact ⟨escapedPiece high low :: qs, by rw [hqs]; rfl, rfl⟩
  | case3 high low rest hhex hadm =>
    simp [unescape, hhex, hadm] at h
  | case4 high low rest hhex =>
    simp [unescape, hhex] at h
  | case5 rest hrest =>
    -- an escape that is cut short would need a digit of the plain text
    obtain ⟨high, low, more, heq, hhigh, hlow⟩ := isHexDigit_of_unescape h
    cases rest with
    | nil =>
      have hmem : high ∈ t := by simp [show t = high :: low :: more from heq]
      exact absurd hhigh (by simp [(ht high hmem).2])
    | cons c rest =>
      cases rest with
      | nil =>
        have hmem : low ∈ t := by simp [show t = low :: more from (List.cons.inj heq).2]
        exact absurd hlow (by simp [(ht low hmem).2])
      | cons d r => exact absurd rfl (hrest c d r)
  | case6 c rest hc hadm ih =>
    rw [List.cons_append, unescape_cons hc, if_pos hadm] at h
    obtain ⟨ps', hps', rfl⟩ := Except.map_eq_ok.mp h
    obtain ⟨qs, hqs, rfl⟩ := ih hps'
    exact ⟨.char c :: qs, by rw [hqs]; rfl, rfl⟩
  | case7 c rest hc hadm =>
    rw [List.cons_append, unescape_cons hc, if_neg hadm] at h
    cases h

theorem leadingBytes_append_char (ps : List Piece) (t : List Char) :
    leadingBytes (ps ++ t.map .char) = leadingBytes ps := by
  induction ps with
  | nil => cases t <;> rfl
  | cons p rest ih =>
    cases p with
    | char c => rfl
    | byte b => simp [leadingBytes, ih]

/-- A character is spelled by bytes that are there. -/
theorem lt_length_of_leadingChar? {bs : List UInt8} {c : Char} {n : Nat}
    (h : leadingChar? bs = some (c, n)) : n < bs.length := by
  revert h
  fun_cases leadingChar? bs with
  | case2 | case4 | case6 | case8 =>
    intro h
    obtain ⟨-, rfl⟩ := Prod.mk.inj (Option.some.inj h)
    simp only [List.length_cons]
    omega
  | _ =>
    intro h
    cases h

theorem length_leadingBytes_le (ps : List Piece) : (leadingBytes ps).length ≤ ps.length := by
  induction ps with
  | nil => exact Nat.le_refl _
  | cons p rest ih =>
    cases p with
    | char c => exact Nat.zero_le _
    | byte b => exact Nat.succ_le_succ ih

/-- Characters behind a text take no part in the characters that its bytes spell. -/
theorem settleFrom_append {skip : Nat} {ps : List Piece} (hskip : skip ≤ ps.length)
    (t : List Char) :
    settleFrom skip (ps ++ t.map .char) = settleFrom skip ps ++ t.map .char := by
  fun_induction settleFrom skip ps with
  | case1 skip =>
    obtain rfl : skip = 0 := Nat.le_zero.mp hskip
    exact settle_map_char t
  | case2 skip q rest ih => exact ih (Nat.le_of_succ_le_succ hskip)
  | case3 c rest ih =>
    have hrest := ih (Nat.zero_le _)
    simp only [List.cons_append, settleFrom, hrest]
  | case4 b rest c more hlead ih =>
    have hmore : more ≤ rest.length :=
      Nat.le_trans (Nat.le_of_lt_succ (lt_length_of_leadingChar? hlead))
        (length_leadingBytes_le rest)
    have hrest := ih hmore
    simp only [List.cons_append, settleFrom, leadingBytes_append_char, hlead, hrest]
  | case5 b rest hlead ih =>
    have hrest := ih (Nat.zero_le _)
    simp only [List.cons_append, settleFrom, leadingBytes_append_char, hlead, hrest]

/-- Plain text behind a text is decoded on its own, to itself. -/
theorem decode_append {s t : List Char} {ps : List Piece} (ht : IsPlainText t)
    (h : decode part (s ++ t) = .ok ps) :
    ∃ qs, decode part s = .ok qs ∧ ps = qs ++ t.map .char := by
  obtain ⟨raw, hraw, rfl⟩ := Except.map_eq_ok.mp h
  obtain ⟨qs, hqs, rfl⟩ := unescape_append ht hraw
  refine ⟨settle qs, by simp [decode, hqs, Except.map], ?_⟩
  exact settleFrom_append (Nat.zero_le _) t

end Consent.Uri

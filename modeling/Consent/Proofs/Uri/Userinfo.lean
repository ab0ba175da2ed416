import Consent.Proofs.Uri.Written

/-! The userinfo of an authority: which texts are one, and that the host is read as without it. -/

namespace Consent.Uri

open Text Host

/-- Characters that stand for themselves, and escapes of any byte. -/
inductive IsUserinfo : List Char → Prop
  | nil : IsUserinfo []
  | char {c : Char} {s : List Char} (hc : isUserinfoChar c = true) (hpercent : c ≠ '%')
      (hs : IsUserinfo s) : IsUserinfo (c :: s)
  | escape {high low : Char} {s : List Char} (hhigh : isHexDigit high = true)
      (hlow : isHexDigit low = true) (hs : IsUserinfo s) : IsUserinfo ('%' :: high :: low :: s)

theorem isUserinfoChar_of_isHexDigit {c : Char} (h : isHexDigit c = true) :
    isUserinfoChar c = true := by
  simp [isUserinfoChar, isAlnum_of_isHexDigit h]

/-- Apart from percent and at sign, a userinfo has the characters of hosts. -/
theorem isHostChar_of_isUserinfoChar {c : Char} (h : isUserinfoChar c = true) :
    isHostChar c = true ∨ c = '%' ∨ c = '@' := by
  rcases Bool.or_eq_true_iff.mp h with halnum | hmark
  · exact Or.inl (by simp [isHostChar, halnum])
  · have hall : ['-', '.', '_', ':', '~', '!', '$', '&', '\'', '(', ')', '*', '+', ',', ';', '=',
        '%', '@'].all (fun d => decide (isHostChar d = true ∨ d = '%' ∨ d = '@')) = true := by
      decide
    exact of_decide_eq_true (List.all_eq_true.mp hall c (by simpa using hmark))

theorem toNat_of_isUserinfoChar {c : Char} (h : isUserinfoChar c = true) :
    33 ≤ c.toNat ∧ c.toNat ≤ 126 := by
  rcases isHostChar_of_isUserinfoChar h with hhost | rfl | rfl
  · exact toNat_of_isHostChar hhost
  · decide
  · decide

/-- The characters of a userinfo end no authority. -/
theorem isAuthorityText_of_isUserinfoChar {s : List Char}
    (h : ∀ c ∈ s, isUserinfoChar c = true) : IsAuthorityText s := by
  have hnot : ∀ c, isUserinfoChar c = false → c ∉ s := by
    intro c hc hmem
    rw [h c hmem] at hc
    cases hc
  refine ⟨hnot _ (by decide), hnot _ (by decide), hnot _ (by decide), fun c hc => ?_⟩
  have hrange := toNat_of_isUserinfoChar (h c hc)
  simp only [isControl, Bool.or_eq_false_iff, decide_eq_false_iff_not]
  omega

namespace IsUserinfo

variable {s t : List Char}

theorem chars (h : IsUserinfo s) : ∀ c ∈ s, isUserinfoChar c = true := by
  induction h with
  | nil => simp
  | char hc hpercent hs ih => simpa [hc] using ih
  | escape hhigh hlow hs ih =>
    have hmark : isUserinfoChar '%' = true := by decide
    simpa [hmark, isUserinfoChar_of_isHexDigit hhigh, isUserinfoChar_of_isHexDigit hlow] using ih

theorem append (hs : IsUserinfo s) (ht : IsUserinfo t) : IsUserinfo (s ++ t) := by
  induction hs with
  | nil => exact ht
  | char hc hpercent hs ih => exact .char hc hpercent ih
  | escape hhigh hlow hs ih => exact .escape hhigh hlow ih

theorem exists_unescape (h : IsUserinfo s) : ∃ ps, unescape .plain s = .ok ps := by
  induction h with
  | nil => exact ⟨[], rfl⟩
  | @char c r hc hpercent hs ih =>
    obtain ⟨ps, hps⟩ := ih
    refine ⟨.char c :: ps, ?_⟩
    simp [unescape_cons hpercent, admitsChar, hps, Except.map]
  | @escape high low r hhigh hlow hs ih =>
    obtain ⟨ps, hps⟩ := ih
    refine ⟨escapedPiece high low :: ps, ?_⟩
    simp [unescape, hhigh, hlow, admitsEscape, hps, Except.map]

/-- No escape holds a colon, so both sides of one are userinfo. -/
theorem cut (h : IsUserinfo s) :
    IsUserinfo (cut ':' s).1 ∧ IsUserinfo ((cut ':' s).2.getD []) := by
  induction h with
  | nil => exact ⟨.nil, .nil⟩
  | @char c r hc hpercent hs ih =>
    by_cases hcolon : c = ':'
    · simpa [Text.cut, hcolon] using And.intro IsUserinfo.nil hs
    · simpa [Text.cut, hcolon] using And.intro (IsUserinfo.char hc hpercent ih.1) ih.2
  | @escape high low r hhigh hlow hs ih =>
    have hne : ∀ d, isHexDigit d = true → d ≠ ':' := by
      rintro d hd rfl
      exact absurd hd (by decide)
    simpa [Text.cut, hne high hhigh, hne low hlow] using
      And.intro (IsUserinfo.escape hhigh hlow ih.1) ih.2

theorem of_unescape {ps : List Piece} (hchars : ∀ c ∈ s, isUserinfoChar c = true)
    (h : unescape .plain s = .ok ps) : IsUserinfo s := by
  generalize hpart : Part.plain = part at h
  fun_induction unescape part s generalizing ps with
  | case1 => exact .nil
  | case2 high low rest hhex hadm ih =>
    obtain ⟨qs, hqs, -⟩ := Except.map_eq_ok.mp h
    rw [Bool.and_eq_true] at hhex
    have hrest : ∀ c ∈ rest, isUserinfoChar c = true := fun c hc => hchars c (by simp [hc])
    exact .escape hhex.1 hhex.2 (ih hrest hqs)
  | case6 c rest hc hadm ih =>
    obtain ⟨qs, hqs, -⟩ := Except.map_eq_ok.mp h
    have hrest : ∀ d ∈ rest, isUserinfoChar d = true := fun d hd => hchars d (by simp [hd])
    exact .char (hchars c List.mem_cons_self) hc (ih hrest hqs)
  | _ => cases h

end IsUserinfo

/-- What is accepted before an at sign is exactly a userinfo. -/
theorem checkUserinfo_eq_ok_iff {s : List Char} : checkUserinfo s = .ok () ↔ IsUserinfo s := by
  unfold checkUserinfo
  constructor
  · intro h
    split at h
    · cases h
    · rename_i hall
      have hchars : ∀ c ∈ s, isUserinfoChar c = true := by simpa using hall
      obtain ⟨ps, hname, h⟩ := Except.bind_eq_ok.mp h
      obtain ⟨qs, hpassword, -⟩ := Except.bind_eq_ok.mp h
      cases hcut : cut ':' s with
      | mk name password =>
        rw [hcut] at hname hpassword
        cases password with
        | none =>
          rw [eq_of_cut hcut] at hname
          exact .of_unescape hchars hname
        | some password =>
          have hs := append_of_cut hcut
          have hleft : IsUserinfo name :=
            .of_unescape (fun c hc => hchars c (by simp [← hs, hc])) hname
          have hright : IsUserinfo password :=
            .of_unescape (fun c hc => hchars c (by simp [← hs, hc])) hpassword
          rw [← hs]
          exact hleft.append (.char (by decide) (by decide) hright)
  · intro h
    have hall : s.all isUserinfoChar = true := List.all_eq_true.mpr h.chars
    obtain ⟨ps, hname⟩ := h.cut.1.exists_unescape
    obtain ⟨qs, hpassword⟩ := h.cut.2.exists_unescape
    simp [hall, hname, hpassword, bind, Except.bind]

/-- A userinfo as it stands before a host. -/
def userinfoText : Option (List Char) → List Char
  | none => []
  | some userinfo => userinfo ++ ['@']

/-- Behind a userinfo, host and port are read as without one. -/
theorem Authority.parse_userinfoText {userinfo : Option (List Char)} {s : List Char}
    (hvalid : ∀ text ∈ userinfo, IsUserinfo text) (hat : '@' ∉ s) :
    Authority.parse (userinfoText userinfo ++ s) =
      (readHostPort s).map fun pair => ⟨userinfo, pair.1, pair.2⟩ := by
  cases userinfo with
  | none => exact Authority.parse_of_not_mem hat
  | some text =>
    have hcut : cutLast? '@' (userinfoText (some text) ++ s) = some (text, s) := by
      simpa [userinfoText] using cutLast?_append hat text
    have hcheck : checkUserinfo text = .ok () := checkUserinfo_eq_ok_iff.mpr (hvalid text rfl)
    unfold Authority.parse
    rw [hcut]
    cases hread : readHostPort s with
    | error fault => simp [hread, bind, Except.bind, Except.map]
    | ok pair => simp [hread, hcheck, bind, Except.bind, Except.map]

end Consent.Uri

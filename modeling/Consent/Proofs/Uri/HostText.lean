import Consent.Proofs.Except
import Consent.Proofs.Text.LetterCase
import Consent.Uri.Basic

/-! Which characters a host can hold after its escapes are resolved, however it was spelled. -/

namespace Consent.Uri

open Text Host

/-- The characters of a host: those outside ASCII, those it may hold as they are, and the percent
sign and the space, which escapes may spell. -/
def isHostText (c : Char) : Bool := 0x80 ≤ c.toNat || c = '%' || c = ' ' || isHostChar c

/-- A character of a host, or a byte outside ASCII. -/
def Admissible : Piece → Prop
  | .char c => isHostText c = true
  | .byte b => 0x80 ≤ b

private theorem admissible_of_admitsChar {part : Part} (hp : part ≠ .plain) {c : Char}
    (h : admitsChar part c = true) : isHostText c = true := by
  simp only [admitsChar, hp, decide_false, Bool.false_or, Bool.or_eq_true, decide_eq_true_eq] at h
  rcases h with h | h <;> simp [isHostText, h]

private theorem hexValue_le {c : Char} (h : isHexDigit c = true) : hexValue c ≤ 15 := by
  simp only [isHexDigit, Bool.or_eq_true, Bool.and_eq_true, decide_eq_true_eq] at h
  unfold hexValue
  split
  · rename_i hd
    simp only [isDigit, Bool.and_eq_true, decide_eq_true_eq] at hd
    have hle : c.toNat ≤ 57 := hd.2
    omega
  · rename_i hd
    split
    · rename_i ha
      have hle : c.toNat ≤ 102 := by
        rcases h with (h | h) | h
        · exact absurd h hd
        · exact h.2
        · exact Nat.le_trans h.2 (by decide : 70 ≤ 102)
      omega
    · rename_i ha
      have hle : c.toNat ≤ 70 := by
        rcases h with (h | h) | h
        · exact absurd h hd
        · exact absurd h.1 ha
        · exact h.2
      omega

private theorem admissible_escapedPiece {part : Part} (hp : part ≠ .plain) {high low : Char}
    (hh : isHexDigit high = true) (hl : isHexDigit low = true)
    (h : admitsEscape part high low = true) : Admissible (escapedPiece high low) := by
  have hpercent : high = '2' ∧ low = '5' → Admissible (escapedPiece high low) := by
    rintro ⟨rfl, rfl⟩
    exact (by decide : isHostText (Char.ofNat 37) = true)
  have hlarge : 0x80 ≤ 16 * hexValue high + hexValue low → Admissible (escapedPiece high low) := by
    intro hge
    have hhigh := hexValue_le hh
    have hlow := hexValue_le hl
    simp only [escapedPiece, if_neg (Nat.not_lt.mpr hge), Admissible]
    rw [UInt8.le_iff_toNat_le]
    simp
    omega
  cases part with
  | plain => exact absurd rfl hp
  | host =>
    simp only [admitsEscape, Bool.or_eq_true, Bool.and_eq_true, decide_eq_true_eq] at h
    exact h.elim hlarge hpercent
  | zone =>
    simp only [admitsEscape, Bool.or_eq_true, Bool.and_eq_true, decide_eq_true_eq] at h
    rcases h with (h | h) | ⟨hlt, h⟩
    · exact hpercent h
    · simp only [escapedPiece, h]
      exact (by decide : isHostText (Char.ofNat 0x20) = true)
    · simp only [escapedPiece, if_pos hlt, Admissible, isHostText, h, Bool.or_true]

theorem unescape_admissible {part : Part} (hp : part ≠ .plain) {s : List Char} {ps : List Piece}
    (h : unescape part s = .ok ps) : ∀ p ∈ ps, Admissible p := by
  fun_induction unescape part s generalizing ps with
  | case1 => cases h; simp
  | case2 high low rest hhex hadm ih =>
    obtain ⟨qs, hqs, rfl⟩ := Except.map_eq_ok.mp h
    simp only [Bool.and_eq_true] at hhex
    simp only [List.mem_cons, forall_eq_or_imp]
    exact ⟨admissible_escapedPiece hp hhex.1 hhex.2 hadm, ih hqs⟩
  | case6 c rest hc hadm ih =>
    obtain ⟨qs, hqs, rfl⟩ := Except.map_eq_ok.mp h
    simp only [List.mem_cons, forall_eq_or_imp]
    exact ⟨admissible_of_admitsChar hp hadm, ih hqs⟩
  | _ => cases h

private theorem le_toNat_ofNat {n : Nat} (h : 0x80 ≤ n) (hv : n.isValidChar) :
    0x80 ≤ (Char.ofNat n).toNat := by
  rwa [toNat_ofNat_of_isValidChar hv]

private theorem continuationBits_lt {b : UInt8} (h : isContinuation b = true) :
    continuationBits b < 64 := by
  simp only [isContinuation, Bool.and_eq_true, decide_eq_true_eq, UInt8.le_iff_toNat_le,
    UInt8.lt_iff_toNat_lt] at h
  have h1 : 128 ≤ b.toNat := h.1
  have h2 : b.toNat < 192 := h.2
  have heq : continuationBits b = b.toNat - 128 := rfl
  omega

/-- Bytes outside ASCII spell characters outside ASCII. -/
theorem le_toNat_of_leadingChar? {bs : List UInt8} {c : Char} {n : Nat}
    (hb : ∀ b ∈ bs.head?, 0x80 ≤ b) (h : leadingChar? bs = some (c, n)) : 0x80 ≤ c.toNat := by
  revert h
  fun_cases leadingChar? bs with
  | case2 b rest hlt => exact absurd hlt (by simpa using hb b rfl)
  | case4 b _ d rest hd hr =>
    -- two bytes
    intro h
    simp only [Bool.and_eq_true, decide_eq_true_eq, UInt8.le_iff_toNat_le,
      UInt8.lt_iff_toNat_lt] at hr
    have h1 : 194 ≤ b.toNat := hr.1
    have h2 : b.toNat < 224 := hr.2
    have hbits := continuationBits_lt (b := d) (by simpa using hd)
    simp only [Option.some.injEq, Prod.mk.injEq] at h
    rw [← h.1]
    refine le_toNat_ofNat (by omega) ?_
    simp only [Nat.isValidChar]
    omega
  | case6 b _ d hd _ e rest he hr m hm =>
    -- three bytes
    intro h
    simp only [Bool.and_eq_true, decide_eq_true_eq, UInt8.lt_iff_toNat_lt] at hr
    have h2 : b.toNat < 240 := hr.2
    have hbits := continuationBits_lt (b := d) (by simpa using hd)
    have hbits' := continuationBits_lt (b := e) (by simpa using he)
    have hmax : m < 65536 := by
      change (b.toNat - 224) * 4096 + continuationBits d * 64 + continuationBits e < 65536
      omega
    simp only [Bool.and_eq_true, Bool.not_eq_eq_eq_not, Bool.not_true, Bool.and_eq_false_iff,
      decide_eq_true_eq, decide_eq_false_iff_not] at hm
    simp only [Option.some.injEq, Prod.mk.injEq] at h
    rw [← h.1]
    refine le_toNat_ofNat (by omega) ?_
    simp only [Nat.isValidChar]
    omega
  | case8 b _ d _ _ e _ _ f rest m hm =>
    -- four bytes
    intro h
    simp only [Bool.and_eq_true, decide_eq_true_eq] at hm
    simp only [Option.some.injEq, Prod.mk.injEq] at h
    rw [← h.1]
    refine le_toNat_ofNat (by omega) ?_
    simp only [Nat.isValidChar]
    omega
  | _ => intro h; cases h

/-- Reading bytes as UTF-8 makes no ASCII character. -/
theorem settleFrom_admissible {skip : Nat} {ps : List Piece} (h : ∀ p ∈ ps, Admissible p) :
    ∀ p ∈ settleFrom skip ps, Admissible p := by
  fun_induction settleFrom skip ps with
  | case1 => simp
  | case2 skip q rest ih => exact ih fun p hp => h p (List.mem_cons_of_mem _ hp)
  | case3 c rest ih =>
    simp only [List.mem_cons, forall_eq_or_imp] at h ⊢
    exact ⟨h.1, ih h.2⟩
  | case4 b rest c more hlead ih =>
    simp only [List.mem_cons, forall_eq_or_imp] at h ⊢
    have hc := le_toNat_of_leadingChar? (by simpa [Admissible] using h.1) hlead
    exact ⟨by simp [Admissible, isHostText, hc], ih h.2⟩
  | case5 b rest hlead ih =>
    simp only [List.mem_cons, forall_eq_or_imp] at h ⊢
    exact ⟨h.1, ih h.2⟩

theorem isHostText_toChar {p : Piece} (h : Admissible p) : isHostText p.toChar = true := by
  cases p with
  | char c => exact h
  | byte b => exact (by decide : isHostText replacement = true)

theorem decode_admissible {part : Part} (hp : part ≠ .plain) {s : List Char} {ps : List Piece}
    (h : decode part s = .ok ps) : ∀ p ∈ ps, Admissible p := by
  obtain ⟨qs, hqs, rfl⟩ := Except.map_eq_ok.mp h
  exact settleFrom_admissible (unescape_admissible hp hqs)

/-- All characters of a text may stand in a host. -/
def IsHostText (s : List Char) : Prop := ∀ c ∈ s, isHostText c = true

theorem isHostText_map_toChar {ps : List Piece} (h : ∀ p ∈ ps, Admissible p) :
    IsHostText (ps.map Piece.toChar) := by
  intro c hc
  obtain ⟨p, hp, rfl⟩ := List.mem_map.mp hc
  exact isHostText_toChar (h p hp)

theorem readLiteral_isHostText {s host : List Char} (h : readLiteral s = .ok host) :
    IsHostText host := by
  obtain ⟨ps, hps, hread⟩ := Except.bind_eq_ok.mp h
  have hadm : ∀ p ∈ ps, Admissible p := by
    unfold decodeLiteral at hps
    split at hps
    · exact decode_admissible (by decide) hps
    · obtain ⟨a, ha, hrest⟩ := Except.bind_eq_ok.mp hps
      obtain ⟨z, hz, heq⟩ := Except.bind_eq_ok.mp hrest
      cases heq
      simp only [List.mem_append]
      rintro p (hp | hp)
      · exact decode_admissible (by decide) ha p hp
      · exact decode_admissible (by decide) hz p hp
  simp only at hread
  split at hread
  · cases hread
  · cases hread
  · cases hread
    exact isHostText_map_toChar hadm

theorem readHostPort_isHostText {s host : List Char} {port : Option (List Char)}
    (h : readHostPort s = .ok (host, port)) : IsHostText host := by
  have hplain : ∀ {t : List Char} {p : Option (List Char)},
      (decode .host t).map (fun ps => (ps.map Piece.toChar, p)) = .ok (host, port) →
        IsHostText host := by
    intro t p ht
    obtain ⟨ps, hps, heq⟩ := Except.map_eq_ok.mp ht
    cases heq
    exact isHostText_map_toChar (decode_admissible (by decide) hps)
  unfold readHostPort at h
  split at h
  · split at h
    · cases h
    · split at h
      · cases h
      · obtain ⟨lit, hlit, heq⟩ := Except.map_eq_ok.mp h
        cases heq
        exact readLiteral_isHostText hlit
  · cases h
  · split at h
    · exact hplain h
    · split at h
      · exact hplain h
      · cases h

theorem Authority.exists_readHostPort {s : List Char} {a : Authority}
    (h : Authority.parse s = .ok a) : ∃ t, readHostPort t = .ok (a.host, a.port) := by
  unfold Authority.parse at h
  split at h
  · obtain ⟨⟨host, port⟩, hread, heq⟩ := Except.bind_eq_ok.mp h
    cases heq
    exact ⟨_, hread⟩
  · obtain ⟨⟨host, port⟩, hread, heq⟩ := Except.bind_eq_ok.mp h
    obtain ⟨_, _, heq⟩ := Except.bind_eq_ok.mp heq
    cases heq
    exact ⟨_, hread⟩

/-- An authority is read from behind two slashes. -/
theorem authority_of_readHierarchy {scheme s path : List Char} {a : Authority}
    (h : readHierarchy scheme s = .ok (some a, path)) :
    ∃ rest, s = '/' :: '/' :: rest ∧ Authority.parse (rest.takeWhile (· ≠ '/')) = .ok a := by
  unfold readHierarchy at h
  split at h
  · rename_i rest
    split at h
    · obtain ⟨_, _, heq⟩ := Except.bind_eq_ok.mp h
      cases heq
    · obtain ⟨b, hb, heq⟩ := Except.bind_eq_ok.mp h
      obtain ⟨_, _, heq⟩ := Except.bind_eq_ok.mp heq
      cases heq
      exact ⟨rest, rfl, hb⟩
  · obtain ⟨_, _, heq⟩ := Except.bind_eq_ok.mp h
    cases heq
  · split at h
    · cases h
    · split at h
      · cases h
      · obtain ⟨_, _, heq⟩ := Except.bind_eq_ok.mp h
        cases heq

theorem readHierarchy_of_readBody {s : List Char} {u : Uri} (h : readBody s = .ok u) :
    ∃ scheme rest path, cutScheme s = .ok (scheme, rest) ∧ u.scheme = lower scheme ∧
      readHierarchy scheme (cut '?' rest).1 = .ok (u.authority, path) := by
  unfold readBody at h
  split at h
  · cases h
  · obtain ⟨⟨scheme, rest⟩, hcut, h⟩ := Except.bind_eq_ok.mp h
    obtain ⟨⟨authority, path⟩, hread, heq⟩ := Except.bind_eq_ok.mp h
    cases heq
    exact ⟨scheme, rest, path, hcut, rfl, hread⟩

/-- Scheme and authority stand before the fragment. -/
theorem readBody_of_parse {s : List Char} {u : Uri} (h : Uri.parse s = .ok u) :
    ∃ v, readBody (cut '#' s).1 = .ok v ∧ u.scheme = v.scheme ∧ u.authority = v.authority := by
  unfold Uri.parse at h
  dsimp only at h
  split at h
  · cases h
  · rename_i v hv
    split at h
    · cases h
      exact ⟨_, hv, rfl, rfl⟩
    · split at h
      · cases h
      · cases h
        exact ⟨v, hv, rfl, rfl⟩

/-- The host and port of a URI are those of some part of its text. -/
theorem exists_readHostPort_of_parse {s : List Char} {u : Uri} {a : Authority}
    (h : Uri.parse s = .ok u) (ha : u.authority = some a) :
    ∃ t, readHostPort t = .ok (a.host, a.port) := by
  obtain ⟨v, hbody, -, hauthority⟩ := readBody_of_parse h
  obtain ⟨scheme, rest, path, -, -, hread⟩ := readHierarchy_of_readBody hbody
  rw [← hauthority, ha] at hread
  obtain ⟨text, -, hparse⟩ := authority_of_readHierarchy hread
  exact Authority.exists_readHostPort hparse

/-- However a host is spelled, resolving its escapes gives nothing but host characters. -/
theorem parse_isHostText {s : List Char} {u : Uri} (h : Uri.parse s = .ok u) :
    IsHostText u.host := by
  unfold Uri.host
  cases ha : u.authority with
  | none => simp [IsHostText]
  | some a =>
    obtain ⟨t, ht⟩ := exists_readHostPort_of_parse h ha
    exact readHostPort_isHostText ht

theorem not_mem_of_isHostText {s : List Char} (h : IsHostText s) {c : Char}
    (hc : isHostText c = false) : c ∉ s := by
  intro hmem
  rw [h c hmem] at hc
  cases hc

end Consent.Uri

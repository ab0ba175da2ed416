import Mathlib.Data.List.TakeWhile
import Consent.Proofs.Text.Split
import Consent.Proofs.Uri.Escape

/-! Reading a URI that begins with a scheme and an authority, and the authority of a host that is
written as it is read. -/

namespace Consent.Uri

open Text Host

/-- A letter, and then letters, digits, plus, minus and point. -/
def IsScheme (scheme : List Char) : Prop :=
  (∃ c rest, scheme = c :: rest ∧ isLetter c = true) ∧ ∀ c ∈ scheme, isSchemeChar c = true

theorem cutScheme_append {scheme : List Char} (h : IsScheme scheme) (rest : List Char) :
    cutScheme (scheme ++ ':' :: rest) = .ok (scheme, rest) := by
  obtain ⟨⟨c, more, rfl, hc⟩, hall⟩ := h
  have hcolon : c ≠ ':' := by
    rintro rfl
    exact absurd hc (by decide)
  have hstop : isSchemeChar ':' = false := by decide
  have htake : ((c :: more) ++ ':' :: rest).takeWhile isSchemeChar = c :: more := by
    rw [List.takeWhile_append_of_pos hall]
    simp [hstop]
  have hdrop : ((c :: more) ++ ':' :: rest).dropWhile isSchemeChar = ':' :: rest := by
    rw [List.dropWhile_append_of_pos hall]
    simp [hstop]
  rw [List.cons_append] at htake hdrop ⊢
  unfold cutScheme
  split
  · rename_i heq
    exact absurd (List.cons.inj heq).1 hcolon
  · rename_i heq
    obtain ⟨rfl, rfl⟩ := List.cons.inj heq
    simp [hc, hdrop, htake]
  · rename_i heq
    cases heq

theorem toNat_of_isAlnum {c : Char} (h : isAlnum c = true) : 48 ≤ c.toNat ∧ c.toNat ≤ 122 := by
  simp only [isAlnum, isDigit, Bool.or_eq_true, Bool.and_eq_true, decide_eq_true_eq] at h
  rcases h with (⟨hlo, hhi⟩ | ⟨hlo, hhi⟩) | ⟨hlo, hhi⟩
  · exact ⟨hlo, Nat.le_trans hhi (by decide : 57 ≤ 122)⟩
  · exact ⟨Nat.le_trans (by decide : 48 ≤ 97) hlo, hhi⟩
  · exact ⟨Nat.le_trans (by decide : 48 ≤ 65) hlo, Nat.le_trans hhi (by decide : 90 ≤ 122)⟩

theorem toNat_of_isHostChar {c : Char} (h : isHostChar c = true) :
    33 ≤ c.toNat ∧ c.toNat ≤ 126 := by
  rcases Bool.or_eq_true_iff.mp h with h | h
  · have := toNat_of_isAlnum h
    omega
  · have hall : ['!', '"', '$', '&', '\'', '(', ')', '*', '+', ',', '-', '.', ':', ';', '<', '=',
        '>', '[', ']', '_', '~'].all (fun d => decide (33 ≤ d.toNat ∧ d.toNat ≤ 126)) = true := by
      decide
    exact of_decide_eq_true (List.all_eq_true.mp hall c (by simpa using h))

theorem isHostChar_of_isSchemeChar {c : Char} (h : isSchemeChar c = true) :
    isHostChar c = true := by
  simp only [isSchemeChar, isLetter, Bool.or_eq_true] at h
  rcases h with ((h | h) | h) | h
  · simp [isHostChar, isAlnum, h]
  · simp [isHostChar, isAlnum, h]
  · simp [isHostChar, isAlnum, h]
  · have hall : ['+', '-', '.'].all isHostChar = true := by decide
    exact List.all_eq_true.mp hall c (by simpa using h)

/-- What can follow an authority: nothing, or text from a slash, question mark or hash on. -/
def IsTail (t : List Char) : Prop := ∀ c ∈ t.head?, c = '/' ∨ c = '?' ∨ c = '#'

/-- The text before the fragment of what follows an authority. -/
def tailBody (t : List Char) : List Char := (cut '#' t).1

def tailPath (t : List Char) : List Char := (cut '?' (tailBody t)).1

def tailQuery (t : List Char) : Option (List Char) := (cut '?' (tailBody t)).2

def tailFragment (t : List Char) : List Char := (cut '#' t).2.getD []

theorem head?_cut {sep c : Char} {s : List Char} (h : (cut sep s).1.head? = some c) :
    s.head? = some c ∧ c ≠ sep := by
  cases s with
  | nil => cases h
  | cons d r =>
    by_cases hd : d = sep
    · simp [cut, hd] at h
    · simp only [cut, if_neg hd, List.head?_cons, Option.some.injEq] at h
      exact ⟨by simp [h], h ▸ hd⟩

theorem head?_tailPath {t : List Char} {c : Char} (ht : IsTail t)
    (h : (tailPath t).head? = some c) : c = '/' := by
  obtain ⟨hbody, hquestion⟩ := head?_cut h
  obtain ⟨hhead, hhash⟩ := head?_cut hbody
  rcases ht c hhead with hc | hc | hc
  · exact hc
  · exact absurd hc hquestion
  · exact absurd hc hhash

/-- Text that ends neither the authority nor the part before the fragment. -/
structure IsAuthorityText (s : List Char) : Prop where
  slash : '/' ∉ s
  question : '?' ∉ s
  hash : '#' ∉ s
  control : ∀ c ∈ s, isControl c = false

/-- The authority goes up to the first slash. -/
theorem readHierarchy_authority {scheme s path : List Char} (hscheme : scheme ≠ []) (hs : '/' ∉ s)
    (hpath : ∀ c ∈ path.head?, c = '/') :
    readHierarchy scheme ('/' :: '/' :: (s ++ path)) =
      Authority.parse s >>= fun a => unescape .plain path >>= fun _ => .ok (some a, path) := by
  have hall : ∀ c ∈ s, decide (c ≠ '/') = true := by
    intro c hc
    simp only [decide_eq_true_eq]
    rintro rfl
    exact hs hc
  have hstop : path.takeWhile (fun c => decide (c ≠ '/')) = [] ∧
      path.dropWhile (fun c => decide (c ≠ '/')) = path := by
    cases path with
    | nil => exact ⟨rfl, rfl⟩
    | cons c r => simp [hpath c rfl]
  have htake : (s ++ path).takeWhile (fun c => decide (c ≠ '/')) = s := by
    rw [List.takeWhile_append_of_pos hall, hstop.1, List.append_nil]
  have hdrop : (s ++ path).dropWhile (fun c => decide (c ≠ '/')) = path := by
    rw [List.dropWhile_append_of_pos hall, hstop.2]
  simp only [readHierarchy, List.isEmpty_eq_false_iff.mpr hscheme, htake, hdrop]
  rfl

theorem readBody_eq_ok_iff {scheme s t : List Char} {u : Uri} (hscheme : IsScheme scheme)
    (hslash : '/' ∉ s) (hquestion : '?' ∉ s) (ht : IsTail t) :
    readBody (scheme ++ ':' :: '/' :: '/' :: (s ++ tailBody t)) = .ok u ↔
      (∀ c ∈ s ++ tailBody t, isControl c = false) ∧
        ∃ a ps, Authority.parse s = .ok a ∧ unescape .plain (tailPath t) = .ok ps ∧
          u = ⟨lower scheme, some a, tailPath t, tailQuery t, []⟩ := by
  have hne : scheme ≠ [] := by
    obtain ⟨⟨c, r, rfl, -⟩, -⟩ := hscheme
    exact List.cons_ne_nil c r
  have hcontrol : (scheme ++ ':' :: '/' :: '/' :: (s ++ tailBody t)).any isControl = false ↔
      ∀ c ∈ s ++ tailBody t, isControl c = false := by
    have hchars : ∀ c ∈ scheme, isControl c = false := by
      intro c hc
      have hrange := toNat_of_isHostChar (isHostChar_of_isSchemeChar (hscheme.2 c hc))
      simp only [isControl, Bool.or_eq_false_iff, decide_eq_false_iff_not]
      omega
    have hmarks : isControl ':' = false ∧ isControl '/' = false := by decide
    simp only [List.any_eq_false, List.mem_append, List.mem_cons, Bool.not_eq_true]
    constructor
    · intro h c hc
      exact h c (Or.inr (Or.inr (Or.inr (Or.inr hc))))
    · rintro h c (hc | rfl | rfl | rfl | hc)
      · exact hchars c hc
      · exact hmarks.1
      · exact hmarks.2
      · exact hmarks.2
      · exact h c hc
  have hcut : cut '?' ('/' :: '/' :: (s ++ tailBody t)) =
      ('/' :: '/' :: (s ++ tailPath t), tailQuery t) := by
    have hpre : '?' ∉ '/' :: '/' :: s := by simp [hquestion]
    exact cut_append_left hpre (tailBody t)
  have hpath : ∀ c ∈ (tailPath t).head?, c = '/' := fun c hc => head?_tailPath ht hc
  have hread := readHierarchy_authority hne hslash hpath
  unfold readBody
  rw [← hcontrol, cutScheme_append hscheme]
  cases (scheme ++ ':' :: '/' :: '/' :: (s ++ tailBody t)).any isControl with
  | true => simp
  | false =>
    simp only [Bool.false_eq_true, if_false, true_and, Except.bind_eq_ok]
    constructor
    · rintro ⟨⟨_, _⟩, hpair, hrest⟩
      cases hpair
      simp only [hcut, hread, Except.bind_eq_ok] at hrest
      obtain ⟨⟨_, _⟩, ⟨a, ha, ps, hps, hpair⟩, hu⟩ := hrest
      cases hpair
      exact ⟨a, ps, ha, hps, (Except.ok.inj hu).symm⟩
    · rintro ⟨a, ps, ha, hps, rfl⟩
      refine ⟨(scheme, _), rfl, ?_⟩
      simp only [hcut, hread, Except.bind_eq_ok]
      exact ⟨(some a, tailPath t), ⟨a, ha, ps, hps, rfl⟩, rfl⟩

/-- What is read of a scheme, an authority and what follows it: each part on its own. -/
theorem parse_eq_ok_iff {scheme s t : List Char} {u : Uri} (hscheme : IsScheme scheme)
    (hs : ∀ c ∈ s, c ≠ '/' ∧ c ≠ '?' ∧ c ≠ '#') (ht : IsTail t) :
    Uri.parse (scheme ++ ':' :: '/' :: '/' :: (s ++ t)) = .ok u ↔
      (∀ c ∈ s ++ tailBody t, isControl c = false) ∧
        ∃ a ps qs, Authority.parse s = .ok a ∧ unescape .plain (tailPath t) = .ok ps ∧
          unescape .plain (tailFragment t) = .ok qs ∧
          u = ⟨lower scheme, some a, tailPath t, tailQuery t, tailFragment t⟩ := by
  have hslash : '/' ∉ s := fun hmem => (hs '/' hmem).1 rfl
  have hquestion : '?' ∉ s := fun hmem => (hs '?' hmem).2.1 rfl
  have hhash : '#' ∉ scheme ++ ':' :: '/' :: '/' :: s := by
    have hscheme' : '#' ∉ scheme := fun hmem => absurd (hscheme.2 '#' hmem) (by decide)
    have hs' : '#' ∉ s := fun hmem => (hs '#' hmem).2.2 rfl
    simp [hscheme', hs']
  have hcut : cut '#' (scheme ++ ':' :: '/' :: '/' :: (s ++ t)) =
      (scheme ++ ':' :: '/' :: '/' :: (s ++ tailBody t), (cut '#' t).2) := by
    simpa [tailBody] using cut_append_left hhash t
  have hbody := fun v => readBody_eq_ok_iff (u := v) hscheme hslash hquestion ht
  unfold Uri.parse
  rw [hcut]
  dsimp only
  cases hread : readBody (scheme ++ ':' :: '/' :: '/' :: (s ++ tailBody t)) with
  | error fault =>
    constructor
    · intro h
      cases h
    · rintro ⟨hcontrol, a, ps, qs, ha, hps, -, -⟩
      have hok := (hbody _).mpr ⟨hcontrol, a, ps, ha, hps, rfl⟩
      rw [hread] at hok
      cases hok
  | ok v =>
    obtain ⟨hcontrol, a, ps, ha, hps, rfl⟩ := (hbody v).mp hread
    have hunique : ∀ b, Authority.parse s = .ok b → b = a := by
      intro b hb
      exact Except.ok.inj (hb.symm.trans ha)
    cases hfragment : (cut '#' t).2 with
    | none =>
      simp only [tailFragment, hfragment, Option.getD_none]
      constructor
      · intro h
        exact ⟨hcontrol, a, ps, [], ha, hps, rfl, (Except.ok.inj h).symm⟩
      · rintro ⟨-, b, -, -, hb, -, -, rfl⟩
        rw [hunique b hb]
    | some text =>
      simp only [tailFragment, hfragment, Option.getD_some]
      cases htext : unescape .plain text with
      | error fault =>
        constructor
        · intro h
          cases h
        · rintro ⟨-, -, -, qs, -, -, hqs, -⟩
          cases hqs
      | ok qs =>
        constructor
        · intro h
          exact ⟨hcontrol, a, ps, qs, ha, hps, rfl, (Except.ok.inj h).symm⟩
        · rintro ⟨-, b, -, -, hb, -, -, rfl⟩
          rw [hunique b hb]

/-- A scheme and an authority make a URI with nothing else in it. -/
theorem parse_authority_iff {scheme s : List Char} {u : Uri} (hscheme : IsScheme scheme)
    (hs : IsAuthorityText s) :
    Uri.parse (scheme ++ ':' :: '/' :: '/' :: s) = .ok u ↔
      ∃ a, Authority.parse s = .ok a ∧ u = ⟨lower scheme, some a, [], none, []⟩ := by
  have hmarks : ∀ c ∈ s, c ≠ '/' ∧ c ≠ '?' ∧ c ≠ '#' := by
    intro c hc
    refine ⟨?_, ?_, ?_⟩
    · rintro rfl
      exact hs.slash hc
    · rintro rfl
      exact hs.question hc
    · rintro rfl
      exact hs.hash hc
  have htail : IsTail [] := by simp [IsTail]
  have hread := parse_eq_ok_iff (u := u) hscheme hmarks htail
  rw [List.append_nil] at hread
  rw [hread]
  constructor
  · rintro ⟨-, a, -, -, ha, -, -, hu⟩
    exact ⟨a, ha, hu⟩
  · rintro ⟨a, ha, hu⟩
    refine ⟨?_, a, [], [], ha, rfl, rfl, hu⟩
    simpa [tailBody, cut] using hs.control

end Consent.Uri

import Consent.Proofs.Origin.RoundTrip

/-! What follows a bare origin in a URI. Path, query and fragment take no part in the origin, with
one exception: a caret right behind the hash of an empty fragment still starts attributes. -/

namespace Consent.Uri

open Text Host

/-- Blanks are none of the visible characters, so they belong to no escape and no port. -/
theorem isBlank_spec {c : Char} (h : isBlank c = true) : ¬(33 ≤ c.toNat ∧ c.toNat ≤ 126) := by
  rintro ⟨hlo, hhi⟩
  rw [isBlank_eq_false hlo hhi] at h
  cases h

theorem isPlainText_of_isBlank {s : List Char} (h : ∀ c ∈ s, isBlank c = true) : IsPlainText s := by
  intro c hc
  have hrange := isBlank_spec (h c hc)
  constructor
  · rintro rfl
    exact hrange (by decide)
  · rw [Bool.eq_false_iff]
    intro hhex
    exact hrange (toNat_of_isHostChar (isHostChar_of_isIpChar (by simp [isIpChar, hhex])))

theorem not_mem_of_isBlank {s : List Char} (h : ∀ c ∈ s, isBlank c = true) {c : Char}
    (hc : 33 ≤ c.toNat ∧ c.toNat ≤ 126) : c ∉ s :=
  fun hmem => isBlank_spec (h c hmem) hc

theorem isDigit_of_isBlank {c : Char} (h : isBlank c = true) : isDigit c = false := by
  rw [Bool.eq_false_iff]
  intro hdigit
  exact isBlank_spec h (toNat_of_isHostChar (by simp [isHostChar, isAlnum, hdigit]))

/-- Of blanks that stand at the end of an authority, all are part of its host. -/
theorem readHostPort_append_isBlank {s t host : List Char} {port : Option (List Char)}
    (ht : ∀ c ∈ t, isBlank c = true) (hne : t ≠ []) (h : readHostPort (s ++ t) = .ok (host, port)) :
    port = none ∧ ∃ front, readHostPort s = .ok (front, none) ∧ host = front ++ t := by
  obtain ⟨c, r, rfl⟩ := List.exists_cons_of_ne_nil hne
  have hblank := ht c List.mem_cons_self
  have hdigits : ∀ ds : List Char, (ds ++ c :: r).all isDigit = false := by
    intro ds
    simp [isDigit_of_isBlank hblank]
  have hport : ∀ after : List Char, portText? (after ++ c :: r) = none := by
    intro after
    cases after with
    | nil =>
      have hcolon : c ≠ ':' := by
        rintro rfl
        exact absurd hblank (by decide)
      simp [portText?, hcolon]
    | cons d ds =>
      rw [List.cons_append]
      unfold portText?
      split
      · rename_i heq
        cases heq
      · rename_i ds' heq
        obtain ⟨-, rfl⟩ := List.cons.inj heq
        simp [hdigits]
      · rfl
  have hopen : '[' ∉ c :: r := not_mem_of_isBlank ht (by decide)
  have hclose : ']' ∉ c :: r := not_mem_of_isBlank ht (by decide)
  have hcolon : ':' ∉ c :: r := not_mem_of_isBlank ht (by decide)
  unfold readHostPort at h ⊢
  rw [cutLast?_append_right hopen] at h
  cases hbracket : cutLast? '[' s with
  | some pair =>
    obtain ⟨before, inner⟩ := pair
    simp only [hbracket, Option.map_some] at h
    cases before with
    | cons d ds => cases h
    | nil =>
      simp only [cutLast?_append_right hclose] at h
      cases hliteral : cutLast? ']' inner with
      | none => simp [hliteral] at h
      | some pair => simp [hliteral, hport] at h
  | none =>
    simp only [hbracket, Option.map_none, cutLast?_append_right hcolon] at h
    cases hlast : cutLast? ':' s with
    | some pair => simp [hlast, hdigits] at h
    | none =>
      simp only [hlast, Option.map_none] at h
      obtain ⟨ps, hps, heq⟩ := Except.map_eq_ok.mp h
      obtain ⟨qs, hqs, rfl⟩ := decode_append (isPlainText_of_isBlank ht) hps
      obtain ⟨rfl, rfl⟩ := Prod.mk.inj heq
      refine ⟨rfl, qs.map Piece.toChar, ?_, ?_⟩
      · simp only [hqs]
        rfl
      · rw [List.map_append, map_toChar_map_char]

theorem Authority.parse_append_isBlank {s t : List Char} {a : Authority} (hat : '@' ∉ s ++ t)
    (ht : ∀ c ∈ t, isBlank c = true) (h : Authority.parse (s ++ t) = .ok a) :
    ∃ front, Authority.parse s = .ok ⟨none, front, a.port⟩ ∧ a = ⟨none, front ++ t, a.port⟩ := by
  have hat' : '@' ∉ s := fun hmem => hat (List.mem_append_left _ hmem)
  rw [Authority.parse_of_not_mem hat] at h
  rw [Authority.parse_of_not_mem hat']
  obtain ⟨⟨host, port⟩, hread, rfl⟩ := Except.map_eq_ok.mp h
  by_cases hne : t = []
  · rw [hne, List.append_nil] at hread
    exact ⟨host, by rw [hread]; rfl, by simp [hne]⟩
  · obtain ⟨rfl, front, hfront, rfl⟩ := readHostPort_append_isBlank ht hne hread
    exact ⟨front, by rw [hfront]; rfl, rfl⟩

/-- Blanks at the end of what follows an authority can be dropped. -/
theorem parse_of_parse_append {scheme s t blanks : List Char} {u : Uri} (hscheme : IsScheme scheme)
    (hs : ∀ c ∈ s, c ≠ '/' ∧ c ≠ '?' ∧ c ≠ '#') (ht : IsTail t) (hne : t ≠ [])
    (hblanks : ∀ c ∈ blanks, isBlank c = true)
    (h : Uri.parse (scheme ++ ':' :: '/' :: '/' :: (s ++ (t ++ blanks))) = .ok u) :
    ∃ a, Authority.parse s = .ok a ∧ (∀ c ∈ s, isControl c = false) ∧
      Uri.parse (scheme ++ ':' :: '/' :: '/' :: (s ++ t)) =
        .ok ⟨lower scheme, some a, tailPath t, tailQuery t, tailFragment t⟩ := by
  have ht' : IsTail (t ++ blanks) := by
    obtain ⟨c, r, rfl⟩ := List.exists_cons_of_ne_nil hne
    exact ht
  obtain ⟨hcontrol, a, ps, qs, ha, hps, hqs, -⟩ := (parse_eq_ok_iff hscheme hs ht').mp h
  obtain ⟨d, e, hd, he, hbody, hfragment⟩ :=
    cut_append_right (not_mem_of_isBlank hblanks (c := '#') (by decide)) t
  have hplain : ∀ {x : List Char}, x = [] ∨ x = blanks → IsPlainText x := by
    rintro x (rfl | rfl)
    · intro c hc
      cases hc
    · exact isPlainText_of_isBlank hblanks
  have hd' : '?' ∉ d := by
    rcases hd with rfl | rfl
    · simp
    · exact not_mem_of_isBlank hblanks (by decide)
  obtain ⟨f, -, hf, -, hpath, -⟩ := cut_append_right hd' (tailBody t)
  have hpath' : tailPath (t ++ blanks) = tailPath t ++ f := by
    simp only [tailPath, tailBody, hbody] at hpath ⊢
    exact hpath
  have hf' : IsPlainText f := by
    rcases hf with rfl | rfl
    · exact hplain (Or.inl rfl)
    · exact hplain hd
  rw [hpath'] at hps
  rw [show tailFragment (t ++ blanks) = tailFragment t ++ e from hfragment] at hqs
  obtain ⟨ps', hps', -⟩ := unescape_append hf' hps
  obtain ⟨qs', hqs', -⟩ := unescape_append (hplain he) hqs
  have hcontrol' : ∀ c ∈ s ++ tailBody t, isControl c = false := by
    intro c hc
    apply hcontrol
    rw [show tailBody (t ++ blanks) = tailBody t ++ d from hbody]
    simp only [List.mem_append] at hc ⊢
    exact hc.imp_right Or.inl
  refine ⟨a, ha, fun c hc => hcontrol' c (List.mem_append_left _ hc), ?_⟩
  exact (parse_eq_ok_iff hscheme hs ht).mpr ⟨hcontrol', a, ps', qs', ha, hps', hqs', rfl⟩

/-- Of all that can follow an authority, only the hash of an empty fragment leaves a URI bare. -/
theorem eq_of_isBare {scheme : List Char} {a : Authority} {t : List Char} (ht : IsTail t)
    (hne : t ≠ [])
    (h : Uri.isBare ⟨lower scheme, some a, tailPath t, tailQuery t, tailFragment t⟩ = true) :
    t = ['#'] := by
  obtain ⟨c, r, rfl⟩ := List.exists_cons_of_ne_nil hne
  simp only [Uri.isBare, Bool.and_eq_true, List.isEmpty_iff, Option.isNone_iff_eq_none] at h
  obtain ⟨⟨⟨-, hpath⟩, hquery⟩, hfragment⟩ := h
  rcases ht c rfl with rfl | rfl | rfl
  · simp [tailPath, tailBody, cut] at hpath
  · simp [tailQuery, tailBody, cut] at hquery
  · simpa [tailFragment, cut] using hfragment

end Consent.Uri

namespace Consent.Origin

open Text Uri Host

/-- A host and perhaps a port: no mark that would end it, start attributes or set user information
before it. -/
def IsBareAuthority (s : List Char) : Prop := ∀ c ∈ s, c ∉ ['/', '?', '#', '@', '^']

/-- A bare origin without attributes: a scheme, a host and perhaps a port. -/
def IsBareText (b : List Char) : Prop :=
  ∃ scheme authority, b = scheme ++ ':' :: '/' :: '/' :: authority ∧ IsScheme scheme ∧
    IsBareAuthority authority

section

variable {scheme s t : List Char}

theorem IsBareAuthority.ends_nothing (h : IsBareAuthority s) :
    ∀ c ∈ s, c ≠ '/' ∧ c ≠ '?' ∧ c ≠ '#' := by
  intro c hc
  have hnone := h c hc
  simp only [List.mem_cons, not_or] at hnone
  exact ⟨hnone.1, hnone.2.1, hnone.2.2.1⟩

theorem IsBareAuthority.not_mem (h : IsBareAuthority s) {c : Char}
    (hc : c ∈ ['/', '?', '#', '@', '^']) : c ∉ s :=
  fun hmem => h c hmem hc

theorem caret_not_mem (hscheme : IsScheme scheme) (hs : IsBareAuthority s) :
    '^' ∉ scheme ++ ':' :: '/' :: '/' :: s := by
  have hscheme' : '^' ∉ scheme := fun hmem => absurd (hscheme.2 '^' hmem) (by decide)
  have hs' : '^' ∉ s := hs.not_mem (by decide)
  simp [hscheme', hs']

/-- What is read of a bare origin without blanks around it. -/
theorem exists_authority_of_parse {o : Origin} (hscheme : IsScheme scheme)
    (hs : IsBareAuthority s) (h : parseTrimmed (scheme ++ ':' :: '/' :: '/' :: s) = .ok o) :
    ∃ (a : Authority) (port : Int), Authority.parse s = .ok a ∧
      canCarry (.ofList (lower scheme)) = true ∧ a.host ≠ [] ∧
      readPort (a.port.getD []) = .ok port ∧
      o = make (.ofList (lower scheme)) (.ofList a.host) port {} := by
  have hcut : cutAttributes (scheme ++ ':' :: '/' :: '/' :: s) =
      .ok (scheme ++ ':' :: '/' :: '/' :: s, {}) :=
    cutAttributes_of_not_mem (caret_not_mem hscheme hs)
  obtain ⟨-, base, attributes, u, port, hbase, hu, hcarry, hhost, hport, rfl⟩ :=
    parseTrimmed_eq_ok_iff.mp h
  obtain ⟨rfl, rfl⟩ := Prod.mk.inj (Except.ok.inj (hbase.symm.trans hcut))
  have htail : IsTail [] := by simp [IsTail]
  have hread := parse_eq_ok_iff (u := u) hscheme hs.ends_nothing htail
  rw [List.append_nil] at hread
  obtain ⟨-, a, -, -, ha, -, -, rfl⟩ := hread.mp hu
  exact ⟨a, port, ha, hcarry, hhost, hport, rfl⟩

theorem cut_caret_tail (hscheme : IsScheme scheme) (hs : IsBareAuthority s) (t : List Char) :
    cut '^' (scheme ++ ':' :: '/' :: '/' :: (s ++ t)) =
      (scheme ++ ':' :: '/' :: '/' :: (s ++ (cut '^' t).1), (cut '^' t).2) := by
  simpa using cut_append_left (caret_not_mem hscheme hs) t

/-- A caret in what follows a bare origin starts no attributes unless it follows a hash. -/
theorem cutAttributes_tail (hscheme : IsScheme scheme) (hs : IsBareAuthority s) (ht : IsTail t)
    (hhash : ∀ rest, t ≠ '#' :: '^' :: rest) :
    cutAttributes (scheme ++ ':' :: '/' :: '/' :: (s ++ t)) =
      .ok (scheme ++ ':' :: '/' :: '/' :: (s ++ t), {}) := by
  have hspec := cut_spec '^' t
  unfold cutAttributes
  rw [cut_caret_tail hscheme hs]
  rcases hcut : cut '^' t with ⟨front, suffix⟩
  rw [hcut] at hspec
  cases suffix with
  | none => rfl
  | some suffix =>
    have hfront : front ≠ [] := by
      rintro rfl
      have hcaret := ht '^' (by simp [hspec])
      exact absurd hcaret (by decide)
    have htail : IsTail front := by
      obtain ⟨c, r, rfl⟩ := List.exists_cons_of_ne_nil hfront
      intro d hd
      exact ht d (by simpa [hspec] using hd)
    have hbare : isBare (scheme ++ ':' :: '/' :: '/' :: (s ++ front)) = false := by
      rw [Bool.eq_false_iff]
      intro hbare
      unfold isBare at hbare
      split at hbare
      · rename_i u hu
        obtain ⟨-, a, -, -, -, -, -, rfl⟩ := (parse_eq_ok_iff hscheme hs.ends_nothing htail).mp hu
        rw [eq_of_isBare htail hfront hbare] at hspec
        exact hhash suffix hspec
      · cases hbare
    simp [hbare]

/-- Right behind a hash, a caret starts attributes as it does behind the bare origin. -/
theorem cutAttributes_hash {a : Authority} (hscheme : IsScheme scheme) (hs : IsBareAuthority s)
    (hcontrol : ∀ c ∈ s, isControl c = false) (ha : Authority.parse s = .ok a)
    (hhost : a.host ≠ []) (huser : a.userinfo = none) (rest : List Char) :
    Uri.parse (scheme ++ ':' :: '/' :: '/' :: (s ++ ['#'])) =
        .ok ⟨lower scheme, some a, [], none, []⟩ ∧
      ∀ pair, cutAttributes (scheme ++ ':' :: '/' :: '/' :: (s ++ '#' :: '^' :: rest)) = .ok pair ↔
        ∃ attributes, Attributes.parse rest = .ok attributes ∧
          pair = (scheme ++ ':' :: '/' :: '/' :: (s ++ ['#']), attributes) := by
  have htail : IsTail ['#'] := by simp [IsTail]
  have hcontrol' : ∀ c ∈ s ++ tailBody ['#'], isControl c = false := by
    simpa [tailBody, cut] using hcontrol
  have hparse : Uri.parse (scheme ++ ':' :: '/' :: '/' :: (s ++ ['#'])) =
      .ok ⟨lower scheme, some a, [], none, []⟩ :=
    (parse_eq_ok_iff hscheme hs.ends_nothing htail).mpr
      ⟨hcontrol', a, [], [], ha, rfl, rfl, rfl⟩
  have hbare : isBare (scheme ++ ':' :: '/' :: '/' :: (s ++ ['#'])) = true := by
    simp [isBare, hparse, Uri.isBare, Authority.isVoid, hhost, huser]
  have hcut : cut '^' ('#' :: '^' :: rest) = (['#'], some rest) := by simp [cut]
  refine ⟨hparse, fun pair => ?_⟩
  rw [cutAttributes, cut_caret_tail hscheme hs, hcut]
  simp only [hbare, if_true]
  cases Attributes.parse rest with
  | ok attributes => simp [eq_comm]
  | error e => simp

end

/-- The origin of a bare origin and what follows it: its own, up to blanks at its end, which are
trimmed only where nothing follows, and attributes behind a hash and a caret. -/
theorem parse_append_tail {scheme s dropped t blanks : List Char} {o : Origin} {u : Uri}
    (hscheme : IsScheme scheme) (hs : IsBareAuthority (s ++ dropped))
    (hdropped : ∀ c ∈ dropped, isBlank c = true)
    (ho : parseTrimmed (scheme ++ ':' :: '/' :: '/' :: s) = .ok o) (ht : IsTail t) (hne : t ≠ [])
    (hblanks : ∀ c ∈ blanks, isBlank c = true)
    (hu : Uri.parse (scheme ++ ':' :: '/' :: '/' :: ((s ++ dropped) ++ (t ++ blanks))) = .ok u) :
    ((∀ rest, t ≠ '#' :: '^' :: rest) →
        parseTrimmed (scheme ++ ':' :: '/' :: '/' :: ((s ++ dropped) ++ t)) =
          .ok { o with host := o.host ++ .ofList (lower dropped) }) ∧
      ∀ rest, t = '#' :: '^' :: rest → ∀ o',
        parseTrimmed (scheme ++ ':' :: '/' :: '/' :: ((s ++ dropped) ++ t)) = .ok o' ↔
          ∃ attributes, Attributes.parse rest = .ok attributes ∧
            o' = { o with host := o.host ++ .ofList (lower dropped), attributes := attributes } := by
  have hs' : IsBareAuthority s := fun c hc => hs c (List.mem_append_left _ hc)
  obtain ⟨a, port, ha, hcarry, hhost, hport, rfl⟩ := exists_authority_of_parse hscheme hs' ho
  obtain ⟨b, hb, hcontrol, hparse⟩ :=
    parse_of_parse_append hscheme hs.ends_nothing ht hne hblanks hu
  obtain ⟨front, hfront, hbeq⟩ :=
    Authority.parse_append_isBlank (hs.not_mem (by decide)) hdropped hb
  obtain rfl : a = ⟨none, front, b.port⟩ := Except.ok.inj (ha.symm.trans hfront)
  have hbhost : b.host ≠ [] := by
    rw [hbeq]
    simp [hhost]
  have hbuser : b.userinfo = none := by rw [hbeq]
  have hmake : ∀ attributes, make (.ofList (lower scheme)) (.ofList b.host) port attributes =
      { make (.ofList (lower scheme)) (.ofList front) port {} with
        host := (make (.ofList (lower scheme)) (.ofList front) port {}).host ++
          .ofList (lower dropped)
        attributes := attributes } := by
    intro attributes
    rw [hbeq]
    simp [make, lowerString]
  have hread : ∀ {raw base path : List Char} {query : Option (List Char)} {fragment : List Char}
      {attributes : Attributes}, raw ≠ [] → cutAttributes raw = .ok (base, attributes) →
      Uri.parse base = .ok ⟨lower scheme, some b, path, query, fragment⟩ →
      parseTrimmed raw =
        .ok (make (.ofList (lower scheme)) (.ofList b.host) port attributes) := by
    intro raw base path query fragment attributes hraw hcut hbase
    exact parseTrimmed_eq_ok_iff.mpr
      ⟨hraw, base, attributes, _, port, hcut, hbase, hcarry, hbhost, hport, rfl⟩
  have hraw : scheme ++ ':' :: '/' :: '/' :: ((s ++ dropped) ++ t) ≠ [] := by simp
  constructor
  · intro hhash
    rw [hread hraw (cutAttributes_tail hscheme hs ht hhash) hparse, hmake]
    rfl
  · rintro rest rfl o'
    obtain ⟨hbase, hcut⟩ := cutAttributes_hash hscheme hs hcontrol hb hbhost hbuser rest
    constructor
    · intro h
      obtain ⟨-, base, attributes, -, -, hpair, -⟩ := parseTrimmed_eq_ok_iff.mp h
      obtain ⟨attributes, hattributes, -⟩ := (hcut _).mp hpair
      have hok := hread hraw ((hcut _).mpr ⟨attributes, hattributes, rfl⟩) hbase
      refine ⟨attributes, hattributes, ?_⟩
      rw [← hmake]
      exact Except.ok.inj (h.symm.trans hok)
    · rintro ⟨attributes, hattributes, rfl⟩
      rw [← hmake]
      exact hread hraw ((hcut _).mpr ⟨attributes, hattributes, rfl⟩) hbase

theorem eq_append_host_iff {o : Origin} (h : o.attributes = {}) (dropped : List Char)
    (attributes : Attributes) :
    o = { o with host := o.host ++ .ofList (lower dropped), attributes := attributes } ↔
      dropped = [] ∧ attributes = {} := by
  have hhost : o.host = o.host ++ .ofList (lower dropped) ↔ dropped = [] := by
    rw [← String.toList_inj]
    simp [lower]
  constructor
  · intro heq
    refine ⟨hhost.mp (congrArg Origin.host heq), ?_⟩
    rw [← h]
    exact (congrArg Origin.attributes heq).symm
  · rintro ⟨rfl, rfl⟩
    obtain ⟨scheme, host, port, attributes⟩ := o
    simp_all

theorem parse_append_tail_iff {scheme s dropped t blanks : List Char} {o : Origin} {u : Uri}
    (hscheme : IsScheme scheme) (hs : IsBareAuthority (s ++ dropped))
    (hdropped : ∀ c ∈ dropped, isBlank c = true)
    (ho : parseTrimmed (scheme ++ ':' :: '/' :: '/' :: s) = .ok o) (ht : IsTail t) (hne : t ≠ [])
    (hblanks : ∀ c ∈ blanks, isBlank c = true)
    (hu : Uri.parse (scheme ++ ':' :: '/' :: '/' :: ((s ++ dropped) ++ (t ++ blanks))) = .ok u) :
    parseTrimmed (scheme ++ ':' :: '/' :: '/' :: ((s ++ dropped) ++ t)) = .ok o ↔
      dropped = [] ∧ ∀ rest, t = '#' :: '^' :: rest → Attributes.parse rest = .ok {} := by
  have hattributes : o.attributes = {} := by
    have hs' : IsBareAuthority s := fun c hc => hs c (List.mem_append_left _ hc)
    obtain ⟨-, -, -, -, -, -, rfl⟩ := exists_authority_of_parse hscheme hs' ho
    rfl
  obtain ⟨hplain, hhash⟩ := parse_append_tail hscheme hs hdropped ho ht hne hblanks hu
  by_cases hcaret : ∃ rest, t = '#' :: '^' :: rest
  · obtain ⟨rest, rfl⟩ := hcaret
    rw [hhash rest rfl]
    simp only [eq_append_host_iff hattributes]
    constructor
    · rintro ⟨attributes, hparse, hnil, rfl⟩
      refine ⟨hnil, fun rest' hrest => ?_⟩
      obtain rfl : rest = rest' := by simpa using hrest
      exact hparse
    · rintro ⟨hnil, hparse⟩
      exact ⟨{}, hparse rest rfl, hnil, rfl⟩
  · have hsame := eq_append_host_iff hattributes dropped o.attributes
    rw [hplain fun rest hrest => hcaret ⟨rest, hrest⟩, Except.ok.injEq, eq_comm]
    constructor
    · intro heq
      exact ⟨(hsame.mp heq).1, fun rest hrest => absurd ⟨rest, hrest⟩ hcaret⟩
    · rintro ⟨hnil, -⟩
      exact hsame.mpr ⟨hnil, hattributes⟩

/-- Trimming the end of what follows a hash and a caret leaves the two in place. -/
theorem forall_trimmed_iff (c : Char) (r : List Char) :
    (∀ rest, c :: dropEndWhile isBlank r = '#' :: '^' :: rest → Attributes.parse rest = .ok {}) ↔
      ∀ rest, c :: r = '#' :: '^' :: rest →
        Attributes.parse (dropEndWhile isBlank rest) = .ok {} := by
  have hend : ∀ rest, dropEndWhile isBlank ('^' :: rest) = '^' :: dropEndWhile isBlank rest :=
    dropEndWhile_cons (by decide)
  constructor
  · intro h rest heq
    obtain ⟨rfl, rfl⟩ := List.cons.inj heq
    exact h _ (by rw [hend])
  · intro h rest heq
    obtain ⟨rfl, hrest⟩ := List.cons.inj heq
    obtain ⟨blanks, hr, -⟩ := exists_dropEndWhile_append isBlank r
    rw [hrest, List.cons_append] at hr
    rw [hr, hend] at hrest
    obtain ⟨-, hrest⟩ := List.cons.inj hrest
    rw [← hrest]
    exact h _ (by rw [hr])

/-- What follows a bare origin leaves the origin as it is exactly if nothing was trimmed from the
bare origin, and no attributes are spelled by a caret right behind a hash. -/
theorem parse_tail_iff {b t : List Char} {o : Origin} {u : Uri} (hb : IsBareText b)
    (ho : parse (.ofList b) = .ok o) (ht : ∃ c r, t = c :: r ∧ c ∈ ['/', '?', '#'])
    (hu : Uri.parse (b ++ t) = .ok u) :
    parse (.ofList (b ++ t)) = .ok o ↔
      trim b = b ∧
        ∀ rest, t = '#' :: '^' :: rest → Attributes.parse (dropEndWhile isBlank rest) = .ok {} := by
  obtain ⟨scheme, authority, rfl, hscheme, hauthority⟩ := hb
  obtain ⟨c, r, rfl, hc⟩ := ht
  have hblank : isBlank c = false := by
    simp only [List.mem_cons, List.not_mem_nil, or_false] at hc
    rcases hc with rfl | rfl | rfl <;> decide
  obtain ⟨dropped, hfront, hdropped⟩ := exists_dropEndWhile_append isBlank authority
  obtain ⟨blanks, hr, hblanks⟩ := exists_dropEndWhile_append isBlank r
  have htail : IsTail (c :: dropEndWhile isBlank r) := by
    intro d hd
    obtain rfl := Option.some.inj hd
    simpa using hc
  have htrim : trim (scheme ++ ':' :: '/' :: '/' :: authority ++ c :: r) =
      scheme ++ ':' :: '/' :: '/' :: (authority ++ c :: dropEndWhile isBlank r) := by
    have hend := trim_scheme hscheme (authority ++ c :: r)
    rw [dropEndWhile_append_cons authority hblank] at hend
    simpa using hend
  have hbare := trim_scheme hscheme authority
  generalize dropEndWhile isBlank authority = front at hfront hbare
  subst hfront
  have ho' : parseTrimmed (scheme ++ ':' :: '/' :: '/' :: front) = .ok o := by
    rw [← hbare, ← String.toList_ofList (l := scheme ++ _)]
    exact ho
  have hu' : Uri.parse (scheme ++ ':' :: '/' :: '/' :: ((front ++ dropped) ++
      (c :: dropEndWhile isBlank r ++ blanks))) = .ok u := by
    rw [List.cons_append, ← hr]
    simpa using hu
  have hkept : trim (scheme ++ ':' :: '/' :: '/' :: (front ++ dropped)) =
      scheme ++ ':' :: '/' :: '/' :: (front ++ dropped) ↔ dropped = [] := by
    rw [hbare]
    simp
  rw [hkept, parse, String.toList_ofList, htrim, ← forall_trimmed_iff]
  exact parse_append_tail_iff hscheme hauthority hdropped ho' htail (List.cons_ne_nil _ _) hblanks
    hu'

theorem parse_tail_iff_carets :
    parse "http://foo.com:8080" = .ok ⟨"http", "foo.com", 8080, {}⟩ ∧
      parse "http://foo.com:8080/a^b?c^appId=7#d^" = .ok ⟨"http", "foo.com", 8080, {}⟩ := by
  have hscheme : IsScheme "http".toList :=
    ⟨⟨'h', _, rfl, by decide⟩, List.all_eq_true.mp (by decide)⟩
  have hall : "foo.com:8080".toList.all (fun c => c ∉ ['/', '?', '#', '@', '^']) = true := by
    decide
  have hauthority : IsBareAuthority "foo.com:8080".toList := by
    intro c hc
    simpa using List.all_eq_true.mp hall c hc
  have hbare : IsBareText "http://foo.com:8080".toList := ⟨_, _, rfl, hscheme, hauthority⟩
  have hparse : parse (.ofList "http://foo.com:8080".toList) =
      .ok ⟨"http", "foo.com", 8080, {}⟩ := rfl
  refine ⟨hparse, (parse_tail_iff (t := "/a^b?c^appId=7#d^".toList) hbare hparse
    ⟨'/', _, rfl, by decide⟩ rfl).mpr ⟨by decide +kernel, ?_⟩⟩
  intro rest heq
  cases heq

/-- Behind an empty fragment, a caret starts attributes. -/
theorem hashCaret_read_as_attributes :
    parse "http://foo.com" = .ok ⟨"http", "foo.com", 0, {}⟩ ∧
      parse "http://foo.com#^appId=1000" = .ok ⟨"http", "foo.com", 0, ⟨1000, false⟩⟩ := by
  decide +kernel

end Consent.Origin

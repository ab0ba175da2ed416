import Consent.Proofs.Origin.NormalForm

/-! Origins whose host is free text, never read from a URI, and what their keys are read as. The
host may hold carets and percent signs, so a key can be read as the key of another host; scheme, port
and attributes are read as they are, whatever the host. -/

namespace Consent.Origin

open Text Uri Host

/-- An origin with any text in lower case for its host, but for a colon, the characters that end an
authority, and an opening bracket at the front. -/
structure FreeText (o : Origin) : Prop where
  scheme : o.scheme = "http" ∨ o.scheme = "https" ∨ o.scheme = "ftp"
  lower : lower o.host.toList = o.host.toList
  marks : ∀ c ∈ ['/', '?', '#', '@'], c ∉ o.host.toList
  colon : ':' ∉ o.host.toList
  front : o.host.toList.head? ≠ some '['
  port : 0 ≤ o.port ∧ o.port ≤ 65535
  port_ne : o.port ≠ defaultPort o.scheme

/-- A scheme and what ends no authority are read as host and port. -/
theorem exists_readHostPort_of_marks {scheme s : List Char} {u : Uri} (hscheme : IsScheme scheme)
    (hs : ∀ c ∈ ['/', '?', '#', '@'], c ∉ s)
    (h : Uri.parse (scheme ++ ':' :: '/' :: '/' :: s) = .ok u) :
    ∃ host port, readHostPort s = .ok (host, port) ∧
      u = ⟨lower scheme, some ⟨none, host, port⟩, [], none, []⟩ := by
  have hends : ∀ c ∈ s, c ≠ '/' ∧ c ≠ '?' ∧ c ≠ '#' := by
    intro c hc
    refine ⟨?_, ?_, ?_⟩
    · rintro rfl
      exact hs '/' (by decide) hc
    · rintro rfl
      exact hs '?' (by decide) hc
    · rintro rfl
      exact hs '#' (by decide) hc
  have hat : '@' ∉ s := hs '@' (by decide)
  have hread := parse_eq_ok_iff (u := u) hscheme hends (t := []) (by simp [IsTail])
  rw [List.append_nil] at hread
  obtain ⟨-, a, _, _, ha, -, -, rfl⟩ := hread.mp h
  rw [Authority.parse_of_not_mem hat] at ha
  obtain ⟨⟨host, port⟩, hpair, rfl⟩ := Except.map_eq_ok.mp ha
  exact ⟨host, port, hpair, rfl⟩

theorem isCapital_of_lower {s : List Char} (h : lower s = s) {c : Char} (hc : c ∈ s) :
    Attributes.isCapital c = false := by
  rw [← h] at hc
  have hnot := not_capital_of_lowerChar (lowerChar_of_mem_lower hc)
  simpa [Attributes.isCapital] using hnot

theorem isCapital_portText {port : Int} {c : Char} (hc : c ∈ portText port) :
    Attributes.isCapital c = false := by
  rw [Bool.eq_false_iff]
  intro hcapital
  refine not_mem_portText (c := c) ?_ ?_ ?_ port hc
  · rw [Bool.eq_false_iff]
    intro hdigit
    simp only [Attributes.isCapital, Bool.and_eq_true, decide_eq_true_eq] at hcapital
    simp only [isDigit, Bool.and_eq_true, decide_eq_true_eq] at hdigit
    have hlo : 65 ≤ c.toNat := hcapital.1
    have hhi : c.toNat ≤ 57 := hdigit.2
    omega
  · rintro rfl
    exact absurd hcapital (by decide)
  · rintro rfl
    exact absurd hcapital (by decide)

namespace FreeText

variable {o o' : Origin}

theorem base_eq (h : o.FreeText) :
    o.base = o.scheme.toList ++ ':' :: '/' :: '/' ::
      (o.host.toList ++ portSuffix (portDigits o.port)) := by
  rw [base, bracketed_of_not_mem h.colon]

theorem caret_not_mem_scheme (h : o.FreeText) : '^' ∉ o.scheme.toList := fun hmem =>
  absurd ((isScheme_of_carries h.scheme).2 '^' hmem) (by decide)

theorem ends_nothing (h : o.FreeText) {text : List Char} {port : Option (List Char)}
    (htext : text <+: o.host.toList) (hport : IsPort port) :
    ∀ c ∈ ['/', '?', '#', '@'], c ∉ text ++ portSuffix port := by
  intro c hc hmem
  have hall : ∀ d ∈ ['/', '?', '#', '@'], (d ≠ ':' && !isDigit d) = true :=
    List.all_eq_true.mp (by decide)
  obtain ⟨hcolon, hdigit⟩ : c ≠ ':' ∧ isDigit c = false := by simpa using hall c hc
  rcases List.mem_append.mp hmem with hmem | hmem
  · exact h.marks c hc (htext.subset hmem)
  · exact not_mem_portSuffix hport hcolon hdigit hmem

/-- What is read of the front of the host, with the port or without, is a name. -/
theorem exists_decode (h : o.FreeText) {text : List Char} {port : Option (List Char)} {u : Uri}
    (htext : text <+: o.host.toList) (hport : IsPort port)
    (hu : Uri.parse (o.scheme.toList ++ ':' :: '/' :: '/' :: (text ++ portSuffix port)) = .ok u) :
    '[' ∉ text ∧ ∃ ps, decode .host text = .ok ps ∧
      u = ⟨o.scheme.toList, some ⟨none, ps.map Piece.toChar, port⟩, [], none, []⟩ := by
  have hmarks := h.ends_nothing htext hport
  obtain ⟨host, port', hread, rfl⟩ :=
    exists_readHostPort_of_marks (isScheme_of_carries h.scheme) hmarks hu
  have hbracket : '[' ∉ text := by
    intro hmem
    obtain ⟨c, rest, rfl⟩ := List.exists_cons_of_ne_nil (List.ne_nil_of_mem hmem)
    have hfront : c ≠ '[' := by
      rintro rfl
      obtain ⟨more, hhost⟩ := htext
      exact h.front (by simp [← hhost])
    have hrest : '[' ∈ rest := (List.mem_cons.mp hmem).resolve_left hfront.symm
    rw [List.cons_append, readHostPort_brackets (List.mem_append_left _ hrest)] at hread
    cases hread
  have hcolon : ':' ∉ text := fun hmem => h.colon (htext.subset hmem)
  rw [readHostPort_name hbracket hcolon hport] at hread
  obtain ⟨ps, hps, heq⟩ := Except.map_eq_ok.mp hread
  obtain ⟨rfl, rfl⟩ := Prod.mk.inj heq
  have hlower : Text.lower o.scheme.toList = o.scheme.toList := by
    rw [← toList_lowerString, lowerString_of_carries h.scheme]
  exact ⟨hbracket, ps, hps, by rw [hlower]⟩

/-- A key that is a URI as it stands has no caret in it. -/
theorem caret_not_mem (h : o.FreeText) {u : Uri} (hu : Uri.parse o.key.toList = .ok u) :
    '^' ∉ o.host.toList ++ portSuffix (portDigits o.port) ++ o.attributes.suffix := by
  rw [toList_key_eq, h.base_eq, List.append_assoc, List.cons_append, List.cons_append,
    List.cons_append] at hu
  have hmarks : ∀ c ∈ ['/', '?', '#', '@'],
      c ∉ o.host.toList ++ portSuffix (portDigits o.port) ++ o.attributes.suffix := by
    intro c hc hmem
    have hall : ∀ d ∈ ['/', '?', '#', '@'], (!isHostChar d && d ≠ '^') = true :=
      List.all_eq_true.mp (by decide)
    obtain ⟨hnot, hother⟩ : isHostChar c = false ∧ c ≠ '^' := by simpa using hall c hc
    rcases List.mem_append.mp hmem with hmem | hmem
    · exact h.ends_nothing (List.prefix_refl _) (isPort_portDigits h.port.1) c hc hmem
    · rcases Attributes.isHostChar_of_mem_suffix hmem with hchar | hcaret
      · rw [hnot] at hchar
        cases hchar
      · exact hother hcaret
  obtain ⟨host, port, hread, -⟩ :=
    exists_readHostPort_of_marks (isScheme_of_carries h.scheme) hmarks hu
  exact caret_not_mem_of_readHostPort hread

/-- A caret in the host divides the key of no other port than the default one, and only right
before the attributes. -/
theorem cutAttributes_caret (h : o.FreeText) {text rest base : List Char} {attributes : Attributes}
    (hhost : o.host.toList = text ++ '^' :: rest) (htext : '^' ∉ text)
    (hcut : cutAttributes o.key.toList = .ok (base, attributes)) :
    base = o.key.toList ∨ base = o.scheme.toList ++ ':' :: '/' :: '/' :: text ∧
      attributes = o.attributes ∧ o.port = 0 := by
  have hkey : o.key.toList = (o.scheme.toList ++ ':' :: '/' :: '/' :: text) ++
      '^' :: ((rest ++ portSuffix (portDigits o.port)) ++ o.attributes.suffix) := by
    rw [toList_key_eq, h.base_eq, hhost]
    simp
  have hcapital : ∀ c ∈ rest ++ portSuffix (portDigits o.port),
      Attributes.isCapital c = false := by
    intro c hc
    rcases List.mem_append.mp hc with hc | hc
    · exact isCapital_of_lower h.lower (by simp [hhost, hc])
    · rw [portSuffix_portDigits] at hc
      exact isCapital_portText hc
  unfold cutAttributes at hcut
  rw [hkey, cut_append (by simp [h.caret_not_mem_scheme, htext])] at hcut
  dsimp only at hcut
  split at hcut
  · split at hcut
    · rename_i read hread
      obtain ⟨rfl, rfl⟩ := Prod.mk.inj (Except.ok.inj hcut)
      obtain ⟨hattributes, hnil⟩ := Attributes.eq_of_parse_append_suffix hcapital hread
      refine Or.inr ⟨rfl, hattributes, ?_⟩
      by_contra hne
      have hmem : ':' ∈ rest ++ portSuffix (portDigits o.port) := by
        simp [portDigits, hne, portSuffix]
      rcases hnil with heq | heq
      · simp [heq] at hmem
      · simp [heq] at hmem
    · cases hcut
  · rw [← hkey] at hcut
    exact Or.inl (Prod.mk.inj (Except.ok.inj hcut)).1.symm

/-- What is left of a key for the URI is the front of its host, with the port or at the default
port. -/
theorem exists_front (h : o.FreeText) {base : List Char} {attributes : Attributes} {u : Uri}
    (hcut : cutAttributes o.key.toList = .ok (base, attributes)) (hu : Uri.parse base = .ok u) :
    attributes = o.attributes ∧ ∃ text digits, text <+: o.host.toList ∧ IsPort digits ∧
      readPort (digits.getD []) = .ok o.port ∧
      base = o.scheme.toList ++ ':' :: '/' :: '/' :: (text ++ portSuffix digits) := by
  by_cases hcaret : '^' ∈ o.host.toList
  · obtain ⟨text, rest, hhost, htext⟩ := List.eq_append_cons_of_mem hcaret
    rcases h.cutAttributes_caret hhost htext hcut with rfl | ⟨hbase, hattributes, hzero⟩
    · exact absurd (by simp [hcaret]) (h.caret_not_mem hu)
    · refine ⟨hattributes, text, none, ⟨_, hhost.symm⟩, ?_, ?_, ?_⟩
      · intro ds hds
        cases hds
      · simp [readPort, hzero]
      · simp [hbase, portSuffix]
  · have hport := isPort_portDigits h.port.1
    have hnot : '^' ∉ o.base := by
      have hdigits := not_mem_portSuffix hport (c := '^') (by decide) (by decide)
      rw [h.base_eq]
      simp [h.caret_not_mem_scheme, hcaret, hdigits]
    rw [toList_key_eq, cutAttributes_append_suffix hnot] at hcut
    split at hcut
    · obtain ⟨rfl, rfl⟩ := Prod.mk.inj (Except.ok.inj hcut)
      exact ⟨rfl, _, _, List.prefix_refl _, hport, readPort_portDigits h.port, h.base_eq⟩
    · rename_i hdefault
      obtain ⟨rfl, rfl⟩ := Prod.mk.inj (Except.ok.inj hcut)
      rw [← toList_key_eq] at hu
      have hsuffix : '^' ∈ o.attributes.suffix := by
        simp_all [Attributes.suffix]
      exact absurd (List.mem_append_right _ hsuffix) (h.caret_not_mem hu)

theorem exists_decode_of_parseTrimmed (h : o.FreeText)
    (hparse : parseTrimmed o.key.toList = .ok o') :
    ∃ text ps, text <+: o.host.toList ∧ '[' ∉ text ∧ decode .host text = .ok ps ∧
      o' = { o with host := .ofList (Text.lower (ps.map Piece.toChar)) } := by
  obtain ⟨-, base, attributes, u, port, hcut, hu, -, -, hport, rfl⟩ :=
    parseTrimmed_eq_ok_iff.mp hparse
  obtain ⟨rfl, text, digits, htext, hdigits, hread, rfl⟩ := h.exists_front hcut hu
  obtain ⟨hbracket, ps, hps, rfl⟩ := h.exists_decode htext hdigits hu
  have heq : port = o.port := Except.ok.inj (hport.symm.trans hread)
  have hhost : lowerString (.ofList (ps.map Piece.toChar)) =
      .ofList (Text.lower (ps.map Piece.toChar)) := by
    rw [← String.toList_inj]
    simp
  refine ⟨text, ps, htext, hbracket, hps, ?_⟩
  simp [make, heq, Uri.host, lowerString_of_carries h.scheme, h.port_ne, hhost]

theorem of_prefix (h : o.FreeText) {host : List Char} (hhost : host <+: o.host.toList) :
    ({ o with host := .ofList host } : Origin).FreeText := by
  obtain ⟨dropped, hdropped⟩ := hhost
  refine ⟨h.scheme, ?_, ?_, ?_, ?_, h.port, h.port_ne⟩
  · simp only [String.toList_ofList]
    refine lower_eq_self fun c hc => ?_
    have hmem : c ∈ Text.lower o.host.toList := by
      rw [h.lower, ← hdropped]
      exact List.mem_append_left dropped hc
    exact lowerChar_of_mem_lower hmem
  · simp only [String.toList_ofList]
    intro c hc hmem
    exact h.marks c hc (by simp [← hdropped, hmem])
  · simp only [String.toList_ofList]
    exact fun hmem => h.colon (by simp [← hdropped, hmem])
  · simp only [String.toList_ofList]
    intro hfront
    exact h.front (by simp [← hdropped, List.head?_append, hfront])

/-- What a key is read as: the host is what the front of the host text is decoded to, in lower case,
and all else is as written. -/
theorem exists_decode_of_parse (h : o.FreeText) (hparse : parse o.key = .ok o') :
    ∃ text ps, text <+: o.host.toList ∧ '[' ∉ text ∧ decode .host text = .ok ps ∧
      o' = { o with host := .ofList (Text.lower (ps.map Piece.toChar)) } ∧
      (text = o.host.toList → trim o.key.toList = o.key.toList) := by
  obtain ⟨host, dropped, hhost, -, -, htrim⟩ :=
    exists_trim_key (isScheme_of_carries h.scheme) h.port.1
  have hprefix : host <+: o.host.toList := ⟨dropped, hhost.symm⟩
  unfold parse at hparse
  rw [htrim] at hparse
  obtain ⟨text, ps, htext, hbracket, hps, ho⟩ :=
    (h.of_prefix hprefix).exists_decode_of_parseTrimmed hparse
  rw [String.toList_ofList] at htext
  refine ⟨text, ps, htext.trans hprefix, hbracket, hps, ho, ?_⟩
  rintro rfl
  have hsame : host = o.host.toList := hprefix.eq_of_length_le htext.length_le
  rw [htrim, hsame, String.ofList_toList]

/-- An origin with free text for its host is read back from its key exactly if the text is a name
and the key does not end in a blank. -/
theorem read_back_iff (h : o.FreeText) :
    parse o.key = .ok o ↔ o.host ≠ "" ∧
      (∀ c ∈ o.host.toList, c ≠ '[' ∧ admitsChar .host c = true) ∧ trimString o.key = o.key := by
  constructor
  · intro hparse
    obtain ⟨text, ps, htext, hbracket, hps, ho, htrim⟩ := h.exists_decode_of_parse hparse
    have hhost : o.host.toList = Text.lower (ps.map Piece.toChar) := by
      conv_lhs => rw [ho]
      simp
    -- nothing of the host was left out and nothing unescaped, or what is read would be shorter
    have hlength := length_of_decode hps
    have hle := htext.length_le
    rw [hhost, length_lower, List.length_map] at hle
    have hsame : text = o.host.toList := by
      refine htext.eq_of_length_le ?_
      rw [hhost, length_lower, List.length_map]
      omega
    have hpercent : '%' ∉ text := List.count_eq_zero.mp (by omega)
    obtain ⟨qs, hqs, -⟩ := Except.map_eq_ok.mp hps
    refine ⟨?_, ?_, ?_⟩
    · have hne := (asRead_of_parse hparse).ne_nil
      rwa [Ne, ← String.toList_inj]
    · rw [← hsame]
      intro c hc
      refine ⟨?_, (admits_of_unescape hqs c hc).resolve_left ?_⟩
      · rintro rfl
        exact hbracket hc
      · rintro rfl
        exact hpercent hc
    · rw [← String.toList_inj, toList_trimString, htrim hsame]
  · rintro ⟨hne, hchars, htrim⟩
    apply Canonical.parse_key
    refine ⟨h.scheme, ?_, h.lower, h.port, h.port_ne, ?_⟩
    · refine .name ?_ (fun c hc => (hchars c hc).2) h.colon ?_
      · rwa [Ne, ← String.toList_inj] at hne
      · exact fun hmem => (hchars '[' hmem).1 rfl
    · rw [← toList_trimString, htrim]

end FreeText

/-- Up to its attributes a key is in lower case. -/
theorem exists_key_make (scheme host : String) (port : Int) (attributes : Attributes) :
    ∃ front, (make scheme host port attributes).key.toList = front ++ attributes.suffix ∧
      ∀ c ∈ front, Attributes.isCapital c = false := by
  generalize ho : make scheme host port attributes = o
  have hscheme : lower o.scheme.toList = o.scheme.toList := by simp [← ho, make]
  have hhost : lower o.host.toList = o.host.toList := by simp [← ho, make]
  have hattributes : o.attributes = attributes := by simp [← ho, make]
  refine ⟨o.scheme.toList ++ ':' :: '/' :: '/' :: (bracketed o.host.toList ++ portText o.port),
    ?_, ?_⟩
  · rw [toList_key, hattributes]
    simp
  · intro c hc
    have hbracketed : c ∈ bracketed o.host.toList → Attributes.isCapital c = false := by
      intro hmem
      unfold bracketed at hmem
      split at hmem
      · simp only [List.cons_append, List.mem_cons, List.mem_append, List.not_mem_nil,
          or_false] at hmem
        rcases hmem with rfl | hmem | rfl
        · decide
        · exact isCapital_of_lower hhost hmem
        · decide
      · exact isCapital_of_lower hhost hmem
    simp only [List.mem_append, List.mem_cons] at hc
    rcases hc with hc | rfl | rfl | rfl | hc | hc
    · exact isCapital_of_lower hscheme hc
    · decide
    · decide
    · decide
    · exact hbracketed hc
    · exact isCapital_portText hc

/-- Equal keys have equal attributes, whatever the hosts hold. -/
theorem attributes_eq_of_key_make {scheme₁ scheme₂ host₁ host₂ : String} {port₁ port₂ : Int}
    {attributes₁ attributes₂ : Attributes}
    (h : (make scheme₁ host₁ port₁ attributes₁).key = (make scheme₂ host₂ port₂ attributes₂).key) :
    attributes₁ = attributes₂ := by
  obtain ⟨front₁, hkey₁, hfront₁⟩ := exists_key_make scheme₁ host₁ port₁ attributes₁
  obtain ⟨front₂, hkey₂, hfront₂⟩ := exists_key_make scheme₂ host₂ port₂ attributes₂
  rw [h, hkey₂] at hkey₁
  exact (Attributes.eq_of_append_suffix hfront₂ hfront₁ hkey₁).symm

end Consent.Origin

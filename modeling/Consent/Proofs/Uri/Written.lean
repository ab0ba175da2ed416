import Consent.Proofs.Host.IpAddress
import Consent.Proofs.Uri.Bare

/-! Hosts and ports that are read as they are written, and what a host has lost when it is not. -/

namespace Consent.Uri

open Text Host

/-- A name that stands in an authority as it is: host characters but colon and opening bracket. -/
structure IsPlainHost (host : List Char) : Prop where
  ne_nil : host ≠ []
  chars : ∀ c ∈ host, isHostChar c = true ∧ c ≠ ':' ∧ c ≠ '['

/-- A port as it stands after a host. -/
def portSuffix : Option (List Char) → List Char
  | none => []
  | some ds => ':' :: ds

/-- The characters of a port: digits, if there is one. -/
def IsPort (port : Option (List Char)) : Prop := ∀ ds, port = some ds → ∀ c ∈ ds, isDigit c = true

variable {host : List Char} {port : Option (List Char)}

theorem isDigit_of_mem_portSuffix {c : Char} (hport : IsPort port) (hc : c ∈ portSuffix port) :
    c = ':' ∨ isDigit c = true := by
  cases port with
  | none => cases hc
  | some ds => exact (List.mem_cons.mp hc).imp_right (hport ds rfl c)

theorem not_mem_portSuffix {c : Char} (hport : IsPort port) (hcolon : c ≠ ':')
    (hdigit : isDigit c = false) : c ∉ portSuffix port := by
  intro hmem
  rcases isDigit_of_mem_portSuffix hport hmem with hc | hc
  · exact hcolon hc
  · rw [hc] at hdigit
    cases hdigit

theorem portText?_portSuffix (hport : IsPort port) : portText? (portSuffix port) = some port := by
  cases port with
  | none => rfl
  | some ds =>
    have hdigits : ds.all isDigit = true := List.all_eq_true.mpr (hport ds rfl)
    simp [portSuffix, portText?, hdigits]

/-- A host without brackets and colons is decoded as a name. -/
theorem readHostPort_name (hbracket : '[' ∉ host) (hcolon : ':' ∉ host) (hport : IsPort port) :
    readHostPort (host ++ portSuffix port) =
      (decode .host host).map fun ps => (ps.map Piece.toChar, port) := by
  have hnone : '[' ∉ host ++ portSuffix port := by
    simp [hbracket, not_mem_portSuffix hport (c := '[') (by decide) (by decide)]
  unfold readHostPort
  rw [cutLast?_eq_none hnone]
  cases port with
  | none => simp only [portSuffix, List.append_nil, cutLast?_eq_none hcolon]
  | some ds =>
    have hdigits : ds.all isDigit = true := List.all_eq_true.mpr (hport ds rfl)
    have hcolon' : ':' ∉ ds := fun hmem => absurd (hport ds rfl ':' hmem) (by decide)
    simp only [portSuffix, cutLast?_append hcolon', hdigits, if_true]

/-- A host in brackets is read as a literal. -/
theorem readHostPort_literal (hbracket : '[' ∉ host) (hport : IsPort port) :
    readHostPort ('[' :: (host ++ ']' :: portSuffix port)) =
      (readLiteral host).map fun literal => (literal, port) := by
  have hopen : '[' ∉ host ++ ']' :: portSuffix port := by
    simp [hbracket, not_mem_portSuffix hport (c := '[') (by decide) (by decide)]
  have hclose : ']' ∉ portSuffix port := not_mem_portSuffix hport (by decide) (by decide)
  have hcut : cutLast? '[' ('[' :: (host ++ ']' :: portSuffix port)) =
      some ([], host ++ ']' :: portSuffix port) := cutLast?_append hopen []
  simp only [readHostPort, hcut, cutLast?_append hclose, portText?_portSuffix hport]

/-- An opening bracket behind the first character is never read. -/
theorem readHostPort_brackets {c : Char} {s : List Char} (hbracket : '[' ∈ s) :
    readHostPort (c :: s) = .error .badLiteral := by
  obtain ⟨before, after, hcut⟩ := exists_cutLast?_of_mem hbracket
  simp only [readHostPort, cutLast?, hcut]

theorem Authority.parse_of_not_mem {s : List Char} (h : '@' ∉ s) :
    Authority.parse s = (readHostPort s).map fun pair => ⟨none, pair.1, pair.2⟩ := by
  simp only [Authority.parse, cutLast?_eq_none h]
  cases readHostPort s <;> rfl

theorem cutZone_of_not_mem {s : List Char} (h : '%' ∉ s) : cutZone s = (s, none) := by
  induction s with
  | nil => rfl
  | cons c rest ih =>
    simp only [List.mem_cons, not_or] at h
    simp [cutZone, h.1, ih h.2]

theorem cutZone_append (s : List Char) : (cutZone s).1 ++ (cutZone s).2.getD [] = s := by
  induction s with
  | nil => rfl
  | cons c rest ih =>
    unfold cutZone
    split
    · rfl
    · simpa using ih

/-- Escapes shorten a literal, too. -/
theorem length_of_decodeLiteral {s : List Char} {ps : List Piece} (h : decodeLiteral s = .ok ps) :
    ps.length + 2 * s.count '%' ≤ s.length := by
  have hspec := cutZone_append s
  unfold decodeLiteral at h
  split at h
  · rename_i address hcut
    simp only [hcut, Option.getD_none, List.append_nil] at hspec
    rw [← hspec]
    exact length_of_decode h
  · rename_i address zone hcut
    simp only [hcut, Option.getD_some] at hspec
    obtain ⟨a, ha, hrest⟩ := Except.bind_eq_ok.mp h
    obtain ⟨z, hz, heq⟩ := Except.bind_eq_ok.mp hrest
    cases heq
    have haddress := length_of_decode ha
    have hzone := length_of_decode hz
    rw [← hspec]
    simp only [List.length_append, List.count_append]
    omega

theorem eq_of_decode {part : Part} {s : List Char} {ps : List Piece} (hs : '%' ∉ s)
    (h : decode part s = .ok ps) : ps = s.map .char := by
  obtain ⟨qs, hqs, rfl⟩ := Except.map_eq_ok.mp h
  rw [eq_of_unescape hs hqs, settle_map_char]

theorem map_toChar_map_char (s : List Char) : (s.map Piece.char).map Piece.toChar = s := by
  simp [Function.comp_def, Piece.toChar]

/-- A literal is an address that is no longer than its text, and the text itself if that has no
escapes. -/
theorem readLiteral_eq_ok {s literal : List Char} (h : readLiteral s = .ok literal) :
    literal.length + 2 * s.count '%' ≤ s.length ∧ ('%' ∉ s → literal = s) ∧
      ∃ zone, parseIp literal = .ok (.v6 zone) := by
  obtain ⟨ps, hps, hread⟩ := Except.bind_eq_ok.mp h
  have hlength := length_of_decodeLiteral hps
  have hself : '%' ∉ s → ps.map Piece.toChar = s := by
    intro hpercent
    rw [decodeLiteral, cutZone_of_not_mem hpercent] at hps
    rw [eq_of_decode hpercent hps, map_toChar_map_char]
  simp only at hread
  split at hread
  · cases hread
  · cases hread
  · rename_i zone hparse
    cases hread
    rw [List.length_map]
    exact ⟨hlength, hself, zone, hparse⟩

/-- A host that is read as it is written: a name, or an address without a zone. -/
inductive IsHost (host : List Char) : Prop where
  | name (ne_nil : host ≠ []) (chars : ∀ c ∈ host, admitsChar .host c = true)
      (colon : ':' ∉ host) (bracket : '[' ∉ host)
  | literal (address : parseIp host = .ok (.v6 []))

theorem IsPlainHost.isHost (h : IsPlainHost host) : IsHost host := by
  refine .name h.ne_nil ?_ ?_ ?_
  · intro c hc
    simp [admitsChar, (h.chars c hc).1]
  · exact fun hmem => (h.chars ':' hmem).2.1 rfl
  · exact fun hmem => (h.chars '[' hmem).2.2 rfl

theorem isHostChar_of_isIpChar {c : Char} (h : isIpChar c = true) : isHostChar c = true := by
  simp only [isIpChar, isHexDigit, Bool.or_eq_true, Bool.and_eq_true, decide_eq_true_eq] at h
  rcases h with (((hdigit | ⟨hlo, hhi⟩) | ⟨hlo, hhi⟩) | rfl) | rfl
  · simp [isHostChar, isAlnum, hdigit]
  · have hz : c ≤ 'z' := Char.le_trans hhi (by decide)
    simp [isHostChar, isAlnum, hlo, hz]
  · have hz : c ≤ 'Z' := Char.le_trans hhi (by decide)
    simp [isHostChar, isAlnum, hlo, hz]
  · decide
  · decide

theorem IsHost.ne_nil (h : IsHost host) : host ≠ [] := by
  cases h with
  | name ne_nil chars colon bracket => exact ne_nil
  | literal address =>
    rintro rfl
    cases address

theorem IsHost.admitsChar (h : IsHost host) {c : Char} (hc : c ∈ host) :
    admitsChar .host c = true := by
  cases h with
  | name ne_nil chars colon bracket => exact chars c hc
  | literal address =>
    have hip := isIpChar_of_parseIp address c hc
    simp [Uri.admitsChar, isHostChar_of_isIpChar hip]

/-- Text that stands for itself in a host has no percent sign. -/
theorem decode_host_of_admits {s : List Char} (h : ∀ c ∈ s, admitsChar .host c = true) :
    decode .host s = .ok (s.map .char) := by
  refine decode_of_admits fun c hc => ⟨?_, h c hc⟩
  rintro rfl
  exact absurd (h '%' hc) (by decide)

theorem readLiteral_of_parseIp (h : parseIp host = .ok (.v6 [])) :
    readLiteral host = .ok host := by
  have hhost := IsHost.literal h
  have hpercent : '%' ∉ host := fun hmem => absurd (hhost.admitsChar hmem) (by decide)
  have hdecode := decode_host_of_admits fun c hc => hhost.admitsChar hc
  simp only [readLiteral, decodeLiteral, cutZone_of_not_mem hpercent, hdecode, bind, Except.bind,
    map_toChar_map_char, h]

/-- A host that is no literal has no brackets to open, and no character that cannot stand in a name
but the percent signs that escapes leave. -/
theorem mem_of_readHostPort {s : List Char} {c : Char} (h : readHostPort s = .ok (host, port))
    (hcolon : ':' ∉ host) (hc : c ∈ host) :
    c ≠ '[' ∧ (c = '%' ∨ admitsChar .host c = true) := by
  have hname : ∀ {t : List Char} {p : Option (List Char)}, '[' ∉ t →
      (decode .host t).map (fun ps => (ps.map Piece.toChar, p)) = .ok (host, port) →
        c ≠ '[' ∧ (c = '%' ∨ admitsChar .host c = true) := by
    intro t p hbracket ht
    obtain ⟨ps, hps, heq⟩ := Except.map_eq_ok.mp ht
    cases heq
    have hfrom := mem_of_decode_host hps hc
    refine ⟨?_, hfrom.imp_right And.left⟩
    rintro rfl
    rcases hfrom with hpercent | ⟨-, hlarge | hmem⟩
    · exact absurd hpercent (by decide)
    · exact absurd hlarge (by decide)
    · exact hbracket hmem
  unfold readHostPort at h
  split at h
  · split at h
    · cases h
    · split at h
      · cases h
      · obtain ⟨literal, hliteral, heq⟩ := Except.map_eq_ok.mp h
        cases heq
        obtain ⟨-, -, zone, hparse⟩ := readLiteral_eq_ok hliteral
        exact absurd (colon_mem_of_parseIp hparse) hcolon
  · cases h
  · rename_i hbracket
    have hnone := not_mem_of_cutLast? hbracket
    split at h
    · exact hname hnone h
    · rename_i before after hcut
      have hbefore : '[' ∉ before := by
        intro hmem
        rw [← append_of_cutLast? hcut] at hnone
        exact hnone (List.mem_append_left _ hmem)
      split at h
      · exact hname hbefore h
      · cases h

theorem caret_not_mem_of_decode {part : Part} {s : List Char} {ps : List Piece}
    (hpart : part ≠ .plain) (h : decode part s = .ok ps) : '^' ∉ s := by
  intro hmem
  obtain ⟨qs, hqs, -⟩ := Except.map_eq_ok.mp h
  rcases admits_of_unescape hqs '^' hmem with hpercent | hadmits
  · exact absurd hpercent (by decide)
  · cases part with
    | plain => exact hpart rfl
    | host => exact absurd hadmits (by decide)
    | zone => exact absurd hadmits (by decide)

theorem caret_not_mem_of_decodeLiteral {s : List Char} {ps : List Piece}
    (h : decodeLiteral s = .ok ps) : '^' ∉ s := by
  have hspec := cutZone_append s
  unfold decodeLiteral at h
  split at h
  · rename_i address hcut
    rw [← hspec, hcut]
    simpa using caret_not_mem_of_decode (by decide) h
  · rename_i address zone hcut
    obtain ⟨a, ha, hrest⟩ := Except.bind_eq_ok.mp h
    obtain ⟨z, hz, -⟩ := Except.bind_eq_ok.mp hrest
    have haddress := caret_not_mem_of_decode (by decide) ha
    have hzone := caret_not_mem_of_decode (by decide) hz
    rw [← hspec, hcut]
    simpa using And.intro haddress hzone

theorem caret_not_mem_of_isDigit {s : List Char} (h : s.all isDigit = true) : '^' ∉ s :=
  fun hmem => absurd (List.all_eq_true.mp h '^' hmem) (by decide)

theorem caret_not_mem_of_portText? {s : List Char} (h : portText? s = some port) : '^' ∉ s := by
  unfold portText? at h
  split at h
  · simp
  · split at h
    · rename_i hall
      simpa using caret_not_mem_of_isDigit hall
    · cases h
  · cases h

/-- What is read as host and port has a caret nowhere: no part of it admits one. -/
theorem caret_not_mem_of_readHostPort {s : List Char} (h : readHostPort s = .ok (host, port)) :
    '^' ∉ s := by
  unfold readHostPort at h
  split at h
  · rename_i inner hopen
    split at h
    · cases h
    · rename_i literal after hclose
      split at h
      · cases h
      · rename_i port' hport
        obtain ⟨_, hliteral, -⟩ := Except.map_eq_ok.mp h
        obtain ⟨ps, hps, -⟩ := Except.bind_eq_ok.mp hliteral
        have hinside := caret_not_mem_of_decodeLiteral hps
        have hbehind := caret_not_mem_of_portText? hport
        rw [← append_of_cutLast? hopen, ← append_of_cutLast? hclose]
        simp [hinside, hbehind]
  · cases h
  · split at h
    · obtain ⟨ps, hps, -⟩ := Except.map_eq_ok.mp h
      exact caret_not_mem_of_decode (by decide) hps
    · rename_i before after hcut
      split at h
      · rename_i hall
        obtain ⟨ps, hps, -⟩ := Except.map_eq_ok.mp h
        have hbefore := caret_not_mem_of_decode (by decide) hps
        have hafter := caret_not_mem_of_isDigit hall
        rw [← append_of_cutLast? hcut]
        simp [hbefore, hafter]
      · cases h

/-- Host characters end no authority. -/
theorem isAuthorityText_of_isHostText {s : List Char} (h : IsHostText s) : IsAuthorityText s := by
  refine ⟨not_mem_of_isHostText h (by decide), not_mem_of_isHostText h (by decide),
    not_mem_of_isHostText h (by decide), ?_⟩
  intro c hc
  have hrange : 32 ≤ c.toNat ∧ c.toNat ≠ 127 := by
    have htext := h c hc
    simp only [isHostText, Bool.or_eq_true, decide_eq_true_eq] at htext
    rcases htext with ((hlarge | rfl) | rfl) | hchar
    · omega
    · decide
    · decide
    · have hvisible := toNat_of_isHostChar hchar
      omega
  simp only [isControl, Bool.or_eq_false_iff, decide_eq_false_iff_not]
  omega

end Consent.Uri

import Consent.Origin.Parser
import Consent.Proofs.Origin.Attributes
import Consent.Proofs.Text.Blank
import Consent.Proofs.Uri.HostText

/-! Stored keys tell origins apart. A key is a plain concatenation, so this rests on what its parts
cannot hold: no scheme has a colon, no host has a caret, and a port is its colon and digits. -/

namespace Consent.Origin

open Text

/-- The port as it stands in a key. -/
def portText (port : Int) : List Char :=
  if port = 0 then [] else ':' :: (decimal port).toList

theorem toList_key (o : Origin) :
    o.key.toList = o.scheme.toList ++ ':' :: '/' :: '/' ::
      ((bracketed o.host.toList ++ portText o.port) ++ o.attributes.suffix) := by
  unfold key portText
  split <;> simp

/-- What keys rely on: a scheme without a colon and a host without a caret. -/
structure Storable (o : Origin) : Prop where
  scheme : ':' ∉ o.scheme.toList
  host : '^' ∉ o.host.toList

theorem portText_injective {m n : Int} (h : portText m = portText n) : m = n := by
  unfold portText at h
  split at h
  · split at h
    · omega
    · cases h
  · split at h
    · cases h
    · exact decimal_injective (String.toList_inj.mp (List.cons.inj h).2)

theorem not_mem_decimal {c : Char} (hc : isDigit c = false) (hm : c ≠ '-') (n : Int) :
    c ∉ (decimal n).toList := by
  intro h
  rcases mem_decimal h with hd | hd
  · rw [hd] at hc
    cases hc
  · exact hm hd

theorem not_mem_portText {c : Char} (hc : isDigit c = false) (hm : c ≠ '-') (hcolon : c ≠ ':')
    (port : Int) : c ∉ portText port := by
  unfold portText
  split
  · simp
  · simp [hcolon, not_mem_decimal hc hm port]

/-- What follows the first colon after a host that has none is no more than a numeral. -/
theorem cut_colon_append_portText {host : List Char} (h : ':' ∉ host) (port : Int) :
    (cut ':' (host ++ portText port)).1 = host ∧
      ∀ after, (cut ':' (host ++ portText port)).2 = some after → ']' ∉ after := by
  unfold portText
  split
  · rw [List.append_nil, cut_of_not_mem h]
    exact ⟨rfl, fun _ hafter => by cases hafter⟩
  · rw [cut_append h]
    refine ⟨rfl, fun after hafter => ?_⟩
    rw [← Option.some.inj hafter]
    exact not_mem_decimal (by decide) (by decide) port

/-- A host in brackets is never mistaken for one without: after its first colon comes a bracket. -/
theorem bracketed_ne {h₁ h₂ : List Char} (hc₁ : ':' ∈ h₁) (hc₂ : ':' ∉ h₂) (p₁ p₂ : Int) :
    '[' :: h₁ ++ [']'] ++ portText p₁ ≠ h₂ ++ portText p₂ := by
  intro heq
  obtain ⟨before, after, hcut⟩ :=
    cut_append_of_mem (List.mem_cons_of_mem '[' hc₁) (']' :: portText p₁)
  have hbracket := (cut_colon_append_portText hc₂ p₂).2 (after ++ ']' :: portText p₁)
  rw [← heq, List.append_assoc, List.singleton_append, hcut] at hbracket
  exact hbracket rfl (by simp)

theorem bracketed_portText_injective {h₁ h₂ : List Char} {p₁ p₂ : Int}
    (heq : bracketed h₁ ++ portText p₁ = bracketed h₂ ++ portText p₂) : h₁ = h₂ ∧ p₁ = p₂ := by
  unfold bracketed at heq
  simp only [List.contains_eq_mem, decide_eq_true_eq] at heq
  split at heq <;> split at heq
  · have hcut : ∀ h p, cutLast? ']' ('[' :: h ++ [']'] ++ portText p) =
        some ('[' :: h, portText p) := by
      intro h p
      rw [List.append_assoc]
      exact cutLast?_append (not_mem_portText (by decide) (by decide) (by decide) p) _
    have hpair := congrArg (cutLast? ']') heq
    rw [hcut, hcut] at hpair
    obtain ⟨hhost, hport⟩ := Prod.mk.inj (Option.some.inj hpair)
    exact ⟨(List.cons.inj hhost).2, portText_injective hport⟩
  · rename_i hc₁ hc₂
    exact absurd heq (bracketed_ne hc₁ hc₂ p₁ p₂)
  · rename_i hc₁ hc₂
    exact absurd heq.symm (bracketed_ne hc₂ hc₁ p₂ p₁)
  · rename_i hc₁ hc₂
    have hhost := congrArg (fun s => (cut ':' s).1) heq
    simp only [(cut_colon_append_portText hc₁ p₁).1, (cut_colon_append_portText hc₂ p₂).1] at hhost
    subst hhost
    exact ⟨rfl, portText_injective (List.append_cancel_left heq)⟩

/-- The first caret divides a key into address and attributes. -/
theorem cut_caret_append_suffix {s : List Char} (h : '^' ∉ s) (a : Attributes) :
    (cut '^' (s ++ a.suffix)).1 = s := by
  unfold Attributes.suffix
  split
  · rw [List.append_nil, cut_of_not_mem h]
  · rw [cut_append h]

theorem Storable.not_mem_address {o : Origin} (h : o.Storable) :
    '^' ∉ bracketed o.host.toList ++ portText o.port := by
  have hport := not_mem_portText (c := '^') (by decide) (by decide) (by decide) o.port
  unfold bracketed
  split <;> simp [h.host, hport]

/-- The first colon divides a key into the scheme and the rest. -/
theorem scheme_of_key_eq {o₁ o₂ : Origin} (h₁ : ':' ∉ o₁.scheme.toList)
    (h₂ : ':' ∉ o₂.scheme.toList) (heq : o₁.key = o₂.key) :
    o₁.scheme = o₂.scheme ∧
      (bracketed o₁.host.toList ++ portText o₁.port) ++ o₁.attributes.suffix =
        (bracketed o₂.host.toList ++ portText o₂.port) ++ o₂.attributes.suffix := by
  have hlist := congrArg String.toList heq
  rw [toList_key, toList_key] at hlist
  have hparts := congrArg (cut ':') hlist
  rw [cut_append h₁, cut_append h₂] at hparts
  obtain ⟨hscheme, hrest⟩ := Prod.mk.inj hparts
  rw [String.toList_inj] at hscheme
  simp only [Option.some.injEq, List.cons.injEq, true_and] at hrest
  exact ⟨hscheme, hrest⟩

/-- The key tells the ports of one host apart, also where the host is none that can be read back. -/
theorem port_of_key_eq {o₁ o₂ : Origin} (h₁ : ':' ∉ o₁.scheme.toList)
    (h₂ : ':' ∉ o₂.scheme.toList) (hhost : o₁.host = o₂.host)
    (hattributes : o₁.attributes = o₂.attributes) (heq : o₁.key = o₂.key) :
    o₁.scheme = o₂.scheme ∧ o₁.port = o₂.port := by
  obtain ⟨hscheme, hrest⟩ := scheme_of_key_eq h₁ h₂ heq
  rw [hhost, hattributes] at hrest
  have haddress := List.append_cancel_right hrest
  exact ⟨hscheme, portText_injective (List.append_cancel_left haddress)⟩

/-- Storable origins with one key are one origin. -/
theorem key_injective {o₁ o₂ : Origin} (h₁ : o₁.Storable) (h₂ : o₂.Storable)
    (heq : o₁.key = o₂.key) : o₁ = o₂ := by
  obtain ⟨hscheme, hrest⟩ := scheme_of_key_eq h₁.scheme h₂.scheme heq
  have haddress : bracketed o₁.host.toList ++ portText o₁.port =
      bracketed o₂.host.toList ++ portText o₂.port := by
    have hcut := congrArg (fun s => (cut '^' s).1) hrest
    rwa [cut_caret_append_suffix h₁.not_mem_address,
      cut_caret_append_suffix h₂.not_mem_address] at hcut
  obtain ⟨hhost, hport⟩ := bracketed_portText_injective haddress
  rw [String.toList_inj] at hhost
  have hattributes : o₁.attributes = o₂.attributes := by
    rw [haddress] at hrest
    exact Attributes.suffix_injective (List.append_cancel_left hrest)
  cases o₁
  cases o₂
  simp_all

/-- A scheme that can carry permissions is one of three. -/
theorem lowerString_of_canCarry {scheme : String} (h : canCarry scheme = true) :
    lowerString scheme = "http" ∨ lowerString scheme = "https" ∨ lowerString scheme = "ftp" := by
  unfold canCarry defaultPort? at h
  split at h <;> simp_all

/-- Lower-casing gives one of the three names exactly for its spellings in ASCII letters. -/
theorem lowerString_eq_iff_toLower {name scheme : String} (hname : name ∈ ["http", "https", "ftp"]) :
    lowerString scheme = name ↔ scheme.toLower = name := by
  have hplain : ∀ name ∈ ["http", "https", "ftp"],
      (name.toList.all fun d => d.toNat < 0x80 ∧ d ≠ 'i' ∧ d ≠ 'k') = true := by decide
  have hletters : ∀ d ∈ name.toList, d.toNat < 0x80 ∧ d ≠ 'i' ∧ d ≠ 'k' := fun d hd =>
    of_decide_eq_true (List.all_eq_true.mp (hplain name hname) d hd)
  have hlower : scheme.toLower = scheme.map Char.toLower := rfl
  rw [← String.toList_inj, toList_lowerString, lower_eq_iff_toLower hletters,
    ← String.toList_inj, hlower, String.toList_map]

theorem defaultPort_ne_zero {scheme : String} (h : canCarry scheme = true) :
    defaultPort scheme ≠ 0 := by
  unfold canCarry at h
  unfold defaultPort
  unfold defaultPort? at h ⊢
  split <;> simp_all

theorem defaultPort_lowerString (scheme : String) :
    defaultPort (lowerString scheme) = defaultPort scheme := by
  simp [defaultPort, defaultPort?]

/-- What reading an origin amounts to: its attributes, the URI it was read from, and its port. -/
theorem parseTrimmed_eq_ok_iff {s : List Char} {o : Origin} :
    parseTrimmed s = .ok o ↔ s ≠ [] ∧ ∃ (base : List Char) (attributes : Attributes) (u : Uri)
      (port : Int), cutAttributes s = .ok (base, attributes) ∧ Uri.parse base = .ok u ∧
        canCarry (.ofList u.scheme) = true ∧ u.host ≠ [] ∧ readPort u.port = .ok port ∧
        o = make (.ofList u.scheme) (.ofList u.host) port attributes := by
  unfold parseTrimmed
  constructor
  · intro h
    split at h
    · cases h
    · rename_i hne
      obtain ⟨⟨base, attributes⟩, hcut, h⟩ := Except.bind_eq_ok.mp h
      dsimp only at h
      split at h
      · cases h
      · rename_i u hu
        unfold ofUri at h
        split at h
        · cases h
        · rename_i hcarry
          split at h
          · cases h
          · rename_i hhost
            obtain ⟨port, hport, heq⟩ := Except.bind_eq_ok.mp h
            exact ⟨by simpa using hne, base, attributes, u, port, hcut, hu, by simpa using hcarry,
              by simpa using hhost, hport, (Except.ok.inj heq).symm⟩
  · rintro ⟨hne, base, attributes, u, port, hcut, hu, hcarry, hhost, hport, rfl⟩
    simp [hne, hcut, hu, ofUri, hcarry, hhost, hport, bind, Except.bind]

theorem cutAttributes_of_not_mem {s : List Char} (h : '^' ∉ s) : cutAttributes s = .ok (s, {}) := by
  rw [cutAttributes, cut_of_not_mem h]

/-- The texts of ports that an origin can have: none, or a number from 1 to 65535. -/
def IsPortText (s : List Char) : Prop := s = [] ∨ 0 < valueOf s ∧ valueOf s ≤ 65535

theorem readPort_eq_ok_iff {s : List Char} {port : Int} :
    readPort s = .ok port ↔ IsPortText s ∧ port = valueOf s := by
  unfold readPort IsPortText
  by_cases hs : s = []
  · simp [hs, valueOf, eq_comm]
  · have hne : s.isEmpty = false := by simpa using hs
    by_cases hrange : 0 < valueOf s ∧ valueOf s ≤ 65535
    · simp [hne, hrange, eq_comm]
    · have hcheck : (decide (0 < valueOf s) && decide (valueOf s ≤ 65535)) = false := by
        simpa using hrange
      simp [hs, hrange, hcheck]

theorem parse_eq_ok_iff_of_not_mem {raw : String} {o : Origin} (h : '^' ∉ raw.toList) :
    parse raw = .ok o ↔ ∃ u : Uri, Uri.parse (trim raw.toList) = .ok u ∧
      canCarry (.ofList u.scheme) = true ∧ u.host ≠ [] ∧ IsPortText u.port ∧
      o = make (.ofList u.scheme) (.ofList u.host) (valueOf u.port) {} := by
  have hcut : cutAttributes (trim raw.toList) = .ok (trim raw.toList, {}) :=
    cutAttributes_of_not_mem fun hmem => h (mem_of_mem_trimWhile hmem)
  rw [parse, parseTrimmed_eq_ok_iff]
  constructor
  · rintro ⟨-, base, attributes, u, port, hbase, hu, hcarry, hhost, hport, rfl⟩
    cases hcut.symm.trans hbase
    obtain ⟨htext, rfl⟩ := readPort_eq_ok_iff.mp hport
    exact ⟨u, hu, hcarry, hhost, htext, rfl⟩
  · rintro ⟨u, hu, hcarry, hhost, htext, rfl⟩
    refine ⟨?_, _, _, u, _, hcut, hu, hcarry, hhost, readPort_eq_ok_iff.mpr ⟨htext, rfl⟩, rfl⟩
    intro hempty
    rw [hempty] at hu
    cases hu
    exact hhost rfl

theorem parse_storable {raw : String} {o : Origin} (h : parse raw = .ok o) : o.Storable := by
  obtain ⟨-, s, attributes, u, port, -, hu, hcarry, -, -, rfl⟩ := parseTrimmed_eq_ok_iff.mp h
  constructor
  · rcases lowerString_of_canCarry hcarry with hs | hs | hs <;>
      simp only [make, hs] <;> decide
  · simp only [make, toList_lowerString, String.toList_ofList]
    rw [mem_lower_iff (by decide) (by decide)]
    exact Uri.not_mem_of_isHostText (Uri.parse_isHostText hu) (by decide)

theorem lower_host {raw : String} {o : Origin} (h : parse raw = .ok o) :
    lower o.host.toList = o.host.toList := by
  obtain ⟨-, s, attributes, u, port, -, -, -, -, -, rfl⟩ := parseTrimmed_eq_ok_iff.mp h
  simp [make]

/-- Two origins that were read have one key exactly if they agree in scheme, host, port and
attributes, whatever spelling they were read from. -/
theorem key_eq_iff {raw₁ raw₂ : String} {o₁ o₂ : Origin} (h₁ : parse raw₁ = .ok o₁)
    (h₂ : parse raw₂ = .ok o₂) :
    o₁.key = o₂.key ↔ o₁.scheme = o₂.scheme ∧ o₁.host = o₂.host ∧ o₁.port = o₂.port ∧
      o₁.attributes.appId = o₂.attributes.appId ∧
      o₁.attributes.inBrowser = o₂.attributes.inBrowser := by
  constructor
  · intro heq
    rw [key_injective (parse_storable h₁) (parse_storable h₂) heq]
    exact ⟨rfl, rfl, rfl, rfl, rfl⟩
  · rintro ⟨hscheme, hhost, hport, happ, hbrowser⟩
    obtain ⟨scheme₁, host₁, port₁, attributes₁⟩ := o₁
    obtain ⟨scheme₂, host₂, port₂, attributes₂⟩ := o₂
    cases attributes₁
    cases attributes₂
    simp_all

/-- A port and the last group of an address are kept apart. -/
theorem key_eq_iff_literals :
    parse "https://[::1]:80" = .ok ⟨"https", "::1", 80, {}⟩ ∧
      parse "https://[::1:80]" = .ok ⟨"https", "::1:80", 0, {}⟩ ∧
      ((⟨"https", "::1", 80, {}⟩ : Origin).key = (⟨"https", "::1:80", 0, {}⟩ : Origin).key ↔
        "https" = "https" ∧ "::1" = "::1:80" ∧ (80 : Int) = 0 ∧ (0 : UInt32) = 0 ∧ false = false) :=
  ⟨rfl, rfl,
    key_eq_iff (show parse "https://[::1]:80" = _ from rfl)
      (show parse "https://[::1:80]" = _ from rfl)⟩

end Consent.Origin

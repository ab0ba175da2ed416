import Consent.Proofs.Origin.RoundTrip

/-! Which of the origins that are read are read back from their keys. A key spells the decoded host
as it is, so a host that does not stand for itself in a URI is lost: one with a percent sign, one
with a colon that is no address, and one that ends in a blank where the key does. -/

namespace Consent.Origin

open Text Uri Host

/-- What is known of an origin that was read, whatever it was read from. -/
structure AsRead (o : Origin) : Prop where
  scheme : o.scheme = "http" ∨ o.scheme = "https" ∨ o.scheme = "ftp"
  text : IsHostText o.host.toList
  ne_nil : o.host.toList ≠ []
  lower : lower o.host.toList = o.host.toList
  name : ':' ∉ o.host.toList →
    ∀ c ∈ o.host.toList, c ≠ '[' ∧ (c = '%' ∨ admitsChar .host c = true)
  port : 0 ≤ o.port ∧ o.port ≤ 65535
  port_ne : o.port ≠ defaultPort o.scheme

theorem isHostChar_of_small {c : Char} (hlo : 'a' ≤ c) (hhi : c ≤ 'z') : isHostChar c = true := by
  simp [isHostChar, isAlnum, hlo, hhi]

theorem isHostText_lower {s : List Char} (h : IsHostText s) : IsHostText (lower s) :=
  forall_mem_lower (fun c hlo hhi => by simp [isHostText, isHostChar_of_small hlo hhi])
    (fun c hlarge => by simp [isHostText, hlarge]) h

theorem asRead_of_parse {raw : String} {o : Origin} (h : parse raw = .ok o) : o.AsRead := by
  obtain ⟨-, s, attributes, u, port, -, hu, hcarry, hne, hport, rfl⟩ := parseTrimmed_eq_ok_iff.mp h
  have hscheme := lowerString_of_canCarry hcarry
  have hrange : 0 ≤ port ∧ port ≤ 65535 := by
    obtain ⟨hnone | ⟨-, hle⟩, rfl⟩ := readPort_eq_ok_iff.mp hport
    · rw [hnone]
      decide
    · omega
  have hauthority : ∃ (a : Authority) (t : List Char), u.host = a.host ∧
      readHostPort t = .ok (a.host, a.port) := by
    cases ha : u.authority with
    | none => simp [Uri.host, ha] at hne
    | some a =>
      obtain ⟨t, ht⟩ := exists_readHostPort_of_parse hu ha
      exact ⟨a, t, by simp [Uri.host, ha], ht⟩
  refine ⟨hscheme, ?_, ?_, ?_, ?_, ?_, ?_⟩
  · simpa [make] using isHostText_lower (parse_isHostText hu)
  · simpa [make, lower] using hne
  · simp [make]
  · obtain ⟨a, t, hhost, ht⟩ := hauthority
    simp only [make, toList_lowerString, String.toList_ofList, hhost]
    intro hcolon
    rw [mem_lower_iff (by decide) (by decide)] at hcolon
    have hchars := fun c hc => mem_of_readHostPort (c := c) ht hcolon hc
    intro c hc
    constructor
    · rintro rfl
      rw [mem_lower_iff (by decide) (by decide)] at hc
      exact (hchars '[' hc).1 rfl
    · exact forall_mem_lower
        (fun c hlo hhi => Or.inr (by simp [admitsChar, isHostChar_of_small hlo hhi]))
        (fun c hlarge => Or.inr (by simp [admitsChar, hlarge])) (fun d hd => (hchars d hd).2) c hc
  · simp only [make]
    split
    · decide
    · exact hrange
  · have hdefault : defaultPort (lowerString (.ofList u.scheme)) =
        defaultPort (.ofList u.scheme) := by simp [defaultPort, defaultPort?]
    have hzero := defaultPort_ne_zero hcarry
    simp only [make, hdefault]
    split
    · exact hzero.symm
    · assumption

/-- Of a written authority, the host that is read is no longer than the one that was written. -/
theorem length_of_readHostPort {host h : List Char} {port p : Option (List Char)}
    (hport : IsPort port) (hname : ':' ∉ host → '[' ∉ host)
    (hread : readHostPort (bracketed host ++ portSuffix port) = .ok (h, p)) :
    h.length + 2 * host.count '%' ≤ host.length ∧
      (':' ∈ host → '%' ∉ host → isIpLiteral host = true) := by
  by_cases hcolon : ':' ∈ host
  · rw [bracketed_of_mem hcolon, List.cons_append, List.append_assoc, List.singleton_append] at hread
    by_cases hbracket : '[' ∈ host
    · rw [readHostPort_brackets (List.mem_append_left _ hbracket)] at hread
      cases hread
    · rw [readHostPort_literal hbracket hport] at hread
      obtain ⟨literal, hliteral, heq⟩ := Except.map_eq_ok.mp hread
      cases heq
      obtain ⟨hlength, hself, zone, hparse⟩ := readLiteral_eq_ok hliteral
      refine ⟨hlength, fun _ hpercent => ?_⟩
      rw [hself hpercent] at hparse
      exact isIpLiteral_of_parseIp hparse hpercent
  · rw [bracketed_of_not_mem hcolon, readHostPort_name (hname hcolon) hcolon hport] at hread
    obtain ⟨ps, hps, heq⟩ := Except.map_eq_ok.mp hread
    cases heq
    have hlength := length_of_decode hps
    exact ⟨by simpa using hlength, fun hmem => absurd hmem hcolon⟩

/-- What is read from a key is read from the part before its attributes. -/
theorem exists_readHostPort_of_key {o o' : Origin} (h : parseTrimmed o'.key.toList = .ok o)
    (hscheme : IsScheme o'.scheme.toList) (htext : IsHostText o'.host.toList) (hport : 0 ≤ o'.port)
    (hattributes : o'.attributes = o.attributes) :
    ∃ host port, readHostPort (bracketed o'.host.toList ++ portSuffix (portDigits o'.port)) =
      .ok (host, port) ∧ lower host = o.host.toList := by
  obtain ⟨-, base, attributes, u, port, hcut, hu, -, -, -, ho⟩ := parseTrimmed_eq_ok_iff.mp h
  have hattributes' : attributes = o'.attributes := by
    rw [hattributes, ho]
    rfl
  have hbase : base = o'.base := by
    rw [toList_key_eq, cutAttributes_append_suffix (not_mem_base hscheme htext hport)] at hcut
    split at hcut
    · exact (Prod.mk.inj (Except.ok.inj hcut)).1.symm
    · rename_i hnot
      obtain ⟨-, hdefault⟩ := Prod.mk.inj (Except.ok.inj hcut)
      rw [← hattributes', ← hdefault] at hnot
      exact absurd rfl hnot
  have hauthority := isHostText_authority htext (isPort_portDigits hport)
  have hat : '@' ∉ bracketed o'.host.toList ++ portSuffix (portDigits o'.port) :=
    not_mem_of_isHostText hauthority (by decide)
  rw [hbase] at hu
  obtain ⟨a, ha, rfl⟩ :=
    (parse_authority_iff hscheme (isAuthorityText_of_isHostText hauthority)).mp hu
  rw [Authority.parse_of_not_mem hat] at ha
  obtain ⟨⟨host, digits⟩, hread, rfl⟩ := Except.map_eq_ok.mp ha
  refine ⟨host, digits, hread, ?_⟩
  simp [ho, make, Uri.host]

/-- An origin that was read is read back from its key exactly if its host has no percent sign, has
no colon unless it is an address, and the key does not end in a blank. -/
theorem parse_key_iff {raw : String} {o : Origin} (h : parse raw = .ok o) :
    parse o.key = .ok o ↔
      '%' ∉ o.host.toList ∧ (':' ∈ o.host.toList → isIpLiteral o.host.toList = true) ∧
        trimString o.key = o.key := by
  have hread := asRead_of_parse h
  have hscheme := isScheme_of_carries hread.scheme
  constructor
  · intro hkey
    obtain ⟨host, dropped, hhost, -, hkept, htrim⟩ := exists_trim_key hscheme hread.port.1
    have htext : IsHostText host := by
      intro c hc
      exact hread.text c (by simp [hhost, hc])
    have hname : ':' ∉ host → '[' ∉ host := by
      intro hcolon hbracket
      by_cases hmem : ':' ∈ o.host.toList
      · rw [hkept hmem, List.append_nil] at hhost
        exact hcolon (hhost ▸ hmem)
      · exact (hread.name hmem '[' (by simp [hhost, hbracket])).1 rfl
    have hparse : parseTrimmed ({ o with host := .ofList host } : Origin).key.toList = .ok o := by
      rw [← htrim]
      exact hkey
    obtain ⟨host', port', hread', hlower⟩ :=
      exists_readHostPort_of_key hparse hscheme (by simpa using htext) hread.port.1 rfl
    simp only [String.toList_ofList] at hread'
    obtain ⟨hlength, hliteral⟩ :=
      length_of_readHostPort (isPort_portDigits hread.port.1) hname hread'
    -- the host that was read back is as long as the one written, so nothing was dropped or escaped
    have hsame : host'.length = host.length + dropped.length := by
      rw [← length_lower, hlower, hhost, List.length_append]
    have hdropped : dropped = [] := List.length_eq_zero_iff.mp (by omega)
    have hpercent : '%' ∉ host := List.count_eq_zero.mp (by omega)
    rw [hdropped, List.append_nil] at hhost
    rw [hhost]
    refine ⟨hpercent, fun hmem => hliteral hmem hpercent, ?_⟩
    rw [← String.toList_inj, toList_trimString, htrim, ← hhost, String.ofList_toList]
  · rintro ⟨hpercent, hliteral, htrim⟩
    apply Canonical.parse_key
    refine ⟨hread.scheme, ?_, hread.lower, hread.port, hread.port_ne, ?_⟩
    · by_cases hcolon : ':' ∈ o.host.toList
      · exact .literal (parseIp_of_isIpLiteral (hliteral hcolon) hcolon)
      · have hchars := hread.name hcolon
        refine .name hread.ne_nil ?_ hcolon ?_
        · intro c hc
          refine (hchars c hc).2.resolve_left ?_
          rintro rfl
          exact hpercent hc
        · exact fun hmem => (hchars '[' hmem).1 rfl
    · rw [← toList_trimString, htrim]

theorem parse_key_iff_spelled :
    parse "HTTPS://[2001:DB8::A]:0443/x^y" = .ok ⟨"https", "2001:db8::a", 0, {}⟩ ∧
      parse (Origin.mk "https" "2001:db8::a" 0 {}).key = .ok ⟨"https", "2001:db8::a", 0, {}⟩ :=
  ⟨rfl, (parse_key_iff (show parse "HTTPS://[2001:DB8::A]:0443/x^y" = _ from rfl)).mpr
    (by decide +kernel)⟩

/-- The zone of an address is decoded when it is read, and its key is no URI. -/
theorem zonedAddress_not_read_back :
    parse "http://[fe80::1%25eth0]" = .ok ⟨"http", "fe80::1%eth0", 0, {}⟩ ∧
      (Origin.mk "http" "fe80::1%eth0" 0 {}).key = "http://[fe80::1%eth0]" ∧
      ¬∃ o, parse "http://[fe80::1%eth0]" = .ok o := by
  refine ⟨rfl, by decide +kernel, ?_⟩
  rintro ⟨o, ho⟩
  have herror : (parse "http://[fe80::1%eth0]").isOk = false := by decide +kernel
  rw [ho] at herror
  cases herror

end Consent.Origin

import Consent.Legacy.Expand
import Consent.Proofs.Origin.FreeText

/-! The keys that rows by host name are carried over to, and what they are read as. The check of a
row lets through any host without spaces and the marks of a URI, so a key is read back only if its
host is a name; the isolation attributes of a key are those of its row in every case. -/

namespace Consent.Legacy

open Text Host Uri

/-- The origin of a row's host with a scheme and a port. -/
def Row.target (r : Row) (sp : SchemePort) : Origin where
  scheme := sp.scheme
  host := r.hostName
  port := if sp.port = Origin.defaultPort sp.scheme then 0 else sp.port
  attributes := r.attributes

theorem stripBrackets_lower (s : List Char) :
    stripBrackets (lower s) = lower (stripBrackets s) := by
  refine trimWhile_map (fun c => ?_) s
  have hopen : lowerChar c = '[' ↔ c = '[' := lowerChar_eq_iff (by decide) (by decide)
  have hclose : lowerChar c = ']' ↔ c = ']' := lowerChar_eq_iff (by decide) (by decide)
  simp [hopen, hclose]

theorem isIpLiteral_of_not_isVerbatim {host : List Char} (h : isVerbatim host = false)
    (hcolon : ':' ∈ host) : isIpLiteral (stripBrackets host) = true := by
  unfold isVerbatim at h
  split at h
  · cases h
  · split at h
    · assumption
    · simp [hcolon] at h

namespace Row

variable {r : Row} {sp : SchemePort}

theorem toList_hostName (r : Row) : r.hostName.toList = lower (stripBrackets r.host.toList) := by
  rw [hostName, String.toList_ofList, stripBrackets_lower]

theorem lower_hostName (r : Row) : lower r.hostName.toList = r.hostName.toList := by
  rw [toList_hostName, lower_lower]

theorem isForeign_of_check (h : r.check = .ok ()) (hname : isVerbatim r.host.toList = false) :
    ∀ c ∈ r.host.toList, isForeign c = false := by
  unfold check at h
  split at h
  · cases h
  split at h
  · cases h
  split at h
  · cases h
  split at h
  · cases h
  · rename_i hforeign
    simpa [hname] using hforeign

/-- A row's host name has none of the marks that rows are checked for. -/
theorem not_mem_hostName (h : r.check = .ok ()) (hname : isVerbatim r.host.toList = false)
    {c : Char} (hc : isForeign c = true) : c ∉ r.hostName.toList := by
  have hall : ∀ d ∈ [' ', '/', '?', '#', '@'], decide (d.toNat < 0x80 ∧
      ¬('A' ≤ d ∧ d ≤ 'Z') ∧ ¬('a' ≤ d ∧ d ≤ 'z')) = true := List.all_eq_true.mp (by decide)
  have hmark := hall c (by simpa [isForeign] using hc)
  obtain ⟨hascii, hletter⟩ := of_decide_eq_true hmark
  rw [toList_hostName, mem_lower_iff hascii hletter]
  intro hmem
  have hclean := isForeign_of_check h hname c (mem_of_mem_trimWhile hmem)
  rw [hc] at hclean
  cases hclean

theorem keyAt_eq_key (hscheme : sp.scheme = "http" ∨ sp.scheme = "https" ∨ sp.scheme = "ftp") :
    r.keyAt sp = (r.target sp).key := by
  have hhost : lowerString r.hostName = r.hostName := by
    rw [← String.toList_inj, toList_lowerString, toList_hostName, lower_lower]
  have hmake : Origin.make sp.scheme r.hostName sp.port r.attributes = r.target sp := by
    simp [Origin.make, target, hhost, Origin.lowerString_of_carries hscheme]
  rw [keyAt, hmake]

theorem parseIp_hostName (hname : isVerbatim r.host.toList = false)
    (hcolon : ':' ∈ r.hostName.toList) : parseIp r.hostName.toList = .ok (.v6 []) := by
  rw [toList_hostName, mem_lower_iff (by decide) (by decide)] at hcolon
  have hliteral := isIpLiteral_of_not_isVerbatim hname (mem_of_mem_trimWhile hcolon)
  rw [toList_hostName]
  exact parseIp_lower (parseIp_of_isIpLiteral hliteral hcolon)

section Target

variable (hname : isVerbatim r.host.toList = false)
  (hscheme : sp.scheme = "http" ∨ sp.scheme = "https" ∨ sp.scheme = "ftp")
  (hport : 0 ≤ sp.port ∧ sp.port ≤ 65535)

include hscheme hport in
theorem port_target : (0 ≤ (r.target sp).port ∧ (r.target sp).port ≤ 65535) ∧
    (r.target sp).port ≠ Origin.defaultPort (r.target sp).scheme := by
  have hzero := Origin.defaultPort_ne_zero (Origin.canCarry_of_carries hscheme)
  unfold target
  split
  · exact ⟨⟨Int.le_refl 0, Int.zero_le_ofNat 65535⟩, hzero.symm⟩
  · rename_i hne
    exact ⟨hport, hne⟩

include hname hscheme hport in
/-- A host name with a colon is an address, and its key tells the origin in full. -/
theorem canonical_target (hcolon : ':' ∈ r.hostName.toList) : (r.target sp).Canonical := by
  have haddress := parseIp_hostName hname hcolon
  obtain ⟨hrange, hne⟩ := port_target (r := r) hscheme hport
  refine ⟨hscheme, .literal haddress, ?_, hrange, hne, ?_⟩
  · simp [target, toList_hostName]
  · exact Origin.trim_key_of_isHostChar (Origin.isScheme_of_carries hscheme) hrange.1
      fun c hc => isHostChar_of_isIpChar (isIpChar_of_parseIp haddress c hc)

include hname hscheme hport in
/-- Any other host name is free text. -/
theorem freeText_target (h : r.check = .ok ()) (hcolon : ':' ∉ r.hostName.toList) :
    (r.target sp).FreeText := by
  obtain ⟨hrange, hne⟩ := port_target (r := r) hscheme hport
  refine ⟨hscheme, ?_, ?_, hcolon, ?_, hrange, hne⟩
  · simp [target, toList_hostName]
  · intro c hc
    have hall : ∀ d ∈ ['/', '?', '#', '@'], isForeign d = true :=
      List.all_eq_true.mp (by decide)
    exact not_mem_hostName h hname (hall c hc)
  · intro hfront
    rw [target, hostName, String.toList_ofList] at hfront
    exact absurd (head?_trimWhile hfront) (by decide)

end Target

/-- The key of a row's host name is read back exactly if the host name is one that can stand in a
URI as it is. Whatever the host, scheme, port and attributes are read as they were, and no origin
and no row of other attributes has the key. -/
theorem keyAt_keeps_context (h : r.check = .ok ()) (hname : isVerbatim r.host.toList = false)
    (hscheme : sp.scheme = "http" ∨ sp.scheme = "https" ∨ sp.scheme = "ftp")
    (hport : 0 ≤ sp.port ∧ sp.port ≤ 65535) :
    (Origin.parse (r.keyAt sp) = .ok (r.target sp) ↔
        r.hostName ≠ "" ∧ (∀ c ∈ r.hostName.toList, c ≠ '[' ∧ admitsChar .host c = true) ∧
          trimString (r.keyAt sp) = r.keyAt sp) ∧
      (∀ o, Origin.parse (r.keyAt sp) = .ok o →
        o.scheme = sp.scheme ∧ o.port = (r.target sp).port ∧ o.attributes = r.attributes) ∧
      (∀ raw o, Origin.parse raw = .ok o → o.key = r.keyAt sp → o.attributes = r.attributes) ∧
      ∀ (r' : Row) (sp' : SchemePort), r'.keyAt sp' = r.keyAt sp →
        r'.attributes = r.attributes := by
  have hkey := keyAt_eq_key (r := r) hscheme
  refine ⟨?_, ?_, ?_, fun r' sp' => Origin.attributes_eq_of_key_make⟩
  · rw [hkey]
    by_cases hcolon : ':' ∈ r.hostName.toList
    · have hcanonical := canonical_target hname hscheme hport hcolon
      have haddress := parseIp_hostName hname hcolon
      refine iff_of_true hcanonical.parse_key ⟨?_, ?_, ?_⟩
      · have hne := hcanonical.host.ne_nil
        rwa [Ne, ← String.toList_inj]
      · intro c hc
        refine ⟨?_, hcanonical.host.admitsChar hc⟩
        rintro rfl
        exact absurd (isIpChar_of_parseIp haddress '[' hc) (by decide)
      · rw [← String.toList_inj, toList_trimString, hcanonical.trim]
    · exact (freeText_target hname hscheme hport h hcolon).read_back_iff
  · intro o hparse
    rw [hkey] at hparse
    by_cases hcolon : ':' ∈ r.hostName.toList
    · have hread := (canonical_target hname hscheme hport hcolon).parse_key
      obtain rfl : r.target sp = o := Except.ok.inj (hread.symm.trans hparse)
      exact ⟨rfl, rfl, rfl⟩
    · obtain ⟨text, ps, -, -, -, rfl, -⟩ :=
        (freeText_target hname hscheme hport h hcolon).exists_decode_of_parse hparse
      exact ⟨rfl, rfl, rfl⟩
  · intro raw o hparse hsame
    obtain ⟨-, s, attributes, u, port, -, -, -, -, -, rfl⟩ :=
      Origin.parseTrimmed_eq_ok_iff.mp hparse
    exact Origin.attributes_eq_of_key_make hsame

/-- An address in brackets and capitals, at the default port of its scheme. -/
theorem keyAt_keeps_context_address :
    let r : Row := ⟨7, "[2001:DB8::A]", "popup", .block, .never, .unset, .unset, ⟨4294967295, true⟩⟩
    r.check = .ok () ∧ isVerbatim r.host.toList = false ∧
      r.keyAt ⟨"https", 443⟩ = "https://[2001:db8::a]^appId=4294967295&inBrowser=1" ∧
      Origin.parse (r.keyAt ⟨"https", 443⟩) =
        .ok ⟨"https", "2001:db8::a", 0, ⟨4294967295, true⟩⟩ := by
  intro r
  have hcheck : r.check = .ok () := by decide +kernel
  have hname : isVerbatim r.host.toList = false := by decide +kernel
  have hchars : r.hostName.toList.all (fun c => c ≠ '[' && admitsChar .host c) = true := by
    decide +kernel
  have htarget : r.target ⟨"https", 443⟩ =
      ⟨"https", "2001:db8::a", 0, ⟨4294967295, true⟩⟩ := by decide +kernel
  refine ⟨hcheck, hname, by decide +kernel, ?_⟩
  rw [← htarget]
  apply (keyAt_keeps_context hcheck hname (by decide) (by decide)).1.mpr
  refine ⟨by decide +kernel, fun c hc => ?_, by decide +kernel⟩
  simpa using List.all_eq_true.mp hchars c hc

/-- A caret at the end of a host is let through by the check and taken for the start of attributes
when the key is read, so the row stands under a key that names another host. -/
theorem caretHost_read_as_other :
    let r : Row := ⟨1, "foo.com^", "popup", .allow, .never, .unset, .unset, {}⟩
    r.check = .ok () ∧ isVerbatim r.host.toList = false ∧ r.hostName = "foo.com^" ∧
      r.keyAt ⟨"http", 0⟩ = "http://foo.com^" ∧
      Origin.parse (r.keyAt ⟨"http", 0⟩) = .ok ⟨"http", "foo.com", 0, {}⟩ := by
  decide +kernel

end Row

end Consent.Legacy

import Consent.Proofs.Origin.Key
import Consent.Proofs.Text.Blank
import Consent.Proofs.Uri.Written

/-! An origin whose host is read as it is written is read back from its key. -/

namespace Consent.Origin

open Text Uri Host

/-- The port of a key, as the text of a URI's port. -/
def portDigits (port : Int) : Option (List Char) :=
  if port = 0 then none else some (decimal port).toList

theorem portSuffix_portDigits (port : Int) : portSuffix (portDigits port) = portText port := by
  unfold portDigits portText
  split <;> rfl

/-- An origin as it is read: a scheme that carries permissions, a plain host in lower case, and a
port that is not the default one. -/
structure Ordinary (o : Origin) : Prop where
  scheme : o.scheme = "http" ∨ o.scheme = "https" ∨ o.scheme = "ftp"
  host : IsPlainHost o.host.toList
  lower : lower o.host.toList = o.host.toList
  port : 0 ≤ o.port ∧ o.port ≤ 65535
  port_ne : o.port ≠ defaultPort o.scheme

theorem toList_decimal {n : Int} (h : 0 ≤ n) : (decimal n).toList = digits n.toNat := by
  obtain ⟨m, rfl⟩ := Int.eq_ofNat_of_zero_le h
  simp [decimal]

theorem isPort_portDigits {port : Int} (h : 0 ≤ port) : IsPort (portDigits port) := by
  intro ds hds c hc
  unfold portDigits at hds
  split at hds
  · cases hds
  · rw [← Option.some.inj hds, toList_decimal h] at hc
    exact isDigit_of_mem_digits hc

/-- The part of a key before its attributes. -/
def base (o : Origin) : List Char :=
  o.scheme.toList ++ ':' :: '/' :: '/' :: (bracketed o.host.toList ++ portSuffix (portDigits o.port))

theorem toList_key_eq (o : Origin) : o.key.toList = o.base ++ o.attributes.suffix := by
  rw [toList_key, base, portSuffix_portDigits]
  simp

theorem bracketed_of_mem {host : List Char} (h : ':' ∈ host) :
    bracketed host = '[' :: (host ++ [']']) := by
  simp [bracketed, h]

theorem bracketed_of_not_mem {host : List Char} (h : ':' ∉ host) : bracketed host = host := by
  simp [bracketed, h]

theorem Attributes.isHostChar_of_mem_suffix {a : Attributes} {c : Char} (h : c ∈ a.suffix) :
    isHostChar c = true ∨ c = '^' := by
  unfold Attributes.suffix at h
  split at h
  · cases h
  · rcases List.mem_cons.mp h with rfl | h
    · exact Or.inr rfl
    · left
      obtain rfl | ⟨param, hparam, hc⟩ := mem_of_mem_joinWith h
      · decide
      · unfold Attributes.params at hparam
        rcases List.mem_append.mp hparam with hparam | hparam
        · split at hparam
          · cases hparam
          · rw [List.mem_singleton.mp hparam] at hc
            rcases List.mem_append.mp hc with hc | hc
            · have hall : Attributes.appIdKey.all isHostChar = true := by decide
              exact List.all_eq_true.mp hall c hc
            · rcases List.mem_cons.mp hc with rfl | hc
              · decide
              · simp [isHostChar, isAlnum, isDigit_of_mem_digits hc]
        · split at hparam
          · rw [List.mem_singleton.mp hparam] at hc
            have hall : (Attributes.inBrowserKey ++ ['=', '1']).all isHostChar = true := by decide
            exact List.all_eq_true.mp hall c hc
          · cases hparam

/-- Nothing before the host and port of a URI is trimmed. -/
theorem trim_scheme {scheme : List Char} (h : IsScheme scheme) (s : List Char) :
    trim (scheme ++ ':' :: '/' :: '/' :: s) =
      scheme ++ ':' :: '/' :: '/' :: dropEndWhile isBlank s := by
  obtain ⟨⟨c, rest, rfl, -⟩, hchars⟩ := h
  have hrange := toNat_of_isHostChar (isHostChar_of_isSchemeChar (hchars c List.mem_cons_self))
  have hblank : isBlank c = false := isBlank_eq_false hrange.1 hrange.2
  have hend := dropEndWhile_append_cons (p := isBlank) (rest ++ [':', '/']) (c := '/') (by decide) s
  simp only [List.append_assoc, List.cons_append, List.nil_append] at hend
  rw [trim, List.cons_append, trimWhile_cons hblank, hend]
  simp

theorem isBlank_of_mem_suffix {o : Origin} (hport : 0 ≤ o.port) {c : Char}
    (hc : c ∈ portSuffix (portDigits o.port) ++ o.attributes.suffix) : isBlank c = false := by
  have hrange : 33 ≤ c.toNat ∧ c.toNat ≤ 126 := by
    rcases List.mem_append.mp hc with hc | hc
    · rcases isDigit_of_mem_portSuffix (isPort_portDigits hport) hc with rfl | hdigit
      · decide
      · exact toNat_of_isHostChar (by simp [isHostChar, isAlnum, hdigit])
    · rcases Attributes.isHostChar_of_mem_suffix hc with hchar | rfl
      · exact toNat_of_isHostChar hchar
      · decide
  exact isBlank_eq_false hrange.1 hrange.2

/-- Trimming a key takes nothing away but blanks at the end of a host that is no literal. -/
theorem exists_trim_key {o : Origin} (hscheme : IsScheme o.scheme.toList) (hport : 0 ≤ o.port) :
    ∃ host dropped, o.host.toList = host ++ dropped ∧ (∀ c ∈ dropped, isBlank c = true) ∧
      (':' ∈ o.host.toList → dropped = []) ∧
      trim o.key.toList = ({ o with host := .ofList host } : Origin).key.toList := by
  have hkey : o.key.toList = o.scheme.toList ++ ':' :: '/' :: '/' ::
      (bracketed o.host.toList ++ (portSuffix (portDigits o.port) ++ o.attributes.suffix)) := by
    rw [toList_key, portSuffix_portDigits, List.append_assoc]
  have hself : (∀ c ∈ (bracketed o.host.toList ++
      (portSuffix (portDigits o.port) ++ o.attributes.suffix)).getLast?, isBlank c = false) →
      ∃ host dropped, o.host.toList = host ++ dropped ∧ (∀ c ∈ dropped, isBlank c = true) ∧
        (':' ∈ o.host.toList → dropped = []) ∧
        trim o.key.toList = ({ o with host := .ofList host } : Origin).key.toList := by
    intro hlast
    refine ⟨o.host.toList, [], by simp, by simp, fun _ => rfl, ?_⟩
    rw [hkey, trim_scheme hscheme, dropEndWhile_eq_self hlast, ← hkey, String.ofList_toList]
  rcases List.eq_nil_or_concat (portSuffix (portDigits o.port) ++ o.attributes.suffix) with
    hnil | ⟨front, c, hfront⟩
  · by_cases hcolon : ':' ∈ o.host.toList
    · apply hself
      rw [hnil, bracketed_of_mem hcolon, List.append_nil, ← List.cons_append, List.getLast?_concat]
      intro c hc
      obtain rfl := Option.some.inj hc
      decide
    · obtain ⟨dropped, hhost, hdropped⟩ := exists_dropEndWhile_append isBlank o.host.toList
      refine ⟨_, dropped, hhost, hdropped, fun hmem => absurd hmem hcolon, ?_⟩
      have hcolon' : ':' ∉ dropEndWhile isBlank o.host.toList := by
        intro hmem
        rw [hhost] at hcolon
        exact hcolon (List.mem_append_left _ hmem)
      rw [hkey, hnil, bracketed_of_not_mem hcolon, List.append_nil, trim_scheme hscheme, toList_key]
      rw [portSuffix_portDigits, List.append_eq_nil_iff] at hnil
      simp [bracketed_of_not_mem hcolon', hnil]
  · apply hself
    intro d hd
    apply isBlank_of_mem_suffix hport
    rw [hfront] at hd ⊢
    simp only [List.concat_eq_append, ← List.append_assoc, List.getLast?_concat, Option.mem_def,
      Option.some.injEq] at hd
    simp [hd]

/-- Attributes are divided from a text without carets exactly if it is bare. -/
theorem cutAttributes_append_suffix {s : List Char} (h : '^' ∉ s) (a : Attributes) :
    cutAttributes (s ++ a.suffix) =
      .ok (if a.isDefault || isBare s then (s, a) else (s ++ a.suffix, {})) := by
  unfold cutAttributes Attributes.suffix
  cases hd : a.isDefault with
  | true =>
    have hattributes : a = {} := Attributes.eq_of_isDefault hd
    simp [cut_of_not_mem h, hattributes]
  | false =>
    cases hbare : isBare s with
    | true => simp [cut_append h, hbare, Attributes.parse_params hd]
    | false => simp [cut_append h, hbare]

/-- An origin that its key tells in full: a scheme that carries permissions, a host in lower case
that is read as it is written, a port that is not the default one, and no blank at the end. -/
structure Canonical (o : Origin) : Prop where
  scheme : o.scheme = "http" ∨ o.scheme = "https" ∨ o.scheme = "ftp"
  host : IsHost o.host.toList
  lower : lower o.host.toList = o.host.toList
  port : 0 ≤ o.port ∧ o.port ≤ 65535
  port_ne : o.port ≠ defaultPort o.scheme
  trim : trim o.key.toList = o.key.toList

section Scheme

variable {scheme : String}

theorem isScheme_of_carries (h : scheme = "http" ∨ scheme = "https" ∨ scheme = "ftp") :
    IsScheme scheme.toList := by
  rcases h with rfl | rfl | rfl <;>
    exact ⟨⟨_, _, rfl, by decide⟩, List.all_eq_true.mp (by decide)⟩

theorem canCarry_of_carries (h : scheme = "http" ∨ scheme = "https" ∨ scheme = "ftp") :
    canCarry scheme = true := by
  rcases h with rfl | rfl | rfl <;> decide

theorem lowerString_of_carries (h : scheme = "http" ∨ scheme = "https" ∨ scheme = "ftp") :
    lowerString scheme = scheme := by
  rcases h with rfl | rfl | rfl <;> decide

end Scheme

theorem readPort_portDigits {port : Int} (h : 0 ≤ port ∧ port ≤ 65535) :
    readPort ((portDigits port).getD []) = .ok port := by
  unfold portDigits readPort
  split
  · rename_i hzero
    simp [hzero]
  · rename_i hzero
    have hpos : 0 < port.toNat := by omega
    have hle : port.toNat ≤ 65535 := by omega
    simp [toList_decimal h.1, valueOf_digits, digits_ne_nil, hpos, hle]
    omega

theorem isHostText_authority {host : List Char} {port : Option (List Char)} (hhost : IsHostText host)
    (hport : IsPort port) : IsHostText (bracketed host ++ portSuffix port) := by
  intro c hc
  rcases List.mem_append.mp hc with hc | hc
  · unfold bracketed at hc
    split at hc
    · simp only [List.cons_append, List.mem_cons, List.mem_append, List.not_mem_nil, or_false] at hc
      rcases hc with rfl | hc | rfl
      · decide
      · exact hhost c hc
      · decide
    · exact hhost c hc
  · rcases isDigit_of_mem_portSuffix hport hc with rfl | hdigit
    · decide
    · simp [isHostText, isHostChar, isAlnum, hdigit]

/-- No key has a caret before its attributes. -/
theorem not_mem_base {o : Origin} (hscheme : IsScheme o.scheme.toList)
    (hhost : IsHostText o.host.toList) (hport : 0 ≤ o.port) : '^' ∉ o.base := by
  have htext := isHostText_authority hhost (isPort_portDigits hport)
  have hauthority : '^' ∉ bracketed o.host.toList ++ portSuffix (portDigits o.port) :=
    not_mem_of_isHostText htext (by decide)
  have hscheme' : '^' ∉ o.scheme.toList := fun hmem => absurd (hscheme.2 '^' hmem) (by decide)
  rw [List.mem_append] at hauthority
  simpa [base, hscheme'] using hauthority

namespace Canonical

variable {o : Origin}

theorem isHostText (h : o.Canonical) : IsHostText o.host.toList := by
  intro c hc
  have hadmits := h.host.admitsChar hc
  simp only [admitsChar, Bool.or_eq_true, decide_eq_true_eq] at hadmits
  rcases hadmits with (hpart | hlarge) | hchar
  · cases hpart
  · simp [Uri.isHostText, hlarge]
  · simp [Uri.isHostText, hchar]

theorem readHostPort_written (h : o.Canonical) :
    readHostPort (bracketed o.host.toList ++ portSuffix (portDigits o.port)) =
      .ok (o.host.toList, portDigits o.port) := by
  have hport := isPort_portDigits h.port.1
  cases h.host with
  | name ne_nil chars colon bracket =>
    have hdecode := decode_host_of_admits chars
    rw [bracketed_of_not_mem colon, readHostPort_name bracket colon hport, hdecode]
    simp only [Except.map, map_toChar_map_char]
  | literal address =>
    have hcolon := colon_mem_of_parseIp address
    have hbracket : '[' ∉ o.host.toList := by
      intro hmem
      exact absurd (isIpChar_of_parseIp address '[' hmem) (by decide)
    rw [bracketed_of_mem hcolon, List.cons_append, List.append_assoc, List.singleton_append,
      readHostPort_literal hbracket hport, readLiteral_of_parseIp address]
    rfl

theorem parse_base (h : o.Canonical) :
    Uri.parse o.base =
      .ok ⟨o.scheme.toList, some ⟨none, o.host.toList, portDigits o.port⟩, [], none, []⟩ := by
  have htext := isHostText_authority h.isHostText (isPort_portDigits h.port.1)
  have hat : '@' ∉ bracketed o.host.toList ++ portSuffix (portDigits o.port) :=
    not_mem_of_isHostText htext (by decide)
  have hlower : Text.lower o.scheme.toList = o.scheme.toList := by
    rw [← toList_lowerString, lowerString_of_carries h.scheme]
  have hauthority := Authority.parse_of_not_mem hat
  rw [h.readHostPort_written] at hauthority
  refine (parse_authority_iff (isScheme_of_carries h.scheme)
    (isAuthorityText_of_isHostText htext)).mpr ⟨_, hauthority, ?_⟩
  rw [hlower]

theorem cutAttributes_key (h : o.Canonical) :
    cutAttributes o.key.toList = .ok (o.base, o.attributes) := by
  have hbare : isBare o.base = true := by
    simp [isBare, h.parse_base, Uri.isBare, Authority.isVoid, h.host.ne_nil]
  have hcaret := not_mem_base (isScheme_of_carries h.scheme) h.isHostText h.port.1
  rw [toList_key_eq, cutAttributes_append_suffix hcaret]
  simp [hbare]

/-- Reading the key of a canonical origin gives the origin back. -/
theorem parse_key (h : o.Canonical) : parse o.key = .ok o := by
  have hne : o.key.toList ≠ [] := by
    obtain ⟨⟨c, rest, hscheme, -⟩, -⟩ := isScheme_of_carries h.scheme
    rw [toList_key_eq, base, hscheme]
    exact List.cons_ne_nil _ _
  have hmake : make o.scheme o.host o.port o.attributes = o := by
    have hhost : lowerString o.host = o.host := by
      rw [← String.toList_inj, toList_lowerString, h.lower]
    simp [make, lowerString_of_carries h.scheme, hhost, h.port_ne]
  have hof : ofUri o.key.toList
      ⟨o.scheme.toList, some ⟨none, o.host.toList, portDigits o.port⟩, [], none, []⟩
      o.attributes = .ok o := by
    simp [ofUri, Uri.host, Uri.port, canCarry_of_carries h.scheme, h.host.ne_nil,
      readPort_portDigits h.port, hmake, bind, Except.bind]
  unfold parse parseTrimmed
  rw [h.trim, h.cutAttributes_key]
  simp [hne, bind, Except.bind, h.parse_base, hof]

end Canonical

theorem trim_key_of_isHostChar {o : Origin} (hscheme : IsScheme o.scheme.toList)
    (hport : 0 ≤ o.port) (hhost : ∀ c ∈ o.host.toList, isHostChar c = true) :
    trim o.key.toList = o.key.toList := by
  obtain ⟨host, dropped, heq, hdropped, -, htrim⟩ := exists_trim_key hscheme hport
  have hnil : dropped = [] := by
    refine List.eq_nil_iff_forall_not_mem.mpr fun c hc => ?_
    have hrange := toNat_of_isHostChar (hhost c (by simp [heq, hc]))
    have hblank := hdropped c hc
    rw [isBlank_eq_false hrange.1 hrange.2] at hblank
    cases hblank
  rw [hnil, List.append_nil] at heq
  rw [htrim, ← heq, String.ofList_toList]

theorem Ordinary.canonical {o : Origin} (h : o.Ordinary) : o.Canonical where
  scheme := h.scheme
  host := h.host.isHost
  lower := h.lower
  port := h.port
  port_ne := h.port_ne
  trim := trim_key_of_isHostChar (isScheme_of_carries h.scheme) h.port.1
    fun c hc => (h.host.chars c hc).1

/-- Reading the key of an ordinary origin gives the origin back. -/
theorem Ordinary.parse_key {o : Origin} (h : o.Ordinary) : parse o.key = .ok o :=
  h.canonical.parse_key

/-- Small letters, digits, minus, underscore and point. -/
def isLabelChar (c : Char) : Bool :=
  ('a' ≤ c && c ≤ 'z') || isDigit c || c = '-' || c = '_' || c = '.'

theorem isPlainHost_of_isLabelChar {host : List Char} (hne : host ≠ [])
    (h : ∀ c ∈ host, isLabelChar c = true) : IsPlainHost host := by
  refine ⟨hne, fun c hc => ?_⟩
  have hlabel := h c hc
  refine ⟨?_, ?_, ?_⟩
  · simp only [isLabelChar, Bool.or_eq_true, decide_eq_true_eq] at hlabel
    rcases hlabel with (((hletter | hdigit) | rfl) | rfl) | rfl
    · simp [isHostChar, isAlnum, hletter]
    · simp [isHostChar, isAlnum, hdigit]
    · decide
    · decide
    · decide
  · rintro rfl
    exact absurd hlabel (by decide)
  · rintro rfl
    exact absurd hlabel (by decide)

theorem lower_of_isLabelChar {host : List Char} (h : ∀ c ∈ host, isLabelChar c = true) :
    lower host = host := by
  refine lower_eq_self fun c hc => ?_
  have hlabel := h c hc
  simp only [isLabelChar, isDigit, Bool.or_eq_true, Bool.and_eq_true, decide_eq_true_eq] at hlabel
  rcases hlabel with (((⟨hlo, hhi⟩ | ⟨hlo, hhi⟩) | rfl) | rfl) | rfl
  · have hlo' : 97 ≤ c.toNat := hlo
    have hhi' : c.toNat ≤ 122 := hhi
    refine lowerChar_of_lt (by omega) ?_
    rintro ⟨-, hcap⟩
    have hcap' : c.toNat ≤ 90 := hcap
    omega
  · have hhi' : c.toNat ≤ 57 := hhi
    refine lowerChar_of_lt (by omega) ?_
    rintro ⟨hcap, -⟩
    have hcap' : 65 ≤ c.toNat := hcap
    omega
  · decide
  · decide
  · decide

/-- An origin with a name of labels or an address for its host is read back from its key, and its
attributes from their suffix. -/
theorem parse_key_and_suffix {scheme host : String} {port : Int} (attributes : Attributes)
    (hscheme : scheme = "http" ∨ scheme = "https" ∨ scheme = "ftp")
    (hhost : (host.toList ≠ [] ∧ ∀ c ∈ host.toList, isLabelChar c = true) ∨
      (parseIp host.toList = .ok (.v6 []) ∧ lower host.toList = host.toList))
    (hport : port = 0 ∨ (1 ≤ port ∧ port ≤ 65535) ∧ port ≠ defaultPort scheme) :
    parse (Origin.mk scheme host port attributes).key = .ok ⟨scheme, host, port, attributes⟩ ∧
      Attributes.parse attributes.suffix = .ok attributes := by
  refine ⟨?_, Attributes.parse_suffix attributes⟩
  have hrange : 0 ≤ port ∧ port ≤ 65535 := by omega
  have hdefault : port ≠ defaultPort scheme := by
    rcases hport with rfl | ⟨-, hne⟩
    · rcases hscheme with rfl | rfl | rfl <;> decide
    · exact hne
  have hisHost : IsHost host.toList ∧ lower host.toList = host.toList ∧
      ∀ c ∈ host.toList, isHostChar c = true := by
    rcases hhost with ⟨hne, hlabel⟩ | ⟨haddress, hlower⟩
    · have hplain := isPlainHost_of_isLabelChar hne hlabel
      exact ⟨hplain.isHost, lower_of_isLabelChar hlabel, fun c hc => (hplain.chars c hc).1⟩
    · exact ⟨.literal haddress, hlower,
        fun c hc => isHostChar_of_isIpChar (isIpChar_of_parseIp haddress c hc)⟩
  obtain ⟨hwritten, hlower, hchars⟩ := hisHost
  apply Canonical.parse_key
  exact ⟨hscheme, hwritten, hlower, hrange, hdefault,
    trim_key_of_isHostChar (isScheme_of_carries hscheme) hrange.1 hchars⟩

theorem parse_key_and_suffix_literal :
    (Origin.mk "https" "2001:db8::a" 8443 ⟨4294967295, true⟩).key =
        "https://[2001:db8::a]:8443^appId=4294967295&inBrowser=1" ∧
      parse (Origin.mk "https" "2001:db8::a" 8443 ⟨4294967295, true⟩).key =
        .ok ⟨"https", "2001:db8::a", 8443, ⟨4294967295, true⟩⟩ ∧
      Attributes.parse (Attributes.mk 4294967295 true).suffix = .ok ⟨4294967295, true⟩ :=
  ⟨by decide +kernel, parse_key_and_suffix ⟨4294967295, true⟩ (by decide)
    (Or.inr ⟨by decide +kernel, by decide⟩) (Or.inr (by decide))⟩

end Consent.Origin

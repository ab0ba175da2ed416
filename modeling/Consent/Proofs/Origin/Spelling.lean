import Consent.Proofs.Origin.RoundTrip
import Consent.Proofs.Text.Numeral
import Consent.Proofs.Uri.Userinfo

/-! The many ways to write where a site is. Blanks around it, the case of its letters, a userinfo
and the spelling of its port take no part in the origin, and nothing else is left out of it. -/

namespace Consent.Origin

open Text Uri Host

/-- Letters, digits, hyphens and points. -/
def isDomainChar (c : Char) : Bool := isAlnum c || c = '-' || c = '.'

/-- Where a site is. Without a port, it is at the default port of its scheme. -/
structure Address where
  scheme : String
  host : String
  port : Option Nat
  carries : scheme ∈ ["http", "https", "ftp"]
  host_ne : host ≠ ""
  host_chars : ∀ c ∈ host.toList, isDomainChar c = true
  port_range : ∀ n ∈ port, 1 ≤ n ∧ n ≤ 65535

namespace Address

def effectivePort (a : Address) : Nat := a.port.getD (defaultPort a.scheme).toNat

/-- How the port of an address can be written: in digits, perhaps behind zeros, and if it is the
default of the scheme also by nothing, with or without the colon before it. -/
inductive SpellsPort (a : Address) : Option (List Char) → Prop
  | omitted (hdefault : a.effectivePort = defaultPort a.scheme) : SpellsPort a none
  | empty (hdefault : a.effectivePort = defaultPort a.scheme) : SpellsPort a (some [])
  | written (zeros : Nat) :
      SpellsPort a (some (List.replicate zeros '0' ++ digits a.effectivePort))

/-- One way to write an address. -/
structure Spelling (a : Address) where
  before : List Char
  scheme : String
  userinfo : Option (List Char)
  host : String
  port : Option (List Char)
  after : List Char
  before_blank : ∀ c ∈ before, isBlank c = true
  scheme_letters : scheme.toLower = a.scheme
  userinfo_valid : ∀ text ∈ userinfo, IsUserinfo text
  host_letters : host.toLower = a.host.toLower
  spells_port : a.SpellsPort port
  after_blank : ∀ c ∈ after, isBlank c = true

/-- The origin of an address, however it is written. -/
def origin (a : Address) : Origin := make a.scheme a.host a.effectivePort {}

variable {a b : Address}

theorem lowerString_scheme (a : Address) : lowerString a.scheme = a.scheme :=
  lowerString_of_carries (by simpa using a.carries)

theorem toLower_scheme (a : Address) : a.scheme.toLower = a.scheme :=
  (lowerString_eq_iff_toLower a.carries).mp a.lowerString_scheme

theorem isScheme_letters {scheme : String} (hscheme : scheme.toLower = a.scheme) :
    IsScheme scheme.toList := by
  have hname : ∀ name ∈ ["http", "https", "ftp"],
      name.toList ≠ [] ∧ name.toList.all isLetter = true := by decide
  obtain ⟨hne, hletters⟩ := hname a.scheme a.carries
  have hsame : scheme.toLower = a.scheme.toLower := by rw [hscheme, a.toLower_scheme]
  have hall := forall_mem_of_toLower_eq (apply_toLower (p := isLetter) (by decide)) hsame
    (List.all_eq_true.mp hletters)
  obtain ⟨c, rest, hchars⟩ := List.exists_cons_of_ne_nil (toList_ne_nil_of_toLower_eq hsame hne)
  refine ⟨⟨c, rest, hchars, hall c (by simp [hchars])⟩, fun d hd => ?_⟩
  simp [isSchemeChar, hall d hd]

/-- What stands in a domain stands for itself in a host and in a userinfo. -/
theorem isHostChar_of_isDomainChar {c : Char} (h : isDomainChar c = true) :
    isHostChar c = true ∧ isUserinfoChar c = true := by
  simp only [isDomainChar, Bool.or_eq_true, decide_eq_true_eq] at h
  rcases h with (halnum | rfl) | rfl
  · simp [isHostChar, isUserinfoChar, halnum]
  · decide
  · decide

theorem toNat_of_isDomainChar {c : Char} (h : isDomainChar c = true) : c.toNat < 0x80 := by
  have hrange := toNat_of_isHostChar (isHostChar_of_isDomainChar h).1
  omega

theorem domainChars_letters {host : String} (hhost : host.toLower = a.host.toLower) :
    ∀ c ∈ host.toList, isDomainChar c = true :=
  forall_mem_of_toLower_eq (apply_toLower (by decide)) hhost a.host_chars

theorem lowerString_letters {host : String} (hhost : host.toLower = a.host.toLower) :
    lowerString host = lowerString a.host := by
  rw [lowerString_eq_toLower fun c hc => toNat_of_isDomainChar (domainChars_letters hhost c hc),
    lowerString_eq_toLower fun c hc => toNat_of_isDomainChar (a.host_chars c hc), hhost]

theorem effectivePort_range (a : Address) : 1 ≤ a.effectivePort ∧ a.effectivePort ≤ 65535 := by
  unfold effectivePort
  cases hport : a.port with
  | some n => exact a.port_range n hport
  | none =>
    have hname : ∀ name ∈ ["http", "https", "ftp"],
        1 ≤ (defaultPort name).toNat ∧ (defaultPort name).toNat ≤ 65535 := by decide
    exact hname a.scheme a.carries

theorem SpellsPort.isPort {port : Option (List Char)} (h : a.SpellsPort port) : IsPort port := by
  intro ds hds c hc
  cases h with
  | omitted hdefault => cases hds
  | empty hdefault =>
    cases hds
    cases hc
  | written zeros =>
    cases hds
    rcases List.mem_append.mp hc with hzero | hdigit
    · rw [List.eq_of_mem_replicate hzero]
      decide
    · exact isDigit_of_mem_digits hdigit

/-- What is read of a port's spelling: the port, or 0 where nothing is written for the default. -/
theorem SpellsPort.value {port : Option (List Char)} (h : a.SpellsPort port) :
    IsPortText (port.getD []) ∧ (valueOf (port.getD []) = a.effectivePort ∨
      valueOf (port.getD []) = 0 ∧ a.effectivePort = defaultPort a.scheme) := by
  cases h with
  | omitted hdefault => exact ⟨Or.inl rfl, Or.inr ⟨rfl, hdefault⟩⟩
  | empty hdefault => exact ⟨Or.inl rfl, Or.inr ⟨rfl, hdefault⟩⟩
  | written zeros =>
    have hvalue : valueOf (List.replicate zeros '0' ++ digits a.effectivePort) =
        a.effectivePort := by
      rw [valueOf_replicate_append, valueOf_digits]
    have hrange := a.effectivePort_range
    rw [Option.getD_some, IsPortText, hvalue]
    exact ⟨Or.inr hrange, Or.inl rfl⟩

namespace Spelling

variable (s : a.Spelling)

/-- What stands between the slashes and the blanks at the end. -/
def authority : List Char := userinfoText s.userinfo ++ (s.host.toList ++ portSuffix s.port)

def base : List Char := s.scheme.toList ++ ':' :: '/' :: '/' :: s.authority

def text : String := .ofList (s.before ++ (s.base ++ s.after))

theorem isUserinfoChar_of_mem_hostPort {c : Char} (hc : c ∈ s.host.toList ++ portSuffix s.port) :
    isUserinfoChar c = true ∧ c ≠ '@' := by
  rcases List.mem_append.mp hc with hhost | hport
  · have hchar := domainChars_letters s.host_letters c hhost
    refine ⟨(isHostChar_of_isDomainChar hchar).2, ?_⟩
    rintro rfl
    exact absurd hchar (by decide)
  · rcases isDigit_of_mem_portSuffix s.spells_port.isPort hport with rfl | hdigit
    · decide
    · refine ⟨by simp [isUserinfoChar, isAlnum, hdigit], ?_⟩
      rintro rfl
      exact absurd hdigit (by decide)

/-- A userinfo may hold at signs, so an authority has no character that cannot stand in one. -/
theorem isUserinfoChar_of_mem_authority : ∀ c ∈ s.authority, isUserinfoChar c = true := by
  intro c hc
  rcases List.mem_append.mp hc with hc | hc
  · cases huser : s.userinfo with
    | none => simp [userinfoText, huser] at hc
    | some text =>
      have hvalid := s.userinfo_valid text huser
      simp only [userinfoText, huser, List.mem_append, List.mem_singleton] at hc
      rcases hc with hc | rfl
      · exact hvalid.chars c hc
      · decide
  · exact (s.isUserinfoChar_of_mem_hostPort hc).1

theorem visible_of_mem_base : ∀ c ∈ s.base, 33 ≤ c.toNat ∧ c.toNat ≤ 126 ∧ c ≠ '^' := by
  intro c hc
  simp only [base, List.mem_append, List.mem_cons] at hc
  rcases hc with hc | rfl | rfl | rfl | hc
  · have hchar := (isScheme_letters s.scheme_letters).2 c hc
    have hrange := toNat_of_isHostChar (isHostChar_of_isSchemeChar hchar)
    refine ⟨hrange.1, hrange.2, ?_⟩
    rintro rfl
    exact absurd hchar (by decide)
  · decide
  · decide
  · decide
  · have hchar := s.isUserinfoChar_of_mem_authority c hc
    have hrange := toNat_of_isUserinfoChar hchar
    refine ⟨hrange.1, hrange.2, ?_⟩
    rintro rfl
    exact absurd hchar (by decide)

theorem trim_text : trim s.text.toList = s.base := by
  rw [text, String.toList_ofList]
  refine trimWhile_surrounded s.before_blank (fun c hc => ?_) s.after_blank
  obtain ⟨hlo, hhi, -⟩ := s.visible_of_mem_base c hc
  exact isBlank_eq_false hlo hhi

theorem caret_not_mem_text : '^' ∉ s.text.toList := by
  have hblank : isBlank '^' = false := by decide
  have hbefore : '^' ∉ s.before := fun hmem => by simp [s.before_blank '^' hmem] at hblank
  have hafter : '^' ∉ s.after := fun hmem => by simp [s.after_blank '^' hmem] at hblank
  have hbase : '^' ∉ s.base := fun hmem => (s.visible_of_mem_base '^' hmem).2.2 rfl
  simp [text, hbefore, hbase, hafter]

theorem parse_authority :
    Authority.parse s.authority = .ok ⟨s.userinfo, s.host.toList, s.port⟩ := by
  have hdomain := domainChars_letters s.host_letters
  have hadmits : ∀ c ∈ s.host.toList, admitsChar .host c = true := by
    intro c hc
    simp [admitsChar, (isHostChar_of_isDomainChar (hdomain c hc)).1]
  have hat : '@' ∉ s.host.toList ++ portSuffix s.port := fun hmem =>
    (s.isUserinfoChar_of_mem_hostPort hmem).2 rfl
  have hbracket : '[' ∉ s.host.toList := fun hmem => absurd (hdomain '[' hmem) (by decide)
  have hcolon : ':' ∉ s.host.toList := fun hmem => absurd (hdomain ':' hmem) (by decide)
  rw [authority, Authority.parse_userinfoText s.userinfo_valid hat,
    readHostPort_name hbracket hcolon s.spells_port.isPort, decode_host_of_admits hadmits]
  simp only [Except.map, map_toChar_map_char]

theorem parse_base :
    Uri.parse s.base = .ok
      ⟨lower s.scheme.toList, some ⟨s.userinfo, s.host.toList, s.port⟩, [], none, []⟩ := by
  have hauthority := isAuthorityText_of_isUserinfoChar s.isUserinfoChar_of_mem_authority
  rw [base, parse_authority_iff (isScheme_letters s.scheme_letters) hauthority]
  exact ⟨_, s.parse_authority, rfl⟩

/-- Every spelling of an address is read as the address's origin. -/
theorem parse_text : parse s.text = .ok a.origin := by
  have hscheme : lowerString s.scheme = a.scheme :=
    (lowerString_eq_iff_toLower a.carries).mpr s.scheme_letters
  have hhost : s.host.toList ≠ [] := by
    refine toList_ne_nil_of_toLower_eq s.host_letters ?_
    simpa using a.host_ne
  have hcarry : canCarry a.scheme = true := canCarry_of_carries (by simpa using a.carries)
  obtain ⟨hport, hvalue⟩ := s.spells_port.value
  rw [parse_eq_ok_iff_of_not_mem s.caret_not_mem_text, s.trim_text]
  refine ⟨_, s.parse_base, ?_, hhost, hport, ?_⟩
  · change canCarry (lowerString s.scheme) = true
    rw [hscheme, hcarry]
  · change a.origin = make (lowerString s.scheme) (.ofList s.host.toList)
      (valueOf (s.port.getD [])) {}
    have hne := defaultPort_ne_zero hcarry
    rw [hscheme, String.ofList_toList]
    unfold origin make
    rw [lowerString_letters s.host_letters]
    rcases hvalue with hvalue | ⟨hvalue, hdefault⟩
    · rw [hvalue]
    · rw [hvalue, hdefault]
      simp

end Spelling

/-- The spelling without anything that could be left out but the port. -/
def plain (a : Address) : a.Spelling where
  before := []
  scheme := a.scheme
  userinfo := none
  host := a.host
  port := some (digits a.effectivePort)
  after := []
  before_blank := by simp
  scheme_letters := a.toLower_scheme
  userinfo_valid := by simp
  host_letters := rfl
  spells_port := .written 0
  after_blank := by simp

/-- Two addresses have one origin exactly if they agree in scheme, host and port, whatever the case
of the host's letters. -/
theorem origin_eq_iff : a.origin = b.origin ↔
    a.scheme = b.scheme ∧ a.host.toLower = b.host.toLower ∧ a.effectivePort = b.effectivePort := by
  have hlower : ∀ c : Address, lowerString c.scheme = c.scheme ∧
      lowerString c.host = c.host.toLower := by
    intro c
    exact ⟨c.lowerString_scheme,
      lowerString_eq_toLower fun d hd => toNat_of_isDomainChar (c.host_chars d hd)⟩
  have ha := a.effectivePort_range
  have hb := b.effectivePort_range
  simp only [origin, make, Origin.mk.injEq, hlower, and_true]
  constructor
  · rintro ⟨hscheme, hhost, hport⟩
    refine ⟨hscheme, hhost, ?_⟩
    rw [hscheme] at hport
    -- the default port alone is folded to 0, which is no port of an address
    split at hport <;> split at hport <;> omega
  · rintro ⟨hscheme, hhost, hport⟩
    rw [hscheme, hhost, hport]
    exact ⟨rfl, rfl, rfl⟩

end Address

/-- All spellings of addresses are read. Those of addresses that agree in scheme, in host but for
the case of its letters, and in the port that is meant, are read as one origin; all others are
stored under different keys. -/
theorem key_eq_iff_address {a b : Address} (s : a.Spelling) (t : b.Spelling) :
    ∃ o₁ o₂, parse s.text = .ok o₁ ∧ parse t.text = .ok o₂ ∧ (o₁ = o₂ ↔ o₁.key = o₂.key) ∧
      (o₁.key = o₂.key ↔ a.scheme = b.scheme ∧ a.host.toLower = b.host.toLower ∧
        a.effectivePort = b.effectivePort) := by
  have hs := s.parse_text
  have ht := t.parse_text
  have hkey : a.origin = b.origin ↔ a.origin.key = b.origin.key := by
    constructor
    · intro heq
      rw [heq]
    · exact key_injective (parse_storable hs) (parse_storable ht)
  exact ⟨a.origin, b.origin, hs, ht, hkey, hkey.symm.trans Address.origin_eq_iff⟩

/-- A site at the default port of its scheme. -/
def homeSite : Address where
  scheme := "https"
  host := "www.example-1.com"
  port := none
  carries := by decide
  host_ne := by decide
  host_chars := List.all_eq_true.mp (by decide)
  port_range := by simp

/-- The same host at another port. -/
def adminSite : Address := { homeSite with port := some 8443, port_range := by simp }

/-- A spelling that differs from the plain one in every part. -/
def oddSpelling : homeSite.Spelling where
  before := [' ', '\t']
  scheme := "HtTpS"
  userinfo := some "me:p%40@x".toList
  host := "WWW.Example-1.COM"
  port := _
  after := ['\n']
  before_blank := List.all_eq_true.mp (by decide)
  scheme_letters := (lowerString_eq_iff_toLower (by decide)).mp (by decide)
  userinfo_valid := by
    intro text htext
    cases htext
    exact checkUserinfo_eq_ok_iff.mp (by decide)
  host_letters := toLower_eq_iff.mpr (by decide)
  spells_port := .written 3
  after_blank := List.all_eq_true.mp (by decide)

theorem key_eq_iff_address_odd :
    ∃ o₁ o₂ o₃, parse " \tHtTpS://me:p%40@x@WWW.Example-1.COM:000443\n" = .ok o₁ ∧
      parse "https://www.example-1.com:443" = .ok o₂ ∧
      parse "https://www.example-1.com:8443" = .ok o₃ ∧ o₁ = o₂ ∧ o₁.key ≠ o₃.key := by
  have hodd : oddSpelling.text = " \tHtTpS://me:p%40@x@WWW.Example-1.COM:000443\n" := by
    decide +kernel
  have hhome : homeSite.plain.text = "https://www.example-1.com:443" := by decide +kernel
  have hadmin : adminSite.plain.text = "https://www.example-1.com:8443" := by decide +kernel
  obtain ⟨o₁, o₂, h₁, h₂, hsame, hnear⟩ := key_eq_iff_address oddSpelling homeSite.plain
  obtain ⟨o, o₃, h, h₃, -, hfar⟩ := key_eq_iff_address oddSpelling adminSite.plain
  obtain rfl : o₁ = o := Except.ok.inj (h₁.symm.trans h)
  rw [hodd] at h₁
  rw [hhome] at h₂
  rw [hadmin] at h₃
  refine ⟨o₁, o₂, o₃, h₁, h₂, h₃, hsame.mpr (hnear.mpr ⟨rfl, rfl, rfl⟩), ?_⟩
  intro heq
  exact absurd (hfar.mp heq).2.2 (by decide)

end Consent.Origin

import Consent.Legacy.HostTable
import Consent.Proofs.Legacy.Expand
import Consent.Proofs.History.Visit
import Consent.Proofs.Host.Site
import Consent.Proofs.Origin.RoundTrip

/-! Rows that stand for a decision about a host name, and the keys they are carried over to. -/

namespace Consent

open Text Host Uri

namespace Legacy

/-- ASCII letters, digits, minus and point. -/
def isNameChar (c : Char) : Bool := isAlnum c || c = '-' || c = '.'

/-- A row with a decision that is still to be kept: it outlives the session, its time has not come,
and its host is a name. -/
structure Row.Lasting (now : Instant) (r : Row) : Prop where
  kind : r.kind ≠ ""
  state : 0 < r.state.code
  expiry : r.expiry ≠ .session
  live : ¬(r.expiry = .timed ∧ r.expireAt ≤ now)
  host_ne : r.host ≠ ""
  host : ∀ c ∈ r.host.toList, isNameChar c = true

theorem not_mem_of_isNameChar {s : List Char} (h : ∀ c ∈ s, isNameChar c = true) {c : Char}
    (hc : isNameChar c = false) : c ∉ s := by
  intro hmem
  rw [h c hmem] at hc
  cases hc

theorem isHostChar_of_isNameChar {c : Char} (h : isNameChar c = true) : isHostChar c = true := by
  simp only [isNameChar, Bool.or_eq_true, decide_eq_true_eq] at h
  rcases h with (h | rfl) | rfl
  · simp [isHostChar, h]
  · decide
  · decide

theorem isNameChar_lowerChar {c : Char} (h : isNameChar c = true) :
    isNameChar (lowerChar c) = true := by
  have hall : ∀ n < 128, isNameChar (Char.ofNat n) = true →
      isNameChar (lowerChar (Char.ofNat n)) = true := by decide +kernel
  have hrange := toNat_of_isHostChar (isHostChar_of_isNameChar h)
  have hc := hall c.toNat (by omega)
  rw [Char.ofNat_toNat] at hc
  exact hc h

theorem HostTable.isReadable_of_readRow? {t : HostTable} {row : Int × List Cell} {r : Row}
    (h : t.readRow? row = some r) (hstate : 0 < r.state.code) : t.isReadable = true := by
  simp only [readRow?, Option.bind_eq_bind, Option.bind_eq_some_iff, Option.some.injEq] at h
  obtain ⟨host, hhost, kind, hkind, state, hread, _, -, _, -, _, -, _, -, _, -, rfl⟩ := h
  have htext : ∀ {column : String} {s : String}, (t.cell row.2 column).readText? = some s →
      (t.indexOf? column).isSome = true := by
    intro column s hs
    cases hindex : t.indexOf? column with
    | none => simp [cell, hindex, Cell.readText?] at hs
    | some i => rfl
  have hpermission : (t.indexOf? "permission").isSome = true := by
    cases hindex : t.indexOf? "permission" with
    | none =>
      simp only [cell, hindex, Cell.readInteger?, Option.some.injEq] at hread
      simp [← hread] at hstate
    | some i => rfl
  simp [isReadable, mandatory, htext hhost, htext hkind, hpermission]

theorem HostTable.expireAt_of_readRow? {t : HostTable} {row : Int × List Cell} {r : Row}
    (h : t.readRow? row = some r) : ∃ n, r.expireAt = Store.ofMillis n := by
  simp only [readRow?, Option.bind_eq_bind, Option.bind_eq_some_iff, Option.some.injEq] at h
  obtain ⟨_, -, _, -, _, -, _, -, n, -, _, -, _, -, _, -, rfl⟩ := h
  exact ⟨n, rfl⟩

namespace Row

variable {now : Instant} {r : Row}

theorem Lasting.isExpired_eq_false (h : r.Lasting now) : r.isExpired now = false := by
  have hlive := h.live
  rw [Bool.eq_false_iff]
  intro hexpired
  simp only [isExpired, Bool.and_eq_true, decide_eq_true_eq, Bool.not_eq_true',
    decide_eq_false_iff_not] at hexpired
  exact hlive ⟨hexpired.1, Int.not_lt.mp hexpired.2⟩

theorem Lasting.isVerbatim_eq_false (h : r.Lasting now) : isVerbatim r.host.toList = false := by
  have hopen : '<' ∉ r.host.toList := not_mem_of_isNameChar h.host (by decide)
  have hcolon : ':' ∉ r.host.toList := not_mem_of_isNameChar h.host (by decide)
  have hhead : r.host.toList.head? ≠ some '<' := fun heq => hopen (List.mem_of_head? heq)
  unfold isVerbatim
  simp [hhead, hcolon]

theorem Lasting.check_eq_ok (h : r.Lasting now) : r.check = .ok () := by
  have hstate : ¬r.state.code ≤ 0 := Int.not_le.mpr h.state
  have hforeign : r.host.toList.any isForeign = false := by
    rw [List.any_eq_false]
    intro c hc hforeign
    have hall : [' ', '/', '?', '#', '@'].all (fun d => !isNameChar d) = true := by decide
    have hname := List.all_eq_true.mp hall c (by simpa [isForeign] using hforeign)
    simp [h.host c hc] at hname
  simp [check, h.host_ne, h.kind, hstate, hforeign]

theorem Lasting.isNameChar_of_mem_lower (h : r.Lasting now) {c : Char}
    (hc : c ∈ lower r.host.toList) : isNameChar c = true := by
  obtain ⟨d, hd, rfl⟩ := List.mem_map.mp hc
  exact isNameChar_lowerChar (h.host d hd)

theorem Lasting.isPlainHost_lower (h : r.Lasting now) : IsPlainHost (lower r.host.toList) := by
  refine ⟨?_, fun c hc => ?_⟩
  · have hne := h.host_ne
    rw [Ne, ← String.toList_inj] at hne
    simpa [lower] using hne
  · have hname := h.isNameChar_of_mem_lower hc
    refine ⟨isHostChar_of_isNameChar hname, ?_, ?_⟩
    · rintro rfl
      exact absurd hname (by decide)
    · rintro rfl
      exact absurd hname (by decide)

theorem Lasting.hostName_eq (h : r.Lasting now) : r.hostName = lowerString r.host := by
  have hstrip : stripBrackets (lower r.host.toList) = lower r.host.toList := by
    have hnone : ∀ c ∈ lower r.host.toList, (c = '[' || c = ']') = false := by
      intro c hc
      have hname := h.isNameChar_of_mem_lower hc
      rw [Bool.eq_false_iff]
      intro hbracket
      simp only [Bool.or_eq_true, decide_eq_true_eq] at hbracket
      rcases hbracket with hb | hb <;> rw [hb] at hname <;> exact absurd hname (by decide)
    exact trimWhile_eq_self (fun c hc => hnone c (List.mem_of_head? hc))
      fun c hc => hnone c (List.mem_of_getLast? hc)
  rw [hostName, hstrip, ← toList_lowerString, String.ofList_toList]

/-- The origin of a row's host with a scheme and a port. -/
def originAt (r : Row) (sp : SchemePort) : Origin :=
  ⟨sp.scheme, lowerString r.host, sp.port, r.attributes⟩

theorem Lasting.keyAt_eq (h : r.Lasting now) (ho : (r.originAt sp).Ordinary) :
    r.keyAt sp = (r.originAt sp).key := by
  have hmake : Origin.make sp.scheme r.hostName sp.port r.attributes = r.originAt sp := by
    have hport := ho.port_ne
    have hscheme := Origin.lowerString_of_carries ho.scheme
    simp only [originAt] at hport hscheme
    simp [Origin.make, originAt, h.hostName_eq, hport, hscheme]
  rw [keyAt, hmake]

/-- Whether the history holds a visit to the row's registrable domain, or below it, with a scheme
that can carry permissions. -/
def Visited [SuffixList] (history : Option History) (r : Row) (sp : SchemePort) : Prop :=
  ∃ h v, history = some h ∧ v ∈ h.visits ∧ v.isUnder (Resolver.domainOf r.host) = true ∧
    Origin.canCarry v.scheme = true ∧ sp = ⟨v.scheme, v.port⟩

/-- The schemes and ports that a row stands for: those of the visits or, without any, HTTP with and
without encryption at the default ports. -/
def StandsFor [SuffixList] (history : Option History) (r : Row) (sp : SchemePort) : Prop :=
  r.Visited history sp ∨ (∀ sp', ¬r.Visited history sp') ∧ sp ∈ dualSchemes

section Targets

variable [SuffixList] {history : Option History} {sp : SchemePort}

theorem Lasting.domainOf_hostName (h : r.Lasting now) :
    Resolver.domainOf r.hostName = Resolver.domainOf r.host := by
  rw [h.hostName_eq, Resolver.domainOf, Resolver.domainOf, toList_lowerString, registrable_lower]

theorem lowerString_domainOf (host : String) :
    lowerString (Resolver.domainOf host) = Resolver.domainOf host := by
  rw [← String.toList_inj, toList_lowerString, Resolver.domainOf, String.toList_ofList,
    lower_domain]

theorem Lasting.mem_pairsOf (h : r.Lasting now)
    (hopen : ∀ h, history = some h → h.closed = false) :
    sp ∈ pairsOf (History.reply history) r.hostName ↔ r.Visited history sp := by
  unfold pairsOf Visited
  rw [h.domainOf_hostName]
  cases history with
  | none => simp [History.reply, Resolver.mem_usable]
  | some log =>
    have hreply : History.reply (some log) (Resolver.domainOf r.host) =
        .ok (log.pairsUnder (Resolver.domainOf r.host)) := by
      simp [History.reply, hopen log rfl]
    rw [hreply]
    simp only [Resolver.mem_usable, History.mem_pairsUnder, lowerString_domainOf]
    constructor
    · rintro ⟨⟨v, hv, hunder, rfl⟩, hcarry⟩
      exact ⟨log, v, rfl, hv, hunder, hcarry, rfl⟩
    · rintro ⟨_, v, hlog, hv, hunder, hcarry, rfl⟩
      cases hlog
      exact ⟨⟨v, hv, hunder, rfl⟩, hcarry⟩

theorem Lasting.mem_targets (h : r.Lasting now)
    (hopen : ∀ h, history = some h → h.closed = false) (hsp : r.StandsFor history sp) :
    sp ∈ r.targets (History.reply history) := by
  unfold targets
  rcases hsp with hvisited | ⟨hnone, hdual⟩
  · have hmem := (h.mem_pairsOf hopen).mpr hvisited
    rw [if_neg (by simpa using List.ne_nil_of_mem hmem)]
    exact hmem
  · have hempty : pairsOf (History.reply history) r.hostName = [] := by
      refine List.eq_nil_iff_forall_not_mem.mpr fun sp' hsp' => ?_
      exact hnone sp' ((h.mem_pairsOf hopen).mp hsp')
    rw [if_pos (by simp [hempty])]
    exact hdual

theorem StandsFor.spec (hrecorded : ∀ h, history = some h → h.Recorded)
    (hsp : r.StandsFor history sp) :
    (sp.scheme = "http" ∨ sp.scheme = "https" ∨ sp.scheme = "ftp") ∧ 0 ≤ sp.port ∧
      sp.port ≠ Origin.defaultPort sp.scheme := by
  rcases hsp with ⟨h, v, hlog, hv, -, hcarry, rfl⟩ | ⟨-, hdual⟩
  · have hfolded := (hrecorded h hlog).spec.2 v hv
    have hscheme := Origin.lowerString_of_canCarry hcarry
    rw [hfolded.scheme] at hscheme
    exact ⟨hscheme, hfolded.port, hfolded.port_ne hcarry⟩
  · have hall : ∀ sp ∈ dualSchemes, (sp.scheme = "http" ∨ sp.scheme = "https" ∨
        sp.scheme = "ftp") ∧ 0 ≤ sp.port ∧ sp.port ≠ Origin.defaultPort sp.scheme := by
      decide +kernel
    exact hall sp hdual

/-- The origins that a row stands for are ordinary ones. -/
theorem Lasting.originAt_ordinary (h : r.Lasting now)
    (hrecorded : ∀ h, history = some h → h.Recorded) (hsp : r.StandsFor history sp)
    (hport : sp.port ≤ 65535) : (r.originAt sp).Ordinary := by
  obtain ⟨hscheme, hnonneg, hne⟩ := hsp.spec hrecorded
  refine ⟨hscheme, ?_, by simp [originAt], ⟨hnonneg, hport⟩, hne⟩
  simp only [originAt, toList_lowerString]
  exact h.isPlainHost_lower

end Targets

end Row

end Legacy

end Consent

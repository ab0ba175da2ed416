import Consent.Proofs.Legacy.Context
import Consent.Proofs.Legacy.Row
import Consent.Proofs.Store.Carried

/-! Rows by host whose host was visited itself. The visits are kept by the host as it was written and
looked up by its registrable domain, which has no point at its end, so visits to a host that ends in
a point are found only if the host has no other characters. -/

namespace Consent

open Text Host Log Store

/-- The host ends in a point, and not all of it is points. -/
def Host.Dangling (host : List Char) : Prop := host.getLast? = some '.' ∧ ∃ c ∈ host, c ≠ '.'

namespace Host

theorem cons_eq_concat_iff {c : Char} {s : List Char} : c :: s = s ++ [c] ↔ ∀ x ∈ s, x = c := by
  induction s with
  | nil => simp
  | cons x rest ih =>
    rw [List.cons_append, List.cons.injEq, List.forall_mem_cons]
    constructor
    · intro h
      have hrest : c :: rest = rest ++ [c] := by rw [h.1]; exact h.1 ▸ h.2
      exact ⟨h.1.symm, ih.mp hrest⟩
    · intro h
      have hrest : c :: rest = rest ++ [c] := ih.mpr h.2
      exact ⟨h.1.symm, by rw [h.1]; exact hrest⟩

variable [SuffixList] {host : List Char}

theorem domain_of_not_dotted (hlower : lower host = host) (hlast : host.getLast? ≠ some '.') :
    host = (registrable host).domain ∨ '.' :: (registrable host).domain <:+ host := by
  rw [registrable_eq, normal_eq_self hlower hlast]
  cases hsite : siteName? host with
  | none => exact Or.inl rfl
  | some domain =>
    obtain ⟨-, -, hlt, hdomain⟩ := siteName?_eq_some.mp hsite
    have hcut := joinWith_drop_cases (labels host)
      (k := (labels host).length - (suffixLength (labels host).reverse + 1)) (by omega)
    have hjoin : joinWith '.' (labels host) = host := joinWith_splitOn '.' host
    rw [hjoin] at hcut
    rw [← hdomain]
    exact hcut

/-- A point at the end is dropped before the domain of a host is looked for. -/
theorem domain_of_dotted {front : List Char} (hlower : lower (front ++ ['.']) = front ++ ['.']) :
    (front ++ ['.'] = (registrable (front ++ ['.'])).domain ∨
      '.' :: (registrable (front ++ ['.'])).domain <:+ front ++ ['.']) ↔ ∀ c ∈ front, c = '.' := by
  have hnormal : normal (front ++ ['.']) = front := by
    rw [normal, hlower, dropLastIf, if_pos (by simp), List.dropLast_concat]
  rw [registrable_eq, hnormal]
  cases hsite : siteName? front with
  | none =>
    have hlength : ('.' :: front).length = (front ++ ['.']).length := by simp
    have hne : front ++ ['.'] ≠ front := by
      intro heq
      have := congrArg List.length heq
      simp at this
    constructor
    · intro h
      have hsuffix := h.resolve_left hne
      exact cons_eq_concat_iff.mp (hsuffix.eq_of_length hlength)
    · intro h
      exact Or.inr ⟨[], cons_eq_concat_iff.mpr h⟩
  | some domain =>
    obtain ⟨c, hc, hdot⟩ := getLast?_siteName? hsite
    obtain ⟨-, -, -, hdomain⟩ := siteName?_eq_some.mp hsite
    have hmem : c ∈ front := by
      have hsuffix := lastLabels_isSuffix (suffixLength (labels front).reverse + 1) front
      rw [hdomain] at hsuffix
      exact hsuffix.subset (List.mem_of_getLast? hc)
    have hne : ∀ s : List Char, s.getLast? = some c → ¬s <:+ front ++ ['.'] := by
      intro s hs hsuffix
      obtain ⟨before, heq⟩ := hsuffix
      have hlast := congrArg List.getLast? heq
      rw [List.getLast?_append, hs, List.getLast?_concat] at hlast
      exact hdot (Option.some.inj hlast)
    constructor
    · intro h
      rcases h with heq | hsuffix
      · exact absurd (heq ▸ List.suffix_refl _) (hne domain hc)
      · refine absurd hsuffix (hne ('.' :: domain) ?_)
        rw [List.getLast?_cons, hc]
        rfl
    · intro h
      exact absurd (h c hmem) hdot

/-- A host lies under its own registrable domain unless it ends in a point after other
characters. -/
theorem domain_iff_not_dangling (hlower : lower host = host) :
    (host = (registrable host).domain ∨ '.' :: (registrable host).domain <:+ host) ↔
      ¬Dangling host := by
  by_cases hlast : host.getLast? = some '.'
  · obtain ⟨front, hfront⟩ : ∃ front, host = front ++ ['.'] :=
      ⟨host.dropLast, (List.dropLast_append_getLast? '.' hlast).symm⟩
    subst hfront
    rw [domain_of_dotted hlower]
    constructor
    · intro hall hdangling
      obtain ⟨-, c, hc, hne⟩ := hdangling
      rcases List.mem_append.mp hc with hc | hc
      · exact hne (hall c hc)
      · exact hne (List.mem_singleton.mp hc)
    · intro hnot c hc
      by_contra hne
      exact hnot ⟨hlast, c, List.mem_append_left _ hc, hne⟩
  · have hdomain := domain_of_not_dotted hlower hlast
    exact iff_of_true hdomain fun hdangling => hlast hdangling.1

end Host

theorem Visit.isUnder_domainOf [SuffixList] {v : Visit}
    (hlower : lower v.host.toList = v.host.toList) :
    v.isUnder (Resolver.domainOf v.host) = true ↔ ¬Dangling v.host.toList := by
  rw [← domain_iff_not_dangling hlower, isUnder_iff, Resolver.domainOf, String.toList_ofList,
    ← String.toList_inj, String.toList_ofList]

namespace Legacy

section Expand

variable {now : Instant} {history : History} {v : Visit} {r : Row}

/-- Visits that do not lie under a domain do not bear on what is found under it. -/
theorem pairsUnder_filter {domain host : String}
    (h : ∀ w : Visit, w.host = host → w.isUnder (lowerString domain) = false) :
    { history with visits := history.visits.filter (·.host ≠ host) }.pairsUnder domain =
      history.pairsUnder domain := by
  have hsame : (history.visits.filter (·.host ≠ host)).filter (·.isUnder (lowerString domain)) =
      history.visits.filter (·.isUnder (lowerString domain)) := by
    rw [List.filter_filter]
    refine List.filter_congr fun w _ => ?_
    by_cases hw : w.host = host
    · simp [h w hw]
    · simp [hw]
  unfold History.pairsUnder
  dsimp only
  rw [hsame]

variable [SuffixList]

theorem pairsOf_reply (hopen : history.closed = false) (host : String) :
    pairsOf (History.reply (some history)) host =
      Resolver.usable (history.pairsUnder (Resolver.domainOf host)) := by
  simp [pairsOf, History.reply, hopen]

theorem expand_of_isDue {resolver : Resolver History}
    (hresolver : Resolver.Faithful (· = history) (History.reply (some history)) resolver)
    (hdue : r.isDue now = true) (hname : isVerbatim r.host.toList = false) (fields : List Field) :
    (expand (Database.askHistory (some history)) now (some r) fields resolver).answer =
      .ok ((r.targets (History.reply (some history))).map fun sp => r.recordAt (r.keyAt sp)) := by
  obtain ⟨hcheck, hlive⟩ := Row.isDue_iff.mp hdue
  have hsteady := Database.steady_askHistory (some history)
  rw [(expand_steady hsteady hresolver now r fields).1]
  simp [Row.expansion, hcheck, hlive, hname]

/-- A row whose host was visited itself, with any scheme that can carry permissions, expands over the
visits. Unless the host ends in a point after other characters, the origin of the visit is among
those that the row is carried over to, and all of them come from visits. Otherwise the visits to the
host count for nothing: the row expands as if they had not been made. -/
theorem expand_of_visit (hrecorded : history.Recorded) (hv : v ∈ history.visits)
    (hscheme : v.scheme = "http" ∨ v.scheme = "https" ∨ v.scheme = "ftp")
    (hdue : r.isDue now = true) (hname : isVerbatim r.host.toList = false)
    (hhost : r.hostName = v.host) {resolver : Resolver History}
    (hresolver : Resolver.Faithful (· = history) (History.reply (some history)) resolver)
    (fields : List Field) :
    ∃ records,
      (expand (Database.askHistory (some history)) now (some r) fields resolver).answer =
        .ok records ∧
      (¬Dangling v.host.toList →
        r.recordAt (Origin.make v.scheme v.host v.port r.attributes).key ∈ records ∧
        records = (Resolver.usable (history.pairsUnder (Resolver.domainOf v.host))).map
          fun sp => r.recordAt (r.keyAt sp)) ∧
      (Dangling v.host.toList →
        let others := { history with visits := history.visits.filter (·.host ≠ v.host) }
        (expand (Database.askHistory (some others)) now (some r) fields ⟨others, []⟩).answer =
          .ok records) := by
  have hopen : history.closed = false := hrecorded.spec.1
  have hlower : lower v.host.toList = v.host.toList := by
    rw [← hhost]
    exact r.lower_hostName
  have hanswer := expand_of_isDue hresolver hdue hname fields
  have hpairs : pairsOf (History.reply (some history)) r.hostName =
      Resolver.usable (history.pairsUnder (Resolver.domainOf v.host)) := by
    rw [pairsOf_reply hopen, hhost]
  refine ⟨_, hanswer, ?_, ?_⟩
  · intro hnot
    have hunder : v.isUnder (lowerString (Resolver.domainOf v.host)) = true := by
      rw [Row.lowerString_domainOf]
      exact (Visit.isUnder_domainOf hlower).mpr hnot
    have hmem : (⟨v.scheme, v.port⟩ : SchemePort) ∈
        Resolver.usable (history.pairsUnder (Resolver.domainOf v.host)) :=
      Resolver.mem_usable.mpr ⟨History.mem_pairsUnder.mpr ⟨v, hv, hunder, rfl⟩,
        Origin.canCarry_of_carries hscheme⟩
    have htargets : r.targets (History.reply (some history)) =
        Resolver.usable (history.pairsUnder (Resolver.domainOf v.host)) := by
      rw [Row.targets, hpairs, if_neg (by simpa using List.ne_nil_of_mem hmem)]
    rw [htargets]
    refine ⟨?_, rfl⟩
    have hkey : r.keyAt ⟨v.scheme, v.port⟩ =
        (Origin.make v.scheme v.host v.port r.attributes).key := by
      rw [Row.keyAt, hhost]
    rw [← hkey]
    exact List.mem_map_of_mem hmem
  · intro hdangling others
    have hmissed : ∀ w : Visit, w.host = v.host →
        w.isUnder (lowerString (Resolver.domainOf v.host)) = false := by
      intro w hw
      have hnot : ¬w.isUnder (Resolver.domainOf w.host) = true := by
        rw [Visit.isUnder_domainOf (by rw [hw]; exact hlower), hw]
        exact fun h => h hdangling
      rw [Row.lowerString_domainOf, ← hw]
      simpa using hnot
    have hothers : pairsOf (History.reply (some others)) r.hostName =
        pairsOf (History.reply (some history)) r.hostName := by
      have hstill : others.closed = false := hopen
      rw [hpairs, pairsOf_reply hstill, hhost]
      exact congrArg Resolver.usable (pairsUnder_filter hmissed)
    have hfresh : Resolver.Faithful (· = others) (History.reply (some others)) ⟨others, []⟩ :=
      Resolver.faithful_new rfl
    rw [expand_of_isDue hfresh hdue hname fields, Row.targets, Row.targets, hothers]

end Expand

/-- A decision on an address in brackets and capitals that was visited at a port of its own. -/
theorem expand_of_visit_address :
    let now : Instant := .atMillis 1000
    let history := ((History.addVisit now "http://[2001:DB8::1]:8080/x" .unset).run {}).state
    let r : Row := ⟨1, "[2001:DB8::1]", "popup", .allow, .never, .unset, .unset, ⟨7, false⟩⟩
    ∃ records, (expand (Database.askHistory (some history)) now (some r) []
        ⟨history, []⟩).answer = .ok records ∧
      r.recordAt "http://[2001:db8::1]:8080^appId=7" ∈ records := by
  intro now history r
  have hrecorded : history.Recorded := .visit _ _ _ .empty
  let v : Visit := ⟨"http://[2001:DB8::1]:8080/x", "http", "2001:db8::1", 8080, 1000⟩
  have hv : v ∈ history.visits := by decide +kernel
  have hdue : r.isDue now = true := by decide +kernel
  have hname : isVerbatim r.host.toList = false := by decide +kernel
  have hhost : r.hostName = v.host := by decide +kernel
  have hmain := expand_of_visit hrecorded hv (.inl rfl) hdue hname hhost
    (Resolver.faithful_new rfl) []
  obtain ⟨records, hanswer, hfound, -⟩ := hmain
  have hkey : (Origin.make v.scheme v.host v.port r.attributes).key =
      "http://[2001:db8::1]:8080^appId=7" := by decide +kernel
  refine ⟨records, hanswer, ?_⟩
  rw [← hkey]
  refine (hfound fun hdangling => ?_).1
  exact absurd hdangling.1 (by decide +kernel)

/-- The only visit was made to the row's host at a port of its own, but the host ends in a point, so
the row is carried over to the default ports as if it had never been visited. -/
theorem dottedHost_never_visited :
    let now : Instant := .atMillis 1000
    let history := ((History.addVisit now "https://example.com.:8443/" .unset).run {}).state
    let r : Row := ⟨1, "example.com.", "popup", .allow, .never, .unset, .unset, {}⟩
    history.visits = [⟨"https://example.com.:8443/", "https", r.hostName, 8443, 1000⟩] ∧
      r.isDue now = true ∧ isVerbatim r.host.toList = false ∧
      (expand (Database.askHistory (some history)) now (some r) [] ⟨history, []⟩).answer =
        .ok [r.recordAt "http://example.com.", r.recordAt "https://example.com."] := by
  decide +kernel

end Legacy

end Consent

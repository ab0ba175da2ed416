import Consent.Proofs.History.Resolution
import Consent.Proofs.History.Visit
import Consent.Proofs.Legacy.Context
import Consent.Proofs.Legacy.Expand

/-! What each of many rows expands to, one after another through one resolver. No row is lost and
none is made up, whatever the index does; with a history for the index no origin comes twice. -/

namespace Consent

open Text Host Log

/-- A pair as visits are recorded with it. -/
structure SchemePort.Folded (sp : SchemePort) : Prop where
  scheme : sp.scheme = "http" ∨ sp.scheme = "https" ∨ sp.scheme = "ftp"
  port_ne : sp.port ≠ Origin.defaultPort sp.scheme

/-- Pairs that no two of which name one origin of a host. -/
structure SchemePort.Distinct (pairs : List SchemePort) : Prop where
  nodup : pairs.Nodup
  folded : ∀ sp ∈ pairs, sp.Folded

theorem History.Recorded.distinct_usable {h : History} (hrecorded : h.Recorded) (domain : String) :
    SchemePort.Distinct (Resolver.usable (h.pairsUnder domain)) := by
  constructor
  · have hsorted := Resolver.pairwise_before_usable (h.pairsUnder domain)
    refine hsorted.imp fun hbefore heq => ?_
    rw [heq] at hbefore
    exact Std.Irrefl.irrefl _ hbefore
  · intro sp hsp
    obtain ⟨hpair, hcarry⟩ := Resolver.mem_usable.mp hsp
    obtain ⟨v, hv, -, rfl⟩ := History.mem_pairsUnder.mp hpair
    have hfolded := hrecorded.spec.2 v hv
    have hscheme := Origin.lowerString_of_canCarry hcarry
    rw [hfolded.scheme] at hscheme
    exact ⟨hscheme, hfolded.port_ne hcarry⟩

namespace Legacy

theorem distinct_dualSchemes : SchemePort.Distinct dualSchemes := by
  refine ⟨by decide, fun sp hsp => ?_⟩
  have hall : ∀ sp ∈ dualSchemes, (sp.scheme = "http" ∨ sp.scheme = "https" ∨ sp.scheme = "ftp") ∧
      sp.port ≠ Origin.defaultPort sp.scheme := by decide +kernel
  exact ⟨(hall sp hsp).1, (hall sp hsp).2⟩

namespace Row

variable {r : Row} {sp sp' : SchemePort}

theorem target_of_folded (h : sp.Folded) :
    r.target sp = ⟨sp.scheme, r.hostName, sp.port, r.attributes⟩ := by
  rw [target, if_neg h.port_ne]

/-- A port that was folded when the visit was recorded is not folded once more. -/
theorem eq_of_keyAt_eq (h : sp.Folded) (h' : sp'.Folded) (heq : r.keyAt sp = r.keyAt sp') :
    sp = sp' := by
  have hcolon : ∀ {sp : SchemePort}, sp.Folded → ':' ∉ sp.scheme.toList := by
    intro sp hsp
    rcases hsp.scheme with hs | hs | hs <;> rw [hs] <;> decide
  rw [keyAt_eq_key h.scheme, keyAt_eq_key h'.scheme, target_of_folded h, target_of_folded h'] at heq
  let o : Origin := ⟨sp.scheme, r.hostName, sp.port, r.attributes⟩
  let o' : Origin := ⟨sp'.scheme, r.hostName, sp'.port, r.attributes⟩
  have hhost : o.host = o'.host := rfl
  have hattributes : o.attributes = o'.attributes := rfl
  have hsame := Origin.port_of_key_eq (hcolon h) (hcolon h') hhost hattributes heq
  cases sp
  cases sp'
  exact congrArg₂ SchemePort.mk hsame.1 hsame.2

theorem nodup_origins (r : Row) {pairs : List SchemePort} (h : SchemePort.Distinct pairs) :
    ((pairs.map fun sp => r.recordAt (r.keyAt sp)).map Record.origin).Nodup := by
  rw [List.map_map]
  refine h.nodup.map_on fun sp hsp sp' hsp' heq => ?_
  exact eq_of_keyAt_eq (h.folded sp hsp) (h.folded sp' hsp') heq

/-- Whether the row's time has come: it is of the timed kind and its time is not after `now`. -/
theorem isExpired_iff {now : Instant} :
    r.isExpired now = true ↔ r.expiry = .timed ∧ ¬now < r.expireAt := by
  simp [isExpired]

end Row

/-- There is no row, or it lacks its host, its kind or its decision, or its host is to be a name and
has a character that no name has. -/
def Malformed : Option Row → Prop
  | none => True
  | some r => r.host = "" ∨ r.kind = "" ∨ r.state.code ≤ 0 ∨
    isVerbatim r.host.toList = false ∧ ∃ c ∈ [' ', '/', '?', '#', '@'], c ∈ r.host.toList

theorem check_eq_ok_iff {r : Row} : r.check = .ok () ↔ ¬Malformed (some r) := by
  have hforeign : r.host.toList.any isForeign = true ↔
      ∃ c ∈ [' ', '/', '?', '#', '@'], c ∈ r.host.toList := by
    simp only [List.any_eq_true, isForeign, List.contains_iff_mem]
    constructor
    · rintro ⟨c, hc, hmark⟩
      exact ⟨c, hmark, hc⟩
    · rintro ⟨c, hmark, hc⟩
      exact ⟨c, hc, hmark⟩
  unfold Row.check Malformed
  dsimp only
  rw [← hforeign]
  by_cases hhost : r.host = ""
  · simp [hhost]
  by_cases hkind : r.kind = ""
  · simp [hhost, hkind]
  by_cases hstate : r.state.code ≤ 0
  · simp [hhost, hkind, hstate]
  · cases isVerbatim r.host.toList with
    | true => simp [hhost, hkind, hstate]
    | false => cases r.host.toList.any isForeign <;> simp [hhost, hkind, hstate]

section Cases

variable [SuffixList] {ι : Type} (ask : AskIndex ι) (now : Instant) (fields : List Field)
  (resolver : Resolver ι)

/-- What a row can come to. -/
theorem expand_cases (row : Option Row) :
    let expanded := expand ask now row fields resolver
    (Malformed row ∧ ∃ e, expanded = ⟨.error e, resolver, []⟩) ∨
    ∃ r, row = some r ∧ ¬Malformed row ∧
      (r.isExpired now = true ∧ expanded = ⟨.ok [], resolver, []⟩ ∨
      r.isExpired now = false ∧ isVerbatim r.host.toList = true ∧
        expanded = ⟨.ok [r.recordAt r.host], resolver, []⟩ ∨
      r.isExpired now = false ∧ isVerbatim r.host.toList = false ∧
        let resolved := Resolver.resolve ask r.hostName fields resolver
        let visited := resolved.answer.toOption.getD []
        (expand ask now row).Gives fields resolver
          ((if visited.isEmpty then dualSchemes else visited).map fun sp =>
            r.recordAt (r.keyAt sp)) resolved.state) := by
  intro expanded
  cases row with
  | none => exact Or.inl ⟨trivial, _, rfl⟩
  | some r =>
    cases hcheck : r.check with
    | error e =>
      have hmalformed : Malformed (some r) := by
        by_contra hnot
        rw [check_eq_ok_iff.mpr hnot] at hcheck
        cases hcheck
      exact Or.inl ⟨hmalformed, _, expand_of_malformed ask fields resolver hcheck⟩
    | ok =>
      refine Or.inr ⟨r, rfl, check_eq_ok_iff.mp hcheck, ?_⟩
      cases hexpired : r.isExpired now with
      | true => exact Or.inl ⟨rfl, expand_of_expired ask fields resolver hcheck hexpired⟩
      | false =>
        cases hname : isVerbatim r.host.toList with
        | true =>
          have houtcome := expand_of_verbatim ask fields resolver hcheck hexpired hname
          exact Or.inr (Or.inl ⟨rfl, rfl, houtcome⟩)
        | false =>
          have hgives := expand_of_name ask fields resolver hcheck hexpired hname
          exact Or.inr (Or.inr ⟨rfl, rfl, hgives⟩)

end Cases

/-- The resolvers of an expander over a history: new ones, and what expanding any row leaves. Visits
may be recorded at any time in between. -/
inductive Expanding [SuffixList] (now : Instant) : Resolver History → Prop where
  | new {h : History} : h.Recorded → Expanding now ⟨h, []⟩
  | row {r : Resolver History} (row : Option Row) (fields : List Field) : Expanding now r →
      Expanding now (expand (some History.visitedUnder) now row fields r).state
  | visit {r : Resolver History} (time : Instant) (url : String) (at' : Instant) :
      Expanding now r →
      Expanding now { r with index := ((History.addVisit time url at').run r.index).state }

section History

variable [SuffixList] {now : Instant} {r : Resolver History}

/-- A resolver over a history that kept nothing but distinct pairs. -/
structure Tidy (r : Resolver History) : Prop where
  index : r.index.Recorded
  answers : ∀ domain pairs, r.answers.lookup domain = some pairs → SchemePort.Distinct pairs

theorem Tidy.resolve (h : Tidy r) (host : String) (fields : List Field) :
    let resolved := Resolver.resolve (some History.visitedUnder) host fields r
    (∀ pairs, resolved.answer = .ok pairs → SchemePort.Distinct pairs) ∧ Tidy resolved.state := by
  intro resolved
  have hresolved : resolved = Resolver.resolve (some History.visitedUnder) host fields r := rfl
  cases hlookup : r.answers.lookup (Resolver.domainOf host) with
  | some kept =>
    have hkept := Resolver.resolve_of_kept History.visitedUnder fields hlookup
    rw [hresolved, hkept.answer, hkept.state]
    refine ⟨fun pairs hpairs => ?_, h⟩
    rw [← Except.ok.inj hpairs]
    exact h.answers _ _ hlookup
  | none =>
    obtain ⟨hanswer, hstate⟩ := Resolver.resolve_of_not_kept History.visitedUnder fields hlookup
    obtain ⟨hasked, hindex⟩ := History.visitedUnder_run r.index (Resolver.domainOf host) fields
    have hopen : r.index.closed = false := h.index.spec.1
    have hdistinct := h.index.distinct_usable (Resolver.domainOf host)
    simp only [hasked, hindex, History.reply, hopen, Bool.false_eq_true, if_false] at hanswer hstate
    rw [hresolved, hanswer, hstate]
    refine ⟨fun pairs hpairs => ?_, h.index, fun domain pairs hpairs => ?_⟩
    · rw [← Except.ok.inj hpairs]
      exact hdistinct
    · rw [List.lookup_cons] at hpairs
      split at hpairs
      · rw [← Option.some.inj hpairs]
        exact hdistinct
      · exact h.answers domain pairs hpairs

/-- One row: its records are of distinct origins, and what the resolver keeps stays distinct. -/
theorem Tidy.expand (h : Tidy r) (row : Option Row) (fields : List Field) :
    (∀ records, (expand (some History.visitedUnder) now row fields r).answer = .ok records →
      (records.map Record.origin).Nodup) ∧
    Tidy (expand (some History.visitedUnder) now row fields r).state := by
  have hcases := expand_cases (some History.visitedUnder) now fields r row
  obtain ⟨-, e, hout⟩ | ⟨row, rfl, -, ⟨-, hout⟩ | ⟨-, -, hout⟩ | ⟨-, -, hgives⟩⟩ := hcases
  · rw [hout]
    exact ⟨fun records hrecords => absurd hrecords (by simp), h⟩
  · rw [hout]
    refine ⟨fun records hrecords => ?_, h⟩
    rw [← Except.ok.inj hrecords]
    exact List.nodup_nil
  · rw [hout]
    refine ⟨fun records hrecords => ?_, h⟩
    rw [← Except.ok.inj hrecords]
    exact List.nodup_singleton row.host
  · obtain ⟨hdistinct, hstate⟩ := h.resolve row.hostName fields
    rw [hgives.answer, hgives.state]
    refine ⟨fun records hrecords => ?_, hstate⟩
    rw [← Except.ok.inj hrecords]
    refine row.nodup_origins ?_
    split
    · exact distinct_dualSchemes
    · generalize (Resolver.resolve (some History.visitedUnder) row.hostName fields r).answer = found
        at hdistinct ⊢
      cases found with
      | ok pairs => exact hdistinct pairs rfl
      | error e => exact ⟨List.nodup_nil, fun sp hsp => absurd hsp List.not_mem_nil⟩

/-- Any number of rows, and of visits in between. -/
theorem Expanding.tidy (h : Expanding now r) : Tidy r := by
  induction h with
  | new hrecorded => exact ⟨hrecorded, fun _ _ hlookup => by cases hlookup⟩
  | row row fields _ ih => exact (ih.expand row fields).2
  | visit time url at' _ ih => exact ⟨.visit time url at' ih.index, ih.answers⟩

end History

/-- A well-formed row whose time has not come has records, and all of them are its decision. -/
theorem exists_origins [SuffixList] {ι : Type} (ask : AskIndex ι) {now : Instant}
    (fields : List Field) (resolver : Resolver ι) {r : Row} (hcheck : r.check = .ok ())
    (hlive : r.isExpired now = false) :
    ∃ origins, origins ≠ [] ∧
      (expand ask now (some r) fields resolver).answer = .ok (origins.map r.recordAt) := by
  cases hname : isVerbatim r.host.toList with
  | true =>
    refine ⟨[r.host], by simp, ?_⟩
    rw [expand_of_verbatim ask fields resolver hcheck hlive hname]
    rfl
  | false =>
    have hgives := expand_of_name ask fields resolver hcheck hlive hname
    let visited := (Resolver.resolve ask r.hostName fields resolver).answer.toOption.getD []
    refine ⟨(if visited.isEmpty then dualSchemes else visited).map r.keyAt, ?_, ?_⟩
    · rw [Ne, List.map_eq_nil_iff]
      split
      · simp [dualSchemes]
      · rename_i hne
        simpa using hne
    · rw [List.map_map]
      exact hgives.answer

/-- Every row of every sequence, with an index that answers, fails or recovers, or with none. A row
fails exactly if it is malformed, and comes to nothing exactly if it is well formed and its time has
come. Any other row has records, all with its decision: one for a verbatim host, for which nothing
is asked, and otherwise one for each pair that the resolver answers with, or one for either scheme.
Over a history the records of a row have distinct origins. -/
theorem expand_exact [SuffixList] {ι : Type} (ask : AskIndex ι) (now : Instant) (row : Option Row)
    (fields : List Field) (resolver : Resolver ι) :
    let expanded := expand ask now row fields resolver
    ((∃ e, expanded.answer = .error e) ↔ Malformed row) ∧
    (expanded.answer = .ok [] ↔
      ¬Malformed row ∧ ∃ r, row = some r ∧ r.expiry = .timed ∧ ¬now < r.expireAt) ∧
    (∀ r, row = some r → ¬Malformed row → ¬(r.expiry = .timed ∧ ¬now < r.expireAt) →
      (∃ records, expanded.answer = .ok records ∧ records ≠ [] ∧
        ∀ q ∈ records, q.kind = r.kind ∧ q.state = r.state ∧ q.expiry = r.expiry ∧
          q.expireAt = r.expireAt ∧ q.modified = r.modified) ∧
      (isVerbatim r.host.toList = true →
        expanded = ⟨.ok [r.recordAt r.host], resolver, []⟩) ∧
      (isVerbatim r.host.toList = false →
        let record sp := r.recordAt (Origin.make sp.scheme r.hostName sp.port r.attributes).key
        match (Resolver.resolve ask r.hostName fields resolver).answer with
        | .ok (sp :: pairs) => expanded.answer = .ok ((sp :: pairs).map record)
        | .ok [] | .error _ =>
          expanded.answer = .ok [record ⟨"http", 0⟩, record ⟨"https", 0⟩])) ∧
    ∀ resolver : Resolver History, Expanding now resolver → ∀ records,
      (expand (some History.visitedUnder) now row fields resolver).answer = .ok records →
        (records.map Record.origin).Nodup := by
  intro expanded
  have hhistory : ∀ resolver : Resolver History, Expanding now resolver → ∀ records,
      (expand (some History.visitedUnder) now row fields resolver).answer = .ok records →
        (records.map Record.origin).Nodup := fun resolver hresolver =>
    (hresolver.tidy.expand row fields).1
  obtain ⟨hmalformed, e, hout⟩ | ⟨r, rfl, hformed, hout⟩ :=
    expand_cases ask now fields resolver row
  · have hanswer : expanded.answer = .error e := congrArg Outcome.answer hout
    refine ⟨iff_of_true ⟨e, hanswer⟩ hmalformed, ?_, ?_, hhistory⟩
    · rw [hanswer]
      exact iff_of_false (by simp) fun h => h.1 hmalformed
    · intro r _ hformed
      exact absurd hmalformed hformed
  · have hcheck : r.check = .ok () := check_eq_ok_iff.mpr hformed
    cases hexpired : r.isExpired now with
    | true =>
      have hlapsed := Row.isExpired_iff.mp hexpired
      have hanswer : expanded.answer = .ok [] :=
        congrArg Outcome.answer (expand_of_expired ask fields resolver hcheck hexpired)
      refine ⟨?_, iff_of_true hanswer ⟨hformed, r, rfl, hlapsed⟩, ?_, hhistory⟩
      · rw [hanswer]
        exact iff_of_false (by simp) hformed
      · rintro _ ⟨⟩ - hlive
        exact absurd hlapsed hlive
    | false =>
      have hlive : ¬(r.expiry = .timed ∧ ¬now < r.expireAt) := by
        rw [← Row.isExpired_iff, hexpired]
        simp
      obtain ⟨origins, hne, hanswer⟩ := exists_origins ask fields resolver hcheck hexpired
      have hanswer : expanded.answer = .ok (origins.map r.recordAt) := hanswer
      refine ⟨?_, ?_, ?_, hhistory⟩
      · rw [hanswer]
        exact iff_of_false (by simp) hformed
      · rw [hanswer]
        refine iff_of_false (by simpa using hne) ?_
        rintro ⟨-, _, ⟨⟩, hlapsed⟩
        exact hlive hlapsed
      · rintro _ ⟨⟩ - -
        refine ⟨⟨_, hanswer, by simpa using hne, fun q hq => ?_⟩, ?_, ?_⟩
        · obtain ⟨origin, -, rfl⟩ := List.mem_map.mp hq
          exact ⟨rfl, rfl, rfl, rfl, rfl⟩
        · exact expand_of_verbatim ask fields resolver hcheck hexpired
        · intro hname record
          have hgives := (expand_of_name ask fields resolver hcheck hexpired hname).answer
          cases hresolved : (Resolver.resolve ask r.hostName fields resolver).answer with
          | error e =>
            rw [hresolved] at hgives
            exact hgives
          | ok pairs =>
            rw [hresolved] at hgives
            cases pairs <;> exact hgives

/-- A host that was visited at a port of its own, another that was never visited, and no row. -/
theorem expand_exact_visited :
    let now : Instant := .atMillis 2000
    let history := ((History.addVisit now "https://example.com:8443/x" .unset).run {}).state
    let seen : Row := ⟨1, "Example.com", "popup", .block, .never, .unset, .unset, {}⟩
    let unseen : Row := ⟨2, "[::1]", "popup", .allow, .timed, .atMillis 5000, now, ⟨7, false⟩⟩
    let first := expand (some History.visitedUnder) now (some seen) [] ⟨history, []⟩
    let second := expand (some History.visitedUnder) now (some unseen) [] first.state
    first.answer = .ok [seen.recordAt "https://example.com:8443"] ∧
      second.answer = .ok [unseen.recordAt "http://[::1]^appId=7",
        unseen.recordAt "https://[::1]^appId=7"] ∧
      ["http://[::1]^appId=7", "https://[::1]^appId=7"].Nodup ∧
      ∃ e, (expand (some History.visitedUnder) now none [] second.state).answer = .error e := by
  intro now history seen unseen first second
  have hrecorded : history.Recorded := .visit _ _ _ .empty
  have hfirst : Expanding now first.state := .row _ _ (.new hrecorded)
  have hseen := expand_exact (some History.visitedUnder) now (some seen) [] ⟨history, []⟩
  have hunseen := expand_exact (some History.visitedUnder) now (some unseen) [] first.state
  have hnone := expand_exact (some History.visitedUnder) now none [] second.state
  have hvisited : (Resolver.resolve (some History.visitedUnder) seen.hostName []
      ⟨history, []⟩).answer = .ok [⟨"https", 8443⟩] := by decide +kernel
  have hunvisited : (Resolver.resolve (some History.visitedUnder) unseen.hostName []
      first.state).answer = .ok [] := by decide +kernel
  have hseenRecords := (hseen.2.2.1 seen rfl (check_eq_ok_iff.mp (by decide +kernel))
    (by decide +kernel)).2.2 (by decide +kernel)
  have hunseenRecords := (hunseen.2.2.1 unseen rfl (check_eq_ok_iff.mp (by decide +kernel))
    (by decide +kernel)).2.2 (by decide +kernel)
  rw [hvisited] at hseenRecords
  rw [hunvisited] at hunseenRecords
  have hsecond : second.answer = .ok [unseen.recordAt "http://[::1]^appId=7",
      unseen.recordAt "https://[::1]^appId=7"] := hunseenRecords.trans (by decide +kernel)
  exact ⟨hseenRecords.trans (by decide +kernel), hsecond, hunseen.2.2.2 _ hfirst _ hsecond,
    hnone.1.mpr trivial⟩

end Legacy

end Consent

import Mathlib.Data.List.Sort
import Consent.History.Scripted
import Consent.Proofs.History.Resolver
import Consent.Proofs.Origin.Key

/-! Resolving hosts one after another through one resolver: each answer is the one that a new
resolver would give, and the index is asked no more than once for what it has answered. -/

namespace Consent

open Host Text Log

namespace SchemePort

/-- By scheme, then by port. -/
def Before (a b : SchemePort) : Prop := a.scheme < b.scheme ∨ a.scheme = b.scheme ∧ a.port < b.port

instance : DecidableRel Before := fun a b =>
  inferInstanceAs (Decidable (a.scheme < b.scheme ∨ a.scheme = b.scheme ∧ a.port < b.port))

instance : Std.Irrefl Before where
  irrefl a h := by
    rcases h with h | ⟨-, h⟩
    · exact String.lt_irrefl a.scheme h
    · omega

instance : Std.Antisymm Before where
  antisymm a b hab hba := by
    rcases hab with hab | ⟨heq, hab⟩
    · rcases hba with hba | ⟨heq, -⟩
      · exact absurd hba (String.lt_asymm hab)
      · rw [heq] at hab
        exact absurd hab (String.lt_irrefl a.scheme)
    · rcases hba with hba | ⟨-, hba⟩
      · rw [heq] at hba
        exact absurd hba (String.lt_irrefl b.scheme)
      · omega

theorem le_iff {a b : SchemePort} : a.le b = true ↔ a.Before b ∨ a = b := by
  have heq : a = b ↔ a.scheme = b.scheme ∧ a.port = b.port := by
    cases a
    cases b
    simp
  rw [heq]
  unfold le Before
  by_cases hscheme : a.scheme = b.scheme
  · have hirrefl : ¬b.scheme < b.scheme := String.lt_irrefl b.scheme
    simp only [hscheme, hirrefl, if_true, decide_eq_true_eq, false_or, true_and]
    omega
  · simp [hscheme]

theorem Before.trans {a b c : SchemePort} (hab : a.Before b) (hbc : b.Before c) : a.Before c := by
  rcases hab with hab | ⟨hscheme, hab⟩
  · rcases hbc with hbc | ⟨hscheme, -⟩
    · exact Or.inl (String.lt_trans hab hbc)
    · exact Or.inl (hscheme ▸ hab)
  · rcases hbc with hbc | ⟨hscheme', hbc⟩
    · exact Or.inl (hscheme ▸ hbc)
    · exact Or.inr ⟨hscheme.trans hscheme', by omega⟩

theorem le_trans (a b c : SchemePort) (hab : a.le b = true) (hbc : b.le c = true) :
    a.le c = true := by
  rw [le_iff] at hab hbc ⊢
  rcases hab with hab | rfl
  · rcases hbc with hbc | rfl
    · exact Or.inl (hab.trans hbc)
    · exact Or.inl hab
  · exact hbc

theorem le_total (a b : SchemePort) : (a.le b || b.le a) = true := by
  rw [Bool.or_eq_true, le_iff, le_iff]
  rcases Std.lt_trichotomy a.scheme b.scheme with hlt | heq | hlt
  · exact Or.inl (Or.inl (Or.inl hlt))
  · rcases Int.lt_trichotomy a.port b.port with hport | hport | hport
    · exact Or.inl (Or.inl (Or.inr ⟨heq, hport⟩))
    · refine Or.inl (Or.inr ?_)
      cases a
      cases b
      simp_all
    · exact Or.inr (Or.inl (Or.inr ⟨heq.symm, hport⟩))
  · exact Or.inr (Or.inl (Or.inl hlt))

/-- Sorting pairs of which none stands twice leaves each before the next. -/
theorem pairwise_before_mergeSort {pairs : List SchemePort} (h : pairs.Nodup) :
    (pairs.mergeSort le).Pairwise Before := by
  have hsorted := List.pairwise_mergeSort le_trans le_total pairs
  have hdistinct : (pairs.mergeSort le).Nodup := (List.mergeSort_perm pairs le).nodup_iff.mpr h
  refine (hsorted.and hdistinct).imp fun hab => ?_
  exact (le_iff.mp hab.1).resolve_right hab.2

end SchemePort

theorem nodup_eraseDups {α : Type} [BEq α] [LawfulBEq α] (l : List α) : l.eraseDups.Nodup := by
  induction hn : l.length using Nat.strongRecOn generalizing l with
  | ind n ih =>
    cases l with
    | nil => simp
    | cons a rest =>
      have hlength : (rest.filter fun b => !b == a).length < n := by
        have hle := List.length_filter_le (fun b => !b == a) rest
        rw [List.length_cons] at hn
        omega
      rw [List.eraseDups_cons, List.nodup_cons]
      refine ⟨?_, ih _ hlength _ rfl⟩
      simp [List.mem_eraseDups]

/-- A scheme can carry permissions if it is one of the three names in any letter case. -/
theorem Origin.canCarry_iff_toLower {scheme : String} :
    canCarry scheme = true ↔ scheme.toLower ∈ ["http", "https", "ftp"] := by
  have hname : ∀ name ∈ ["http", "https", "ftp"],
      lowerString scheme = name ↔ scheme.toLower = name := fun _ => lowerString_eq_iff_toLower
  constructor
  · intro h
    rcases lowerString_of_canCarry h with hs | hs | hs
    · simp [(hname "http" (by decide)).mp hs]
    · simp [(hname "https" (by decide)).mp hs]
    · simp [(hname "ftp" (by decide)).mp hs]
  · intro h
    have hs := (hname _ h).mpr rfl
    unfold canCarry defaultPort?
    rw [hs]
    revert h
    generalize scheme.toLower = name
    revert name
    decide

namespace Resolver

variable {ι : Type} {ask : AskIndex ι} {valid : ι → Prop}
  {reply : String → Except Failure (List SchemePort)}

theorem pairwise_before_usable (pairs : List SchemePort) :
    (usable pairs).Pairwise SchemePort.Before :=
  SchemePort.pairwise_before_mergeSort ((nodup_eraseDups pairs).filter _)

/-- Neither the order of the pairs nor their repetition bears on which are usable. -/
theorem usable_congr {pairs pairs' : List SchemePort} (h : ∀ sp, sp ∈ pairs ↔ sp ∈ pairs') :
    usable pairs = usable pairs' := by
  refine (pairwise_before_usable pairs).eq_of_mem_iff (pairwise_before_usable pairs') fun sp => ?_
  rw [mem_usable, mem_usable, h sp]

/-- Resolves hosts one after another; a failure does not end it. -/
def resolveEach [SuffixList] (ask : AskIndex ι) :
    List String → Action (Resolver ι) (List (Except Failure (List SchemePort)))
  | [] => pure []
  | host :: rest => do
    let answer ← (resolve ask host).attempt
    let answers ← resolveEach ask rest
    pure (answer :: answers)

/-- The same index, with the domains noted that it is asked for. -/
def noting (ask : AskIndex ι) : AskIndex (ι × List String) :=
  ask.map fun visitedUnder domain fields c =>
    let o := visitedUnder domain fields c.1
    ⟨o.answer, (o.state, c.2 ++ [domain]), o.log⟩

theorem Steady.noting (h : Steady ask valid reply) :
    Steady (noting ask) (fun c => valid c.1) reply where
  silent hask := h.silent (Option.map_eq_none_iff.mp hask)
  answer := by
    intro visitedUnder hask c hc domain fields
    obtain ⟨asked, hasked, rfl⟩ := Option.map_eq_some_iff.mp hask
    exact h.answer asked hasked c.1 hc domain fields
  valid := by
    intro visitedUnder hask c hc domain fields
    obtain ⟨asked, hasked, rfl⟩ := Option.map_eq_some_iff.mp hask
    exact h.valid asked hasked c.1 hc domain fields

section Runs

variable [SuffixList] {r : Resolver ι}

/-- The run: every answer is what the index replies, whatever was resolved before. -/
theorem resolveEach_steady (hsteady : Steady ask valid reply) (hr : Faithful valid reply r)
    (hosts : List String) (fields : List Field) :
    (resolveEach ask hosts fields r).answer =
      .ok (hosts.map fun host => (reply (domainOf host)).map usable) := by
  induction hosts generalizing r with
  | nil => rfl
  | cons host rest ih =>
    obtain ⟨hanswer, hfaithful⟩ := resolve_steady hsteady hr host fields
    have hrest := ih hfaithful
    unfold resolveEach
    rw [Action.answer_bind, Action.answer_attempt, Action.state_attempt, hanswer]
    dsimp only
    rw [Action.answer_bind, hrest]
    rfl

/-- How often an index is asked for a domain of which nothing was kept: once if it answers, for each
host of the domain if it fails. -/
def timesAsked (reply : String → Except Failure (List SchemePort)) (hosts : List String)
    (domain : String) : Nat :=
  let n := hosts.countP fun host => domainOf host = domain
  match reply domain with
  | .ok _ => min n 1
  | .error _ => n

section Questions

variable {visitedUnder : String → Action ι (List SchemePort)} {c : Resolver (ι × List String)}
  (fields : List Field)

/-- One step: a domain is asked for if nothing was kept of it, and kept if the index answers. -/
theorem count_resolve (hsteady : Steady (some visitedUnder) valid reply)
    (hc : Faithful (fun c => valid c.1) reply c) (host domain : String) :
    let c' := (resolve (noting (some visitedUnder)) host fields c).state
    c'.index.2.count domain = c.index.2.count domain +
        (if domainOf host = domain ∧ c.answers.lookup domain = none then 1 else 0) ∧
      (c'.answers.lookup domain = none ↔ c.answers.lookup domain = none ∧
        (domainOf host = domain → ∃ e, reply domain = .error e)) := by
  intro c'
  have hc' : c' = (resolve (noting (some visitedUnder)) host fields c).state := rfl
  cases hlookup : c.answers.lookup (domainOf host) with
  | some pairs =>
    have hkept : c' = c := (resolve_of_kept _ fields hlookup).state
    have hne : c.answers.lookup domain = none → domainOf host ≠ domain := by
      rintro hnone rfl
      rw [hlookup] at hnone
      cases hnone
    rw [hkept]
    constructor
    · rw [if_neg fun h => hne h.2 h.1, Nat.add_zero]
    · exact ⟨fun hnone => ⟨hnone, fun heq => absurd heq (hne hnone)⟩, fun h => h.1⟩
  | none =>
    have hanswer := hsteady.answer visitedUnder rfl c.index.1 hc.index (domainOf host) fields
    have hstate := (resolve_of_not_kept _ fields hlookup).2.symm.trans hc'.symm
    rw [← hstate]
    simp only [hanswer]
    by_cases hdomain : domainOf host = domain
    · subst hdomain
      cases reply (domainOf host) <;> simp [hlookup]
    · have hne : (domain == domainOf host) = false := by
        rw [beq_eq_false_iff_ne]
        exact fun heq => hdomain heq.symm
      cases reply (domainOf host) with
      | error e => simp [hdomain]
      | ok visited =>
        simp only [List.lookup_cons, hne]
        simp [hdomain]

/-- The run: what was not kept before is asked for as often as `timesAsked` says. -/
theorem count_resolveEach (hsteady : Steady (some visitedUnder) valid reply)
    (hc : Faithful (fun c => valid c.1) reply c) (hosts : List String) (domain : String) :
    (resolveEach (noting (some visitedUnder)) hosts fields c).state.index.2.count domain =
      c.index.2.count domain +
        if c.answers.lookup domain = none then timesAsked reply hosts domain else 0 := by
  induction hosts generalizing c with
  | nil =>
    have hzero : timesAsked reply [] domain = 0 := by
      unfold timesAsked
      cases reply domain <;> rfl
    rw [hzero, ite_self]
    rfl
  | cons host rest ih =>
    have hfaithful := (resolve_steady hsteady.noting hc host fields).2
    obtain ⟨hcount, hkept⟩ := count_resolve fields hsteady hc host domain
    have hrest := ih hfaithful
    have hrun : (resolveEach (noting (some visitedUnder)) (host :: rest) fields c).state =
        (resolveEach (noting (some visitedUnder)) rest fields
          (resolve (noting (some visitedUnder)) host fields c).state).state := by
      rw [resolveEach, Action.state_bind, Action.answer_attempt, Action.state_attempt]
      dsimp only
      rw [Action.state_bind]
      split
      · rfl
      · rfl
    rw [hrun, hrest, hcount]
    by_cases hnone : c.answers.lookup domain = none
    · by_cases hdomain : domainOf host = domain
      · rw [if_pos ⟨hdomain, hnone⟩, if_pos hnone]
        cases hreply : reply domain with
        | error e =>
          rw [if_pos (hkept.mpr ⟨hnone, fun _ => ⟨e, hreply⟩⟩)]
          simp only [timesAsked, hreply, List.countP_cons, hdomain, decide_true, if_true]
          omega
        | ok visited =>
          have hanswered : ¬∃ e, reply domain = .error e := by simp [hreply]
          rw [if_neg fun h => hanswered ((hkept.mp h).2 hdomain)]
          simp only [timesAsked, hreply, List.countP_cons, hdomain, decide_true, if_true]
          omega
      · rw [if_neg fun h => hdomain h.1, if_pos hnone,
          if_pos (hkept.mpr ⟨hnone, fun h => absurd h hdomain⟩), Nat.add_zero]
        simp [timesAsked, hdomain]
    · rw [if_neg fun h => hnone h.2, if_neg hnone, if_neg fun h => hnone (hkept.mp h).1]

end Questions

/-- A failure is not kept, so the next host of the domain gets what the index says by then. -/
theorem resolve_after_failure {visitedUnder : String → Action ι (List SchemePort)}
    {host host' : String} (hdomain : domainOf host' = domainOf host) {fields : List Field}
    {e : Failure} (hfail : (resolve (some visitedUnder) host fields r).answer = .error e)
    (fields' : List Field) :
    let r' := (resolve (some visitedUnder) host fields r).state
    (resolve (some visitedUnder) host' fields' r').answer =
      (visitedUnder (domainOf host) fields' r'.index).answer.map usable := by
  intro r'
  have hr' : r' = (resolve (some visitedUnder) host fields r).state := rfl
  cases hlookup : r.answers.lookup (domainOf host) with
  | some pairs =>
    have hkept := (resolve_of_kept visitedUnder fields hlookup).answer
    rw [hfail] at hkept
    cases hkept
  | none =>
    obtain ⟨hanswer, hstate⟩ := resolve_of_not_kept visitedUnder fields hlookup
    have hnone : r'.answers.lookup (domainOf host') = none := by
      rw [hr', hstate, hdomain]
      cases hasked : (visitedUnder (domainOf host) fields r.index).answer with
      | error e => exact hlookup
      | ok visited =>
        rw [hfail, hasked] at hanswer
        cases hanswer
    rw [(resolve_of_not_kept visitedUnder fields' hnone).1, hdomain]

/-- Hosts resolved one after another get what each would get from a new resolver. -/
theorem resolveEach_eq_fresh (hsteady : Steady ask valid reply) {i : ι} (hi : valid i)
    (hosts : List String) (fields : List Field) :
    let fresh host := (resolve ask host fields ⟨i, []⟩).answer
    ((resolveEach ask hosts fields ⟨i, []⟩).answer = .ok (hosts.map fresh) ∧
      ∀ host host', domainOf host = domainOf host' → fresh host = fresh host') ∧
    (∀ visitedUnder, ask = some visitedUnder →
      let noted := resolveEach (noting ask) hosts fields ⟨(i, []), []⟩
      noted.answer = .ok (hosts.map fresh) ∧
        ∀ domain, noted.state.index.2.count domain = timesAsked reply hosts domain) ∧
    (∀ (κ : Type) (visitedUnder : String → Action κ (List SchemePort)) (r : Resolver κ) host host' e,
      domainOf host' = domainOf host →
      (resolve (some visitedUnder) host fields r).answer = .error e →
      let r' := (resolve (some visitedUnder) host fields r).state
      (resolve (some visitedUnder) host' fields r').answer =
        (visitedUnder (domainOf host) fields r'.index).answer.map usable) ∧
    (∀ host visited, reply (domainOf host) = .ok visited →
      (∃ pairs, fresh host = .ok pairs ∧ pairs.Pairwise SchemePort.Before ∧
        ∀ sp, sp ∈ pairs ↔ sp ∈ visited ∧ sp.scheme.toLower ∈ ["http", "https", "ftp"]) ∧
      ∀ (κ : Type) (ask' : AskIndex κ) valid' reply' visited' j,
        Steady ask' valid' reply' → valid' j → reply' (domainOf host) = .ok visited' →
        (∀ sp, sp ∈ visited' ↔ sp ∈ visited) →
        (resolve ask' host fields ⟨j, []⟩).answer = fresh host) ∧
    ∀ host e, reply (domainOf host) = .error e → fresh host = .error e := by
  intro fresh
  have hfresh : ∀ host, fresh host = (reply (domainOf host)).map usable := fun host =>
    (resolve_steady hsteady (faithful_new hi) host fields).1
  have hmap : hosts.map fresh = hosts.map fun host => (reply (domainOf host)).map usable :=
    List.map_congr_left fun host _ => hfresh host
  refine ⟨⟨?_, ?_⟩, ?_, ?_, ?_, ?_⟩
  · rw [hmap]
    exact resolveEach_steady hsteady (faithful_new hi) hosts fields
  · intro host host' hdomain
    rw [hfresh, hfresh, hdomain]
  · rintro visitedUnder rfl noted
    have hnew : Faithful (fun c : ι × List String => valid c.1) reply ⟨(i, []), []⟩ :=
      faithful_new hi
    refine ⟨?_, fun domain => ?_⟩
    · rw [hmap]
      exact resolveEach_steady hsteady.noting hnew hosts fields
    · have hcount := count_resolveEach fields hsteady hnew hosts domain
      simpa using hcount
  · intro κ visitedUnder r host host' e hdomain hfail
    exact resolve_after_failure hdomain hfail fields
  · intro host visited hreply
    have husable : fresh host = .ok (usable visited) := by
      rw [hfresh, hreply]
      rfl
    refine ⟨⟨usable visited, husable, pairwise_before_usable visited, fun sp => ?_⟩, ?_⟩
    · rw [mem_usable, Origin.canCarry_iff_toLower]
    · intro κ ask' valid' reply' visited' j hsteady' hj hreply' hsame
      rw [(resolve_steady hsteady' (faithful_new hj) host fields).1, hreply', husable]
      exact congrArg Except.ok (usable_congr hsame)
  · intro host e hreply
    rw [hfresh, hreply]
    rfl

end Runs

/-- A scripted index that does not recover replies as it is told. -/
theorem steady_scripted (pairs : List (String × List SchemePort))
    (failures : List (String × String)) :
    Steady (some Scripted.Index.visitedUnder)
      (fun i => i.pairs = pairs ∧ i.failures = failures ∧ i.recovers = false)
      fun domain => match failures.lookup domain with
        | some text => .error (.reported text)
        | none => .ok ((pairs.lookup domain).getD []) where
  silent hask := by cases hask
  answer := by
    rintro visitedUnder ⟨⟩ i ⟨rfl, rfl, hrecovers⟩ domain fields
    rw [Scripted.Index.visitedUnder, Action.answer_bind, Action.answer_get, Action.state_get]
    dsimp only
    rw [Action.answer_bind, Action.answer_set]
    cases i.failures.lookup domain with
    | some text =>
      simp [hrecovers]
    | none =>
      simp
  valid := by
    rintro visitedUnder ⟨⟩ i ⟨rfl, rfl, hrecovers⟩ domain fields
    rw [Scripted.Index.visitedUnder, Action.state_bind, Action.answer_get, Action.state_get]
    dsimp only
    rw [Action.state_bind, Action.answer_set, Action.state_set]
    cases i.failures.lookup domain with
    | some text => simp [hrecovers]
    | none => simp [hrecovers]

/-- Two hosts of a site with two visits, and one site that the index fails for. -/
theorem resolveEach_eq_fresh_mixed :
    let visited : List SchemePort :=
      [⟨"https", 0⟩, ⟨"HTTP", 8080⟩, ⟨"https", 0⟩, ⟨"mailto", 0⟩, ⟨"ftp", 21⟩]
    let i : Scripted.Index := ⟨[("foo.com", visited)], [("bar.org", "busy")], false, []⟩
    let hosts := ["a.foo.com", "www.bar.org", "B.foo.com.", "bar.org"]
    let noted := resolveEach (noting (some Scripted.Index.visitedUnder)) hosts [] ⟨(i, []), []⟩
    hosts.map domainOf = ["foo.com", "bar.org", "foo.com", "bar.org"] ∧
      noted.answer = .ok (hosts.map fun host =>
        (resolve (some Scripted.Index.visitedUnder) host [] ⟨i, []⟩).answer) ∧
      noted.state.index.2.count "foo.com" = 1 ∧ noted.state.index.2.count "bar.org" = 2 ∧
      (resolve (some Scripted.Index.visitedUnder) "a.foo.com" [] ⟨i, []⟩).answer =
        .ok [⟨"HTTP", 8080⟩, ⟨"ftp", 21⟩, ⟨"https", 0⟩] := by
  intro visited i hosts noted
  have hdomains : hosts.map domainOf = ["foo.com", "bar.org", "foo.com", "bar.org"] := by
    decide +kernel
  have hsteady := steady_scripted [("foo.com", visited)] [("bar.org", "busy")]
  obtain ⟨-, hnoted, -, hpairs, -⟩ :=
    resolveEach_eq_fresh hsteady (i := i) ⟨rfl, rfl, rfl⟩ hosts []
  obtain ⟨hanswer, hcount⟩ := hnoted _ rfl
  obtain ⟨pairs, hfresh, hsorted, hmem⟩ := (hpairs "a.foo.com" visited (by decide +kernel)).1
  have hexpected : pairs = [⟨"HTTP", 8080⟩, ⟨"ftp", 21⟩, ⟨"https", 0⟩] := by
    refine hsorted.eq_of_mem_iff (by decide +kernel) fun sp => (hmem sp).trans ⟨?_, ?_⟩
    · have h : ∀ sp ∈ visited, sp.scheme.toLower ∈ ["http", "https", "ftp"] →
          sp ∈ [⟨"HTTP", 8080⟩, ⟨"ftp", 21⟩, ⟨"https", 0⟩] := by decide +kernel
      exact fun hsp => h sp hsp.1 hsp.2
    · have h : ∀ sp ∈ [(⟨"HTTP", 8080⟩ : SchemePort), ⟨"ftp", 21⟩, ⟨"https", 0⟩],
          sp ∈ visited ∧ sp.scheme.toLower ∈ ["http", "https", "ftp"] := by decide +kernel
      exact h sp
  refine ⟨hdomains, hanswer, ?_, ?_, ?_⟩
  · rw [hcount "foo.com"]
    decide +kernel
  · rw [hcount "bar.org"]
    decide +kernel
  · rw [← hexpected]
    exact hfresh

end Resolver

end Consent

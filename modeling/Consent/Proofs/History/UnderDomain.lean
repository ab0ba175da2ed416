import Mathlib.Data.List.Induction
import Consent.Proofs.History.Resolution
import Consent.Proofs.History.Visit

/-! What a history tells about a domain after any visits were reported to it: the schemes and ports
of the visits that it accepted, to the domain itself or below it, and nothing of hosts that only end
in the same letters. -/

namespace Consent

open Text

/-- The host is the domain, or other labels and a point stand before the domain. -/
def Host.IsWithin (host domain : String) : Prop :=
  host = domain ∨ ∃ labels : String, host = labels ++ "." ++ domain

theorem Visit.isUnder_iff_isWithin {v : Visit} {domain : String} :
    v.isUnder domain = true ↔ Host.IsWithin v.host domain := by
  rw [isUnder_iff]
  refine or_congr_right ⟨fun h => ?_, fun h => ?_⟩
  · obtain ⟨labels, hlabels⟩ := h
    refine ⟨.ofList labels, ?_⟩
    rw [← String.toList_inj, ← hlabels]
    simp
  · obtain ⟨labels, hlabels⟩ := h
    refine ⟨labels.toList, ?_⟩
    rw [hlabels]
    simp

/-- Letters before a domain that do not end in a point make another host of it, which does not lie
below the domain either. -/
theorem Host.not_isWithin_of_append {x domain : String} (hx : x ≠ "")
    (hlast : x.toList.getLast? ≠ some '.') : ¬Host.IsWithin (x ++ domain) domain := by
  have hne : x.toList ≠ [] := fun h => hx (String.toList_inj.mp h)
  rintro (hsame | ⟨labels, hbelow⟩)
  · have hlist := String.toList_inj.mpr hsame
    rw [String.toList_append] at hlist
    exact hne (List.append_left_eq_self.mp hlist)
  · have hlist := String.toList_inj.mpr hbelow
    rw [String.toList_append, String.toList_append] at hlist
    have hfront : x.toList = (labels ++ ".").toList := List.append_cancel_right hlist
    rw [hfront, String.toList_append] at hlast
    exact hlast (by simp)

namespace History

/-- A visit that is reported at a time: its URL, and the time it was made if that is given. -/
structure Arrival where
  now : Instant
  url : String
  time : Instant := .unset
  deriving DecidableEq, Repr

/-- Reports the visit. -/
def Arrival.report (a : Arrival) : Action History Unit := addVisit a.now a.url a.time

/-- The history after visits were reported to it one after another, whether it took them or not. -/
def afterAll (arrivals : List Arrival) : History :=
  arrivals.foldl (fun h a => (a.report.run h).state) {}

/-- The history takes the reported visit, and stores it as `v`. -/
def Accepts (h : History) (a : Arrival) (v : Visit) : Prop := a.report.Gives [] h () (h.record v)

section Arrivals

variable {h h' : History} {a : Arrival} {v : Visit} {arrivals before after : List Arrival}
  {domain : String}

theorem afterAll_concat (arrivals : List Arrival) (a : Arrival) :
    afterAll (arrivals ++ [a]) = (a.report.run (afterAll arrivals)).state := by
  simp [afterAll]

theorem recorded_afterAll (arrivals : List Arrival) : (afterAll arrivals).Recorded := by
  induction arrivals using List.reverseRecOn with
  | nil => exact .empty
  | append_singleton arrivals a ih =>
    rw [afterAll_concat]
    exact .visit a.now a.url a.time ih

/-- The moment that is stored for a reported visit. -/
def Arrival.millis (a : Arrival) : Int := if a.time = .unset then a.now.millis else a.time.millis

/-- What becomes of a report to an open history is decided by its URL alone. -/
theorem report_cases (hopen : h.closed = false) (a : Arrival) :
    (∃ v, Visit.parse a.url a.millis = .ok v ∧ h.Accepts a v) ∨
      ∃ e, Visit.parse a.url a.millis = .error e ∧
        (a.report.run h).answer = .error (.visit e) ∧ (a.report.run h).state = h := by
  have hrun := addVisit_run a.now a.url a.time h
  unfold Accepts Arrival.report Arrival.millis
  dsimp only at hrun
  split at hrun
  · rename_i e hparse
    exact Or.inr ⟨e, hparse, hrun⟩
  · rename_i v hparse
    rw [hopen] at hrun
    exact Or.inl ⟨v, hparse, hrun.1, hrun.2⟩

theorem Accepts.unique {w : Visit} (hv : h.Accepts a v) (hw : h.Accepts a w) : v = w := by
  have hvisits : h.visits ++ [v] = h.visits ++ [w] :=
    congrArg History.visits (hv.state_unique hw)
  exact List.singleton_inj.mp (List.append_cancel_left hvisits)

theorem accepts_iff (hopen : h.closed = false) :
    h.Accepts a v ↔ Visit.parse a.url a.millis = .ok v := by
  rcases report_cases hopen a with ⟨w, hparse, hw⟩ | ⟨e, hparse, hanswer, -⟩
  · rw [hparse, Except.ok.injEq]
    refine ⟨hw.unique, fun heq => ?_⟩
    rw [← heq]
    exact hw
  · rw [hparse]
    refine iff_of_false (fun hgives => ?_) nofun
    cases hanswer.symm.trans hgives.answer

/-- One step: a report adds the visit that it is taken as, and nothing if it is refused. -/
theorem mem_visits_report (hopen : h.closed = false) :
    v ∈ (a.report.run h).state.visits ↔ v ∈ h.visits ∨ h.Accepts a v := by
  rcases report_cases hopen a with ⟨w, -, hw⟩ | ⟨e, -, hanswer, hstate⟩
  · have hstate : (a.report.run h).state = h.record w := hw.state
    have hvisits : (h.record w).visits = h.visits ++ [w] := rfl
    rw [hstate, hvisits, List.mem_append, List.mem_singleton]
    refine or_congr_right ⟨fun heq => ?_, fun hv => hv.unique hw⟩
    rw [heq]
    exact hw
  · have hrefused : ¬h.Accepts a v := fun hgives => by cases hanswer.symm.trans hgives.answer
    rw [hstate, or_iff_left hrefused]

/-- The run: the visits of a history are those that it accepted. -/
theorem mem_visits_afterAll :
    v ∈ (afterAll arrivals).visits ↔ ∃ before a after, arrivals = before ++ a :: after ∧
      (afterAll before).Accepts a v := by
  induction arrivals using List.reverseRecOn with
  | nil => simp [afterAll]
  | append_singleton arrivals last ih =>
    have hopen := (recorded_afterAll arrivals).spec.1
    rw [afterAll_concat, mem_visits_report hopen, ih]
    constructor
    · rintro (⟨before, a, after, rfl, hv⟩ | hv)
      · exact ⟨before, a, after ++ [last], by simp, hv⟩
      · exact ⟨arrivals, last, [], rfl, hv⟩
    · rintro ⟨before, a, after, hsplit, hv⟩
      rcases List.eq_nil_or_concat after with rfl | ⟨after, b, rfl⟩
      · obtain ⟨rfl, hlast⟩ := List.append_inj' hsplit rfl
        rw [List.singleton_inj.mp hlast]
        exact Or.inr hv
      · rw [List.concat_eq_append, ← List.cons_append, ← List.append_assoc] at hsplit
        obtain ⟨rfl, -⟩ := List.append_inj' hsplit rfl
        exact Or.inl ⟨before, a, after, rfl, hv⟩

/-- The same, without the order of the reports: a URL is taken early or late. -/
theorem mem_visits_afterAll_iff :
    v ∈ (afterAll arrivals).visits ↔ ∃ a ∈ arrivals, Visit.parse a.url a.millis = .ok v := by
  rw [mem_visits_afterAll]
  have hopen (before : List Arrival) := (recorded_afterAll before).spec.1
  constructor
  · rintro ⟨before, a, after, rfl, hv⟩
    exact ⟨a, by simp, (accepts_iff (hopen before)).mp hv⟩
  · rintro ⟨a, ha, hparse⟩
    obtain ⟨before, after, rfl⟩ := List.append_of_mem ha
    exact ⟨before, a, after, rfl, (accepts_iff (hopen before)).mpr hparse⟩

/-- A report that is refused leaves no trace, wherever it stands among the others. -/
theorem afterAll_of_refused {e : Failure}
    (h : (a.report.run (afterAll before)).answer = .error e) (after : List Arrival) :
    afterAll (before ++ a :: after) = afterAll (before ++ after) := by
  have hopen := (recorded_afterAll before).spec.1
  have hstate : (a.report.run (afterAll before)).state = afterAll before := by
    rcases report_cases hopen a with ⟨v, -, hv⟩ | ⟨e, -, -, hstate⟩
    · cases h.symm.trans hv.answer
    · exact hstate
  have hcons : afterAll (before ++ a :: after) =
      after.foldl (fun h a => (a.report.run h).state) (a.report.run (afterAll before)).state := by
    simp [afterAll]
  have hwithout : afterAll (before ++ after) =
      after.foldl (fun h a => (a.report.run h).state) (afterAll before) := by
    simp [afterAll]
  rw [hcons, hwithout, hstate]

theorem pairwise_before_pairsUnder (h : History) (domain : String) :
    (h.pairsUnder domain).Pairwise SchemePort.Before :=
  SchemePort.pairwise_before_mergeSort (nodup_eraseDups _)

/-- Histories that hold the same visits under a domain tell the same about it. -/
theorem pairsUnder_congr
    (hsame : ∀ v, v.isUnder (lowerString domain) = true → (v ∈ h.visits ↔ v ∈ h'.visits)) :
    h.pairsUnder domain = h'.pairsUnder domain := by
  have hsorted := pairwise_before_pairsUnder h domain
  refine hsorted.eq_of_mem_iff (pairwise_before_pairsUnder h' domain) fun sp => ?_
  rw [mem_pairsUnder, mem_pairsUnder]
  constructor
  · rintro ⟨v, hv, hunder, rfl⟩
    exact ⟨v, (hsame v hunder).mp hv, hunder, rfl⟩
  · rintro ⟨v, hv, hunder, rfl⟩
    exact ⟨v, (hsame v hunder).mpr hv, hunder, rfl⟩

/-- A visit that is not within the domain has no part in what is told about it. -/
theorem pairsUnder_of_not_isWithin (hv : (afterAll before).Accepts a v)
    (hout : ¬Host.IsWithin v.host (lowerString domain)) (after : List Arrival) :
    (afterAll (before ++ a :: after)).pairsUnder domain =
      (afterAll (before ++ after)).pairsUnder domain := by
  have hparse := (accepts_iff (recorded_afterAll before).spec.1).mp hv
  refine pairsUnder_congr fun w hunder => ?_
  have hother : Visit.parse a.url a.millis ≠ .ok w := by
    intro hw
    cases hparse.symm.trans hw
    exact hout (Visit.isUnder_iff_isWithin.mp hunder)
  rw [mem_visits_afterAll_iff, mem_visits_afterAll_iff]
  constructor
  · rintro ⟨b, hb, hw⟩
    have hne : b ≠ a := by
      rintro rfl
      exact hother hw
    exact ⟨b, by simpa [hne] using hb, hw⟩
  · rintro ⟨b, hb, hw⟩
    have hsublist : (before ++ after).Sublist (before ++ a :: after) :=
      (List.sublist_cons_self a after).append_left before
    exact ⟨b, hsublist.subset hb, hw⟩

theorem answer_visitedUnder_afterAll (arrivals : List Arrival) (domain : String) :
    ((visitedUnder domain).run (afterAll arrivals)).answer =
      .ok ((afterAll arrivals).pairsUnder domain) := by
  have hopen := (recorded_afterAll arrivals).spec.1
  rw [Action.run, (visitedUnder_run _ domain []).1, reply, if_neg (by simp [hopen])]

/-- After any reports, asking for a domain answers with each scheme and port once, ascending by
scheme and then by port: those of exactly the visits that were accepted and whose stored host is the
domain in lower case or ends in a point and the domain. Refused reports leave no trace, and a visit to
a host in which other letters run into the domain has no part in the answer. -/
theorem visitedUnder_exact (arrivals : List Arrival) (domain : String) :
    let asked := (visitedUnder domain).run (afterAll arrivals)
    ∃ pairs, asked.answer = .ok pairs ∧ asked.state = afterAll arrivals ∧
      pairs.Nodup ∧ pairs.Pairwise SchemePort.Before ∧
      (∀ sp, sp ∈ pairs ↔ ∃ before a after v, arrivals = before ++ a :: after ∧
        (afterAll before).Accepts a v ∧ Host.IsWithin v.host (lowerString domain) ∧
        sp = ⟨v.scheme, v.port⟩) ∧
      ∀ before a after, arrivals = before ++ a :: after →
        (∀ e, (a.report.run (afterAll before)).answer = .error e →
          afterAll (before ++ after) = afterAll arrivals) ∧
        ∀ v x, (afterAll before).Accepts a v → v.host = x ++ lowerString domain → x ≠ "" →
          x.toList.getLast? ≠ some '.' →
          ((visitedUnder domain).run (afterAll (before ++ after))).answer = asked.answer := by
  intro asked
  have hasked : asked.answer = .ok ((afterAll arrivals).pairsUnder domain) :=
    answer_visitedUnder_afterAll arrivals domain
  have hsorted := pairwise_before_pairsUnder (afterAll arrivals) domain
  refine ⟨_, hasked, (visitedUnder_run _ domain []).2, hsorted.nodup, hsorted, fun sp => ?_, ?_⟩
  · simp only [mem_pairsUnder, mem_visits_afterAll, Visit.isUnder_iff_isWithin]
    constructor
    · rintro ⟨v, ⟨before, a, after, hsplit, hv⟩, hwithin, hsp⟩
      exact ⟨before, a, after, v, hsplit, hv, hwithin, hsp⟩
    · rintro ⟨before, a, after, v, hsplit, hv, hwithin, hsp⟩
      exact ⟨v, ⟨before, a, after, hsplit, hv⟩, hwithin, hsp⟩
  · rintro before a after rfl
    refine ⟨fun e he => (afterAll_of_refused he after).symm, fun v x hv hhost hx hlast => ?_⟩
    have hout : ¬Host.IsWithin v.host (lowerString domain) := by
      rw [hhost]
      exact Host.not_isWithin_of_append hx hlast
    rw [hasked, answer_visitedUnder_afterAll, pairsUnder_of_not_isWithin hv hout]

end Arrivals

/-- Visits to a domain, below it, to a host that only ends in its letters, and a URL without a
host. -/
def someArrivals : List Arrival := [
  ⟨.atMillis 1000, "https://Example.COM/a", .unset⟩,
  ⟨.atMillis 1000, "http://www.example.com:8080/", .atMillis 900⟩,
  ⟨.atMillis 1000, "ftp://notexample.com/", .unset⟩,
  ⟨.atMillis 1000, "mailto:me@example.com", .unset⟩,
  ⟨.atMillis 1000, "https://a.b.example.com:443", .unset⟩]

/-- The two schemes of the domain are told once each; the look-alike and what has no host are not. -/
theorem visitedUnder_exact_lookalike :
    let asked := (visitedUnder "EXAMPLE.com").run (afterAll someArrivals)
    asked.answer = .ok [⟨"http", 8080⟩, ⟨"https", 0⟩] ∧
      ((visitedUnder "EXAMPLE.com").run (afterAll (someArrivals.eraseIdx 2))).answer =
        asked.answer ∧
      afterAll (someArrivals.eraseIdx 3) = afterAll someArrivals := by
  intro asked
  obtain ⟨-, -, -, -, -, -, hparts⟩ := visitedUnder_exact someArrivals "EXAMPLE.com"
  let v : Visit := ⟨"ftp://notexample.com/", "ftp", "notexample.com", 0, 1000⟩
  have hv : (afterAll (someArrivals.take 2)).Accepts ⟨.atMillis 1000, v.url, .unset⟩ v :=
    ⟨by decide +kernel, by decide +kernel⟩
  have hhost : v.host = "not" ++ lowerString "EXAMPLE.com" := by decide +kernel
  have hrefused : ((Arrival.report ⟨.atMillis 1000, "mailto:me@example.com", .unset⟩).run
      (afterAll (someArrivals.take 3))).answer =
      .error (.visit ⟨"mailto:me@example.com", .incomplete⟩) := by decide +kernel
  have hlike := (hparts (someArrivals.take 2) _ (someArrivals.drop 3) rfl).2 v "not" hv hhost
    (by decide) (by decide)
  have hleft := (hparts (someArrivals.take 3) _ (someArrivals.drop 4) rfl).1 _ hrefused
  have hpairs : (afterAll someArrivals).pairsUnder "EXAMPLE.com" =
      [⟨"http", 8080⟩, ⟨"https", 0⟩] := by
    have hfound : (((afterAll someArrivals).visits.filter
        (·.isUnder (lowerString "EXAMPLE.com"))).map
          fun v => (⟨v.scheme, v.port⟩ : SchemePort)).eraseDups =
        [⟨"https", 0⟩, ⟨"http", 8080⟩] := by decide +kernel
    have hsorted := pairwise_before_pairsUnder (afterAll someArrivals) "EXAMPLE.com"
    refine hsorted.eq_of_mem_iff (by decide +kernel) fun sp => ?_
    rw [pairsUnder, List.mem_mergeSort, hfound]
    simp [or_comm]
  refine ⟨?_, hlike, hleft⟩
  rw [← hpairs]
  exact answer_visitedUnder_afterAll someArrivals "EXAMPLE.com"

end History

end Consent

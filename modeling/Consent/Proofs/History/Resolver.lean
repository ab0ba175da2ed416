import Consent.History.Log
import Consent.History.Resolver
import Consent.Proofs.Action

/-! A resolver answers as the index would if it were asked every time. -/

namespace Consent

open Host Text Log

namespace Resolver

variable {ι : Type} {ask : AskIndex ι} {valid : ι → Prop}
  {reply : String → Except Failure (List SchemePort)} {r : Resolver ι}

/-- An index that gives the same reply to the same question every time, as long as its state is
valid. Where there is nothing to ask, the reply is that there are no visits. -/
structure Steady (ask : AskIndex ι) (valid : ι → Prop)
    (reply : String → Except Failure (List SchemePort)) : Prop where
  silent : ask = none → ∀ domain, reply domain = .ok []
  answer : ∀ visitedUnder, ask = some visitedUnder → ∀ i, valid i → ∀ domain fields,
    (visitedUnder domain fields i).answer = reply domain
  valid : ∀ visitedUnder, ask = some visitedUnder → ∀ i, valid i → ∀ domain fields,
    valid (visitedUnder domain fields i).state

/-- A resolver that kept nothing but replies of its index. -/
structure Faithful (valid : ι → Prop) (reply : String → Except Failure (List SchemePort))
    (r : Resolver ι) : Prop where
  index : valid r.index
  answers : ∀ domain pairs, r.answers.lookup domain = some pairs →
    (reply domain).map usable = .ok pairs

theorem faithful_new {i : ι} (h : valid i) : Faithful valid reply ⟨i, []⟩ :=
  ⟨h, fun _ _ hlookup => by cases hlookup⟩

section Resolve

variable [SuffixList] (visitedUnder : String → Action ι (List SchemePort)) {host : String}
  (fields : List Field)

theorem resolve_of_kept {pairs : List SchemePort}
    (h : r.answers.lookup (domainOf host) = some pairs) :
    (resolve (some visitedUnder) host).Gives fields r pairs r := by
  refine (Action.Gives.get fields r).bind ?_
  rw [h]
  exact .pure pairs fields r

/-- Without a kept answer the index is asked, and its answer is kept. -/
theorem resolve_of_not_kept (h : r.answers.lookup (domainOf host) = none) :
    let asked := visitedUnder (domainOf host) fields r.index
    let resolved := resolve (some visitedUnder) host fields r
    resolved.answer = asked.answer.map usable ∧
      resolved.state = ⟨asked.state, match asked.answer with
        | .ok visited => (domainOf host, usable visited) :: r.answers
        | .error _ => r.answers⟩ := by
  intro asked resolved
  have hresolved : resolved = resolve (some visitedUnder) host fields r := rfl
  have hasked : asked = visitedUnder (domainOf host) fields r.index := rfl
  unfold resolve at hresolved
  rw [hresolved]
  simp only [Action.answer_bind, Action.state_bind, Action.answer_get, Action.state_get, h,
    Action.answer_emit, Action.state_emit, Action.answer_on, Action.state_on, ← hasked]
  cases asked.answer with
  | error e => exact ⟨rfl, rfl⟩
  | ok visited => exact ⟨rfl, rfl⟩

omit visitedUnder fields in
/-- What was kept makes no difference to the answer. -/
theorem resolve_steady (hsteady : Steady ask valid reply)
    (hr : Faithful valid reply r) (host : String) (fields : List Field) :
    (resolve ask host fields r).answer = (reply (domainOf host)).map usable ∧
      Faithful valid reply (resolve ask host fields r).state := by
  cases hask : ask with
  | none =>
    rw [hsteady.silent hask]
    exact ⟨by simp [resolve, usable, Except.map], by simpa [resolve] using hr⟩
  | some visitedUnder =>
    cases hlookup : r.answers.lookup (domainOf host) with
    | some pairs =>
      have hkept := resolve_of_kept visitedUnder fields hlookup
      rw [hkept.answer, hkept.state]
      exact ⟨(hr.answers _ _ hlookup).symm, hr⟩
    | none =>
      have hanswer := hsteady.answer visitedUnder hask r.index hr.index (domainOf host) fields
      have hvalid := hsteady.valid visitedUnder hask r.index hr.index (domainOf host) fields
      obtain ⟨hresolved, hstate⟩ := resolve_of_not_kept visitedUnder fields hlookup
      rw [hresolved, hstate, hanswer]
      refine ⟨rfl, hvalid, fun domain pairs hpairs => ?_⟩
      cases hreply : reply (domainOf host) with
      | error e =>
        rw [hreply] at hpairs
        exact hr.answers domain pairs hpairs
      | ok visited =>
        rw [hreply] at hpairs
        simp only [List.lookup_cons] at hpairs
        split at hpairs
        · rename_i heq
          rw [beq_iff_eq.mp heq, hreply]
          exact congrArg Except.ok (Option.some.inj hpairs)
        · exact hr.answers domain pairs hpairs

end Resolve

theorem mem_usable {pairs : List SchemePort} {sp : SchemePort} :
    sp ∈ usable pairs ↔ sp ∈ pairs ∧ Origin.canCarry sp.scheme = true := by
  simp [usable, List.mem_eraseDups]

end Resolver

namespace History

theorem mem_pairsUnder {h : History} {domain : String} {sp : SchemePort} :
    sp ∈ h.pairsUnder domain ↔
      ∃ v ∈ h.visits, v.isUnder (lowerString domain) = true ∧ sp = ⟨v.scheme, v.port⟩ := by
  simp only [pairsUnder, List.mem_mergeSort, List.mem_eraseDups, List.mem_map, List.mem_filter,
    and_assoc, eq_comm]

/-- What a history replies to a question about a domain. -/
def reply (history : Option History) (domain : String) : Except Failure (List SchemePort) :=
  match history with
  | none => .ok []
  | some h => if h.closed then .error .storage else .ok (h.pairsUnder domain)

theorem visitedUnder_run (h : History) (domain : String) (fields : List Field) :
    (visitedUnder domain fields h).answer = reply (some h) domain ∧
      (visitedUnder domain fields h).state = h := by
  simp only [visitedUnder, usable, reply, Action.answer_bind, Action.state_bind,
    Action.answer_get, Action.state_get]
  cases h.closed <;> exact ⟨rfl, rfl⟩

end History

end Consent

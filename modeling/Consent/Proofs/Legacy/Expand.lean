import Consent.Legacy.Expand
import Consent.Proofs.History.Resolver

/-! What a row by host expands to, whatever was expanded before it. -/

namespace Consent.Legacy

open Host Text Log

variable [SuffixList] {ι : Type} {ask : AskIndex ι} {valid : ι → Prop}
  {reply : String → Except Failure (List SchemePort)} {r : Resolver ι}

/-- The pairs that an index replies with for a host; a failure counts as none. -/
def pairsOf (reply : String → Except Failure (List SchemePort)) (host : String) :
    List SchemePort :=
  match reply (Resolver.domainOf host) with
  | .ok pairs => Resolver.usable pairs
  | .error _ => []

/-- The schemes and ports that a row is carried over to. -/
def Row.targets (reply : String → Except Failure (List SchemePort)) (row : Row) :
    List SchemePort :=
  if (pairsOf reply row.hostName).isEmpty then dualSchemes else pairsOf reply row.hostName

/-- The records of a row. -/
def Row.expansion (reply : String → Except Failure (List SchemePort)) (now : Instant) (row : Row) :
    Except Failure (List Record) :=
  match row.check with
  | .error e => .error (.row e)
  | .ok () =>
    .ok (if row.isExpired now then []
      else if isVerbatim row.host.toList then [row.recordAt row.host]
      else (row.targets reply).map fun sp => row.recordAt (row.keyAt sp))

section Cases

variable (ask) {now : Instant} {row : Row} (fields : List Field) (resolver : Resolver ι)

theorem expand_of_malformed {e : RowError} (h : row.check = .error e) :
    expand ask now (some row) fields resolver = ⟨.error (.row e), resolver, []⟩ := by
  unfold expand
  simp only [h]
  rfl

theorem expand_of_expired (hcheck : row.check = .ok ()) (h : row.isExpired now = true) :
    expand ask now (some row) fields resolver = ⟨.ok [], resolver, []⟩ := by
  unfold expand
  simp only [hcheck, h, if_true]
  rfl

theorem expand_of_verbatim (hcheck : row.check = .ok ()) (hlive : row.isExpired now = false)
    (h : isVerbatim row.host.toList = true) :
    expand ask now (some row) fields resolver = ⟨.ok [row.recordAt row.host], resolver, []⟩ := by
  unfold expand
  simp only [hcheck, hlive, h, Bool.false_eq_true, if_false, if_true]
  rfl

/-- The pairs that the resolver answers with; a failure counts as none. -/
theorem visitedPairs_gives (host : String) :
    let resolved := Resolver.resolve ask host fields resolver
    (visitedPairs ask host).Gives fields resolver (resolved.answer.toOption.getD [])
      resolved.state := by
  intro resolved
  cases hanswer : resolved.answer with
  | ok pairs =>
    have hresolve : (Resolver.resolve ask host).Gives fields resolver pairs resolved.state :=
      ⟨hanswer, rfl⟩
    exact hresolve.attempt.bind (.pure pairs fields _)
  | error e =>
    exact (Action.Gives.attempt_of_error hanswer).bind (Action.Gives.pure [] fields _).logged

/-- A row with a host name is carried over to the pairs that the resolver answers with, or to both
schemes if it has none. -/
theorem expand_of_name (hcheck : row.check = .ok ()) (hlive : row.isExpired now = false)
    (h : isVerbatim row.host.toList = false) :
    let resolved := Resolver.resolve ask row.hostName fields resolver
    let visited := resolved.answer.toOption.getD []
    (expand ask now (some row)).Gives fields resolver
      ((if visited.isEmpty then dualSchemes else visited).map fun sp =>
        row.recordAt (row.keyAt sp))
      resolved.state := by
  intro resolved visited
  have hchecked : (Action.ofExcept (row.check.mapError .row)).Gives fields resolver ()
      resolver := by
    rw [hcheck]
    exact .pure () fields resolver
  refine hchecked.bind ?_
  simp only [hlive, h, Bool.false_eq_true, if_false]
  exact (visitedPairs_gives ask fields resolver row.hostName).bind (.pure _ fields _)

end Cases

/-- Expanding a row gives its records and leaves a resolver as good as before. -/
theorem expand_steady (hsteady : Resolver.Steady ask valid reply)
    (hr : Resolver.Faithful valid reply r) (now : Instant) (row : Row) (fields : List Field) :
    (expand ask now (some row) fields r).answer = row.expansion reply now ∧
      Resolver.Faithful valid reply (expand ask now (some row) fields r).state := by
  unfold Row.expansion
  cases hcheck : row.check with
  | error e =>
    rw [expand_of_malformed ask fields r hcheck]
    exact ⟨rfl, hr⟩
  | ok =>
    cases hexpired : row.isExpired now with
    | true =>
      rw [expand_of_expired ask fields r hcheck hexpired]
      exact ⟨rfl, hr⟩
    | false =>
      cases hname : isVerbatim row.host.toList with
      | true =>
        rw [expand_of_verbatim ask fields r hcheck hexpired hname]
        exact ⟨rfl, hr⟩
      | false =>
        obtain ⟨hanswer, hstate⟩ := Resolver.resolve_steady hsteady hr row.hostName fields
        have hexpand := expand_of_name ask fields r hcheck hexpired hname
        have hpairs : (Resolver.resolve ask row.hostName fields r).answer.toOption.getD [] =
            pairsOf reply row.hostName := by
          rw [hanswer, pairsOf]
          cases reply (Resolver.domainOf row.hostName) <;> rfl
        rw [hexpand.answer, hexpand.state, hpairs]
        exact ⟨rfl, hstate⟩

/-- The records that rows expand to, one row after another with one resolver. A row that cannot be
expanded has none. -/
def expandAll (ask : AskIndex ι) (now : Instant) (fields : List Field) :
    Resolver ι → List Row → List Record
  | _, [] => []
  | r, row :: rest =>
    let o := expand ask now (some row) fields r
    o.answer.toOption.getD [] ++ expandAll ask now fields o.state rest

/-- The records that a row is carried over to; a row that cannot be carried over has none. -/
def Row.carried (reply : String → Except Failure (List SchemePort)) (now : Instant) (row : Row) :
    List Record :=
  match row.expansion reply now with
  | .ok records => records
  | .error _ => []

/-- With an index that replies the same every time, each row expands on its own. -/
theorem expandAll_steady (hsteady : Resolver.Steady ask valid reply)
    (hr : Resolver.Faithful valid reply r) (now : Instant) (fields : List Field)
    (rows : List Row) :
    expandAll ask now fields r rows = rows.flatMap (Row.carried reply now) := by
  induction rows generalizing r with
  | nil => rfl
  | cons row rest ih =>
    obtain ⟨hanswer, hfaithful⟩ := expand_steady hsteady hr now row fields
    rw [expandAll, List.flatMap_cons, ih hfaithful, hanswer, Row.carried]
    cases row.expansion reply now <;> rfl

end Consent.Legacy

import Consent.Proofs.Decision.Isolation
import Consent.Proofs.Decision.Standing
import Consent.Proofs.Store.Ledger

/-! Which lookups a change is seen by: those that reach its origin before any other standing
decision, and no others. -/

namespace Consent.Decision

open Host Store

/-- What the change decides at the time `now`, and for how long. A change that deletes decides
nothing, and neither does one up to a time that is over once it is cut to the millisecond. -/
def Change.decided? (now : Instant) : Change → Option (State × Scope)
  | .set state scope => if state = .unknown then none else some (state, scope)
  | .setUntil state expireAt =>
    if state ≠ .unknown ∧ now < expireAt.cut then some (state, .persistent) else none
  | .remove => none

/-- A repository holds a decision for a candidate that has not lapsed. -/
def Stands {σ : Type} (now : Instant) (repo : Repository σ) (kind : Kind) (s : σ) (c : Origin) :
    Prop :=
  ∃ r, ((repo.get c.key kind).run s).answer = .ok (some r) ∧ r.isExpired now = false

section Candidates

variable [SuffixList]

theorem nodup_candidates (kinds : Registry) (o : Origin) (kind : Kind) :
    (candidates kinds o kind).Nodup := by
  rw [candidates_eq]
  split
  · exact List.nodup_singleton o
  · have hhosts := pairwise_ancestors o.host.toList
    have hcandidates :
        o :: (ancestors o.host.toList).map (fun host => { o with host := .ofList host }) =
        (o.host.toList :: ancestors o.host.toList).map
          fun host => ({ o with host := .ofList host } : Origin) := by simp
    rw [hcandidates]
    refine hhosts.map _ fun a b hlt heq => ?_
    have hhost : a = b := String.ofList_injective (congrArg Origin.host heq)
    rw [hhost] at hlt
    exact Nat.lt_irrefl _ hlt

end Candidates

section Table

variable {p : Policy} {now : Instant} {kind : Kind} {o : Origin} {change : Change}

theorem conclusion_eq_nearest (t : Table) (cs : List Origin) :
    conclusion now kind (cs.map fun c => (c, .ok (t.decision? c.key kind))) =
      .ok (nearest t now kind cs) := by
  induction cs with
  | nil => rfl
  | cons c rest ih =>
    rw [List.map_cons, conclusion_cons, ih]
    cases hdecision : t.decision? c.key kind with
    | none => simp [isDecisive, nearest, Table.standing?, hdecision]
    | some r =>
      cases hlapsed : r.isExpired now with
      | true => simp [isDecisive, nearest, Table.standing?, hdecision, hlapsed]
      | false =>
        have hstanding : t.standing? now c.key kind = some r := by
          simp [Table.standing?, hdecision, hlapsed]
        rw [nearest_cons_of_some hstanding]
        simp [isDecisive, conclusion, hlapsed, Verdict.ofRecord]

theorem isExpired_readBack_eq (now later : Instant) (r : Record) :
    (readBack now r).isExpired later = decide (r.expiry = .timed ∧ ¬later < r.expireAt.cut) := by
  have hread : (readBack now r).expireAt = r.expireAt.cut := ofMillis_toMillis r.expireAt
  have hexpiry : (readBack now r).expiry = r.expiry := rfl
  unfold Record.isExpired
  rw [hread, hexpiry, Bool.eq_iff_iff]
  simp

/-- What was stored stands, if it is timed up to its last whole millisecond. -/
theorem standing?_upsert (t : Table) (now later : Instant) (r : Record) :
    (t.upsert now r).standing? later r.origin r.kind =
      if r.expiry = .timed ∧ ¬later < r.expireAt.cut then none else some (readBack now r) := by
  unfold Table.standing?
  rw [Table.decision?_upsert, if_pos ⟨rfl, rfl⟩]
  by_cases hlapsed : r.expiry = .timed ∧ ¬later < r.expireAt.cut
  · simp [Option.filter, isExpired_readBack_eq, hlapsed]
  · simp only [Option.filter, isExpired_readBack_eq, hlapsed, if_false, decide_false, Bool.not_false,
      if_true]

theorem standing?_erase_self (t : Table) (later : Instant) (origin : String) (kind : Kind) :
    (t.erase origin kind).standing? later origin kind = none := by
  unfold Table.standing?
  rw [Table.decision?_erase_self]
  rfl

/-- After a change, what stands at its own origin is what it decides. -/
theorem Change.standing?_apply (change : Change) (t : Table) :
    ((change.apply p now o kind t).standing? p.now o.key kind).map Verdict.ofRecord =
      (change.decided? p.now).map fun d => ⟨kind, d.1, d.2⟩ := by
  have hstored : ∀ r : Record, r.origin = o.key → r.kind = kind →
      (t.upsert now r).standing? p.now o.key kind =
        if r.expiry = .timed ∧ ¬p.now < r.expireAt.cut then none else some (readBack now r) := by
    rintro r horigin rfl
    rw [← horigin]
    exact standing?_upsert t now p.now r
  unfold Change.apply
  cases change with
  | set state scope =>
    by_cases hunknown : state = .unknown
    · simp [Change.record?, Change.decided?, hunknown, standing?_erase_self]
    · have hlasting : Expiry.ofScope scope ≠ .timed := by cases scope <;> decide
      have hscope : (Verdict.ofRecord (readBack now
          ⟨o.key, kind, state, .ofScope scope, .unset, p.now⟩)).scope = scope := by
        cases scope <;> rfl
      simp only [Change.record?, Change.decided?, hunknown, if_false]
      rw [hstored _ rfl rfl, if_neg fun h => hlasting h.1]
      exact congrArg (fun scope => some (Verdict.mk kind state scope)) hscope
  | setUntil state expireAt =>
    by_cases hunknown : state = .unknown
    · simp [Change.record?, Change.decided?, hunknown, standing?_erase_self]
    · simp only [Change.record?, Change.decided?, hunknown, if_false]
      rw [hstored _ rfl rfl]
      by_cases hlt : p.now < expireAt.cut
      · rw [if_neg fun h => h.2 hlt, if_pos ⟨hunknown, hlt⟩]
        rfl
      · rw [if_pos ⟨rfl, hlt⟩, if_neg fun h => hlt h.2]
        rfl
  | remove => simp [Change.record?, Change.decided?, standing?_erase_self]

theorem Change.standing?_apply_of_ne {origin : String} {kind' : Kind} {time : Instant}
    (change : Change) (t : Table) (h : ¬(o.key = origin ∧ kind = kind')) :
    (change.apply p now o kind t).standing? time origin kind' = t.standing? time origin kind' := by
  unfold Table.standing?
  rw [change.decision?_apply_of_ne t h]

/-- A change at one of the candidates, if no nearer one has a standing decision, gives way to what
it decides or opens the view on what stands behind. -/
theorem Change.nearest_apply {t : Table} {nearer farther : List Origin} (change : Change)
    (hnearer : ∀ c ∈ nearer, o.key ≠ c.key) (hfarther : ∀ c ∈ farther, o.key ≠ c.key)
    (hnone : ∀ c ∈ nearer, t.standing? p.now c.key kind = none) :
    nearest (change.apply p now o kind t) p.now kind (nearer ++ o :: farther) =
      match change.decided? p.now with
      | some (state, scope) => ⟨kind, state, scope⟩
      | none => nearest t p.now kind farther := by
  have hsame : ∀ {c : Origin}, o.key ≠ c.key →
      (change.apply p now o kind t).standing? p.now c.key kind = t.standing? p.now c.key kind :=
    fun hne => change.standing?_apply_of_ne t fun h => hne h.1
  have hpassed : ∀ c ∈ nearer, (change.apply p now o kind t).standing? p.now c.key kind = none := by
    intro c hc
    rw [hsame (hnearer c hc), hnone c hc]
  have hstanding : ((change.apply p now o kind t).standing? p.now o.key kind).map Verdict.ofRecord =
      (change.decided? p.now).map fun d => ⟨kind, d.1, d.2⟩ := change.standing?_apply t
  rw [nearest_append_of_none _ hpassed]
  cases hdecided : change.decided? p.now with
  | some d =>
    rw [hdecided] at hstanding
    obtain ⟨r, hr, hverdict⟩ := Option.map_eq_some_iff.mp hstanding
    rw [nearest_cons_of_some hr, hverdict]
  | none =>
    rw [hdecided] at hstanding
    rw [nearest_cons_of_none (Option.map_eq_none_iff.mp hstanding)]
    exact nearest_congr fun c hc => hsame (hfarther c hc)

/-- Behind a nearer standing decision no change is seen. -/
theorem Change.nearest_apply_of_standing {t : Table} {nearer : List Origin} (change : Change)
    (farther : List Origin) (hnearer : ∀ c ∈ nearer, o.key ≠ c.key)
    (h : ∃ c ∈ nearer, (t.standing? p.now c.key kind).isSome) :
    nearest (change.apply p now o kind t) p.now kind (nearer ++ farther) =
      nearest t p.now kind (nearer ++ farther) := by
  have hsame : ∀ c ∈ nearer, (change.apply p now o kind t).standing? p.now c.key kind =
      t.standing? p.now c.key kind := by
    intro c hc
    exact change.standing?_apply_of_ne t fun h => hnearer c hc h.1
  obtain ⟨c, hc, hsome⟩ := h
  have hsome' := hsome
  rw [← hsame c hc] at hsome'
  rw [nearest_append_of_some _ ⟨c, hc, hsome⟩, nearest_append_of_some _ ⟨c, hc, hsome'⟩,
    nearest_congr hsame]

end Table

section Influence

variable [SuffixList] {p : Policy} {now : Instant} {kind kind' : Kind} {raw raw' : String}
  {s s₁ s' : Store} {t : Table} {o o' : Origin} {change : Change}

theorem stands_iff (hacquire : (acquire now).Gives [] s () s₁) (hready : s₁.Ready t) (c : Origin) :
    Stands p.now (repository now) kind s c ↔ (t.standing? p.now c.key kind).isSome := by
  have hget : ((repository now).get c.key kind).Gives [] s (t.decision? c.key kind) s₁ :=
    gives_get hacquire hready
  unfold Stands Action.run
  rw [hget.answer]
  cases hdecision : t.decision? c.key kind with
  | none => simp [Table.standing?, hdecision]
  | some r => simp [Table.standing?, hdecision, Option.isSome_filter]

/-- No other candidate has the key of an origin. -/
theorem key_ne_of_mem_candidates (hparse : Origin.parse raw = .ok o)
    (hparse' : Origin.parse raw' = .ok o') {c : Origin} (hc : c ∈ candidates p.kinds o kind)
    (hne : c ≠ o') : o'.key ≠ c.key := by
  intro hkey
  have hstorable := storable_of_mem_candidates (Origin.parse_storable hparse) hc
  exact hne (Origin.key_injective (Origin.parse_storable hparse') hstorable hkey).symm

theorem key_ne_of_candidates_split (hparse : Origin.parse raw = .ok o)
    (hparse' : Origin.parse raw' = .ok o') {nearer farther : List Origin}
    (hsplit : candidates p.kinds o kind = nearer ++ o' :: farther) :
    (∀ c ∈ nearer, o'.key ≠ c.key) ∧ ∀ c ∈ farther, o'.key ≠ c.key := by
  have hnodup := nodup_candidates p.kinds o kind
  rw [hsplit] at hnodup
  obtain ⟨-, htail, hdisjoint⟩ := List.nodup_append.mp hnodup
  constructor
  · intro c hc
    have hmem : c ∈ candidates p.kinds o kind := hsplit ▸ List.mem_append_left _ hc
    exact key_ne_of_mem_candidates hparse hparse' hmem (hdisjoint c hc o' List.mem_cons_self)
  · intro c hc
    have hmem : c ∈ candidates p.kinds o kind :=
      hsplit ▸ List.mem_append_right _ (List.mem_cons_of_mem o' hc)
    refine key_ne_of_mem_candidates hparse hparse' hmem fun heq => ?_
    exact (List.nodup_cons.mp htail).1 (heq ▸ hc)

/-- A lookup before and after a change is a search in the table and in the changed table. -/
theorem exists_table_of_change (kind : Kind) (hparse : Origin.parse raw = .ok o)
    (hparse' : Origin.parse raw' = .ok o')
    (hmake : (change.make p (repository now) raw' kind').Gives [] s () s') :
    ∃ s₁ t, (acquire now).Gives [] s () s₁ ∧ s₁.Ready t ∧
      ((get p (repository now) raw kind).run s).answer =
        .ok (nearest t p.now kind (candidates p.kinds o kind)) ∧
      ((get p (repository now) raw kind).run s').answer =
        .ok (nearest (change.apply p now o' kind' t) p.now kind (candidates p.kinds o kind)) := by
  obtain ⟨s₁, t, hacquire, hready, hs'⟩ := change.table_of_make hparse' hmake
  have hready' := hready.withTable (change.apply p now o' kind' t)
  have hacquire' : (acquire now).Gives [] _ () _ :=
    gives_acquire_of_opened hready'.opened hready'.notClosed
  refine ⟨s₁, t, hacquire, hready, (gives_get_nearest hparse hacquire hready).answer, ?_⟩
  rw [hs']
  exact (gives_get_nearest hparse hacquire' hready').answer

/-- A lookup is changed only at the kind of the change and if it asks for the origin of the change.
It goes on answering the same as long as a nearer candidate has a standing decision. If none has, it
answers what was decided; where the change decided nothing, it answers with the nearest standing
decision behind the origin, and without one nothing is known. -/
theorem get_after_change (kind : Kind) (hparse : Origin.parse raw = .ok o)
    (hparse' : Origin.parse raw' = .ok o')
    (hchange : ((change.make p (repository now) raw' kind').run s).answer = .ok ()) :
    let cs := o :: if p.kinds.exactHost kind then []
      else (ancestors o.host.toList).map fun host => { o with host := .ofList host }
    let before := ((get p (repository now) raw kind).run s).answer
    let after := ((get p (repository now) raw kind).run
      ((change.make p (repository now) raw' kind').run s).state).answer
    (∃ v v', before = .ok v ∧ after = .ok v') ∧
      (¬(kind = kind' ∧ o' ∈ cs) → after = before) ∧
      ∀ nearer farther, kind = kind' → cs = nearer ++ o' :: farther →
        ((∃ c ∈ nearer, Stands p.now (repository now) kind s c) → after = before) ∧
        ((∀ c ∈ nearer, ¬Stands p.now (repository now) kind s c) →
          after = match change.decided? p.now with
            | some (state, scope) => .ok ⟨kind, state, scope⟩
            | none => conclusion p.now kind (replies (repository now) kind s farther)) := by
  intro cs before after
  have hmake : (change.make p (repository now) raw' kind').Gives [] s () _ := ⟨hchange, rfl⟩
  have hcs : candidates p.kinds o kind = cs := candidates_eq p.kinds o kind
  obtain ⟨s₁, t, hacquire, hready, hbefore, hafter⟩ :=
    exists_table_of_change kind hparse hparse' hmake
  change before = _ at hbefore
  change after = _ at hafter
  refine ⟨⟨_, _, hbefore, hafter⟩, fun hout => ?_, ?_⟩
  · rw [hbefore, hafter]
    refine congrArg Except.ok (nearest_congr fun c hc => change.standing?_apply_of_ne t ?_)
    rintro ⟨hkey, hkind⟩
    have hc' : c = o' := by_contra fun hne => key_ne_of_mem_candidates hparse hparse' hc hne hkey
    exact hout ⟨hkind.symm, hcs ▸ hc' ▸ hc⟩
  · intro nearer farther hkind hsplit
    subst hkind
    rw [← hcs] at hsplit
    obtain ⟨hnearer, hfarther⟩ := key_ne_of_candidates_split hparse hparse' hsplit
    rw [hbefore, hafter, hsplit]
    constructor
    · rintro ⟨c, hc, hstands⟩
      have hsome := (stands_iff hacquire hready c).mp hstands
      rw [change.nearest_apply_of_standing _ hnearer ⟨c, hc, hsome⟩]
    · intro hnone
      have hpassed : ∀ c ∈ nearer, t.standing? p.now c.key kind = none := by
        intro c hc
        have hnot := mt (stands_iff hacquire hready c).mpr (hnone c hc)
        simpa using hnot
      rw [change.nearest_apply hnearer hfarther hpassed]
      cases change.decided? p.now with
      | some d => rfl
      | none =>
        dsimp only
        rw [replies_repository hacquire hready, conclusion_eq_nearest]

end Influence

/-- A store in which a site is blocked at its registrable domain. -/
def blockedStore : Store :=
  let now : Instant := .atMillis 1700000000000
  let made := set { now } (repository now) "https://example.com" "popup" .block .persistent
  (made.run newStore).state

/-- A timed decision between a host and its registrable domain is seen from the host until it is
removed; then the decision of the domain is seen again. -/
theorem get_after_change_between :
    let p : Policy := { now := .atMillis 1700000000000 }
    let timed := (Change.setUntil .allow (.atMillis 1700000000001)).make p (repository p.now)
      "https://a.example.com" "popup"
    let s₁ := (timed.run blockedStore).state
    let s₂ :=
      ((Change.remove.make p (repository p.now) "https://a.example.com" "popup").run s₁).state
    ((get p (repository p.now) "https://b.a.example.com" "popup").run s₁).answer =
        .ok ⟨"popup", .allow, .persistent⟩ ∧
      ((get p (repository p.now) "https://b.a.example.com" "popup").run s₂).answer =
        .ok ⟨"popup", .block, .persistent⟩ := by
  intro p timed s₁ s₂
  let o : Origin := ⟨"https", "b.a.example.com", 0, {}⟩
  let o' : Origin := ⟨"https", "a.example.com", 0, {}⟩
  have hparse : Origin.parse "https://b.a.example.com" = .ok o := by decide +kernel
  have hparse' : Origin.parse "https://a.example.com" = .ok o' := by decide +kernel
  let far : Origin := ⟨"https", "example.com", 0, {}⟩
  have hnone : ∀ s : Store, (((repository p.now).get o.key "popup").run s).answer = .ok none →
      ∀ c ∈ [o], ¬Stands p.now (repository p.now) "popup" s c := by
    intro s hanswer c hc
    rw [List.mem_singleton.mp hc]
    rintro ⟨r, hr, -⟩
    rw [hanswer] at hr
    cases hr
  have hset : (timed.run blockedStore).answer = .ok () := by decide +kernel
  have hremove : ((Change.remove.make p (repository p.now) "https://a.example.com" "popup").run
      s₁).answer = .ok () := by decide +kernel
  obtain ⟨-, -, hseen⟩ := get_after_change "popup" hparse hparse' hset
  obtain ⟨-, -, hopened⟩ := get_after_change "popup" hparse hparse' hremove
  have hsplit : o :: (ancestors o.host.toList).map (fun host => { o with host := .ofList host }) =
      [o] ++ o' :: [far] := by decide +kernel
  refine ⟨(hseen [o] [far] rfl hsplit).2 (hnone _ (by decide +kernel)), ?_⟩
  rw [(hopened [o] [far] rfl hsplit).2 (hnone _ (by decide +kernel))]
  decide +kernel

/-- Half a millisecond is not kept: a decision up to a later time in the millisecond of the call is
stored and seen by nobody. -/
theorem get_ne_of_same_millisecond :
    let p : Policy := { now := ⟨1700000000000200000⟩ }
    let made := ((Change.setUntil .allow ⟨1700000000000700000⟩).make p (repository p.now)
      "https://example.com" "popup").run newStore
    made.answer = .ok () ∧
      ((get p (repository p.now) "https://example.com" "popup").run made.state).answer =
        .ok ⟨"popup", .unknown, .persistent⟩ := by
  decide +kernel

end Consent.Decision

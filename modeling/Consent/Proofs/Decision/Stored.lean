import Consent.Proofs.Decision.Lookup
import Consent.Proofs.Origin.Key
import Consent.Proofs.Store.Handle

/-! Lookups and changes of decisions over a store, in terms of the table it holds. -/

namespace Consent.Decision

open Host Store

variable [SuffixList] {s s' s₁ : Store} {t : Table} {p : Policy} {now : Instant} {kind : Kind}
  {fields : List Log.Field}

theorem gives_get {origin : String} (hacquire : (acquire now).Gives fields s () s₁)
    (hready : s₁.Ready t) :
    ((repository now).get origin kind).Gives fields s (t.decision? origin kind) s₁ := by
  have hserve := gives_serve (f := fun t => ((t.find? origin kind).map Row.record, t))
    hacquire hready
    (.emit .debug "getting permission" [Log.text "origin" origin, Log.text "type" kind] fields s₁)
  rwa [hready.withTable_self] at hserve

/-- Every candidate is looked up in the table that opening the store gives. -/
theorem replies_repository (hacquire : (acquire now).Gives [] s () s₁) (hready : s₁.Ready t)
    (cs : List Origin) :
    replies (repository now) kind s cs = cs.map fun o => (o, .ok (t.decision? o.key kind)) := by
  induction cs generalizing s with
  | nil => rfl
  | cons o rest ih =>
    have hget : ((repository now).get o.key kind).Gives [] s _ s₁ := gives_get hacquire hready
    have hrest := ih (gives_acquire_of_opened hready.opened hready.notClosed)
    simp only [replies, Action.run, hget.answer, hget.state, hrest, List.map_cons]

/-- A lookup over a store is decided by the table that opening it gives. -/
theorem get_answer {raw : String} {o : Origin} (hparse : Origin.parse raw = .ok o)
    (hacquire : (acquire now).Gives [] s () s₁) (hready : s₁.Ready t) :
    ((get p (repository now) raw kind).run s).answer = conclusion p.now kind
      ((candidates p.kinds o kind).map fun c => (c, .ok (t.decision? c.key kind))) := by
  unfold get
  rw [hparse]
  dsimp only
  rw [lookUp_answer, replies_repository hacquire hready]

/-- A lookup at an origin answers with the decision stored there, while it has not lapsed. -/
theorem gives_get_of_decision? {raw : String} {o : Origin} {record : Record} (hready : s.Ready t)
    (hparse : Origin.parse raw = .ok o) (hrecord : t.decision? o.key kind = some record)
    (hlive : record.isExpired p.now = false) :
    (get p (repository now) raw kind).Gives fields s (.ofRecord record) s := by
  have hacquire : (acquire now).Gives fields s () s :=
    gives_acquire_of_opened hready.opened hready.notClosed
  unfold get
  rw [hparse]
  dsimp only
  rw [candidates_eq, lookUp]
  refine ((gives_get hacquire hready).during _).bind ?_
  rw [hrecord]
  simp only [hlive, Bool.false_eq_true, if_false]
  exact .pure _ fields s

/-- Looking candidates up opens the store and does nothing else to it. -/
theorem state_lookUp (cs : List Origin) :
    (lookUp p (repository now) kind cs fields s).state = s ∨
      (lookUp p (repository now) kind cs fields s).state = (acquire now fields s).state := by
  induction cs generalizing s with
  | nil => exact Or.inl rfl
  | cons o rest ih =>
    right
    let s₁ := (acquire now fields s).state
    have hget : ((repository now).get o.key kind fields s).state = s₁ :=
      state_serve_of_read (fun _ => .emit _ _ _ fields _) fun _ => rfl
    unfold lookUp
    rw [Action.state_bind, Action.answer_during, Action.state_during, hget]
    cases hreply : ((repository now).get o.key kind fields s).answer with
    | error e => rfl
    | ok found =>
      -- The store that answered is open, so that the rest of the lookup leaves it alone.
      obtain ⟨_, _, hacquire, hready, -, -⟩ := table_of_serve (.emit _ _ _ fields)
        (⟨hreply, rfl⟩ : ((repository now).get o.key kind).Gives fields s found _)
      have hrest : (lookUp p (repository now) kind rest fields s₁).state = s₁ := by
        have hs₁ : (acquire now fields s₁).state = s₁ := by
          rw [show s₁ = _ from hacquire.state]
          exact state_acquire_of_opened hready.opened
        rcases ih (s := s₁) with h | h
        · exact h
        · exact h.trans hs₁
      simp only [Except.mapError_ok]
      split
      · split
        · exact hrest
        · rfl
      · exact hrest

theorem atMostOpened_get (raw : String) :
    AtMostOpened fields now s (get p (repository now) raw kind fields s).state := by
  unfold get
  cases Origin.parse raw with
  | error e => cases e <;> exact Or.inl rfl
  | ok o =>
    dsimp only
    rcases state_lookUp (candidates p.kinds o kind) with h | h
    · exact Or.inl h
    · rw [h]
      exact atMostOpened_acquire

/-- A change of the decision for one origin and one kind. -/
inductive Change where
  | set (state : State) (scope : Scope)
  | setUntil (state : State) (expireAt : Instant)
  | remove
  deriving DecidableEq, Repr

/-- Makes the change. -/
def Change.make {σ : Type} (p : Policy) (repo : Repository σ) (raw : String) (kind : Kind) :
    Change → Action σ Unit
  | .set state scope => Decision.set p repo raw kind state scope
  | .setUntil state expireAt => Decision.setUntil p repo raw kind state expireAt
  | .remove => Decision.remove repo raw kind

/-- `s'` is what opening `s` gives, but for the decision of one origin and one kind. -/
def ChangedAt (now : Instant) (origin : String) (kind : Kind) (s s' : Store) : Prop :=
  ∃ s₁ t t', (acquire now).Gives [] s () s₁ ∧ s₁.Ready t ∧ s' = s₁.withTable t' ∧
    ∀ origin' kind', ¬(origin = origin' ∧ kind = kind') →
      t'.decision? origin' kind' = t.decision? origin' kind'

/-- Storing succeeds only with an origin, by one write to the repository. -/
theorem write_of_store {raw : String} {state : State} {expiry : Expiry} {expireAt : Instant}
    (h : (store p (repository now) raw kind state expiry expireAt).Gives fields s () s') :
    ∃ o, Origin.parse raw = .ok o ∧
      if state = .unknown then ((repository now).delete o.key kind).Gives fields s () s'
      else ((repository now).set ⟨o.key, kind, state, expiry, expireAt, p.now⟩).Gives fields s ()
        s' := by
  unfold store readOrigin at h
  split at h
  · obtain ⟨_, _, -, hfail⟩ := Action.gives_of_bind h
    cases hfail.answer
  · obtain ⟨o, s₀, hread, h⟩ := Action.gives_of_bind h
    have horigin := hread.answer
    have hstate := hread.state
    rw [Action.answer_ofExcept] at horigin
    rw [Action.state_ofExcept] at hstate
    subst hstate
    cases hparse : Origin.parse raw with
    | error e =>
      rw [hparse] at horigin
      cases horigin
    | ok o' =>
      rw [hparse] at horigin
      cases horigin
      refine ⟨o, rfl, ?_⟩
      split at h
      · rename_i hunknown
        rwa [if_pos hunknown]
      · rename_i hunknown
        rw [if_neg hunknown]
        obtain ⟨reply, s₁, hset, h⟩ := Action.gives_of_bind h
        split at h
        · obtain ⟨_, _, -, hfail⟩ := Action.gives_of_bind h
          cases hfail.answer
        · cases h.state
          exact ⟨Except.ok.inj hset.answer, hset.state⟩

/-- A decision that was stored is found again at any time, as long as the store is not reopened. -/
theorem gives_get_of_set {raw : String} {state : State} {scope : Scope} (hstate : state ≠ .unknown)
    (h : (set p (repository now) raw kind state scope).Gives fields s () s') (later : Policy)
    (now' : Instant) (fields' : List Log.Field) :
    (get later (repository now') raw kind).Gives fields' s' ⟨kind, state, scope⟩ s' := by
  obtain ⟨o, hparse, hwrite⟩ := write_of_store h
  rw [if_neg hstate] at hwrite
  obtain ⟨s₁, t, -, hready, -, hs'⟩ := table_of_serve (.emit _ _ _ fields) hwrite
  let r : Record := ⟨o.key, kind, state, .ofScope scope, .unset, p.now⟩
  have hready' : s'.Ready (t.upsert now r) := hs' ▸ hready.withTable _
  have hrecord : (t.upsert now r).decision? o.key kind = some (readBack now r) := by
    rw [Table.decision?_upsert, if_pos ⟨rfl, rfl⟩]
  have hlive : (readBack now r).isExpired later.now = false := by cases scope <;> rfl
  have hverdict : Verdict.ofRecord (readBack now r) = ⟨kind, state, scope⟩ := by
    cases scope <;> rfl
  rw [← hverdict]
  exact gives_get_of_decision? hready' hparse hrecord hlive

/-- The record that the change stores at an origin. A change that stores none deletes. -/
def Change.record? (p : Policy) (o : Origin) (kind : Kind) : Change → Option Record
  | .set state scope =>
    if state = .unknown then none
    else some ⟨o.key, kind, state, .ofScope scope, .unset, p.now⟩
  | .setUntil state expireAt =>
    if state = .unknown then none else some ⟨o.key, kind, state, .timed, expireAt, p.now⟩
  | .remove => none

/-- What a change makes of a table. -/
def Change.apply (p : Policy) (now : Instant) (o : Origin) (kind : Kind) (change : Change)
    (t : Table) : Table :=
  match change.record? p o kind with
  | some r => t.upsert now r
  | none => t.erase o.key kind

omit [SuffixList] in
theorem Change.key_record? {o : Origin} {change : Change} {r : Record}
    (h : change.record? p o kind = some r) : r.origin = o.key ∧ r.kind = kind := by
  cases change with
  | remove => cases h
  | _ =>
    simp only [Change.record?] at h
    split at h
    · cases h
    · cases h
      exact ⟨rfl, rfl⟩

omit [SuffixList] in
/-- A change leaves the decisions of other origins and kinds alone. -/
theorem Change.decision?_apply_of_ne {o : Origin} {origin : String} {kind' : Kind}
    (change : Change) (t : Table) (h : ¬(o.key = origin ∧ kind = kind')) :
    (change.apply p now o kind t).decision? origin kind' = t.decision? origin kind' := by
  unfold Change.apply
  cases hrecord : change.record? p o kind with
  | none => exact t.decision?_erase_of_ne h
  | some r =>
    obtain ⟨horigin, hkind⟩ := Change.key_record? hrecord
    dsimp only
    rw [t.decision?_upsert, horigin, hkind, if_neg h]

/-- A change that succeeds opens the store and changes its table. -/
theorem Change.table_of_make {raw : String} {o : Origin} (hparse : Origin.parse raw = .ok o)
    (change : Change) (h : (change.make p (repository now) raw kind).Gives fields s () s') :
    ∃ s₁ t, (acquire now).Gives fields s () s₁ ∧ s₁.Ready t ∧
      s' = s₁.withTable (change.apply p now o kind t) := by
  have hstore : ∀ {state expiry expireAt},
      (store p (repository now) raw kind state expiry expireAt).Gives fields s () s' →
      ∃ s₁ t, (acquire now).Gives fields s () s₁ ∧ s₁.Ready t ∧
        s' = s₁.withTable (if state = .unknown then t.erase o.key kind
          else t.upsert now ⟨o.key, kind, state, expiry, expireAt, p.now⟩) := by
    intro state expiry expireAt h
    obtain ⟨o', hparse', hwrite⟩ := write_of_store h
    cases hparse.symm.trans hparse'
    split at hwrite
    · rename_i hunknown
      obtain ⟨s₁, t, hacquire, hready, -, hs'⟩ := table_of_serve (.emit _ _ _ fields) hwrite
      exact ⟨s₁, t, hacquire, hready, by rw [if_pos hunknown]; exact hs'⟩
    · rename_i hknown
      obtain ⟨s₁, t, hacquire, hready, -, hs'⟩ := table_of_serve (.emit _ _ _ fields) hwrite
      exact ⟨s₁, t, hacquire, hready, by rw [if_neg hknown]; exact hs'⟩
  cases change with
  | set state scope =>
    obtain ⟨s₁, t, hacquire, hready, hs'⟩ := hstore h
    refine ⟨s₁, t, hacquire, hready, hs'.trans ?_⟩
    by_cases hunknown : state = .unknown <;> simp [Change.apply, Change.record?, hunknown]
  | setUntil state expireAt =>
    simp only [Change.make, Decision.setUntil] at h
    split at h
    · obtain ⟨s₁, t, hacquire, hready, hs'⟩ := hstore h
      refine ⟨s₁, t, hacquire, hready, hs'.trans ?_⟩
      by_cases hunknown : state = .unknown <;> simp [Change.apply, Change.record?, hunknown]
    · cases h.answer
  | remove =>
    simp only [Change.make, Decision.remove, hparse] at h
    obtain ⟨s₁, t, hacquire, hready, -, hs'⟩ := table_of_serve (.emit _ _ _ fields) h
    exact ⟨s₁, t, hacquire, hready, hs'⟩

theorem Change.changedAt {raw : String} {o : Origin} (hparse : Origin.parse raw = .ok o)
    (change : Change) (h : (change.make p (repository now) raw kind).Gives [] s () s') :
    ChangedAt now o.key kind s s' := by
  obtain ⟨s₁, t, hacquire, hready, hs'⟩ := change.table_of_make hparse h
  exact ⟨s₁, t, _, hacquire, hready, hs', fun _ _ hne => change.decision?_apply_of_ne t hne⟩

end Consent.Decision

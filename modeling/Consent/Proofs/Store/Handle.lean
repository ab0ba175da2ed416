import Consent.Proofs.Action
import Consent.Proofs.Store.Table
import Consent.Store.Handle

/-! What the operations of a store do to its table. Each of them opens the store first, and an open
store stays as it is. -/

namespace Consent.Store

open Host Log

variable {α β : Type} {fields : List Field} {s s' s₁ : Store} {now : Instant} {t : Table}

/-- An open store that holds the table `t`. -/
structure Ready (s : Store) (t : Table) : Prop where
  opened : s.opened = true
  notClosed : s.closed = false
  holds : ∃ d, s.file = .database d ∧ d.perms = some t

/-- The store with another table. -/
def withTable (s : Store) (t : Table) : Store :=
  match s.file with
  | .database d => { s with file := .database { d with perms := some t } }
  | .foreign => s

theorem Ready.table_unique {t' : Table} (h : s.Ready t) (h' : s.Ready t') : t = t' := by
  obtain ⟨d, hfile, hperms⟩ := h.holds
  obtain ⟨d', hfile', hperms'⟩ := h'.holds
  obtain rfl : d = d' := by simpa [hfile] using hfile'
  exact Option.some.inj (hperms.symm.trans hperms')

theorem Ready.withTable (h : s.Ready t) (t' : Table) : (s.withTable t').Ready t' := by
  obtain ⟨d, hfile, -⟩ := h.holds
  simp only [Store.withTable, hfile]
  exact ⟨h.opened, h.notClosed, _, rfl, rfl⟩

theorem Ready.withTable_self (h : s.Ready t) : s.withTable t = s := by
  obtain ⟨d, hfile, hperms⟩ := h.holds
  cases s
  cases d
  simp_all [Store.withTable]

theorem gives_onDatabase {a : Action Database α} {x : α} {d d' : Database}
    (hfile : s.file = .database d) (ha : a.Gives fields d x d') :
    (onDatabase a).Gives fields s x { s with file := .database d' } := by
  unfold onDatabase
  constructor
  · simp [hfile, ha.answer]
  · simp [hfile, ha.state]

theorem file_of_onDatabase {a : Action Database α} {x : α}
    (h : (onDatabase a).Gives fields s x s') :
    ∃ d d', s.file = .database d ∧ a.Gives fields d x d' ∧
      s' = { s with file := .database d' } := by
  obtain ⟨hanswer, hstate⟩ := h
  unfold onDatabase at hanswer hstate
  cases hfile : s.file with
  | foreign => simp [hfile] at hanswer
  | database d =>
    simp only [hfile] at hanswer hstate
    exact ⟨d, (a fields d).state, rfl, ⟨hanswer, rfl⟩, hstate.symm⟩

theorem gives_withPerms {f : Table → α × Table} {d : Database} (hperms : d.perms = some t) :
    (Database.withPerms f).Gives fields d (f t).1 { d with perms := some (f t).2 } := by
  unfold Database.withPerms
  constructor
  · simp [Action.answer_bind, hperms]
  · simp [Action.state_bind, hperms]

theorem perms_of_withPerms {f : Table → α × Table} {d d' : Database} {x : α}
    (h : (Database.withPerms f).Gives fields d x d') :
    ∃ t, d.perms = some t ∧ x = (f t).1 ∧ d' = { d with perms := some (f t).2 } := by
  cases hperms : d.perms with
  | none =>
    have hanswer := h.answer
    simp [Database.withPerms, Action.answer_bind, hperms] at hanswer
  | some t =>
    have hgives : (Database.withPerms f).Gives fields d _ _ := gives_withPerms hperms
    have hx := h.answer.symm.trans hgives.answer
    exact ⟨t, rfl, Except.ok.inj hx, h.state.symm.trans hgives.state⟩

theorem state_withPerms_of_read {f : Table → α × Table} (h : ∀ t, (f t).2 = t) (d : Database) :
    (Database.withPerms f fields d).state = d := by
  unfold Database.withPerms
  cases hperms : d.perms with
  | none => simp [Action.state_bind, hperms]
  | some t =>
    simp only [Action.state_bind, Action.answer_get, Action.state_get, hperms, h]
    cases d
    simp_all

theorem state_onDatabase_of_read {a : Action Database α} (h : ∀ d, (a fields d).state = d)
    (s : Store) : (onDatabase a fields s).state = s := by
  unfold onDatabase
  cases hfile : s.file with
  | foreign => rfl
  | database d =>
    cases s
    simp_all

section Open

variable [SuffixList]

theorem gives_acquire_of_opened (hopened : s.opened = true) (hclosed : s.closed = false) :
    (acquire now).Gives fields s () s := by
  constructor
  · simp [acquire, ensureOpen, Action.answer_bind, Action.state_bind, hopened, hclosed]
  · simp [acquire, ensureOpen, Action.answer_bind, Action.state_bind, hopened, hclosed]

theorem opened_of_ensureOpen (h : (ensureOpen now).Gives fields s () s') : s'.opened = true := by
  unfold ensureOpen at h
  obtain ⟨s₀, _, hget, h⟩ := Action.gives_of_bind h
  cases hget.answer
  cases hget.state
  split at h
  · rename_i hopened
    rw [← h.state]
    exact hopened
  · obtain ⟨_, s₁, -, h⟩ := Action.gives_of_bind h
    obtain ⟨_, s₂, -, h⟩ := Action.gives_of_bind h
    obtain ⟨dropped, s₃, -, h⟩ := Action.gives_of_bind h
    split at h
    · obtain ⟨_, s₄, -, h⟩ := Action.gives_of_bind h
      rw [← h.state]
      rfl
    · rw [← h.state]
      rfl

theorem opened_of_acquire (h : (acquire now).Gives fields s () s') :
    s'.opened = true ∧ s'.closed = false := by
  unfold acquire at h
  obtain ⟨_, s₁, hopen, h⟩ := Action.gives_of_bind h
  obtain ⟨_, _, hget, h⟩ := Action.gives_of_bind h
  cases hget.answer
  cases hget.state
  split at h
  · cases h.answer
  · rename_i hclosed
    cases h.state
    exact ⟨opened_of_ensureOpen hopen, by simpa using hclosed⟩

theorem gives_acquire_of_ensureOpen (h : (ensureOpen now).Gives fields s () s')
    (hclosed : s'.closed = false) : (acquire now).Gives fields s () s' := by
  refine h.bind ((Action.Gives.get fields s').bind ?_)
  rw [if_neg (by simp [hclosed])]
  exact .pure () fields s'

/-- An operation opens the store and then works on its table. -/
theorem gives_serve {before : Action Store Unit} {f : Table → α × Table}
    (hacquire : (acquire now).Gives fields s () s₁) (hready : s₁.Ready t)
    (hbefore : before.Gives fields s₁ () s₁) :
    (serve now before f).Gives fields s (f t).1 (s₁.withTable (f t).2) := by
  obtain ⟨d, hfile, hperms⟩ := hready.holds
  have htable : (Database.withPerms f).Gives fields d _ _ := gives_withPerms hperms
  have hstate : s₁.withTable (f t).2 =
      { s₁ with file := .database { d with perms := some (f t).2 } } := by
    simp only [withTable, hfile]
  rw [hstate]
  exact hacquire.bind (hbefore.bind (gives_onDatabase hfile htable))

/-- Any answer of an operation comes from the table of an open store. -/
theorem table_of_serve {before : Action Store Unit} {f : Table → α × Table} {x : α}
    (hbefore : ∀ s, before.Gives fields s () s) (h : (serve now before f).Gives fields s x s') :
    ∃ s₁ t, (acquire now).Gives fields s () s₁ ∧ s₁.Ready t ∧ x = (f t).1 ∧
      s' = s₁.withTable (f t).2 := by
  unfold serve at h
  obtain ⟨_, s₁, hacquire, hrest⟩ := Action.gives_of_bind h
  obtain ⟨_, s₂, hb, hdatabase⟩ := Action.gives_of_bind hrest
  obtain rfl : s₂ = s₁ := hb.state.symm.trans (hbefore s₁).state
  obtain ⟨d, d', hfile, hperms, rfl⟩ := file_of_onDatabase hdatabase
  obtain ⟨t, ht, hx, rfl⟩ := perms_of_withPerms hperms
  obtain ⟨hopened, hclosed⟩ := opened_of_acquire hacquire
  exact ⟨s₂, t, hacquire, ⟨hopened, hclosed, d, hfile, ht⟩, hx, by simp only [withTable, hfile]⟩

/-- An operation fails only as the store does, whatever it would do with the table. -/
theorem answer_serve_of_error {before before' : Action Store Unit} {f : Table → α × Table}
    {e : Failure} (hbefore : ∀ s, before.Gives fields s () s)
    (hbefore' : ∀ s, before'.Gives fields s () s)
    (h : (serve now before f fields s).answer = .error e) (f' : Table → β × Table) :
    (serve now before' f' fields s).answer = .error e := by
  unfold serve at h ⊢
  rw [Action.answer_bind] at h ⊢
  cases hacquire : (acquire now fields s).answer with
  | error e' =>
    rw [hacquire] at h
    rw [Except.error.inj h]
  | ok _ =>
    rw [hacquire] at h
    dsimp only at h ⊢
    generalize (acquire now fields s).state = s₁ at h ⊢
    rw [Action.answer_bind, (hbefore s₁).answer, (hbefore s₁).state] at h
    rw [Action.answer_bind, (hbefore' s₁).answer, (hbefore' s₁).state]
    unfold onDatabase at h ⊢
    cases hfile : s₁.file with
    | foreign => simpa [hfile] using h
    | database d =>
      cases hperms : d.perms with
      | none => simpa [Database.withPerms, Action.answer_bind, hfile, hperms] using h
      | some t => simp [Database.withPerms, Action.answer_bind, hfile, hperms] at h

theorem state_acquire_of_opened (h : s.opened = true) : (acquire now fields s).state = s := by
  have hopen : (ensureOpen now).Gives fields s () s := by
    refine (Action.Gives.get fields s).bind ?_
    rw [if_pos h]
    exact .pure () fields s
  unfold acquire
  rw [Action.state_bind, hopen.answer, hopen.state]
  cases hclosed : s.closed <;> simp [Action.state_bind, hclosed]

/-- `s'` is `s` itself or what opening it leaves, if it was not open. -/
def AtMostOpened (fields : List Field) (now : Instant) (s s' : Store) : Prop :=
  s' = s ∨ s.opened = false ∧ s' = (acquire now fields s).state

theorem atMostOpened_acquire : AtMostOpened fields now s (acquire now fields s).state := by
  cases h : s.opened with
  | true => exact Or.inl (state_acquire_of_opened h)
  | false => exact Or.inr ⟨h, rfl⟩

/-- An operation that leaves every table as it is only opens the store. -/
theorem state_serve_of_read {before : Action Store Unit} {f : Table → α × Table}
    (hbefore : ∀ s, before.Gives fields s () s) (hread : ∀ t, (f t).2 = t) :
    (serve now before f fields s).state = (acquire now fields s).state := by
  unfold serve
  rw [Action.state_bind]
  cases (acquire now fields s).answer with
  | error e => rfl
  | ok _ =>
    dsimp only
    rw [Action.state_bind, (hbefore _).answer, (hbefore _).state]
    exact state_onDatabase_of_read (state_withPerms_of_read hread) _

/-- Opening the store, whenever that is done, leaves it with the table `t`. -/
def Opens (s : Store) (t : Table) : Prop :=
  ∀ fields now, ∃ s₁, (acquire now).Gives fields s () s₁ ∧ s₁.Ready t

theorem Ready.opens (h : s.Ready t) : s.Opens t :=
  fun _ _ => ⟨s, gives_acquire_of_opened h.opened h.notClosed, h⟩

theorem Opens.table_unique {t' : Table} (h : s.Opens t) (h' : s.Opens t') : t = t' := by
  obtain ⟨s₁, hacquire, hready⟩ := h [] .unset
  obtain ⟨s₁', hacquire', hready'⟩ := h' [] .unset
  obtain rfl : s₁ = s₁' := hacquire.state_unique hacquire'
  exact hready.table_unique hready'

theorem Opens.gives_serve {before : Action Store Unit} (h : s.Opens t)
    (hbefore : ∀ s, before.Gives fields s () s) (now : Instant) (f : Table → α × Table) :
    ∃ s', (serve now before f).Gives fields s (f t).1 s' ∧ s'.Ready (f t).2 := by
  obtain ⟨s₁, hacquire, hready⟩ := h fields now
  exact ⟨_, Store.gives_serve hacquire hready (hbefore s₁), hready.withTable _⟩

end Open

end Consent.Store

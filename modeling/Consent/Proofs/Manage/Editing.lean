import Consent.Proofs.Decision.Lapse
import Consent.Proofs.Manage.Selection

/-! The keys that allow and block: they change the decision of the selected row and nothing else in
the store, or they are refused and change nothing. -/

namespace Consent

open Host Log Store

/-- The row with another decision, made at a time. It lapses as before; the time of a row that does
not lapse at a time is cleared. -/
def Store.Row.redecided (p : Policy) (now : Instant) (state : State) (row : Row) : Row :=
  { row with
    state
    expireMillis := if row.expiry = .timed then toMillis row.record.expireAt else 0
    modifiedMillis := if p.now = .unset then now.millis else p.now.millis }

namespace Manage

/-- The keys that decide, with what they decide. -/
def decisionKeys : List (String × State) := [("a", .allow), ("b", .block)]

/-- The change that an edit of a decision makes. -/
def changeOf (r : Record) (state : State) : Decision.Change :=
  if r.expiry = .timed then .setUntil state r.expireAt else .set state r.scope

/-- Does what was asked for, and hands the outcome to the model that is shown by then. -/
def carryOut {σ : Type} (p : Policy) (repo : Repository σ) (steps : Nat) (shown : Model)
    (effect : Effect) : Action σ (Model × Bool) := do
  match ← perform p repo effect with
  | none => pure (shown, true)
  | some msg => handle p repo steps shown msg

section Repository

variable {σ : Type} {p : Policy} {repo : Repository σ} {fields : List Field} {s s' : σ}
  {r : Record} {state : State} {steps : Nat}

theorem handle_of_update {m m' : Model} {msg : Message} {effect : Effect}
    (h : m.update p.now msg = (m', some effect)) :
    handle p repo (steps + 1) m msg = carryOut p repo steps m' effect := by
  rw [handle, h]
  rfl

theorem change_eq_make (p : Policy) (repo : Repository σ) (r : Record) (state : State) :
    change p repo r state = (changeOf r state).make p repo r.origin r.kind := by
  unfold change changeOf
  split <;> rfl

theorem gives_perform_set (h : (change p repo r state).Gives fields s () s') :
    (perform p repo (.set r state)).Gives fields s
      (some (.changed (r.origin ++ " " ++ r.kind ++ " set to " ++ state.name) none)) s' := by
  unfold perform
  exact h.attempt.bind (.pure _ _ _)

/-- An edit that is refused leaves the state as it is and reports the cause. -/
theorem gives_perform_set_of_refusal {e : Failure}
    (h : (changeOf r state).refusal? p r.origin r.kind = some e) :
    (perform p repo (.set r state)).Gives fields s
      (some (.changed (r.origin ++ " " ++ r.kind ++ " set to " ++ state.name)
        (some (.during (.edit r.origin r.kind) e)))) s := by
  have hfails : (change p repo r state fields s).answer = .error e ∧
      (change p repo r state fields s).state = s := by
    rw [change_eq_make]
    exact Decision.Change.make_of_refusal h
  have hattempt := Action.Gives.attempt_of_error hfails.1
  rw [hfails.2] at hattempt
  unfold perform
  exact hattempt.bind (.logged (.pure _ _ _))

/-- A listing that arrives is shown, and nothing follows from it. -/
theorem gives_handle_loaded (m : Model) (records : List Record) :
    (handle p repo steps m (.loaded (.ok records))).Gives fields s
      ({ m with records, table := m.table.setRows (records.map (·.cells p.now)) }, false) s := by
  have hupdate : m.update p.now (.loaded (.ok records)) =
      ({ m with records, table := m.table.setRows (records.map (·.cells p.now)) }, none) :=
    Prod.ext (Model.update_loaded m p.now records) rfl
  cases steps with
  | zero =>
    rw [handle, hupdate]
    exact .pure _ _ _
  | succ steps =>
    rw [handle, hupdate]
    exact .pure _ _ _

end Repository

section Change

variable {p : Policy} {before after : Store.Table} {r : Record} {row : Row} {state : State}
  {o : Origin}

/-- An edit is refused if the time of the decision is past, or else if the kind does not have the
state. -/
theorem refusal?_changeOf (hparse : Origin.parse r.origin = .ok o) :
    (changeOf r state).refusal? p r.origin r.kind =
      if r.isExpired p.now then some (.notFuture r.expireAt)
      else if state ∈ p.kinds.states r.kind then none
      else some (.unavailable r.kind state) := by
  have hstore : Decision.refusal? p r.origin r.kind state =
      if state ∈ p.kinds.states r.kind then none else some (.unavailable r.kind state) := by
    unfold Decision.refusal? Registry.admits
    rw [hparse]
    simp
  unfold changeOf Record.isExpired
  by_cases htimed : r.expiry = .timed
  · by_cases hlive : p.now < r.expireAt <;>
      simp [Decision.Change.refusal?, htimed, hlive, hstore]
  · simp [Decision.Change.refusal?, htimed, hstore]

/-- What an edit stores: the decision with the expiry that it had. -/
theorem record?_changeOf (p : Policy) (o : Origin)
    (hexpiry : r.expiry = .never ∨ r.expiry = .session ∨ r.expiry = .timed)
    (hstate : state ≠ .unknown) :
    (changeOf r state).record? p o r.kind =
      some ⟨o.key, r.kind, state, r.expiry, if r.expiry = .timed then r.expireAt else .unset,
        p.now⟩ := by
  obtain ⟨origin, kind, old, expiry, expireAt, modified⟩ := r
  rcases hexpiry with rfl | rfl | rfl <;> exact if_neg hstate

theorem ofRecord_eq_redecided (p : Policy) (now : Instant) (state : State) (row : Row) :
    Row.ofRecord row.id now ⟨row.origin, row.kind, state, row.expiry,
      if row.expiry = .timed then row.record.expireAt else .unset, p.now⟩ =
        row.redecided p now state := by
  unfold Row.ofRecord Row.redecided
  split <;> rfl

/-- Where no other row has its key, an edit changes the row in its place. -/
theorem apply_changeOf (hkeyed : Store.Table.Keyed (before ++ row :: after))
    (horigin : o.key = row.origin)
    (hexpiry : row.expiry = .never ∨ row.expiry = .session ∨ row.expiry = .timed)
    (hstate : state ≠ .unknown) (p : Policy) (now : Instant) :
    (changeOf row.record state).apply p now o row.kind (before ++ row :: after) =
      before ++ row.redecided p now state :: after := by
  have hrecord := record?_changeOf (r := row.record) p o hexpiry hstate
  rw [horigin] at hrecord
  unfold Decision.Change.apply
  rw [show row.kind = row.record.kind from rfl, hrecord, ← ofRecord_eq_redecided]
  exact Store.Table.upsert_of_keyed hkeyed rfl

/-- A timed decision that has not lapsed keeps its time, also in the form it is stored in unless the
clock stands before the unset instant. -/
theorem redecided_keeps_time (htimed : row.expiry = .timed)
    (hlive : row.record.isExpired p.now = false) (now : Instant) (state : State) :
    (row.redecided p now state).record.expireAt = row.record.expireAt ∧
      (¬p.now < .unset → (row.redecided p now state).expireMillis = row.expireMillis) := by
  have hmillis : (row.redecided p now state).expireMillis = toMillis (ofMillis row.expireMillis) :=
    if_pos htimed
  constructor
  · change ofMillis (row.redecided p now state).expireMillis = ofMillis row.expireMillis
    rw [hmillis, ofMillis_toMillis, cut_ofMillis]
  · intro hnow
    have hrecord : row.record.expiry = .timed := htimed
    have hfuture : p.now < row.record.expireAt := by
      simpa [Record.isExpired, hrecord] using hlive
    have hpos : 0 < row.expireMillis := by
      by_contra hle
      have hunset : row.record.expireAt = .unset := if_pos (by omega)
      exact hnow (hunset ▸ hfuture)
    rw [hmillis, toMillis_ofMillis hpos]

end Change

section Edit

variable [SuffixList] {p : Policy} {fields : List Field} {s : Store} {t before after : Store.Table}
  {r : Record} {row : Row} {state : State} {o : Origin}

theorem gives_all (hready : s.Ready t) (now : Instant) :
    (Decision.all p (repository now)).Gives fields s (t.records.filter (!·.isExpired p.now)) s := by
  have hlist : (repository now).list.Gives fields s t.records (s.withTable t) :=
    gives_serve (f := fun t => (t.records, t))
      (gives_acquire_of_opened hready.opened hready.notClosed) hready (.pure () fields s)
  rw [hready.withTable_self] at hlist
  exact hlist.bind (.pure _ _ _)

/-- The outcome of an edit is shown, together with what is stored by then. -/
theorem gives_handle_changed (hready : s.Ready t) (now : Instant) (steps : Nat) (shown : Model)
    (status : String) (failure : Option Failure) :
    ∃ m, (handle p (repository now) (steps + 1) shown (.changed status failure)).Gives fields s
        (m, false) s ∧ m.failure = failure ∧ m.status = status ∧
      m.records = t.records.filter (!·.isExpired p.now) := by
  let live := t.records.filter (!·.isExpired p.now)
  let told : Model := { shown with status, failure }
  have hload : (perform p (repository now) .load).Gives fields s (some (.loaded (.ok live))) s :=
    (gives_all hready now).attempt.bind (.pure _ _ _)
  have hshown : (handle p (repository now) steps told (.loaded (.ok live))).Gives fields s _ s :=
    gives_handle_loaded told live
  have hupdate : shown.update p.now (.changed status failure) = (told, some .load) := rfl
  rw [handle_of_update hupdate]
  exact ⟨_, hload.bind hshown, rfl, rfl, rfl⟩

/-- A change that succeeds is reported, and what it left is listed. -/
theorem gives_carryOut {s' : Store} (hready : s'.Ready t)
    (h : (change p (repository now) r state).Gives fields s () s') (steps : Nat) (shown : Model) :
    ∃ m, (carryOut p (repository now) (steps + 1) shown (.set r state)).Gives fields s (m, false)
        s' ∧ m.failure = none ∧ m.status = r.origin ++ " " ++ r.kind ++ " set to " ++ state.name ∧
      m.records = t.records.filter (!·.isExpired p.now) := by
  obtain ⟨m, hshown, houtcome⟩ := gives_handle_changed hready now steps shown _ none
  exact ⟨m, (gives_perform_set h).bind hshown, houtcome⟩

/-- The cause of a refusal is shown. -/
theorem gives_carryOut_of_refusal {e : Failure} (hready : s.Ready t)
    (h : (changeOf r state).refusal? p r.origin r.kind = some e) (now : Instant) (steps : Nat)
    (shown : Model) :
    ∃ m, (carryOut p (repository now) (steps + 1) shown (.set r state)).Gives fields s (m, false)
        s ∧ m.failure = some (.during (.edit r.origin r.kind) e) ∧
      m.records = t.records.filter (!·.isExpired p.now) := by
  obtain ⟨m, hshown, hfailure, -, hrecords⟩ := gives_handle_changed hready now steps shown _
    (some (.during (.edit r.origin r.kind) e))
  exact ⟨m, (gives_perform_set_of_refusal h).bind hshown, hfailure, hrecords⟩

/-- An edit that is not refused is made. -/
theorem gives_change (hready : s.Ready t) (hparse : Origin.parse r.origin = .ok o)
    (hlisted : state ∈ p.kinds.states r.kind) (hstate : state ≠ .unknown)
    (hlive : r.isExpired p.now = false) (now : Instant) :
    (change p (repository now) r state).Gives fields s ()
      (s.withTable ((changeOf r state).apply p now o r.kind t)) := by
  obtain ⟨s', hmade⟩ : ∃ s', (change p (repository now) r state).Gives fields s () s' := by
    have hstore := fun expiry expireAt =>
      Decision.gives_store hready.opens hlisted hstate hparse expiry expireAt fields now
    unfold change
    split
    · rename_i htimed
      have hfuture : p.now < r.expireAt := by simpa [Record.isExpired, htimed] using hlive
      obtain ⟨s', hmade, -⟩ := hstore .timed r.expireAt
      rw [Decision.setUntil, if_pos hfuture]
      exact ⟨s', hmade⟩
    · obtain ⟨s', hmade, -⟩ := hstore (.ofScope r.scope) .unset
      exact ⟨s', hmade⟩
  rw [change_eq_make] at hmade ⊢
  obtain ⟨s₁, t₁, hacquire, hready₁, rfl⟩ := Decision.Change.table_of_make hparse _ hmade
  obtain rfl : s₁ = s :=
    hacquire.state_unique (gives_acquire_of_opened hready.opened hready.notClosed)
  obtain rfl : t₁ = t := hready₁.table_unique hready
  exact hmade

/-- Allowing or blocking the selected decision, however the listing has aged: `shown` is the model
that the outcome comes to, and only the row of the selected decision has to stand in the store as it
was listed. If the kind has the state and the decision has not lapsed, that row gets the state and a
new time of change where it stands; it lapses as before, and all else in the store stays. Otherwise
nothing is stored and the reason is shown. -/
theorem edit_changes_only_decision {m : Model} {key : String}
    (hready : s.Ready (before ++ row :: after))
    (hkeyed : Store.Table.Keyed (before ++ row :: after))
    (hexpiry : row.expiry = .never ∨ row.expiry = .session ∨ row.expiry = .timed)
    (horigin : (Origin.parse row.origin).map Origin.key = .ok row.origin)
    (hselected : m.selected? = some row.record) (hkey : (key, state) ∈ decisionKeys)
    (p : Policy) (now : Instant) (shown : Model) (steps : Nat) :
    let effect := Effect.set row.record state
    let row' := row.redecided p now state
    let done := (carryOut p (repository now) (steps + 1) shown effect).run s
    let live (t : Store.Table) : List Record := t.records.filter (!·.isExpired p.now)
    (m.press key).2 = some effect ∧
    handle p (repository now) (steps + 2) m (.screen (.key key)) =
      carryOut p (repository now) (steps + 1) (m.press key).1 effect ∧
    (state ∈ p.kinds.states row.kind ∧ row.record.isExpired p.now = false →
      done.state = s.withTable (before ++ row' :: after) ∧
      (row.expiry = .timed → row'.record.expireAt = row.record.expireAt ∧
        (¬p.now < .unset → row'.expireMillis = row.expireMillis)) ∧
      ∃ m', done.answer = .ok (m', false) ∧ m'.failure = none ∧
        m'.status = row.origin ++ " " ++ row.kind ++ " set to " ++ state.name ∧
        m'.records = live (before ++ row' :: after)) ∧
    (state ∉ p.kinds.states row.kind ∨ row.record.isExpired p.now = true →
      done.state = s ∧
      ∃ m', done.answer = .ok (m', false) ∧ m'.records = live (before ++ row :: after) ∧
        m'.failure = some (.during (.edit row.origin row.kind)
          (if row.record.isExpired p.now then .notFuture row.record.expireAt
          else .unavailable row.kind state))) := by
  intro effect row' done live
  obtain ⟨o, hparse, hkept⟩ := Except.map_eq_ok.mp horigin
  have hparse : Origin.parse row.record.origin = .ok o := hparse
  obtain ⟨hpress, hknown⟩ :
      (m.press key).2 = m.selected?.map (.set · state) ∧ state ≠ .unknown := by
    simp only [decisionKeys, List.mem_cons, List.not_mem_nil, or_false, Prod.mk.injEq] at hkey
    rcases hkey with ⟨rfl, rfl⟩ | ⟨rfl, rfl⟩
    · exact ⟨rfl, by decide⟩
    · exact ⟨rfl, by decide⟩
  have hasked : (m.press key).2 = some effect := by
    rw [hpress, hselected]
    rfl
  refine ⟨hasked, handle_of_update (Prod.ext rfl hasked), ?_, ?_⟩
  · rintro ⟨hlisted, hlive⟩
    have hchange : (change p (repository now) row.record state).Gives [] s () (s.withTable _) :=
      gives_change hready hparse hlisted hknown hlive now
    have happlied : (changeOf row.record state).apply p now o row.record.kind
        (before ++ row :: after) = before ++ row' :: after :=
      apply_changeOf hkeyed hkept hexpiry hknown p now
    rw [happlied] at hchange
    obtain ⟨m', hdone, houtcome⟩ := gives_carryOut (hready.withTable _) hchange steps shown
    exact ⟨hdone.state, fun htimed => redecided_keeps_time htimed hlive now state, m', hdone.answer,
      houtcome⟩
  · intro hrefused
    have hcause : (changeOf row.record state).refusal? p row.record.origin row.record.kind =
        some (if row.record.isExpired p.now then .notFuture row.record.expireAt
          else .unavailable row.kind state) := by
      rw [refusal?_changeOf hparse]
      split
      · rfl
      · rename_i hlive
        exact if_neg (hrefused.resolve_right hlive)
    obtain ⟨m', hdone, hfailure, hrecords⟩ :=
      gives_carryOut_of_refusal hready hcause now steps shown
    exact ⟨hdone.state, m', hdone.answer, hrecords, hfailure⟩

end Edit

/-- Decisions of which one lapses an hour after the others are looked at. -/
def hourTable : Store.Table := [
  ⟨2, "https://maps.example.com", "camera", .allow, .never, 0, 1600000000000⟩,
  ⟨4, "https://maps.example.com", "popup", .allow, .timed, 1700003600000, 1600000000000⟩,
  ⟨5, "https://new.example", "popup", .block, .session, 0, 1700000000000⟩]

def hourStore : Store where
  path := "permissions.db"
  file := .database { perms := some hourTable, versions := some [0, 1, 2, 3] }
  connection := .ready
  opened := true

/-- A listing from before the other decisions changed. -/
def agedModel : Model where
  table := { cursor := 1 }
  records := [⟨"https://gone.example", "popup", .allow, .never, .unset, .atMillis 1600000000000⟩,
    ⟨"https://maps.example.com", "popup", .allow, .timed, .atMillis 1700003600000,
      .atMillis 1600000000000⟩]

/-- Within its hour the decision is blocked and lapses as before; after it nothing is stored. -/
theorem edit_changes_only_decision_hour :
    let r : Record :=
      ⟨"https://maps.example.com", "popup", .allow, .timed, .atMillis 1700003600000,
        .atMillis 1600000000000⟩
    let done (clock : Instant) :=
      (carryOut { now := clock } (repository clock) 1 agedModel (.set r .block)).run hourStore
    agedModel.selected? = some r ∧
      (done (.atMillis 1700000000000)).state = hourStore.withTable [
        ⟨2, "https://maps.example.com", "camera", .allow, .never, 0, 1600000000000⟩,
        ⟨4, "https://maps.example.com", "popup", .block, .timed, 1700003600000, 1700000000000⟩,
        ⟨5, "https://new.example", "popup", .block, .session, 0, 1700000000000⟩] ∧
      (done (.atMillis 1700003600000)).state = hourStore ∧
      ∃ m, (done (.atMillis 1700003600000)).answer = .ok (m, false) ∧
        m.failure = some (.during (.edit r.origin r.kind) (.notFuture r.expireAt)) := by
  intro r done
  let row : Row :=
    ⟨4, "https://maps.example.com", "popup", .allow, .timed, 1700003600000, 1600000000000⟩
  have hready : hourStore.Ready (hourTable.take 1 ++ row :: hourTable.drop 2) :=
    ⟨rfl, rfl, _, rfl, rfl⟩
  have hkeyed : Store.Table.Keyed (hourTable.take 1 ++ row :: hourTable.drop 2) :=
    ⟨by decide, by decide⟩
  have horigin : (Origin.parse row.origin).map Origin.key = .ok row.origin := by decide +kernel
  have hselected : agedModel.selected? = some row.record := by decide
  have hkey : ("b", State.block) ∈ decisionKeys := by decide
  have hedit := fun clock : Instant =>
    edit_changes_only_decision hready hkeyed (.inr (.inr rfl)) horigin hselected hkey
      { now := clock } clock agedModel 0
  obtain ⟨-, -, hmade, -⟩ := hedit (.atMillis 1700000000000)
  obtain ⟨-, -, -, hrefused⟩ := hedit (.atMillis 1700003600000)
  obtain ⟨hstored, -⟩ := hmade (by decide)
  obtain ⟨hsame, m, hanswer, -, hfailure⟩ := hrefused (.inr (by decide))
  exact ⟨hselected, hstored, hsame, m, hanswer, hfailure⟩

end Manage

end Consent

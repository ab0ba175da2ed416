import Consent.Proofs.Decision.Handles

/-! The calls that a handle receives. Most of them open it first; where that fails, so does the call,
with nothing done beyond the attempt. -/

namespace Consent

open Host Log Store

namespace Action

variable {σ α β : Type} {fields : List Field} {s s' s'' : σ} {a : Action σ α} {f : α → Action σ β}

theorem bind_of_error {e : Failure} {log : List Event} (h : a fields s = ⟨.error e, s', log⟩) :
    (a >>= f) fields s = ⟨.error e, s', log⟩ := by
  change Action.bind a f fields s = _
  unfold Action.bind
  rw [h]

theorem bind_of_ok {x : α} {r : Except Failure β} {log log' : List Event}
    (h : a fields s = ⟨.ok x, s', log⟩) (hf : f x fields s' = ⟨r, s'', log'⟩) :
    (a >>= f) fields s = ⟨r, s'', log ++ log'⟩ := by
  change Action.bind a f fields s = _
  unfold Action.bind
  rw [h]
  dsimp only
  rw [hf]

theorem Gives.outcome {x : α} (h : a.Gives fields s x s') :
    a fields s = ⟨.ok x, s', (a fields s).log⟩ := by
  rw [← h.answer, ← h.state]

end Action

namespace Store

/-- What a handle is asked to do. -/
inductive Task where
  | ensureOpen
  | migrate
  | phase
  | contents
  | close
  | read (q : Read)
  | write (w : Write)
  | setNothing

/-- What a handle answers if it succeeds. -/
inductive Reply where
  | done
  | phase (p : MigrationPhase)
  | contents (d : Database)
  | records (rs : List Record)
  | count (n : Option Nat)
  deriving DecidableEq

namespace Task

/-- Does what is asked for at the time `now`. -/
def make [Upgrades] (now : Instant) : Task → Action Store Reply
  | .ensureOpen => do
    Store.ensureOpen now
    pure .done
  | .migrate => do
    let p ← Store.migrate now
    pure (.phase p)
  | .phase => do
    let p ← Store.phase
    pure (.phase p)
  | .contents => do
    let d ← Store.contents now
    pure (.contents d)
  | .close => do
    Action.modify Store.close
    pure .done
  | .read q => do
    let rs ← q.make (repository now)
    pure (.records rs)
  | .write w => do
    let n ← w.make (repository now)
    pure (.count n)
  | .setNothing => do
    Store.setNothing now
    pure .done

/-- Whether the task works on what an open handle holds. -/
def acquires : Task → Bool
  | .contents | .read _ | .write _ | .setNothing => true
  | _ => false

/-- Whether the task opens the handle. -/
def opens : Task → Bool
  | .phase | .close => false
  | _ => true

theorem eq_of_not_opens {task : Task} (h : task.opens = false) :
    task = .phase ∨ task = .close := by
  cases task with
  | phase => exact Or.inl rfl
  | close => exact Or.inr rfl
  | _ => cases h

end Task

/-- A task at a time; the fields are those of the caller's log. -/
structure Call where
  now : Instant
  fields : List Field := []
  task : Task

def Call.run [Upgrades] (call : Call) (s : Store) : Outcome Store Reply :=
  call.task.make call.now call.fields s

/-- What calls leave of a handle, one after another. -/
def runAll [Upgrades] (calls : List Call) (s : Store) : Store :=
  calls.foldl (fun s call => (call.run s).state) s

variable {fields : List Field} {s s' : Store} {d : Database} {now : Instant} {e : Failure}
  {log : List Event}

/-- Asking how far the file has been migrated connects, and changes nothing else. -/
theorem phase_of_connect {s₁ : Store} (hconnect : connect.Gives fields s () s₁)
    (hfile : s₁.file = .database d) :
    (phase fields s).answer = d.phase ∧ (phase fields s).state = s₁ := by
  have hsame : { s₁ with file := .database d } = s₁ := by
    rw [← hfile]
  unfold phase
  rw [Action.answer_bind, Action.state_bind, hconnect.answer, hconnect.state]
  dsimp only
  unfold onDatabase
  rw [hfile]
  dsimp only
  rw [Action.get_bind, Action.answer_ofExcept, Action.state_ofExcept, hsame]
  exact ⟨rfl, rfl⟩

variable [Upgrades]

theorem Task.make_phase :
    (Task.phase.make now fields s).answer = (Store.phase fields s).answer.map Reply.phase ∧
      (Task.phase.make now fields s).state = (Store.phase fields s).state := by
  unfold Task.make
  dsimp only
  rw [Action.answer_bind, Action.state_bind]
  cases (Store.phase fields s).answer with
  | error e => exact ⟨rfl, rfl⟩
  | ok p => exact ⟨rfl, rfl⟩

theorem serve_of_acquire_error {α : Type} {before : Action Store Unit} {f : Table → α × Table}
    (h : acquire now fields s = ⟨.error e, s', log⟩) :
    serve now before f fields s = ⟨.error e, s', log⟩ :=
  Action.bind_of_error h

/-- Whatever works on an open handle fails as getting hold of it does. -/
theorem Task.make_of_acquire_error {task : Task} (hacquires : task.acquires = true)
    (h : acquire now fields s = ⟨.error e, s', log⟩) :
    task.make now fields s = ⟨.error e, s', log⟩ := by
  cases task with
  | contents =>
    have hcontents : Store.contents now fields s = ⟨.error e, s', log⟩ := Action.bind_of_error h
    exact Action.bind_of_error hcontents
  | read q =>
    refine Action.bind_of_error ?_
    cases q with
    | get origin kind => exact Action.bind_of_error (serve_of_acquire_error h)
    | getAll origin => exact serve_of_acquire_error h
    | list => exact serve_of_acquire_error h
  | write w =>
    refine Action.bind_of_error ?_
    cases w with
    | set r => exact Action.bind_of_error (serve_of_acquire_error h)
    | delete origin kind => exact Action.bind_of_error (serve_of_acquire_error h)
    | deleteAll => exact Action.bind_of_error (serve_of_acquire_error h)
    | deleteExpired time => exact Action.bind_of_error (serve_of_acquire_error h)
    | deleteSession => exact Action.bind_of_error (serve_of_acquire_error h)
  | setNothing =>
    have hset : Store.setNothing now fields s = ⟨.error e, s', log⟩ := Action.bind_of_error h
    exact Action.bind_of_error hset
  | _ => cases hacquires

/-- Whatever opens the handle fails as opening it does. -/
theorem Task.make_of_error {task : Task} (hopens : task.opens = true)
    (h : Store.ensureOpen now fields s = ⟨.error e, s', log⟩) :
    task.make now fields s = ⟨.error e, s', log⟩ := by
  have hacquire : acquire now fields s = ⟨.error e, s', log⟩ := Action.bind_of_error h
  cases task with
  | ensureOpen => exact Action.bind_of_error h
  | migrate =>
    have hmigrate : Store.migrate now fields s = ⟨.error e, s', log⟩ := Action.bind_of_error h
    exact Action.bind_of_error hmigrate
  | phase => cases hopens
  | close => cases hopens
  | _ => exact make_of_acquire_error rfl hacquire

/-- Opening a handle whose database cannot be migrated does no more than connect and try. -/
theorem Reaches.ensureOpen_of_error (h : s.Reaches d)
    (hfails : (Database.migrate (Upgrades.schema s.history now) fields d).answer = .error e) :
    let attempt := Database.migrate (Upgrades.schema s.history now) fields d
    ∃ before, ensureOpen now fields s =
      ⟨.error e, { s with connection := .ready, file := .database attempt.state },
        before ++ attempt.log⟩ := by
  intro attempt
  let s₁ : Store := { s with connection := .ready }
  have hconnect : connect fields s = ⟨.ok (), s₁, (connect fields s).log⟩ :=
    h.gives_connect.outcome
  have hmigrate : onDatabase (Database.migrate (Upgrades.schema s.history now)) fields s₁ =
      ⟨.error e, { s₁ with file := .database attempt.state }, attempt.log⟩ := by
    have hfile : s₁.file = .database d := h.file
    unfold onDatabase
    rw [hfile]
    dsimp only
    rw [hfails]
  refine ⟨(connect fields s).log, ?_⟩
  unfold ensureOpen
  rw [Action.get_bind, if_neg (by simp [h.opened])]
  exact Action.bind_of_ok hconnect (Action.bind_of_error hmigrate)

end Store

end Consent

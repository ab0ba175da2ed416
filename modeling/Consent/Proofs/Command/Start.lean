import Consent.Command.Session
import Consent.Proofs.Store.Unchanged

/-! The decisions on the disk in a run. Starting the program changes none of them, and at the end
only a store that was connected is written back. -/

namespace Consent

open Host Log Store

namespace Disk

variable {d d' : Disk} {env : Environment} {path full : String} {file : Store.File}

/-- The decisions in the database at a path from the root; a new one is empty. -/
def decisions? (d : Disk) (full : String) : Option Table :=
  ((d.databases.lookup full).getD (.database {})).decisions?

theorem decisions?_settle (h : full ≠ inMemory) : d.settle.decisions? full = d.decisions? full := by
  have hlookup : d.settle.databases.lookup full = d.databases.lookup full := by
    unfold settle
    induction d.databases with
    | nil => rfl
    | cons e rest ih =>
      obtain ⟨name, file⟩ := e
      by_cases hname : name = inMemory
      · have hne : full ≠ name := hname ▸ h
        simpa [hname, List.lookup_cons, beq_eq_false_iff_ne.mpr h] using ih
      · simp only [List.filter_cons, hname, decide_true, List.lookup_cons, ne_eq,
          not_false_eq_true, if_true] at ih ⊢
        rw [ih]
  unfold decisions?
  rw [hlookup]

theorem decisions?_store_of_ne (file : Store.File) (d : Disk) (h : full ≠ location env path) :
    (d.store env path file).decisions? full = d.decisions? full := by
  cases file with
  | foreign => rfl
  | database db =>
    unfold decisions? store
    rw [Files.lookup_put_of_ne _ _ h]

theorem decisions?_store_self (db : Database) (d : Disk) :
    (d.store env path (.database db)).decisions? (location env path) =
      some (db.perms.getD []) := by
  unfold decisions? store
  rw [Files.lookup_put_self]
  rfl

/-- A database that is written back with the decisions it was read with changes none. -/
theorem decisions?_store_of_content (hfile : file.decisions? = (d'.content env path).decisions?)
    (h : full = location env path → d'.decisions? full = d.decisions? full) :
    (d.store env path file).decisions? full = d.decisions? full := by
  by_cases hfull : full = location env path
  · cases file with
    | foreign => rfl
    | database db =>
      unfold content at hfile
      dsimp only at hfile
      split at hfile
      · cases hfile
      · rw [← h hfull, hfull, decisions?_store_self]
        exact hfile
  · exact decisions?_store_of_ne file d hfull

theorem databases_makeDirectories (dirs : List String) (d : Disk) :
    (dirs.foldl (·.makeDirectory ·) d).databases = d.databases := by
  induction dirs generalizing d with
  | nil => rfl
  | cons dir rest ih =>
    rw [List.foldl_cons, ih]
    unfold makeDirectory
    split <;> rfl

end Disk

namespace Session

variable {s st : Session} {path placesPath level full : String} {fields : List Field}

/-- The run `st` that began as `s` has written no decision so far. -/
structure Unwritten (s st : Session) : Prop where
  environment : st.environment = s.environment
  now : st.now = s.now
  lag : st.lag = s.lag
  unconnected : st.store.isInitialized = false
  decisions : ∀ full, st.disk.decisions? full = s.disk.decisions? full

theorem Unwritten.later (h : Unwritten s st) : st.later = s.later := by
  rw [Session.later, Session.later, h.now, h.lag]

theorem keeps_makeDirectories {σ : Type} {I : σ → Prop} (env : Environment) (files : Files) :
    (Settings.makeDirectories env files).Keeps I := by
  refine .forM (fun dir => .during _ ?_) _
  unfold Settings.makeDirectory
  split
  · exact .fail _
  · exact .pure _

theorem keeps_onDatabase {α : Type} {a : Action Store α} (path : String)
    (ha : ∀ decisions, a.Keeps fun st => st.file.decisions? = decisions) :
    (onDatabase path a).Keeps (Unwritten s) := by
  intro fields st h
  refine ⟨h.environment, h.now, h.lag, h.unconnected, fun full => ?_⟩
  have hkept := ha _ fields (st.disk.handle st.environment path none) rfl
  exact (Disk.decisions?_store_of_content hkept fun _ => rfl).trans (h.decisions full)

-- The table of visits is made beside that of decisions.
theorem keeps_openHistory : openHistory.Keeps (Unwritten s) := by
  refine Action.Keeps.get.bind fun st => keeps_onDatabase _ fun decisions => ?_
  refine keeps_establish.bind fun _ fields st h => ?_
  have hmigrate : ∀ t, (Database.migrate Database.historySchema).Keeps
      fun d => d.perms.getD [] = t := fun t =>
    Database.keeps_migrate_of (fun _ _ h => h) fun _ => .modify fun _ h => h
  unfold Store.onDatabase
  cases hfile : st.file with
  | foreign => exact h
  | database d =>
    rw [hfile] at h
    rw [← h]
    exact congrArg some (hmigrate _ fields d rfl)

theorem keeps_start : (start path placesPath level).Keeps (Unwritten s) := by
  refine .during _ (Action.Keeps.get.bind fun s₀ => ?_)
  refine (keeps_makeDirectories _ _).bind fun _ => ?_
  refine Action.Keeps.bind (.modify fun st h => ?_) fun _ => ?_
  · refine ⟨h.environment, h.now, h.lag, h.unconnected, fun full => ?_⟩
    rw [← h.decisions full]
    unfold Disk.decisions?
    rw [Disk.databases_makeDirectories]
  · have hload : (onProfile Settings.Profile.load).Keeps (Unwritten s) := by
      intro fields st h
      exact ⟨h.environment, h.now, h.lag, h.unconnected, h.decisions⟩
    refine (hload.during _).bind fun _ => ?_
    refine Action.Keeps.bind (.modify fun st h => ?_) fun _ => ?_
    · exact ⟨h.environment, h.now, h.lag, h.unconnected, h.decisions⟩
    · refine (keeps_openHistory.during _).bind fun _ => .modify fun st h => ?_
      exact ⟨h.environment, h.now, h.lag, rfl, h.decisions⟩

/-- A run that was started has a new handle on the store that the settings name. -/
theorem store_of_start (h : (start path placesPath level).Gives fields s () st) :
    ∃ history, st.store =
      st.disk.settle.handle s.environment st.settings.database.path history := by
  obtain ⟨_, _, hget, h⟩ := Action.gives_of_bind (Action.gives_of_during h)
  cases hget.answer
  obtain ⟨_, _, -, h⟩ := Action.gives_of_bind h
  obtain ⟨_, _, -, h⟩ := Action.gives_of_bind h
  obtain ⟨_, _, -, h⟩ := Action.gives_of_bind h
  obtain ⟨_, _, -, h⟩ := Action.gives_of_bind h
  obtain ⟨_, s₁, -, h⟩ := Action.gives_of_bind h
  cases h.state
  exact ⟨_, rfl⟩

theorem Unwritten.finish (h : Unwritten s st) (hfull : full ≠ Disk.inMemory) :
    st.finish.decisions? full = s.disk.decisions? full := by
  unfold Session.finish
  rw [if_neg (by simp [h.unconnected]), Disk.decisions?_settle hfull, h.decisions]

/-- Printing after the store was used hides nothing of what was done to it. -/
theorem onStore_printLine (a : Action Store Unit) (line : String) :
    let o := (onStore a >>= fun _ => printLine line) fields st
    let done := a fields st.store
    o.answer = done.answer ∧ o.state.store = done.state ∧
      o.state.finish = ({ st with store := done.state } : Session).finish := by
  intro o done
  have hanswer : (onStore a fields st).answer = done.answer := rfl
  have hstate : (onStore a fields st).state = { st with store := done.state } := rfl
  unfold o
  rw [Action.answer_bind, Action.state_bind, hanswer, hstate]
  cases done.answer with
  | error e => exact ⟨rfl, rfl, rfl⟩
  | ok _ => exact ⟨rfl, rfl, rfl⟩

/-- A store that is written back with the decisions it was opened with changes none. -/
theorem Unwritten.finish_of_shows (h : Unwritten s st) {history : Option History} {left : Store}
    (hstore : st.store = st.disk.settle.handle s.environment path history)
    (hleft : left.Shows st.store.path st.store.file.decisions?) (hfull : full ≠ Disk.inMemory) :
    ({ st with store := left } : Session).finish.decisions? full = s.disk.decisions? full := by
  unfold Session.finish
  rw [Disk.decisions?_settle hfull, ← h.decisions full]
  dsimp only
  split
  · have hkept : left.file.decisions? = (st.disk.settle.content s.environment path).decisions? := by
      rw [hleft.decisions, hstore]
      rfl
    rw [hleft.path, h.environment, hstore]
    exact Disk.decisions?_store_of_content hkept fun _ => Disk.decisions?_settle hfull
  · rfl

/-- A store that was opened is written back as it is. -/
theorem Unwritten.finish_of_ready (h : Unwritten s st) {left : Store} {t : Table}
    (hready : left.Ready t) (hconnection : left.connection = .ready)
    (hfull : Disk.location s.environment left.path ≠ Disk.inMemory) :
    ({ st with store := left } : Session).finish.decisions?
      (Disk.location s.environment left.path) = some t := by
  obtain ⟨d, hfile, hperms⟩ := hready.holds
  unfold Session.finish
  rw [Disk.decisions?_settle hfull]
  have hinitialized : left.isInitialized = true := by simp [isInitialized, hconnection]
  dsimp only
  rw [if_pos hinitialized, h.environment, hfile, Disk.decisions?_store_self, hperms]
  rfl

end Session

end Consent

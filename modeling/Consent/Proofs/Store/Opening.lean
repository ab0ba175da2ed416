import Consent.Proofs.Store.Carried
import Consent.Proofs.Store.Upkeep

/-! Handles before and after they are opened, and files that an earlier handle has migrated. -/

namespace Consent.Store

open Host Log

variable {fields : List Field} {s s' : Store} {now : Instant} {t : Table}

namespace Database

variable [SuffixList] {ι : Type} {ask : AskIndex ι} {index : ι} {d d' : Database}

theorem versions_of_upgrade {v : Int}
    (h : (upgrade (permissionSchema ask index now) v).Gives fields d () d') :
    d'.versions = some (d.versions.getD [] ++ [v]) := by
  obtain ⟨d₁, happly, rfl⟩ := apply_of_upgrade h
  have hsame : d₁.versions = d.versions := by
    unfold permissionSchema at happly
    dsimp only at happly
    split at happly
    · rw [← happly.state]
      rfl
    · split at happly
      · rw [← happly.state]
        rfl
      · obtain ⟨_, -, rfl, -⟩ := eq_of_carryHosts happly
        rfl
  rw [hsame]

theorem versions_of_forM {us : List Int}
    (h : (us.forM (upgrade (permissionSchema ask index now))).Gives fields d () d') :
    d'.versions.getD [] = d.versions.getD [] ++ us := by
  induction us generalizing d with
  | nil =>
    cases h.state
    simp
  | cons u rest ih =>
    obtain ⟨_, d₁, hu, hrest⟩ := Action.gives_of_bind h
    rw [ih hrest, versions_of_upgrade hu]
    simp

/-- A migration that succeeds has recorded all versions. -/
theorem versions_of_migrate
    (h : (migrate (permissionSchema ask index now)).Gives fields d () d') :
    ∀ v ∈ [1, 2, 3], v ∈ d'.versions.getD [] := by
  intro v hv
  have hrun := forM_of_migrate h
  rw [versions_of_forM hrun, List.mem_append]
  by_cases hold : v ∈ d.begun.versions.getD []
  · exact Or.inl hold
  · refine Or.inr (List.mem_filter.mpr ⟨hv, ?_⟩)
    simpa using hold

end Database

/-- A handle that was not opened so far. It has a connection only if its path can be reached. -/
structure Waiting (s : Store) : Prop where
  opened : s.opened = false
  notClosed : s.closed = false
  reached : s.connection = .ready → s.path ≠ "" ∧ s.obstacle = none

/-- The file was migrated, has the table `t`, and can be reached. -/
structure Prepared (s : Store) (t : Table) : Prop where
  path : s.path ≠ ""
  obstacle : s.obstacle = none
  migrated : ∃ d, s.file = .database d ∧ d.Migrated t

/-- A new handle on the same file, with a history of its own. -/
def renewed (history : Option History) (s : Store) : Store := { s.reopened with history }

@[simp] theorem file_renewed (history : Option History) (s : Store) :
    (s.renewed history).file = s.file := rfl

theorem waiting_renewed (history : Option History) (s : Store) : (s.renewed history).Waiting :=
  ⟨rfl, rfl, fun h => by cases h⟩

theorem state_establish (s : Store) : (establish fields s).state = s :=
  keeps_establish (I := (· = s)) fields s rfl

theorem reached_of_establish (h : (establish fields s).answer = .ok ()) :
    s.path ≠ "" ∧ s.obstacle = none := by
  unfold establish at h
  rw [Action.answer_bind] at h
  dsimp only [Action.answer_get, Action.state_get] at h
  split at h
  · cases h
  · rename_i hpath
    cases hobstacle : s.obstacle with
    | some file => simp [hobstacle] at h
    | none => exact ⟨hpath, rfl⟩

theorem keeps_connect_waiting : connect.Keeps Waiting := by
  intro fields s h
  unfold connect
  rw [Action.state_bind]
  dsimp only [Action.answer_get, Action.state_get]
  rw [if_neg (by simp [h.notClosed])]
  cases hconnection : s.connection with
  | ready => exact h
  | failed cause => exact h
  | untried =>
    simp only [Action.state_bind, Action.answer_emit, Action.state_emit, Action.answer_attempt,
      Action.state_attempt, state_establish]
    cases hreply : (establish fields s).answer with
    | ok u =>
      have hreached : s.path ≠ "" ∧ s.obstacle = none := reached_of_establish hreply
      exact ⟨h.opened, h.notClosed, fun _ => hreached⟩
    | error e => exact ⟨h.opened, h.notClosed, fun hready => by cases hready⟩

theorem keeps_onDatabase_waiting {α : Type} (a : Action Database α) :
    (onDatabase a).Keeps Waiting := by
  intro fields s h
  unfold onDatabase
  cases s.file with
  | foreign => exact h
  | database d => exact ⟨h.opened, h.notClosed, h.reached⟩

theorem connection_of_connect (h : connect.Gives fields s () s') :
    s' = { s with connection := .ready } ∧
      (s.connection = .ready ∨ s.path ≠ "" ∧ s.obstacle = none) := by
  unfold connect at h
  obtain ⟨_, _, hget, h⟩ := Action.gives_of_bind h
  cases hget.answer
  cases hget.state
  split at h
  · cases h.answer
  · split at h
    · rename_i hready
      cases h.state
      refine ⟨?_, Or.inl hready⟩
      cases s
      simp_all
    · cases h.answer
    · obtain ⟨_, _, hemit, h⟩ := Action.gives_of_bind h
      cases hemit.state
      obtain ⟨reply, s₁, hattempt, h⟩ := Action.gives_of_bind h
      have hreply : (establish fields s).answer = reply := Except.ok.inj hattempt.answer
      obtain rfl : s = s₁ := (state_establish s).symm.trans hattempt.state
      split at h
      · exact ⟨h.state.symm, Or.inr (reached_of_establish hreply)⟩
      · obtain ⟨_, _, -, h⟩ := Action.gives_of_bind h
        obtain ⟨_, _, -, h⟩ := Action.gives_of_bind h
        cases h.answer

section Open

variable [SuffixList]

/-- What opening a handle leaves if it succeeds. -/
theorem eq_of_ensureOpen (hopened : s.opened = false) (h : (ensureOpen now).Gives fields s () s') :
    ∃ d d₁ t, s.file = .database d ∧
      (Database.migrate (Database.schemaWith now s.history)).Gives fields d () d₁ ∧
      d₁.perms = some t ∧ (s.connection = .ready ∨ s.path ≠ "" ∧ s.obstacle = none) ∧
      s' = s.openedOn d₁ t := by
  unfold ensureOpen at h
  obtain ⟨_, _, hget, h⟩ := Action.gives_of_bind h
  cases hget.answer
  cases hget.state
  rw [if_neg (by simp [hopened])] at h
  obtain ⟨_, s₁, hconnect, h⟩ := Action.gives_of_bind h
  obtain ⟨_, s₂, hmigrate, h⟩ := Action.gives_of_bind h
  obtain ⟨dropped, s₃, hdrop, h⟩ := Action.gives_of_bind h
  obtain ⟨rfl, hreached⟩ := connection_of_connect hconnect
  obtain ⟨d, d₁, hfile, hmigrated, rfl⟩ := file_of_onDatabase hmigrate
  obtain ⟨_, d₂, hfile₂, hdropped, rfl⟩ := file_of_onDatabase (Action.gives_of_during hdrop)
  cases hfile₂
  obtain ⟨t, hperms, -, rfl⟩ := perms_of_withPerms hdropped
  refine ⟨d, d₁, t, hfile, hmigrated, hperms, hreached, ?_⟩
  split at h
  · obtain ⟨_, _, hemit, h⟩ := Action.gives_of_bind h
    cases hemit.state
    exact h.state.symm
  · exact h.state.symm

-- Only the last step marks the handle as open, and that step does not fail.
theorem keepsOnFailure_ensureOpen : (ensureOpen now).KeepsOnFailure Waiting := by
  refine .bind .get fun s => ?_
  split
  · exact (Action.Keeps.pure _).onFailure
  · refine .bind keeps_connect_waiting fun _ => ?_
    refine .bind (keeps_onDatabase_waiting _) fun _ => ?_
    refine .bind (.during _ (keeps_onDatabase_waiting _)) fun dropped => ?_
    split
    · exact .bind (.emit _ _ _) fun _ => .modify _
    · exact .modify _

/-- A handle is opened with a migrated table without decisions of a session, or it goes on
waiting. -/
theorem Waiting.acquire_cases (h : s.Waiting) (hkeyed : s.Keyed) (fields : List Field)
    (now : Instant) :
    (∃ s₁ t, (acquire now).Gives fields s () s₁ ∧ s₁.Ready t ∧ s₁.Prepared t ∧ t.Keyed ∧
        ∀ row ∈ t, row.isSession = false) ∨
      ∃ e, (acquire now fields s).answer = .error e ∧ (acquire now fields s).state.Waiting ∧
        (acquire now fields s).state.Keyed := by
  have hkept : (acquire now fields s).state.Keyed := keeps_acquire now fields s hkeyed
  cases hanswer : (ensureOpen now fields s).answer with
  | error e =>
    have hstate : (acquire now fields s).state = (ensureOpen now fields s).state := by
      unfold acquire
      rw [Action.state_bind, hanswer]
    refine Or.inr ⟨e, ?_, ?_, hkept⟩
    · unfold acquire
      rw [Action.answer_bind, hanswer]
    · rw [hstate]
      exact keepsOnFailure_ensureOpen fields s e h hanswer
  | ok _ =>
    have hopen : (ensureOpen now).Gives fields s () _ := ⟨hanswer, rfl⟩
    obtain ⟨d, d₁, t, hfile, hmigrate, hperms, hreached, hstate⟩ := eq_of_ensureOpen h.opened hopen
    have hversions := Database.versions_of_migrate hmigrate
    rw [hstate] at hopen
    have hready := ready_openedOn h.notClosed d₁ t
    have hacquire := gives_acquire_of_ensureOpen hopen hready.notClosed
    obtain ⟨hpath, hobstacle⟩ : s.path ≠ "" ∧ s.obstacle = none := hreached.elim h.reached id
    rw [hacquire.state] at hkept
    refine Or.inl ⟨_, _, hacquire, hready, ⟨hpath, hobstacle, _, rfl, hversions, rfl⟩,
      hkept _ rfl _ rfl, fun row hrow => ?_⟩
    simpa using (List.mem_filter.mp hrow).2

/-- Opening a later handle on a migrated file drops what lasts only for a session and does nothing
else to the file. -/
theorem Prepared.gives_acquire (h : s.Prepared t) (history : Option History) :
    ∃ d, s.file = .database d ∧ d.perms = some t ∧ ∀ fields now,
      (acquire now).Gives fields (s.renewed history) () ((s.renewed history).openedOn d t) := by
  obtain ⟨d, hfile, hmigrated⟩ := h.migrated
  have hunopened : (s.renewed history).Unopened d := ⟨h.path, h.obstacle, hfile, rfl, rfl, rfl⟩
  exact ⟨d, hfile, hmigrated.perms, hunopened.gives_acquire hmigrated⟩

end Open

/-- The file was migrated and can be reached. -/
def IsPrepared (s : Store) : Prop := ∃ t, s.Prepared t

theorem keeps_onDatabase_prepared {α : Type} {a : Action Database α}
    (ha : a.Keeps fun d => ∃ t, d.Migrated t) : (onDatabase a).Keeps IsPrepared := by
  rintro fields s ⟨t, h⟩
  obtain ⟨d, hfile, hmigrated⟩ := h.migrated
  obtain ⟨t', hmigrated'⟩ := ha fields d ⟨t, hmigrated⟩
  unfold onDatabase
  rw [hfile]
  exact ⟨t', h.path, h.obstacle, _, rfl, hmigrated'⟩

theorem Database.keeps_withPerms_migrated {α : Type} (f : Table → α × Table) :
    (Database.withPerms f).Keeps fun d => ∃ t, d.Migrated t := by
  rintro fields d ⟨t, h⟩
  have hgives : (Database.withPerms f).Gives fields d _ _ := gives_withPerms h.perms
  rw [hgives.state]
  exact ⟨(f t).2, h.versions, rfl⟩

theorem keeps_withPerms_prepared {α : Type} (f : Table → α × Table) :
    (onDatabase (Database.withPerms f)).Keeps IsPrepared :=
  keeps_onDatabase_prepared (Database.keeps_withPerms_migrated f)

section Keeps

variable [SuffixList]

theorem keeps_acquire_prepared (now : Instant) : (acquire now).Keeps IsPrepared := by
  refine keeps_acquire_of ?_ (fun history => ?_) (keeps_withPerms_prepared _) ?_
  · exact keeps_connect fun s c ⟨t, h⟩ => ⟨t, h.path, h.obstacle, h.migrated⟩
  · refine keeps_onDatabase_prepared ?_
    rintro fields d ⟨t, h⟩
    rw [(Database.gives_migrate_of_migrated fields now history h).state]
    exact ⟨t, h⟩
  · rintro s ⟨t, h⟩
    exact ⟨t, h.path, h.obstacle, h.migrated⟩

/-- No operation undoes the migration of a file. -/
theorem keeps_repository_prepared (now : Instant) : (repository now).Keeps IsPrepared := by
  have hserve : ∀ {α : Type} {before : Action Store Unit} (f : Table → α × Table),
      before.Keeps IsPrepared → (serve now before f).Keeps IsPrepared := fun f hbefore =>
    keeps_serve_of (keeps_acquire_prepared now) hbefore (keeps_withPerms_prepared f)
  constructor
  · exact fun _ _ => hserve _ (.emit _ _ _)
  · exact fun _ => hserve _ (.emit _ _ _)
  · exact fun _ _ => hserve _ (.emit _ _ _)
  · exact fun _ => hserve _ (.emit _ _ _)
  · exact hserve _ (.pure _)
  · exact hserve _ (.emit _ _ _)
  · exact fun _ => hserve _ (.pure _)
  · exact hserve _ (.pure _)

end Keeps

end Consent.Store

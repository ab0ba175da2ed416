import Consent.Proofs.Store.Opening

/-! An operation that fails leaves the decisions in the file of its store as they were. -/

namespace Consent

open Host Log

namespace Store

/-- The decisions in a file. Something else than a database has none at all. -/
def File.decisions? : File → Option Table
  | .database d => some (d.perms.getD [])
  | .foreign => none

namespace Database

variable [SuffixList] {ι : Type} {ask : AskIndex ι} {index : ι} {now : Instant}
  {fields : List Field} {d d' : Database}

theorem keeps_upgrade_decisions {t : Table} {v : Int} (hv : v = 1 ∨ v = 2) :
    (upgrade (permissionSchema ask index now) v).Keeps fun d => d.perms.getD [] = t := by
  refine keeps_upgrade (fun _ _ h => h) ?_
  rcases hv with rfl | rfl
  · exact .modify fun _ h => h
  · exact .modify fun _ h => h

-- Only the last version stores decisions, and if it fails it is undone.
theorem keepsOnFailure_migrate (t : Table) :
    (migrate (permissionSchema ask index now)).KeepsOnFailure fun d => d.perms.getD [] = t := by
  have hundone : ∀ v, (upgrade (permissionSchema ask index now) v).KeepsOnFailure
      fun d => d.perms.getD [] = t := by
    intro v fields d e h hfails
    have hstate : (upgrade (permissionSchema ask index now) v fields d).state = d :=
      Action.state_transact_of_error hfails
    rw [hstate]
    exact h
  have hkeeps : permissionVersions.Pairwise fun v _ =>
      (upgrade (permissionSchema ask index now) v).Keeps fun d => d.perms.getD [] = t := by
    simp [permissionVersions, keeps_upgrade_decisions]
  intro fields d e h hfails
  obtain ⟨hanswer, hstate⟩ := migrate_eq_applyDue (permissionSchema ask index now) fields d
  rw [hanswer] at hfails
  rw [hstate]
  rcases applyDue_cases (permissionSchema ask index now) fields d.begun with
    ⟨us, -, hdue, hrun⟩ | ⟨e', hrun⟩
  · obtain ⟨rfl, -⟩ := due_eq_ok_iff.mp hdue
    rw [hrun] at hfails ⊢
    have hforM : ((d.begun.pending permissionVersions).forM
        (upgrade (permissionSchema ask index now))).KeepsOnFailure fun d => d.perms.getD [] = t :=
      .forM hundone (hkeeps.filter _)
    exact (hforM.during (.runMigrations "permissions")) fields d.begun e h hfails
  · rw [hrun]
    exact h

/-- No version takes a table of decisions away. -/
theorem perms_of_upgrade {v : Int}
    (h : (upgrade (permissionSchema ask index now) v).Gives fields d () d')
    (hnone : d'.perms = none) : d.perms = none := by
  obtain ⟨d₁, happly, rfl⟩ := apply_of_upgrade h
  unfold permissionSchema at happly
  dsimp only at happly
  split at happly
  · cases happly.state
    exact hnone
  · split at happly
    · cases happly.state
      cases hnone
    · obtain ⟨_, -, rfl, -⟩ := eq_of_carryHosts happly
      exact Option.map_eq_none_iff.mp hnone

theorem perms_of_migrate (h : (migrate (permissionSchema ask index now)).Gives fields d () d')
    (hnone : d'.perms = none) : d.perms = none := by
  have hall : ∀ (us : List Int) {d₀ : Database},
      (us.forM (upgrade (permissionSchema ask index now))).Gives fields d₀ () d' →
      d₀.perms = none := by
    intro us
    induction us with
    | nil =>
      intro d₀ h
      cases h.state
      exact hnone
    | cons u rest ih =>
      intro d₀ h
      obtain ⟨_, d₁, hu, hrest⟩ := Action.gives_of_bind h
      exact perms_of_upgrade hu (ih hrest)
  have hbefore := hall _ (forM_of_migrate h)
  exact hbefore

end Database

/-- The handle is on a path, and its file holds decisions. -/
structure Shows (path : String) (decisions : Option Table) (s : Store) : Prop where
  path : s.path = path
  decisions : s.file.decisions? = decisions

variable {path : String} {decisions : Option Table}

theorem keepsOnFailure_onDatabase {α : Type} {a : Action Database α}
    (ha : ∀ t, a.KeepsOnFailure fun d => d.perms.getD [] = t) :
    (onDatabase a).KeepsOnFailure (Shows path decisions) := by
  intro fields s e h hfails
  unfold onDatabase at hfails ⊢
  cases hfile : s.file with
  | foreign => exact h
  | database d =>
    rw [hfile] at hfails
    have hkept := ha _ fields d e rfl hfails
    refine ⟨h.path, Eq.trans ?_ h.decisions⟩
    rw [hfile]
    exact congrArg some hkept

section Open

variable [SuffixList] {fields : List Field} {s : Store} {now : Instant}

/-- A handle that cannot be opened leaves the decisions in its file as they were. -/
theorem keepsOnFailure_ensureOpen_shows :
    (ensureOpen now).KeepsOnFailure (Shows path decisions) := by
  refine .bind .get fun s => ?_
  split
  · exact (Action.Keeps.pure _).onFailure
  · refine .bind (keeps_connect fun _ _ h => ⟨h.path, h.decisions⟩) fun _ => ?_
    refine .bind_of_gives (keepsOnFailure_onDatabase Database.keepsOnFailure_migrate) ?_
    intro fields s₁ _ s₂ h hmigrated e hfails
    obtain ⟨d, d₁, hfile, hmigrate, rfl⟩ := file_of_onDatabase hmigrated
    cases hperms : d₁.perms with
    | some t =>
      -- From a table the decisions of a session can be dropped, and nothing is left to fail.
      have hdrop : (Database.deleteWhere Row.isSession).Gives fields d₁ _ _ :=
        gives_withPerms hperms
      have hdropped := (gives_onDatabase (s := { s₁ with file := .database d₁ }) rfl hdrop).during
        .dropSession
      rw [Action.answer_bind, hdropped.answer] at hfails
      dsimp only at hfails
      split at hfails <;> cases hfails
    | none =>
      have hbefore : d.perms = none := Database.perms_of_migrate hmigrate hperms
      have hshown : Shows path decisions { s₁ with file := .database d₁ } := by
        refine ⟨h.path, Eq.trans ?_ h.decisions⟩
        rw [hfile]
        simp [File.decisions?, hperms, hbefore]
      have hfailed : (onDatabase (Database.deleteWhere Row.isSession) fields
          { s₁ with file := .database d₁ }).answer = .error .storage := by
        simp [onDatabase, Database.deleteWhere, Database.withPerms, Action.answer_bind, hperms]
      have hstate : (onDatabase (Database.deleteWhere Row.isSession) fields
          { s₁ with file := .database d₁ }).state = { s₁ with file := .database d₁ } := by
        simp [onDatabase, Database.deleteWhere, Database.withPerms, Action.state_bind, hperms]
      rw [Action.state_bind, Action.answer_during, Action.state_during, hfailed, hstate]
      exact hshown

/-- A handle is opened, or its file keeps its decisions. -/
theorem acquire_alternatives (hopened : s.opened = false) (hclosed : s.closed = false)
    (fields : List Field) (now : Instant) :
    (∃ s₁ t, (acquire now).Gives fields s () s₁ ∧ s₁.Ready t ∧ s₁.connection = .ready ∧
        s₁.path = s.path) ∨
      ∃ e, (acquire now fields s).answer = .error e ∧
        (acquire now fields s).state.Shows s.path s.file.decisions? := by
  cases hanswer : (ensureOpen now fields s).answer with
  | error e =>
    refine Or.inr ⟨e, ?_, ?_⟩
    · unfold acquire
      rw [Action.answer_bind, hanswer]
    · unfold acquire
      rw [Action.state_bind, hanswer]
      exact keepsOnFailure_ensureOpen_shows fields s e ⟨rfl, rfl⟩ hanswer
  | ok _ =>
    have hopen : (ensureOpen now).Gives fields s () _ := ⟨hanswer, rfl⟩
    obtain ⟨d, d₁, t, -, -, -, -, hstate⟩ := eq_of_ensureOpen hopened hopen
    rw [hstate] at hopen
    have hready := ready_openedOn hclosed d₁ t
    exact Or.inl ⟨_, _, gives_acquire_of_ensureOpen hopen hready.notClosed, hready, rfl, rfl⟩

end Open

end Store

end Consent

import Consent.Proofs.Handle.Task
import Consent.Proofs.Store.Resumption

/-! A handle on a database that cannot be migrated. It stays shut and leaves all rows as they are,
and every call that needs it open tries the migration again. -/

namespace Consent.Store

open Host Legacy Log

/-- Making the tables that are missing does not depend on the time. -/
theorem staged_schema [SuffixList] (history : Option History) :
    Database.Staged (Upgrades.schema history) :=
  Database.staged_of_last "permissions" fun now =>
    Database.carryHosts (Database.askHistory history) (history.getD {}) now

section Stalled

variable [Upgrades] {history : Option History} {s : Store} {d d' : Database}

/-- A handle on what failed migrations have left of `d`. -/
structure Stalled (history : Option History) (d : Database) (s : Store) (d' : Database) : Prop where
  reaches : s.Reaches d'
  asks : s.history = history
  resumes : Database.Resumes (Upgrades.schema history) d d'

/-- A call that tries to open the handle when the migration fails. -/
theorem Stalled.run_of_error (h : Stalled history d s d') {call : Call} {e : Failure}
    (hopens : call.task.opens = true)
    (hfails : (Database.migrate (Upgrades.schema history call.now) call.fields d').answer =
      .error e) :
    let attempt := Database.migrate (Upgrades.schema history call.now) call.fields d'
    ∃ before, call.run s =
      ⟨.error e, { s with connection := .ready, file := .database attempt.state },
        before ++ attempt.log⟩ := by
  obtain rfl := h.asks
  obtain ⟨before, hopen⟩ := h.reaches.ensureOpen_of_error hfails
  exact ⟨before, Task.make_of_error hopens hopen⟩

theorem Stalled.phase (h : Stalled history d s d') (fields : List Field) :
    (Store.phase fields s).answer = d.phase ∧
      (Store.phase fields s).state = { s with connection := .ready } := by
  rw [← h.resumes.phase]
  exact phase_of_connect h.reaches.gives_connect h.reaches.file

/-- One call leaves the handle as far as it was. -/
theorem Stalled.step (hstaged : Database.Staged (Upgrades.schema history))
    (h : Stalled history d s d') {call : Call} (hclose : call.task ≠ .close)
    (hfails : call.task.opens = true → ∃ e,
      (Database.migrate (Upgrades.schema history call.now) call.fields d).answer = .error e) :
    ∃ d'', Stalled history d (call.run s).state d'' := by
  cases hopens : call.task.opens with
  | true =>
    obtain ⟨e, he⟩ := hfails hopens
    rw [← h.resumes.answer] at he
    obtain ⟨before, hrun⟩ := h.run_of_error hopens he
    have hresumes := h.resumes.trans (hstaged.resumes h.resumes.version he)
    rw [hrun]
    exact ⟨_, ⟨h.reaches.path, h.reaches.obstacle, rfl, Or.inr rfl, h.reaches.opened,
      h.reaches.closed⟩, h.asks, hresumes⟩
  | false =>
    have hphase : call.task = .phase := (Task.eq_of_not_opens hopens).resolve_right hclose
    have hrun : (call.run s).state = { s with connection := .ready } := by
      unfold Call.run
      rw [hphase, Task.make_phase.2]
      exact (h.phase call.fields).2
    rw [hrun]
    exact ⟨d', ⟨h.reaches.path, h.reaches.obstacle, h.reaches.file, Or.inr rfl, h.reaches.opened,
      h.reaches.closed⟩, h.asks, h.resumes⟩

theorem Stalled.runAll (hstaged : Database.Staged (Upgrades.schema history)) (calls : List Call)
    (h : Stalled history d s d') (hcalls : ∀ call ∈ calls, call.task ≠ .close)
    (hfails : ∀ call ∈ calls, call.task.opens = true → ∃ e,
      (Database.migrate (Upgrades.schema history call.now) call.fields d).answer = .error e) :
    ∃ d'', Stalled history d (Store.runAll calls s) d'' := by
  induction calls generalizing s d' with
  | nil => exact ⟨d', h⟩
  | cons call rest ih =>
    obtain ⟨d₁, hstep⟩ := h.step hstaged (hcalls call List.mem_cons_self)
      (hfails call List.mem_cons_self)
    exact ih hstep (fun c hc => hcalls c (List.mem_cons_of_mem call hc))
      (fun c hc => hfails c (List.mem_cons_of_mem call hc))

/-- A handle on a database whose migration fails before its last version is done, whatever that
version does, and calls of any kind except closing it. All tables that the database has keep their
rows, those of a session included, and the handle is not open. It reports that a migration is
needed, unless the migration does not even begin because versions are missing, which is then
reported. The next call that needs the handle open tries the migration on what is there. That attempt
ends as it would have if there had been none before. If it fails, the call answers its error and
again changes no row; if it succeeds, the handle opens. -/
theorem failed_migration_keeps_shut (hs : s.Unopened d) (hversion : d.version < 3)
    (hstaged : Database.Staged (Upgrades.schema s.history)) (calls : List Call)
    (hcalls : ∀ call ∈ calls, call.task ≠ .close)
    (hfails : ∀ call ∈ calls, call.task.opens = true → ∃ e,
      (Database.migrate (Upgrades.schema s.history call.now) call.fields d).answer = .error e) :
    let s' := Store.runAll calls s
    let missing := d.missing Database.permissionVersions
    ∃ d', s'.file = .database d' ∧ d.SameRows d' ∧ s'.opened = false ∧
      (∀ fields, (Store.phase fields s').state.file = s'.file ∧
        (missing = [] → (Store.phase fields s').answer = .ok .needed) ∧
        (missing ≠ [] → (Store.phase fields s').answer =
            .error (.during .checkPending (.outOfOrder missing d.version)) ∧
          ∀ now, let schema := Upgrades.schema s.history now
            (Database.migrate schema fields d).answer =
              .error (.during (.runMigrations schema.name) (.outOfOrder missing d.version)))) ∧
      ∀ call : Call, call.task.opens = true →
        let attempt := Database.migrate (Upgrades.schema s.history call.now)
        let o := call.run s'
        (attempt call.fields d').answer = (attempt call.fields d).answer ∧
          (∀ e, (attempt call.fields d').answer = .error e →
            o.answer = .error e ∧ o.state.file = .database (attempt call.fields d').state ∧
              d.SameRows (attempt call.fields d').state ∧ o.state.opened = false ∧
              ∃ before, o.log = before ++ (attempt call.fields d').log) ∧
          ∀ d₁ t, attempt.Gives call.fields d' () d₁ → d₁.perms = some t →
            (ensureOpen call.now).Gives call.fields s' () (s'.openedOn d₁ t) := by
  intro s' missing
  have hstart : Stalled s.history d s d := ⟨hs.reaches, rfl, .refl hversion⟩
  obtain ⟨d', h⟩ := hstart.runAll hstaged calls hcalls hfails
  refine ⟨d', h.reaches.file, h.resumes.rows, h.reaches.opened, ?_, ?_⟩
  · intro fields
    obtain ⟨hanswer, hstate⟩ := h.phase fields
    rw [Database.phase_of_version_lt hversion] at hanswer
    refine ⟨by rw [hstate], fun hnone => ?_, fun hsome => ⟨?_, fun now => ?_⟩⟩
    · rw [hanswer, if_pos hnone]
    · rw [hanswer, if_neg hsome]
    · exact hstaged.answer_migrate_of_missing hsome now fields
  · intro call hopens attempt o
    refine ⟨h.resumes.answer call.now call.fields, ?_, ?_⟩
    · intro e he
      obtain ⟨before, hrun⟩ := h.run_of_error hopens he
      have hagain := (hstaged.resumes h.resumes.version he).rows
      have ho : o = _ := hrun
      rw [ho]
      exact ⟨rfl, rfl, h.resumes.rows.trans hagain, h.reaches.opened, before, rfl⟩
    · intro d₁ t hmigrate hperms
      have hhistory : s'.history = s.history := h.asks
      refine h.reaches.gives_ensureOpen ?_ hperms
      rw [hhistory]
      exact hmigrate

end Stalled

/-- A database of an earlier release whose table by host has lost a column. One decision is of a
session, and a stale table has a row. -/
def columnlessDatabase : Database where
  perms := some [
    ⟨1, "https://kept.example", "popup", .allow, .never, 0, 1600000000000⟩,
    ⟨2, "https://left.example", "popup", .allow, .session, 0, 1600000000000⟩]
  hosts := some ⟨["host", "type"], [(1, [.text "old.example", .text "popup"])]⟩
  others := ["moz_hosts_is_backup"]
  held := [("moz_hosts_is_backup", ⟨["host"], [(1, [.text "older.example"])]⟩)]

def columnlessStore : Store :=
  { path := "permissions.db", file := .database columnlessDatabase }

def stalledCalls : List Call := [
  { now := .atMillis 1700000000000, task := .read .list },
  { now := .atMillis 1700000001000, task := .phase },
  { now := .atMillis 1700000002000, task := .write .deleteAll },
  { now := .atMillis 1700000003000, task := .setNothing },
  { now := .atMillis 1700000004000, task := .migrate }]

/-- Neither deleting all decisions nor asking for the contents gets at the rows. -/
theorem failed_migration_keeps_shut_columnless :
    let s' := runAll stalledCalls columnlessStore
    let call : Call := { now := .atMillis 1700000005000, task := .contents }
    (∃ d', s'.file = .database d' ∧ columnlessDatabase.SameRows d') ∧ s'.opened = false ∧
      (phase.run s').answer = .ok .needed ∧
      (call.run s').answer = .error (.during (.runMigrations "permissions") .storage) := by
  intro s' call
  have hs : columnlessStore.Unopened columnlessDatabase := ⟨by decide, rfl, rfl, rfl, rfl, rfl⟩
  have hfails : ∀ now,
      (Database.migrate (Upgrades.schema none now) [] columnlessDatabase).answer =
        .error (.during (.runMigrations "permissions") .storage) := by
    intro now
    rfl
  have hopen : ∀ c ∈ stalledCalls, c.task ≠ .close := by
    simp [stalledCalls]
  have hcalls : ∀ c ∈ stalledCalls, c.task.opens = true → ∃ e,
      (Database.migrate (Upgrades.schema columnlessStore.history c.now) c.fields
        columnlessDatabase).answer = .error e := by
    intro c hc _
    have hfields : c.fields = [] := by
      simp only [stalledCalls, List.mem_cons, List.not_mem_nil, or_false] at hc
      rcases hc with rfl | rfl | rfl | rfl | rfl <;> rfl
    rw [hfields]
    exact ⟨_, hfails c.now⟩
  obtain ⟨d', hfile, hrows, hshut, hphase, hnext⟩ := failed_migration_keeps_shut hs (by decide)
    (staged_schema none) stalledCalls hopen hcalls
  obtain ⟨-, hneeded, -⟩ := hphase []
  obtain ⟨hsame, herror, -⟩ := hnext call rfl
  exact ⟨⟨d', hfile, hrows⟩, hshut, hneeded (by decide), (herror _ (hsame.trans (hfails _))).1⟩

end Consent.Store

import Consent.Proofs.Handle.Task
import Consent.Proofs.Store.Resumption

/-! The life of a handle on a database that can be migrated: it waits until a call opens it, serves
from then on, and does nothing any more once it is closed. -/

namespace Consent

open Host Legacy Log Store

/-- The first of some elements that comes after none but such as `Q`: it is the head, or the head is
such as `Q` and it comes later. -/
theorem exists_first_cons {α : Type} {P Q : α → Prop} {a : α} {l : List α} :
    (∃ before c after, a :: l = before ++ c :: after ∧ P c ∧ ∀ b ∈ before, Q b) ↔
      P a ∨ Q a ∧ ∃ before c after, l = before ++ c :: after ∧ P c ∧ ∀ b ∈ before, Q b := by
  constructor
  · rintro ⟨before, c, after, hl, hc, hbefore⟩
    cases before with
    | nil =>
      obtain ⟨rfl, rfl⟩ := List.cons.inj hl
      exact Or.inl hc
    | cons b rest =>
      obtain ⟨rfl, rfl⟩ := List.cons.inj hl
      have hall := List.forall_mem_cons.mp hbefore
      exact Or.inr ⟨hall.1, rest, c, after, rfl, hc, hall.2⟩
  · rintro (ha | ⟨ha, before, c, after, rfl, hc, hbefore⟩)
    · exact ⟨[], a, l, rfl, ha, by simp⟩
    · exact ⟨a :: before, c, after, rfl, hc, List.forall_mem_cons.mpr ⟨ha, hbefore⟩⟩

/-- How many rows of a table the change deletes, if it tells. -/
def Write.count (t : Table) : Write → Option Nat
  | .deleteExpired time => some (t.filter (·.isLapsed time)).length
  | .deleteSession => some (t.filter Row.isSession).length
  | _ => none

namespace Store

/-- What the task makes of the table of an open handle. -/
def Task.onTable (now : Instant) (t : Table) : Task → Table
  | .write w => w.onTable now t
  | _ => t

/-- What an open handle answers that holds the database `d` with the table `t`. -/
def Task.reply (d : Database) (t : Table) : Task → Except Failure Reply
  | .ensureOpen | .close => .ok .done
  | .migrate | .phase => .ok (.phase (.migrated d.version))
  | .contents => .ok (.contents d)
  | .read q => .ok (.records (q.select t))
  | .write w => .ok (.count (w.count t))
  | .setNothing => .error .missingRecord

variable {fields : List Field} {s s₁ : Store} {d d₁ : Database} {t : Table} {now : Instant}

theorem connect_of_closed (h : s.closed = true) : connect fields s = ⟨.error .closed, s, []⟩ := by
  unfold connect
  rw [Action.get_bind, if_pos h]
  rfl

theorem phase_of_closed (h : s.closed = true) : phase fields s = ⟨.error .closed, s, []⟩ :=
  Action.bind_of_error (connect_of_closed h)

section Closed

variable [Upgrades]

theorem ensureOpen_of_opened (h : s.opened = true) : ensureOpen now fields s = ⟨.ok (), s, []⟩ := by
  unfold ensureOpen
  rw [Action.get_bind, if_pos h]
  rfl

theorem ensureOpen_of_closed (hopened : s.opened = false) (h : s.closed = true) :
    ensureOpen now fields s = ⟨.error .closed, s, []⟩ := by
  unfold ensureOpen
  rw [Action.get_bind, if_neg (by simp [hopened])]
  exact Action.bind_of_error (connect_of_closed h)

theorem acquire_of_closed (h : s.closed = true) :
    acquire now fields s = ⟨.error .closed, s, []⟩ := by
  unfold acquire
  cases hopened : s.opened with
  | false => exact Action.bind_of_error (ensureOpen_of_closed hopened h)
  | true =>
    refine Action.bind_of_ok (ensureOpen_of_opened hopened) ?_
    rw [Action.get_bind, if_pos h]
    rfl

/-- Once the handle is closed nothing is done any more. Only closing it again succeeds and, if it
was open, asking to open it. -/
theorem Task.make_of_closed (h : s.closed = true) {task : Task} (hclose : task ≠ .close)
    (hopen : task ≠ .ensureOpen) : task.make now fields s = ⟨.error .closed, s, []⟩ := by
  cases task with
  | ensureOpen => exact absurd rfl hopen
  | close => exact absurd rfl hclose
  | phase => exact Action.bind_of_error (phase_of_closed h)
  | migrate =>
    refine Action.bind_of_error ?_
    cases hopened : s.opened with
    | false => exact Action.bind_of_error (ensureOpen_of_closed hopened h)
    | true => exact Action.bind_of_ok (ensureOpen_of_opened hopened) (phase_of_closed h)
  | _ => exact make_of_acquire_error rfl (acquire_of_closed h)

theorem Task.state_make_of_closed (h : s.closed = true) (task : Task) :
    (task.make now fields s).state = s := by
  cases task with
  | ensureOpen =>
    cases hopened : s.opened with
    | false => rw [make_of_error rfl (ensureOpen_of_closed hopened h)]
    | true =>
      have hdone : Task.ensureOpen.make now fields s = ⟨.ok .done, s, [] ++ []⟩ :=
        Action.bind_of_ok (ensureOpen_of_opened hopened) rfl
      rw [hdone]
  | close =>
    change { s with closed := true } = s
    rw [← h]
  | _ => rw [make_of_closed h (by simp) (by simp)]

theorem run_of_close {call : Call} (htask : call.task = .close) :
    (call.run s).answer = .ok .done ∧ (call.run s).state = s.close := by
  unfold Call.run
  rw [htask]
  exact ⟨rfl, rfl⟩

end Closed

section Open

variable [SuffixList]

theorem gives_write (hacquire : (acquire now).Gives fields s () s₁) (hready : s₁.Ready t)
    (w : Write) :
    (w.make (repository now)).Gives fields s (w.count t) (s₁.withTable (w.onTable now t)) := by
  cases w with
  | set r => exact (gives_serve hacquire hready (.emit _ _ _ _ _)).bind ⟨rfl, rfl⟩
  | delete origin kind => exact (gives_serve hacquire hready (.emit _ _ _ _ _)).bind ⟨rfl, rfl⟩
  | deleteAll => exact (gives_serve hacquire hready (.emit _ _ _ _ _)).bind ⟨rfl, rfl⟩
  | deleteExpired time => exact (gives_serve hacquire hready (.pure _ _ _)).bind ⟨rfl, rfl⟩
  | deleteSession => exact (gives_serve hacquire hready (.pure _ _ _)).bind ⟨rfl, rfl⟩

/-- A task that opens the handle does its own work on what that leaves, and nothing else. -/
theorem Task.make_of_ensureOpen {task : Task} (hopens : task.opens = true)
    (hopen : (Store.ensureOpen now).Gives fields s () s₁) (hready : s₁.Ready t)
    (hfile : s₁.file = .database d) (hconnection : s₁.connection = .ready)
    (hmigrated : d.phase = .ok (.migrated d.version)) :
    (task.make now fields s).answer = task.reply d t ∧
      (task.make now fields s).state = s₁.withTable (task.onTable now t) := by
  have hacquire := gives_acquire_of_ensureOpen hopen hready.notClosed
  have hsame : s₁.withTable t = s₁ := hready.withTable_self
  cases task with
  | ensureOpen =>
    have hmake : (Task.ensureOpen.make now).Gives fields s .done s₁ := hopen.bind ⟨rfl, rfl⟩
    exact ⟨hmake.answer, hmake.state.trans hsame.symm⟩
  | migrate =>
    obtain ⟨hanswer, hstate⟩ :=
      phase_of_connect (gives_connect_of_ready hready.notClosed hconnection) hfile
    have hphase : Store.phase.Gives fields s₁ (.migrated d.version) s₁ :=
      ⟨hanswer.trans hmigrated, hstate⟩
    have hmake : (Task.migrate.make now).Gives fields s (.phase (.migrated d.version)) s₁ :=
      (hopen.bind hphase).bind ⟨rfl, rfl⟩
    exact ⟨hmake.answer, hmake.state.trans hsame.symm⟩
  | phase => cases hopens
  | close => cases hopens
  | contents =>
    have hcontents : (onDatabase Action.get).Gives fields s₁ d { s₁ with file := .database d } :=
      gives_onDatabase hfile (.get fields d)
    have hmake : (Task.contents.make now).Gives fields s (.contents d)
        { s₁ with file := .database d } := (hacquire.bind hcontents).bind ⟨rfl, rfl⟩
    rw [← hfile] at hmake
    exact ⟨hmake.answer, hmake.state.trans hsame.symm⟩
  | read q =>
    have hmake : ((Task.read q).make now).Gives fields s (.records (q.select t)) s₁ :=
      (gives_read hacquire hready q).bind ⟨rfl, rfl⟩
    exact ⟨hmake.answer, hmake.state.trans hsame.symm⟩
  | write w =>
    have hmake : ((Task.write w).make now).Gives fields s (.count (w.count t))
        (s₁.withTable (w.onTable now t)) := (gives_write hacquire hready w).bind ⟨rfl, rfl⟩
    exact ⟨hmake.answer, hmake.state⟩
  | setNothing =>
    have hset : Store.setNothing now fields s = ⟨.error .missingRecord, s₁, _⟩ :=
      Action.bind_of_ok hacquire.outcome rfl
    have hmake : Task.setNothing.make now fields s = ⟨.error .missingRecord, s₁, _⟩ :=
      Action.bind_of_error hset
    rw [hmake]
    exact ⟨rfl, hsame.symm⟩

namespace Database

/-- A migration brings the database up to the last version. -/
theorem version_of_migrate {ι : Type} {ask : AskIndex ι} {index : ι} (hversion : d.version ≤ 3)
    (h : (migrate (permissionSchema ask index now)).Gives fields d () d₁) : d₁.version = 3 := by
  have hlast := le_version_of_mem (versions_of_migrate h 3 (by simp))
  have hnew : d₁.version ≤ 3 := by
    have hold : d.begun.version ≤ 3 := by
      rw [version_begun]
      exact hversion
    refine version_le_iff.mpr ⟨by omega, fun v hv => ?_⟩
    rw [versions_of_forM (forM_of_migrate h), List.mem_append] at hv
    rcases hv with hv | hv
    · exact (version_le_iff.mp hold).2 v hv
    · have hlisted : v ∈ [1, 2, 3] := (List.mem_filter.mp hv).1
      simp only [List.mem_cons, List.not_mem_nil, or_false] at hlisted
      omega
  omega

/-- None of the versions is missing before a migration that succeeds, and none after it. -/
theorem missing_of_migrate {ι : Type} {ask : AskIndex ι} {index : ι}
    (h : (migrate (permissionSchema ask index now)).Gives fields d () d₁) :
    d.missing permissionVersions = [] ∧ d₁.missing permissionVersions = [] := by
  have hbefore := (forM_of_applyDue (applyDue_of_migrate h)).1
  have hpending : d₁.pending permissionVersions = [] := by
    rw [pending, List.filter_eq_nil_iff]
    intro v hv
    simpa using versions_of_migrate h v hv
  refine ⟨(missing_begun d).symm.trans hbefore, ?_⟩
  rw [missing, hpending]
  rfl

/-- Whenever the database is migrated, that succeeds and leaves it with a table of decisions. -/
def Migratable (history : Option History) (d : Database) : Prop :=
  ∀ fields now, ∃ d₁ t, (migrate (schemaWith now history)).Gives fields d () d₁ ∧ d₁.perms = some t

theorem Awaits.migratable {table : HostTable} (h : d.Awaits table)
    (hreadable : table.isReadable = true) (history : Option History) : d.Migratable history := by
  intro fields now
  obtain ⟨d₁, hmigrate, hperms⟩ := gives_migrate fields now history h hreadable
  exact ⟨d₁, _, hmigrate, hperms⟩

/-- `d'` is what the migration leaves of `d`, without what lasts only for a session. -/
def Cleans (history : Option History) (fields : List Field) (now : Instant) (d d' : Database) :
    Prop :=
  ∃ d₁ t, (migrate (schemaWith now history)).Gives fields d () d₁ ∧ d₁.perms = some t ∧
    d' = { d₁ with perms := some (t.filter fun row => !row.isSession) }

end Database

/-- A handle on `d` that was new on the database `d₀`. -/
structure Lives (history : Option History) (d₀ : Database) (s : Store) (d : Database) : Prop where
  path : s.path ≠ ""
  obstacle : s.obstacle = none
  asks : s.history = history
  file : s.file = .database d
  connection : s.connection = .untried ∨ s.connection = .ready
  missing : d.missing Database.permissionVersions = []
  waiting : s.opened = false → d = d₀
  serving : s.opened = true → s.connection = .ready ∧ d.version = 3 ∧ ∃ t, d.perms = some t

namespace Lives

variable {history : Option History} {d₀ : Database}

omit [SuffixList] in
theorem reaches (h : Lives history d₀ s d) (hopened : s.opened = false)
    (hclosed : s.closed = false) : s.Reaches d :=
  ⟨h.path, h.obstacle, h.file, h.connection, hopened, hclosed⟩

/-- Opening a handle migrates the database and drops what lasts only for a session the first time,
and does nothing later. -/
theorem gives_ensureOpen (h : Lives history d₀ s d) (hclosed : s.closed = false)
    (hversion : d₀.version ≤ 3) (hd₀ : d₀.Migratable history) (fields : List Field)
    (now : Instant) :
    ∃ s₁ d₁ t, (ensureOpen now).Gives fields s () s₁ ∧ Lives history d₀ s₁ d₁ ∧ s₁.Ready t ∧
      d₁.perms = some t ∧ (s.opened = true → d₁ = d) ∧
      (s.opened = false → d₀.Cleans history fields now d₁) := by
  cases hopened : s.opened with
  | true =>
    obtain ⟨hready, hlast, t, hperms⟩ := h.serving hopened
    have hopen : (ensureOpen now).Gives fields s () s := by
      constructor
      · rw [ensureOpen_of_opened hopened]
      · rw [ensureOpen_of_opened hopened]
    exact ⟨s, d, t, hopen, h, ⟨hopened, hclosed, d, h.file, hperms⟩, hperms, fun _ => rfl,
      nofun⟩
  | false =>
    obtain rfl := h.waiting hopened
    obtain rfl := h.asks
    obtain ⟨d₁, t, hmigrate, hperms⟩ := hd₀ fields now
    have hlast : d₁.version = 3 := Database.version_of_migrate hversion hmigrate
    have hmissing := (Database.missing_of_migrate hmigrate).2
    have hopen := (h.reaches hopened hclosed).gives_ensureOpen hmigrate hperms
    have hlives : Lives s.history d (s.openedOn d₁ t)
        { d₁ with perms := some (t.filter fun row => !row.isSession) } :=
      ⟨h.path, h.obstacle, rfl, rfl, Or.inr rfl, hmissing, nofun, fun _ => ⟨rfl, hlast, _, rfl⟩⟩
    exact ⟨_, _, _, hopen, hlives, ready_openedOn hclosed d₁ t, rfl, nofun,
      fun _ => ⟨d₁, t, hmigrate, hperms, rfl⟩⟩

omit [SuffixList] in
theorem withTable (h : Lives history d₀ s d) (hopened : s.opened = true) (t : Table) :
    Lives history d₀ (s.withTable t) { d with perms := some t } := by
  obtain ⟨hready, hlast, -⟩ := h.serving hopened
  have hstore : s.withTable t = { s with file := .database { d with perms := some t } } := by
    simp only [Store.withTable, h.file]
  have hnot : ¬s.opened = false := by simp [hopened]
  rw [hstore]
  exact ⟨h.path, h.obstacle, h.asks, rfl, h.connection, h.missing,
    fun hfalse => absurd hfalse hnot, fun _ => ⟨hready, hlast, t, rfl⟩⟩

omit [SuffixList] in
theorem gives_connect (h : Lives history d₀ s d) (hclosed : s.closed = false) :
    connect.Gives fields s () { s with connection := .ready } := by
  by_cases hopened : s.opened = true
  · have hready := (h.serving hopened).1
    have hsame : { s with connection := .ready } = s := by
      rw [← hready]
    rw [hsame]
    exact gives_connect_of_ready hclosed hready
  · exact (h.reaches (by simpa using hopened) hclosed).gives_connect

/-- A call that opens the handle, or finds it open. -/
theorem run_of_opens (h : Lives history d₀ s d) (hclosed : s.closed = false)
    (hversion : d₀.version ≤ 3) (hd₀ : d₀.Migratable history) {call : Call}
    (hopens : call.task.opens = true) :
    ∃ d₁ t, d₁.version = 3 ∧ d₁.perms = some t ∧ (s.opened = true → d₁ = d) ∧
      (s.opened = false → d₀.Cleans history call.fields call.now d₁) ∧
      (call.run s).answer = call.task.reply d₁ t ∧
      Lives history d₀ (call.run s).state { d₁ with perms := some (call.task.onTable call.now t) } ∧
      (call.run s).state.opened = true ∧ (call.run s).state.closed = false := by
  obtain ⟨s₁, d₁, t, hopen, hlives, hready, hperms, hsame, hcleans⟩ :=
    h.gives_ensureOpen hclosed hversion hd₀ call.fields call.now
  obtain ⟨hconnection, hlast, -⟩ := hlives.serving hready.opened
  have hmigrated : d₁.phase = .ok (.migrated d₁.version) := by
    rw [Database.phase_of_missing (Int.le_of_eq hlast) hlives.missing, if_pos hlast, hlast]
  obtain ⟨hanswer, hstate⟩ :=
    Task.make_of_ensureOpen hopens hopen hready hlives.file hconnection hmigrated
  have hlater := hlives.withTable hready.opened (call.task.onTable call.now t)
  have hnext := hready.withTable (call.task.onTable call.now t)
  rw [← hstate] at hlater hnext
  exact ⟨d₁, t, hlast, hperms, hsame, hcleans, hanswer, hlater, hnext.opened, hnext.notClosed⟩

/-- A call that asks how far the file has been migrated. -/
theorem run_of_phase (h : Lives history d₀ s d) (hclosed : s.closed = false) {call : Call}
    (htask : call.task = .phase) :
    (call.run s).answer = d.phase.map Reply.phase ∧
      (call.run s).state = { s with connection := .ready } := by
  have hconnect : connect.Gives call.fields s () { s with connection := .ready } :=
    h.gives_connect hclosed
  obtain ⟨hanswer, hstate⟩ := phase_of_connect hconnect h.file
  unfold Call.run
  rw [htask, Task.make_phase.1, Task.make_phase.2, hanswer, hstate]
  exact ⟨rfl, rfl⟩

/-- One call, and what becomes of the two marks of the handle. -/
theorem step (h : Lives history d₀ s d) (hversion : d₀.version ≤ 3)
    (hd₀ : d₀.Migratable history) (call : Call) :
    ∃ d', Lives history d₀ (call.run s).state d' ∧
      ((call.run s).state.closed = true ↔ s.closed = true ∨ call.task = .close) ∧
      ((call.run s).state.opened = true ↔
        s.opened = true ∨ s.closed = false ∧ call.task.opens = true) := by
  cases hclosed : s.closed with
  | true =>
    have hstate : (call.run s).state = s := Task.state_make_of_closed hclosed call.task
    rw [hstate]
    exact ⟨d, h, by simp [hclosed], by simp⟩
  | false =>
    cases hopens : call.task.opens with
    | true =>
      obtain ⟨d₁, t, -, -, -, -, -, hlater, hopened', hclosed'⟩ :=
        h.run_of_opens hclosed hversion hd₀ hopens
      have hclose : call.task ≠ .close := by
        intro heq
        rw [heq] at hopens
        cases hopens
      exact ⟨_, hlater, by simp [hclosed', hclose], by simp [hopened']⟩
    | false =>
      rcases Task.eq_of_not_opens hopens with htask | htask
      · rw [(h.run_of_phase hclosed htask).2]
        refine ⟨d, ⟨h.path, h.obstacle, h.asks, h.file, Or.inr rfl, h.missing, h.waiting, ?_⟩,
          ?_, ?_⟩
        · exact fun hopened => ⟨rfl, (h.serving hopened).2⟩
        · simp [hclosed, htask]
        · simp
      · rw [(run_of_close htask).2]
        refine ⟨d, ⟨h.path, h.obstacle, h.asks, h.file, h.connection, h.missing, h.waiting,
          h.serving⟩, ?_, ?_⟩
        · simp [close, htask]
        · simp [close]

/-- Calls one after another: the handle is closed if one of them closes it, and it was opened if one
of them opened it before that. -/
theorem runAll (h : Lives history d₀ s d) (hversion : d₀.version ≤ 3)
    (hd₀ : d₀.Migratable history) (calls : List Call) :
    ∃ d', Lives history d₀ (runAll calls s) d' ∧
      ((Store.runAll calls s).closed = true ↔ s.closed = true ∨ ∃ c ∈ calls, c.task = .close) ∧
      ((Store.runAll calls s).opened = true ↔ s.opened = true ∨ s.closed = false ∧
        ∃ before c after, calls = before ++ c :: after ∧ c.task.opens = true ∧
          ∀ b ∈ before, b.task ≠ .close) := by
  induction calls generalizing s d with
  | nil => exact ⟨d, h, by simp [Store.runAll], by simp [Store.runAll]⟩
  | cons call rest ih =>
    obtain ⟨d₁, hstep, hclosed, hopened⟩ := h.step hversion hd₀ call
    obtain ⟨d₂, hrest, hclosed', hopened'⟩ := ih hstep
    refine ⟨d₂, hrest, ?_, ?_⟩
    · change (Store.runAll rest (call.run s).state).closed = true ↔ _
      rw [hclosed', hclosed, List.exists_mem_cons_iff, or_assoc]
    · change (Store.runAll rest (call.run s).state).opened = true ↔ _
      have hstill : (call.run s).state.closed = false ↔ s.closed = false ∧ call.task ≠ .close := by
        rw [← Bool.not_eq_true, hclosed, not_or, Bool.not_eq_true]
      rw [hopened', hopened, hstill, exists_first_cons, or_assoc, and_assoc, ← and_or_left]

theorem file_of_not_opens (h : Lives history d₀ s d) {call : Call}
    (hopens : call.task.opens = false) : (call.run s).state.file = s.file := by
  cases hclosed : s.closed with
  | true => exact congrArg Store.file (Task.state_make_of_closed hclosed call.task)
  | false =>
    rcases Task.eq_of_not_opens hopens with htask | htask
    · rw [(h.run_of_phase hclosed htask).2]
    · rw [(run_of_close htask).2]
      rfl

omit [SuffixList] in
theorem version_le (h : Lives history d₀ s d) (hversion : d₀.version ≤ 3) : d.version ≤ 3 := by
  by_cases hopened : s.opened = true
  · have hlast := (h.serving hopened).2.1
    omega
  · rw [h.waiting (by simpa using hopened)]
    exact hversion

end Lives

/-- Any calls on a new handle over a database that can be migrated and is at most at the last
version. The handle was opened if one of them needed that before it was closed; until then the
database is as it was, and from then on it is at the last version. Of a further call: asking for the
phase and closing leave the file alone, and closing always succeeds. Before the handle is closed the
phase tells whether the file is at the last version. A call that needs the handle open works on the
database that an earlier call opened, or else migrates it, drops what lasts only for a session and
works on what that leaves; beyond that it does its own work only. After the handle is closed the
file stays as it is, and all calls but those to open and to close fail. -/
theorem handle_lifecycle {s₀ : Store} {d₀ : Database} (hs : s₀.Unopened d₀)
    (hversion : d₀.version ≤ 3) (hd₀ : d₀.Migratable s₀.history) (calls : List Call) :
    let s := runAll calls s₀
    (s.closed = true ↔ ∃ c ∈ calls, c.task = .close) ∧
      (s.opened = true ↔ ∃ before c after, calls = before ++ c :: after ∧ c.task.opens = true ∧
        ∀ b ∈ before, b.task ≠ .close) ∧
      ∃ d, s.file = .database d ∧ (s.opened = true → d.version = 3) ∧ (s.opened = false → d = d₀) ∧
        ∀ call : Call,
          let o := call.run s
          (call.task.opens = false → o.state.file = s.file) ∧
          (call.task = .close → o.answer = .ok .done) ∧
          (s.closed = false → call.task = .phase →
            o.answer = .ok (.phase (if d.version = 3 then .migrated 3 else .needed))) ∧
          (s.closed = false → call.task.opens = true → ∃ d₁ t,
            d₁.version = 3 ∧ d₁.perms = some t ∧ (s.opened = true → d₁ = d) ∧
            (s.opened = false → d₀.Cleans s₀.history call.fields call.now d₁) ∧
            o.answer = call.task.reply d₁ t ∧
            o.state.file = .database { d₁ with perms := some (call.task.onTable call.now t) }) ∧
          (s.closed = true → o.state.file = s.file ∧
            (call.task ≠ .close → call.task ≠ .ensureOpen → o.answer = .error .closed)) := by
  intro s
  obtain ⟨_, _, hmigrate, -⟩ := hd₀ [] .unset
  have hmissing := (Database.missing_of_migrate hmigrate).1
  have hstart : Lives s₀.history d₀ s₀ d₀ :=
    ⟨hs.path, hs.obstacle, rfl, hs.file, Or.inl hs.connection, hmissing, fun _ => rfl,
      fun hopened => by simp [hs.opened] at hopened⟩
  obtain ⟨d, h, hclosed, hopened⟩ := hstart.runAll hversion hd₀ calls
  refine ⟨?_, ?_, d, h.file, fun hs => (h.serving hs).2.1, h.waiting, fun call => ?_⟩
  · simpa [hs.closed] using hclosed
  · simpa [hs.closed, hs.opened] using hopened
  · intro o
    refine ⟨fun hopens => ?_, fun htask => (run_of_close htask).1, fun hopen htask => ?_,
      fun hopen hopens => ?_, fun hshut => ⟨?_, fun hclose hensure => ?_⟩⟩
    · exact h.file_of_not_opens hopens
    · have hle := h.version_le hversion
      rw [(h.run_of_phase hopen htask).1, Database.phase_of_missing hle h.missing]
      rfl
    · obtain ⟨d₁, t, hlast, hperms, hsame, hcleans, hanswer, hlater, -⟩ :=
        h.run_of_opens hopen hversion hd₀ hopens
      exact ⟨d₁, t, hlast, hperms, hsame, hcleans, hanswer, hlater.file⟩
    · exact congrArg Store.file (Task.state_make_of_closed hshut call.task)
    · exact congrArg Outcome.answer (Task.make_of_closed hshut hclose hensure)

end Open

/-- Two questions and a decision for the session. -/
def servingCalls : List Call := [
  { now := .atMillis 1700000000000, task := .phase },
  { now := .atMillis 1700000001000, task := .read .list },
  { now := .atMillis 1700000002000,
    task := .write (.set ⟨"https://new.example", "popup", .allow, .session, .unset, .unset⟩) }]

def closingCall : Call := { now := .atMillis 1700000003000, task := .close }

/-- After the calls the database is migrated; once the handle is closed too, it is of no use. -/
theorem handle_lifecycle_left :
    let s := runAll servingCalls Decision.leftStore
    let s' := runAll (servingCalls ++ [closingCall]) Decision.leftStore
    let ask : Call := { now := .atMillis 1700000004000, task := .phase }
    (ask.run s).answer = .ok (.phase (.migrated 3)) ∧ s'.closed = true ∧
      ∀ call : Call, call.task ≠ .close → call.task ≠ .ensureOpen →
        (call.run s').answer = .error .closed ∧ (call.run s').state.file = s'.file := by
  intro s s' ask
  have hs : Decision.leftStore.Unopened Decision.leftDatabase :=
    ⟨by decide, rfl, rfl, rfl, rfl, rfl⟩
  have hawaits : Decision.leftDatabase.Awaits _ := ⟨by decide, rfl, fun _ => nofun⟩
  have hd : Decision.leftDatabase.Migratable none := hawaits.migratable (by decide +kernel) none
  have hversion : Decision.leftDatabase.version ≤ 3 := by decide
  obtain ⟨hclosed, hopened, d, -, hlast, -, hnext⟩ := handle_lifecycle hs hversion hd servingCalls
  obtain ⟨hclosed', -, d', -, -, -, hnext'⟩ :=
    handle_lifecycle hs hversion hd (servingCalls ++ [closingCall])
  have hopen : s.closed = false := by
    rw [← Bool.not_eq_true, hclosed]
    simp [servingCalls]
  have hused : s.opened = true := by
    refine hopened.mpr ⟨servingCalls.take 1, _, servingCalls.drop 2, rfl, rfl, ?_⟩
    simp [servingCalls]
  have hphase := (hnext ask).2.2.1 hopen rfl
  rw [if_pos (hlast hused)] at hphase
  have hshut : s'.closed = true := hclosed'.mpr ⟨closingCall, by simp, rfl⟩
  refine ⟨hphase, hshut, fun call hclose hensure => ?_⟩
  obtain ⟨-, -, -, -, hafter⟩ := hnext' call
  exact ⟨(hafter hshut).2 hclose hensure, (hafter hshut).1⟩

/-- A database that was migrated by an earlier handle, with a decision of its session. -/
def leftoverDatabase : Database where
  perms := some [⟨1, "https://left.example", "popup", .allow, .session, 0, 1600000000000⟩]
  versions := some [0, 1, 2, 3]

def leftoverStore : Store := { path := "permissions.db", file := .database leftoverDatabase }

/-- A call that fails can be the one that drops what an ended session left: storing nothing is
refused only after the handle was opened, and the first call that succeeds finds the row gone. -/
theorem refused_call_opens_handle :
    let refused : Call := { now := .atMillis 1700000000000, task := .setNothing }
    let first : Call := { now := .atMillis 1700000001000, task := .read .list }
    let o := refused.run leftoverStore
    let o' := first.run o.state
    o.answer = .error .missingRecord ∧ o'.answer = .ok (.records []) ∧
      leftoverStore.file = .database leftoverDatabase ∧
      o.state.file = .database { leftoverDatabase with perms := some [] } ∧
      o'.state.file = o.state.file := by
  decide +kernel

end Store

end Consent

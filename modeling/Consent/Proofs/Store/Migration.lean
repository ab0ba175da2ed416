import Consent.Proofs.Legacy.Expand
import Consent.Proofs.Store.Handle

/-! What the migrations leave in the table of decisions: the earlier rows, with the expansions of
all readable rows by host stored over them in the order of their ids. -/

namespace Consent

open Host Log Store Legacy

namespace Store.Database

variable {ι : Type} {fields : List Field} {now : Instant} {t : Table} {c : Carrying ι}

/-- A history replies the same every time, as asking does not change it. -/
theorem steady_askHistory (history : Option History) :
    Resolver.Steady (askHistory history) (· = history.getD {}) (History.reply history) := by
  cases history with
  | none => exact ⟨fun _ _ => rfl, fun _ h => (by cases h), fun _ h => (by cases h)⟩
  | some h =>
    refine ⟨fun hask => (by cases hask), ?_, ?_⟩
    · intro visitedUnder hask i hi domain fields
      cases Option.some.inj hask
      rw [show i = h from hi]
      exact (History.visitedUnder_run h domain fields).1
    · intro visitedUnder hask i hi domain fields
      cases Option.some.inj hask
      rw [show i = h from hi]
      exact (History.visitedUnder_run h domain fields).2

theorem gives_readHosts (table : HostTable) (rows : List (Int × List Cell)) (d : Database) :
    (readHosts table rows).Gives fields d (rows.filterMap table.readRow?) d := by
  induction rows with
  | nil => exact ⟨rfl, rfl⟩
  | cons row rest ih =>
    unfold readHosts
    rw [List.filterMap_cons]
    split
    · rename_i r hr
      rw [hr]
      exact ih.bind ⟨rfl, rfl⟩
    · rename_i hr
      rw [hr]
      exact Action.Gives.bind (.emit _ _ _ _ _) ih

/-- The database in hand with another table of decisions. -/
def Carrying.withPerms (c : Carrying ι) (t : Table) : Carrying ι :=
  { c with database := { c.database with perms := some t } }

theorem perms_self {d : Database} (h : d.perms = some t) : { d with perms := some t } = d := by
  cases d
  simp_all

theorem Carrying.withPerms_self (h : c.database.perms = some t) : c.withPerms t = c := by
  rw [withPerms, perms_self h]

theorem gives_storeRecord (hperms : c.database.perms = some t) (r : Record) (tally : Tally) :
    (storeRecord now tally r).Gives fields c { tally with written := tally.written + 1 }
      (c.withPerms (t.upsert now r)) := by
  have htable : (Database.withPerms fun t => ((), t.upsert now r)).Gives fields c.database ()
      { c.database with perms := some (t.upsert now r) } := gives_withPerms hperms
  refine Action.Gives.bind (x := ()) ⟨htable.answer, rfl⟩ ⟨rfl, ?_⟩
  simp [htable.state, Carrying.withPerms]

theorem gives_storeRecords (hperms : c.database.perms = some t) (records : List Record)
    (tally : Tally) :
    (records.foldlM (storeRecord now) tally).Gives fields c
      { tally with written := tally.written + records.length }
      (c.withPerms (t.upsertAll now records)) := by
  induction records generalizing c t tally with
  | nil => exact ⟨rfl, (c.withPerms_self hperms).symm⟩
  | cons r rest ih =>
    have hrest := ih (rfl : (c.withPerms (t.upsert now r)).database.perms = _)
      { tally with written := tally.written + 1 }
    rw [List.foldlM_cons, List.length_cons, Nat.add_comm rest.length, ← Nat.add_assoc]
    exact (gives_storeRecord hperms r tally).bind hrest

/-- A database whose rows by host are still to be carried over: the versions before the last were
applied in order, as far as they were. -/
structure Awaits (d : Database) (table : HostTable) : Prop where
  versions : d.versions.getD [0] ∈ [[0], [0, 1], [0, 1, 2]]
  hosts : d.hosts = some table
  perms : 2 ∈ d.versions.getD [] → d.perms ≠ none

/-- The database with its table of versions, as every migration begins. -/
def begun (d : Database) : Database := { d with versions := some (d.versions.getD [0]) }

theorem begun_of_versions {d : Database} {vs : List Int} (h : d.versions = some vs) :
    d.begun = d := by
  cases d
  simp_all [begun]

section Due

variable {schema : Schema} {d d' : Database} {us versions : List Int}

theorem due_eq_ok_iff : d.due versions = .ok us ↔
    d.pending versions = us ∧ d.missing versions = [] := by
  unfold due
  split
  · rename_i hnone
    rw [Except.ok.injEq, and_iff_left hnone]
  · rename_i hsome
    exact ⟨nofun, fun h => absurd h.2 hsome⟩

theorem gives_upgrade {v : Int} (h : (schema.apply v).Gives fields d () d') :
    (upgrade schema v).Gives fields d ()
      { d' with versions := some (d'.versions.getD [] ++ [v]) } :=
  (h.bind ⟨rfl, rfl⟩).transact

theorem applyDue_of_due (hsome : d.versions ≠ some []) (hdue : d.due schema.versions = .ok us)
    (fields : List Field) : applyDue schema fields d = us.forM (upgrade schema) fields d := by
  unfold applyDue
  rw [Action.get_bind, if_neg hsome, hdue]
  rfl

/-- The versions that are due are applied, or nothing is done. -/
theorem applyDue_cases (schema : Schema) (fields : List Field) (d : Database) :
    (∃ us, d.versions ≠ some [] ∧ d.due schema.versions = .ok us ∧
      applyDue schema fields d = us.forM (upgrade schema) fields d) ∨
    ∃ e, applyDue schema fields d = ⟨.error e, d, []⟩ := by
  by_cases hempty : d.versions = some []
  · refine Or.inr ⟨.noFirstVersion, ?_⟩
    rw [applyDue, Action.get_bind, if_pos hempty]
    rfl
  · cases hdue : d.due schema.versions with
    | ok us => exact Or.inl ⟨us, hempty, rfl, applyDue_of_due hempty hdue fields⟩
    | error e =>
      refine Or.inr ⟨e, ?_⟩
      rw [applyDue, Action.get_bind, if_neg hempty, hdue]
      rfl

/-- Nothing that a migration does before and after its versions can fail or change the database. -/
theorem migrate_eq_applyDue (schema : Schema) (fields : List Field) (d : Database) :
    (migrate schema fields d).answer = (applyDue schema fields d.begun).answer.mapError
        (.during (.runMigrations schema.name)) ∧
      (migrate schema fields d).state = (applyDue schema fields d.begun).state := by
  have hunversioned : (noteUnversioned schema d.begun).Gives fields d.begun () d.begun := by
    unfold noteUnversioned
    split
    · exact .emit _ _ _ _ _
    · exact .pure _ _ _
  have happlied : ∀ after : Database,
      (noteApplied schema d.begun after).Gives fields after () after := by
    intro after
    unfold noteApplied
    dsimp only
    split
    · exact .emit _ _ _ _ _
    · exact .emit _ _ _ _ _
  change ((noteUnversioned schema d.begun >>= fun _ => _) fields d.begun).answer = _ ∧
    ((noteUnversioned schema d.begun >>= fun _ => _) fields d.begun).state = _
  rw [Action.answer_bind, Action.state_bind, hunversioned.answer, hunversioned.state]
  dsimp only
  rw [Action.answer_bind, Action.state_bind, Action.answer_during, Action.state_during]
  cases (applyDue schema fields d.begun).answer with
  | error e => exact ⟨rfl, rfl⟩
  | ok =>
    dsimp only [Except.mapError_ok]
    rw [Action.get_bind]
    exact ⟨(happlied _).answer, (happlied _).state⟩

/-- The versions that are due are applied. -/
theorem gives_migrate_of_forM (hsome : d.versions ≠ some [])
    (hdue : d.begun.due schema.versions = .ok us)
    (h : (us.forM (upgrade schema)).Gives fields d.begun () d') :
    (migrate schema).Gives fields d () d' := by
  have hbegun : d.begun.versions ≠ some [] := by
    intro hempty
    cases hvs : d.versions with
    | none => simp [begun, hvs] at hempty
    | some vs => exact hsome (by simpa [begun, hvs] using hempty)
  obtain ⟨hanswer, hstate⟩ := migrate_eq_applyDue schema fields d
  rw [applyDue_of_due hbegun hdue] at hanswer hstate
  exact ⟨hanswer.trans (by rw [h.answer]; rfl), hstate.trans h.state⟩

end Due

variable [SuffixList] {ask : AskIndex ι}

/-- Carrying one row over stores what it expands to and keeps what the resolver learnt. -/
theorem gives_carryRow (fields : List Field) (now : Instant) (ask : AskIndex ι)
    (hperms : c.database.perms = some t) (row : Legacy.Row) (tally : Tally) :
    let outcome := expand ask now (some row) fields c.resolver
    ∃ tally', (carryRow ask now tally row).Gives fields c tally'
      { database := { c.database with
          perms := some (t.upsertAll now (outcome.answer.toOption.getD [])) }
        resolver := outcome.state } := by
  intro outcome
  have hattempt : (((expand ask now (some row)).on Carrying.resolver
      fun r c => { c with resolver := r }).attempt).Gives fields c outcome.answer
      { c with resolver := outcome.state } := by
    constructor <;> simp [outcome]
  unfold carryRow
  cases hanswer : outcome.answer with
  | error e =>
    rw [hanswer] at hattempt
    have hsame : { c.database with perms := some t } = c.database := perms_self hperms
    refine ⟨{ tally with skipped := tally.skipped + 1 },
      hattempt.bind ((Action.Gives.emit _ _ _ _ _).bind ⟨rfl, ?_⟩)⟩
    exact congrArg (Carrying.mk · outcome.state) hsame.symm
  | ok records =>
    rw [hanswer] at hattempt
    have hstore : (records.foldlM (storeRecord now) tally).Gives fields
        { c with resolver := outcome.state } _ _ :=
      gives_storeRecords (c := { c with resolver := outcome.state }) hperms records tally
    exact ⟨_, hattempt.bind hstore⟩

/-- Carrying rows over stores what all of them expand to, in order. -/
theorem gives_carryRows (fields : List Field) (now : Instant) (ask : AskIndex ι)
    (hperms : c.database.perms = some t) (rows : List Legacy.Row) (tally : Tally) :
    ∃ tally' c', (rows.foldlM (carryRow ask now) tally).Gives fields c tally' c' ∧
      c'.database = { c.database with
        perms := some (t.upsertAll now (expandAll ask now fields c.resolver rows)) } := by
  induction rows generalizing c t tally with
  | nil => exact ⟨tally, c, ⟨rfl, rfl⟩, (perms_self hperms).symm⟩
  | cons row rest ih =>
    let outcome := expand ask now (some row) fields c.resolver
    obtain ⟨tally₁, hrow⟩ := gives_carryRow fields now ask hperms row tally
    obtain ⟨tally₂, c₂, hrest, hdatabase₂⟩ := ih (c := ⟨{ c.database with
      perms := some (t.upsertAll now (outcome.answer.toOption.getD [])) }, outcome.state⟩) rfl tally₁
    refine ⟨tally₂, c₂, ?_, ?_⟩
    · rw [List.foldlM_cons]
      exact hrow.bind hrest
    · rw [hdatabase₂, expandAll, Table.upsertAll_append]

/-- What the last version leaves of a database with both tables. -/
theorem gives_carryHosts {d : Database} {table : HostTable} (index : ι)
    (hhosts : d.hosts = some table) (hreadable : table.isReadable = true)
    (hperms : d.perms = some t) :
    (carryHosts ask index now).Gives fields d () (clearHosts { d with
      perms := some (t.upsertAll now (expandAll ask now fields ⟨index, []⟩
        (table.rows.filterMap table.readRow?))) }) := by
  obtain ⟨tally, c, hrows, hdatabase⟩ :=
    gives_carryRows fields now ask (c := ⟨d, ⟨index, []⟩⟩) hperms
      (table.rows.filterMap table.readRow?) {}
  have hcarry : ((((table.rows.filterMap table.readRow?).foldlM (carryRow ask now)
      {} : Action (Carrying ι) Tally)).on (fun d => ⟨d, ⟨index, []⟩⟩)
      (fun c _ => c.database)).Gives fields d tally c.database := by
    constructor <;> simp [hrows.answer, hrows.state]
  rw [hdatabase] at hcarry
  unfold carryHosts
  refine (Action.Gives.get fields d).bind ?_
  rw [hhosts]
  simp only [hreadable, Bool.not_true, Bool.false_eq_true, if_false]
  refine (gives_readHosts table table.rows d).bind (hcarry.bind ?_)
  exact (Action.Gives.modify clearHosts fields _).bind ⟨rfl, by simp [hhosts]⟩

/-- The table of decisions after the last version. -/
def carriedTable (now : Instant) (history : Option History) (table : HostTable) (t : Table) :
    Table :=
  t.upsertAll now ((table.rows.filterMap table.readRow?).flatMap
    (Row.carried (History.reply history) now))

section Schema

variable {d : Database} {table : HostTable} {history : Option History}

/-- The schema of a store whose migration asks a history. -/
abbrev schemaWith (now : Instant) (history : Option History) : Schema :=
  permissionSchema (askHistory history) (history.getD {}) now

theorem gives_forM_last (hhosts : d.hosts = some table) (hreadable : table.isReadable = true)
    (hperms : d.perms = some t) :
    ∃ d', ([3].forM (upgrade (schemaWith now history))).Gives fields d () d' ∧
      d'.perms = some (carriedTable now history table t) := by
  have hlast : ((schemaWith now history).apply 3).Gives fields d () _ :=
    gives_carryHosts (history.getD {}) hhosts hreadable hperms
  rw [expandAll_steady (steady_askHistory history) (Resolver.faithful_new rfl)] at hlast
  exact ⟨_, (gives_upgrade hlast).bind ⟨rfl, rfl⟩, rfl⟩

theorem gives_forM_perms (hhosts : d.hosts = some table) (hreadable : table.isReadable = true) :
    ∃ d', ([2, 3].forM (upgrade (schemaWith now history))).Gives fields d () d' ∧
      d'.perms = some (carriedTable now history table (d.perms.getD [])) := by
  have hperms : ((schemaWith now history).apply 2).Gives fields d ()
      { d with perms := some (d.perms.getD []) } := ⟨rfl, rfl⟩
  obtain ⟨d', hrest, hd'⟩ := gives_forM_last (d := { d with
    perms := some (d.perms.getD []), versions := some (d.versions.getD [] ++ [2]) })
    hhosts hreadable rfl
  exact ⟨d', (gives_upgrade hperms).bind hrest, hd'⟩

theorem gives_forM_all (hhosts : d.hosts = some table) (hreadable : table.isReadable = true) :
    ∃ d', ([1, 2, 3].forM (upgrade (schemaWith now history))).Gives fields d () d' ∧
      d'.perms = some (carriedTable now history table (d.perms.getD [])) := by
  have hfirst : ((schemaWith now history).apply 1).Gives fields d ()
      { d with hosts := some (d.hosts.getD .fresh) } := ⟨rfl, rfl⟩
  obtain ⟨d', hrest, hd'⟩ := gives_forM_perms (d := { d with
    hosts := some (d.hosts.getD .fresh), versions := some (d.versions.getD [] ++ [1]) })
    (by rw [hhosts]; rfl) hreadable
  exact ⟨d', (gives_upgrade hfirst).bind hrest, hd'⟩

end Schema

/-- Migrating a database that awaits it carries its rows by host over. -/
theorem gives_migrate {d : Database} {table : HostTable} (fields : List Field) (now : Instant)
    (history : Option History) (h : d.Awaits table) (hreadable : table.isReadable = true) :
    ∃ d', (migrate (schemaWith now history)).Gives fields d () d' ∧
      d'.perms = some (carriedTable now history table (d.perms.getD [])) := by
  have hsome : d.versions ≠ some [] := by
    intro hempty
    simpa [hempty] using h.versions
  have hhosts : d.begun.hosts = some table := h.hosts
  have hversions := h.versions
  simp only [List.mem_cons, List.not_mem_nil, or_false] at hversions
  rcases hversions with hvs | hvs | hvs
  · obtain ⟨d', hall, hd'⟩ := gives_forM_all hhosts hreadable
    exact ⟨d', gives_migrate_of_forM hsome (by simp only [begun, hvs]; rfl) hall, hd'⟩
  · obtain ⟨d', hrest, hd'⟩ := gives_forM_perms hhosts hreadable
    exact ⟨d', gives_migrate_of_forM hsome (by simp only [begun, hvs]; rfl) hrest, hd'⟩
  · have hperms : d.perms ≠ none := by
      refine h.perms ?_
      cases hrecorded : d.versions with
      | none => simp [hrecorded] at hvs
      | some vs => simp_all
    obtain ⟨t, ht⟩ := Option.ne_none_iff_exists'.mp hperms
    obtain ⟨d', hlast, hd'⟩ := gives_forM_last (d := d.begun) hhosts hreadable ht
    rw [ht]
    exact ⟨d', gives_migrate_of_forM hsome (by simp only [begun, hvs]; rfl) hlast, hd'⟩

/-- A database with its table of decisions to which all versions were applied. -/
structure Migrated (d : Database) (t : Table) : Prop where
  versions : ∀ v ∈ [1, 2, 3], v ∈ d.versions.getD []
  perms : d.perms = some t

/-- A migrated database stays as it is. -/
theorem gives_migrate_of_migrated {d : Database} (fields : List Field) (now : Instant)
    (history : Option History) (h : d.Migrated t) :
    (migrate (schemaWith now history)).Gives fields d () d := by
  have hone := h.versions 1 (by simp)
  have hsome : d.versions ≠ some [] := by
    intro hempty
    simp [hempty] at hone
  have hbegun : d.begun = d := by
    cases hvs : d.versions with
    | none => simp [hvs] at hone
    | some vs => exact begun_of_versions hvs
  have hpending : d.begun.pending permissionVersions = [] := by
    rw [hbegun, pending, List.filter_eq_nil_iff]
    intro v hv
    simpa using h.versions v hv
  have hmissing : d.begun.missing permissionVersions = [] := by
    rw [missing, hpending]
    rfl
  refine gives_migrate_of_forM hsome (due_eq_ok_iff.mpr ⟨hpending, hmissing⟩) ?_
  rw [hbegun]
  exact .pure () fields d

end Store.Database

namespace Store

variable {fields : List Field} {s : Store} {d : Database}

/-- A new handle on a database. -/
structure Unopened (s : Store) (d : Database) : Prop where
  path : s.path ≠ ""
  obstacle : s.obstacle = none
  file : s.file = .database d
  connection : s.connection = .untried
  opened : s.opened = false
  closed : s.closed = false

theorem gives_connect_of_ready (hclosed : s.closed = false) (hready : s.connection = .ready) :
    connect.Gives fields s () s := by
  unfold connect
  refine (Action.Gives.get fields s).bind ?_
  rw [if_neg (by simp [hclosed]), hready]
  exact .pure () fields s

/-- A handle that can reach its database and was not opened so far, though that may have been
tried. -/
structure Reaches (s : Store) (d : Database) : Prop where
  path : s.path ≠ ""
  obstacle : s.obstacle = none
  file : s.file = .database d
  connection : s.connection = .untried ∨ s.connection = .ready
  opened : s.opened = false
  closed : s.closed = false

theorem Unopened.reaches (h : s.Unopened d) : s.Reaches d :=
  ⟨h.path, h.obstacle, h.file, Or.inl h.connection, h.opened, h.closed⟩

theorem Reaches.gives_connect (h : s.Reaches d) :
    connect.Gives fields s () { s with connection := .ready } := by
  rcases h.connection with huntried | hready
  · have hestablish : establish.Gives fields s () s := by
      unfold establish
      constructor
      · simp [Action.answer_bind, h.path, h.obstacle, h.file]
      · simp [Action.state_bind, h.path, h.obstacle, h.file]
    have hattempt : establish.attempt.Gives fields s (.ok ()) s :=
      ⟨by simp [hestablish.answer], hestablish.state⟩
    unfold connect
    refine (Action.Gives.get fields s).bind ?_
    simp only [h.closed, huntried, Bool.false_eq_true, if_false]
    refine Action.Gives.bind (.emit _ _ _ _ _) ?_
    exact hattempt.bind ⟨rfl, by simp [h.closed]⟩
  · have hsame : { s with connection := .ready } = s := by
      rw [← hready]
    rw [hsame]
    exact gives_connect_of_ready h.closed hready

/-- The handle after it was opened on a database that its migration left with the table `t`. -/
def openedOn (s : Store) (d : Database) (t : Table) : Store :=
  { s with
    file := .database { d with perms := some (t.filter fun row => !row.isSession) }
    connection := .ready
    opened := true }

theorem ready_openedOn (hclosed : s.closed = false) (d : Database) (t : Table) :
    (s.openedOn d t).Ready (t.filter fun row => !row.isSession) :=
  ⟨rfl, hclosed, _, rfl, rfl⟩

/-- Opening a store migrates its database and drops what lasts only for a session. -/
theorem Reaches.gives_ensureOpen [Upgrades] {t : Table} {now : Instant} {d₁ : Database}
    (h : s.Reaches d)
    (hmigrate : (Database.migrate (Upgrades.schema s.history now)).Gives fields d () d₁)
    (hperms₁ : d₁.perms = some t) : (ensureOpen now).Gives fields s () (s.openedOn d₁ t) := by
  have hdrop : (Database.deleteWhere Row.isSession).Gives fields d₁ _ _ := gives_withPerms hperms₁
  -- The handle after each of the three steps.
  let s₁ : Store := { s with connection := .ready }
  let s₂ : Store := { s₁ with file := .database d₁ }
  have hmigrated : (onDatabase (Database.migrate (Upgrades.schema s.history now))).Gives
      fields s₁ () s₂ := gives_onDatabase h.file hmigrate
  have hdropped := (gives_onDatabase (s := s₂) rfl hdrop).during .dropSession
  unfold ensureOpen
  refine (Action.Gives.get fields s).bind ?_
  simp only [h.opened, Bool.false_eq_true, if_false]
  refine h.gives_connect.bind (hmigrated.bind (hdropped.bind ?_))
  split
  · exact Action.Gives.bind (.emit _ _ _ _ _) ⟨rfl, rfl⟩
  · exact ⟨rfl, rfl⟩

section Open

variable [SuffixList] {t : Table} {now : Instant}

/-- Opening a store for the first time carries the rows by host over and drops what lasts only for
a session. -/
theorem gives_ensureOpen {table : HostTable} (fields : List Field) (now : Instant)
    (h : s.Unopened d) (hd : d.Awaits table) (hreadable : table.isReadable = true) :
    ∃ s', (ensureOpen now).Gives fields s () s' ∧
      s'.Ready ((Database.carriedTable now s.history table (d.perms.getD [])).filter
        fun row => !row.isSession) := by
  obtain ⟨d₁, hmigrate, hperms₁⟩ := Database.gives_migrate fields now s.history hd hreadable
  exact ⟨_, h.reaches.gives_ensureOpen hmigrate hperms₁, ready_openedOn h.closed d₁ _⟩

theorem Unopened.gives_acquire (h : s.Unopened d) (hd : d.Migrated t) (fields : List Field)
    (now : Instant) : (acquire now).Gives fields s () (s.openedOn d t) := by
  have hopen := h.reaches.gives_ensureOpen
    (Database.gives_migrate_of_migrated fields now s.history hd) hd.perms
  exact gives_acquire_of_ensureOpen hopen h.closed

/-- Opening a migrated database drops what lasts only for a session and changes no other row. -/
theorem Unopened.opens (h : s.Unopened d) (hd : d.Migrated t) :
    s.Opens (t.filter fun row => !row.isSession) :=
  fun fields now => ⟨_, h.gives_acquire hd fields now, ready_openedOn h.closed d t⟩

end Open

end Store

end Consent

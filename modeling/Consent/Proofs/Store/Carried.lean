import Consent.Proofs.Store.Keyed
import Consent.Proofs.Store.Migration

/-! The tables that a migration leaves, whatever index of visits it asks. -/

namespace Consent

open Host Log Store Legacy

namespace Legacy

variable [SuffixList] {ι : Type} {ask : AskIndex ι} {now : Instant} {fields : List Field}
  {r : Resolver ι}

/-- Whether a row has a decision to carry over: it is well formed and its time has not come. -/
def Row.isDue (now : Instant) (row : Row) : Bool := row.check.isOk && !row.isExpired now

omit [SuffixList] in
theorem Row.isDue_iff {row : Row} :
    row.isDue now = true ↔ row.check = .ok () ∧ row.isExpired now = false := by
  cases hcheck : row.check with
  | error e => simp [isDue, hcheck, Except.isOk, Except.toBool]
  | ok => simp [isDue, hcheck, Except.isOk, Except.toBool]

/-- A row that is malformed or whose time has come expands to nothing and asks nothing. -/
theorem expand_of_not_isDue (ask : AskIndex ι) (fields : List Field) (r : Resolver ι) {row : Row}
    (h : row.isDue now = false) :
    (expand ask now (some row) fields r).answer.toOption.getD [] = [] ∧
      (expand ask now (some row) fields r).state = r := by
  cases hcheck : row.check with
  | error e =>
    rw [expand_of_malformed ask fields r hcheck]
    exact ⟨rfl, rfl⟩
  | ok =>
    have hexpired : row.isExpired now = true := by simpa [Row.isDue, hcheck, Except.isOk,
      Except.toBool] using h
    rw [expand_of_expired ask fields r hcheck hexpired]
    exact ⟨rfl, rfl⟩

/-- Malformed and expired rows do not bear on the others. -/
theorem expandAll_filter_isDue (rows : List Row) :
    expandAll ask now fields r rows = expandAll ask now fields r (rows.filter (Row.isDue now)) := by
  induction rows generalizing r with
  | nil => rfl
  | cons row rest ih =>
    cases h : row.isDue now with
    | true => rw [List.filter_cons_of_pos h, expandAll, expandAll, ih]
    | false =>
      obtain ⟨hnone, hstate⟩ := expand_of_not_isDue ask fields r h
      rw [List.filter_cons_of_neg (by simp [h]), expandAll, hnone, hstate, ih]
      rfl

end Legacy

namespace Store.Database

variable {fields : List Field} {d d' : Database} {schema : Schema}

theorem forM_of_applyDue (h : (applyDue schema).Gives fields d () d') :
    d.missing schema.versions = [] ∧
      ((d.pending schema.versions).forM (upgrade schema)).Gives fields d () d' := by
  rcases applyDue_cases schema fields d with ⟨us, -, hdue, hrun⟩ | ⟨e, hrun⟩
  · obtain ⟨rfl, hmissing⟩ := due_eq_ok_iff.mp hdue
    exact ⟨hmissing, hrun ▸ h.answer, hrun ▸ h.state⟩
  · have hanswer := h.answer
    rw [hrun] at hanswer
    cases hanswer

theorem applyDue_of_migrate (h : (migrate schema).Gives fields d () d') :
    (applyDue schema).Gives fields d.begun () d' := by
  obtain ⟨hanswer, hstate⟩ := migrate_eq_applyDue schema fields d
  have hduring : (Action.during (.runMigrations schema.name) (applyDue schema)).Gives
      fields d.begun () d' := ⟨hanswer.symm.trans h.answer, hstate.symm.trans h.state⟩
  exact Action.gives_of_during hduring

/-- A migration that succeeds has applied the pending versions one after another. -/
theorem forM_of_migrate (h : (migrate schema).Gives fields d () d') :
    ((d.begun.pending schema.versions).forM (upgrade schema)).Gives fields d.begun () d' :=
  (forM_of_applyDue (applyDue_of_migrate h)).2

theorem apply_of_upgrade {v : Int} (h : (upgrade schema v).Gives fields d () d') :
    ∃ d₁, (schema.apply v).Gives fields d () d₁ ∧
      d' = { d₁ with versions := some (d₁.versions.getD [] ++ [v]) } := by
  obtain ⟨_, d₁, happly, hrecord⟩ := Action.gives_of_bind (Action.gives_of_transact h)
  exact ⟨d₁, happly, hrecord.state.symm⟩

theorem forM_of_forM_append {us vs : List Int}
    (h : ((us ++ vs).forM (upgrade schema)).Gives fields d () d') :
    ∃ d₁, (us.forM (upgrade schema)).Gives fields d () d₁ ∧
      (vs.forM (upgrade schema)).Gives fields d₁ () d' := by
  induction us generalizing d with
  | nil => exact ⟨d, .pure () fields d, h⟩
  | cons u rest ih =>
    obtain ⟨_, d₁, hu, hrest⟩ := Action.gives_of_bind h
    obtain ⟨d₂, hrest, hvs⟩ := ih hrest
    exact ⟨d₂, hu.bind hrest, hvs⟩

theorem le_version_of_mem {v : Int} (h : v ∈ d.versions.getD []) : v ≤ d.version := by
  have hfold : ∀ (vs : List Int) (n : Int), n ≤ vs.foldl max n ∧ ∀ v ∈ vs, v ≤ vs.foldl max n := by
    intro vs
    induction vs with
    | nil => simp
    | cons u rest ih =>
      intro n
      obtain ⟨hmax, hrest⟩ := ih (max n u)
      rw [List.foldl_cons]
      refine ⟨by omega, fun v hv => ?_⟩
      rcases List.mem_cons.mp hv with rfl | hv
      · omega
      · exact hrest v hv
  exact (hfold _ 0).2 v h

theorem not_gives_storeRecords {ι : Type} {now : Instant} {c c' : Carrying ι}
    {tally tally' : Tally} {q : Record} {qs : List Record} (hperms : c.database.perms = none) :
    ¬((q :: qs).foldlM (storeRecord now) tally).Gives fields c tally' c' := by
  intro h
  rw [List.foldlM_cons] at h
  obtain ⟨_, _, hstore, -⟩ := Action.gives_of_bind h
  obtain ⟨_, _, htable, -⟩ := Action.gives_of_bind hstore
  have hrun : (withPerms fun t => ((), t.upsert now q)).Gives fields c.database _ _ :=
    ⟨htable.answer, rfl⟩
  obtain ⟨t, ht, -⟩ := perms_of_withPerms hrun
  rw [hperms] at ht
  cases ht

/-- The names of the tables that a database can have beside the further ones. -/
def standardTables : List String :=
  ["moz_perms", "moz_hosts", "history_visits", versionTable, "sqlite_sequence"]

theorem name_of_mem_catalog {entry : String × List String × Nat} (h : entry ∈ catalog d) :
    entry.1 ∈ standardTables ∨ entry.1 ∈ d.others := by
  unfold catalog at h
  simp only [List.mem_append] at h
  rcases h with (((h | h) | h) | h) | h
  · split at h <;> simp_all [standardTables]
  · split at h <;> simp_all [standardTables]
  · obtain ⟨name, hname, rfl⟩ := List.mem_map.mp h
    exact Or.inr hname
  · split at h <;> simp_all [standardTables]
  · split at h
    · simp only [List.mem_cons, List.not_mem_nil, or_false] at h
      rcases h with rfl | rfl <;> simp [standardTables]
    · cases h

theorem tableInfo?_eq_none {name : String} (hname : name ∈ staleTables)
    (h : ∀ other ∈ d.others, Text.lowerString other ∉ staleTables) : tableInfo? d name = none := by
  have hlower : ∀ name ∈ staleTables, Text.lowerString name = name := by decide +kernel
  have hstandard : ∀ other ∈ standardTables, Text.lowerString other ∉ staleTables := by
    decide +kernel
  unfold tableInfo?
  rw [hlower name hname, List.find?_eq_none]
  intro entry hentry heq
  have heq : Text.lowerString entry.1 = name := by simpa using heq
  rcases name_of_mem_catalog hentry with hmem | hmem
  · exact hstandard entry.1 hmem (heq ▸ hname)
  · exact h entry.1 hmem (heq ▸ hname)

theorem hasTable_of_tableInfo? {name : String} (h : tableInfo? d name = none) :
    hasTable d name = false := by
  have hnone := List.find?_eq_none.mp h
  rw [hasTable, List.any_eq_false]
  intro entry hentry heq
  have heq : entry.1 = name := by simpa using heq
  exact hnone entry hentry (by simp [heq])

section Permissions

variable [SuffixList] {ι : Type} {ask : AskIndex ι} {index : ι} {now : Instant}

/-- The first two versions make the tables that are missing and change nothing else. -/
theorem tables_of_forM {us : List Int} (hus : ∀ u ∈ us, u = 1 ∨ u = 2)
    (h : (us.forM (upgrade (permissionSchema ask index now))).Gives fields d () d') :
    d'.hosts = (if 1 ∈ us then some (d.hosts.getD .fresh) else d.hosts) ∧
      d'.perms = (if 2 ∈ us then some (d.perms.getD []) else d.perms) ∧ d'.others = d.others := by
  induction us generalizing d with
  | nil =>
    cases h.state
    exact ⟨rfl, rfl, rfl⟩
  | cons u rest ih =>
    obtain ⟨_, d₁, hu, hrest⟩ := Action.gives_of_bind h
    obtain ⟨d₂, happly, rfl⟩ := apply_of_upgrade hu
    obtain ⟨hhosts, hperms, hothers⟩ := ih (fun v hv => hus v (List.mem_cons_of_mem u hv)) hrest
    rw [hhosts, hperms, hothers]
    rcases hus u List.mem_cons_self with rfl | rfl
    · obtain rfl : { d with hosts := some (d.hosts.getD .fresh) } = d₂ := happly.state
      refine ⟨?_, ?_, rfl⟩ <;> simp
    · obtain rfl : { d with perms := some (d.perms.getD []) } = d₂ := happly.state
      refine ⟨?_, ?_, rfl⟩ <;> simp

theorem carryRow_of_perms_none {c c' : Carrying ι} {tally tally' : Tally} {row : Legacy.Row}
    (hperms : c.database.perms = none)
    (h : (carryRow ask now tally row).Gives fields c tally' c') :
    let outcome := expand ask now (some row) fields c.resolver
    outcome.answer.toOption.getD [] = [] ∧ c' = { c with resolver := outcome.state } := by
  intro outcome
  unfold carryRow at h
  obtain ⟨reply, c₁, hattempt, h⟩ := Action.gives_of_bind h
  have hreply : outcome.answer = reply := Except.ok.inj hattempt.answer
  obtain rfl : { c with resolver := outcome.state } = c₁ := hattempt.state
  rw [hreply]
  cases reply with
  | error e =>
    obtain ⟨_, _, hemit, h⟩ := Action.gives_of_bind h
    cases hemit.state
    cases h.state
    exact ⟨rfl, rfl⟩
  | ok records =>
    cases records with
    | nil =>
      cases h.state
      exact ⟨rfl, rfl⟩
    | cons q qs => exact absurd h (not_gives_storeRecords (c := ⟨c.database, outcome.state⟩) hperms)

/-- Without a table of decisions rows are carried over only if they come to nothing. -/
theorem carryRows_of_perms_none {c c' : Carrying ι} {tally tally' : Tally} {rows : List Legacy.Row}
    (hperms : c.database.perms = none)
    (h : (rows.foldlM (carryRow ask now) tally).Gives fields c tally' c') :
    expandAll ask now fields c.resolver rows = [] ∧ c'.database = c.database := by
  induction rows generalizing c tally with
  | nil =>
    cases h.state
    exact ⟨rfl, rfl⟩
  | cons row rest ih =>
    rw [List.foldlM_cons] at h
    obtain ⟨tally₁, c₁, hrow, hrest⟩ := Action.gives_of_bind h
    obtain ⟨hnone, rfl⟩ := carryRow_of_perms_none hperms hrow
    obtain ⟨hlater, hdatabase⟩ := ih (c := ⟨c.database,
      (expand ask now (some row) fields c.resolver).state⟩) hperms hrest
    rw [expandAll, hnone, hlater]
    exact ⟨rfl, hdatabase⟩

theorem readable_of_carryHosts (h : (carryHosts ask index now).Gives fields d () d') :
    ∃ table, d.hosts = some table ∧ table.isReadable = true := by
  unfold carryHosts at h
  obtain ⟨_, _, hget, h⟩ := Action.gives_of_bind h
  cases hget.answer
  split at h
  · cases h.answer
  · rename_i table hhosts
    split at h
    · cases h.answer
    · rename_i hreadable
      exact ⟨table, hhosts, by simpa using hreadable⟩

/-- Without a table of decisions the last version succeeds only if there is nothing to store. -/
theorem eq_of_carryHosts_of_perms_none {table : HostTable} (hhosts : d.hosts = some table)
    (hreadable : table.isReadable = true) (hperms : d.perms = none)
    (h : (carryHosts ask index now).Gives fields d () d') :
    expandAll ask now fields ⟨index, []⟩ (table.rows.filterMap table.readRow?) = [] ∧
      d' = clearHosts d := by
  have hrows : (readHosts table table.rows).Gives fields d _ d :=
    gives_readHosts table table.rows d
  unfold carryHosts at h
  obtain ⟨_, _, hget, h⟩ := Action.gives_of_bind h
  cases hget.answer
  cases hget.state
  simp only [hhosts, hreadable, Bool.not_true, Bool.false_eq_true, if_false] at h
  obtain ⟨rows, d₁, hread, h⟩ := Action.gives_of_bind h
  obtain rfl : d = d₁ := hrows.state_unique hread
  obtain rfl : table.rows.filterMap table.readRow? = rows :=
    Except.ok.inj (hrows.answer.symm.trans hread.answer)
  obtain ⟨tally, d₂, hcarry, h⟩ := Action.gives_of_bind h
  obtain ⟨hnone, hdatabase⟩ := carryRows_of_perms_none
    (c := ⟨d, ⟨index, []⟩⟩) hperms ⟨hcarry.answer, rfl⟩
  obtain rfl : d = d₂ := hdatabase.symm.trans hcarry.state
  obtain ⟨_, d₃, hclear, hemit⟩ := Action.gives_of_bind h
  exact ⟨hnone, hemit.state.symm.trans hclear.state.symm⟩

/-- What the last version leaves if it succeeds. -/
theorem eq_of_carryHosts (h : (carryHosts ask index now).Gives fields d () d') :
    ∃ table, d.hosts = some table ∧
      let records := expandAll ask now fields ⟨index, []⟩ (table.rows.filterMap table.readRow?)
      d' = clearHosts { d with perms := d.perms.map (·.upsertAll now records) } ∧
        (d.perms = none → records = []) := by
  obtain ⟨table, hhosts, hreadable⟩ := readable_of_carryHosts h
  refine ⟨table, hhosts, ?_⟩
  cases hperms : d.perms with
  | some t =>
    have hgives : (carryHosts ask index now).Gives fields d () _ :=
      gives_carryHosts index hhosts hreadable hperms
    exact ⟨h.state_unique hgives, fun hnone => by cases hnone⟩
  | none =>
    obtain ⟨hnone, rfl⟩ := eq_of_carryHosts_of_perms_none hhosts hreadable hperms h
    refine ⟨?_, fun _ => hnone⟩
    rw [Option.map_none, ← hperms]

omit [SuffixList] in
/-- The versions that stand before the last one. -/
theorem pending_permissionVersions (h : 3 ∉ d.versions.getD []) :
    d.pending permissionVersions =
      [1, 2].filter (fun v => !(d.versions.getD []).contains v) ++ [3] := by
  have hlast : [3].filter (fun v => !(d.versions.getD []).contains v) = [3] := by simp [h]
  unfold pending
  rw [← hlast, ← List.filter_append]
  rfl

/-- A migration that carried the rows by host over stored all their expansions in turn. -/
theorem eq_of_migrate (hversion : d.version < 3)
    (h : (migrate (permissionSchema ask index now)).Gives fields d () d') :
    let table := d.hosts.getD .fresh
    let records := expandAll ask now fields ⟨index, []⟩ (table.rows.filterMap table.readRow?)
    let earlier := if 2 ∈ d.versions.getD [] then d.perms else some (d.perms.getD [])
    d'.perms = earlier.map (·.upsertAll now records) ∧ (earlier = none → records = []) ∧
      d'.hosts = some { table with rows := [] } ∧
      d'.others = d.others.filter fun name => !staleTables.contains (Text.lowerString name) := by
  intro table records earlier
  have hrecorded : ∀ v : Int, v ≠ 0 → (v ∈ d.begun.versions.getD [] ↔ v ∈ d.versions.getD []) := by
    intro v hv
    cases hvs : d.versions <;> simp [begun, hvs, hv]
  have hlast : 3 ∉ d.begun.versions.getD [] := by
    intro hmem
    have hle := le_version_of_mem ((hrecorded 3 (by decide)).mp hmem)
    omega
  -- The versions before the last one only make the tables that are missing.
  have hrun : ((d.begun.pending permissionVersions).forM
      (upgrade (permissionSchema ask index now))).Gives fields d.begun () d' := forM_of_migrate h
  rw [pending_permissionVersions hlast] at hrun
  obtain ⟨d₁, hbefore, hrun⟩ := forM_of_forM_append hrun
  obtain ⟨hhosts₁, hperms₁, hothers₁⟩ := tables_of_forM (by simp) hbefore
  have hsecond : 2 ∈ [1, 2].filter (fun v => !(d.begun.versions.getD []).contains v) ↔
      2 ∉ d.versions.getD [] := by
    rw [← hrecorded 2 (by decide)]
    simp
  have hearlier : d₁.perms = earlier := by
    rw [hperms₁]
    simp only [hsecond, ite_not]
    rfl
  -- The last version carries the rows over.
  obtain ⟨_, d₂, hupgrade, hdone⟩ := Action.gives_of_bind hrun
  obtain rfl : d₂ = d' := hdone.state
  obtain ⟨d₃, happly, rfl⟩ := apply_of_upgrade hupgrade
  obtain ⟨found, hfound, rfl, hnone⟩ := eq_of_carryHosts happly
  obtain rfl : table = found := by
    rw [hhosts₁] at hfound
    split at hfound
    · exact Option.some.inj hfound
    · exact congrArg (·.getD .fresh) hfound
  rw [hearlier] at hnone
  refine ⟨?_, hnone, ?_, ?_⟩
  · change d₁.perms.map _ = _
    rw [hearlier]
  · change d₁.hosts.map _ = _
    rw [hfound]
    rfl
  · change d₁.others.filter _ = _
    rw [hothers₁]
    rfl

/-- The tables after a migration that carried the rows by host over. The expansions of the rows that
are due, in the order of their ids, are stored one after another over the earlier decisions: rows
whose key they do not have stay as they are, the others keep their places and get the values of the
last record with their key, and of the records with a new key the last one stands where the first
came. -/
theorem tables_of_migrate (ask : AskIndex ι) (index : ι) (hversion : d.version < 3)
    (hhosts : ∀ table ∈ d.hosts, table.rows.Pairwise fun a b => a.1 ≤ b.1)
    (hperms : ∀ t ∈ d.perms, t.Keyed)
    (h : (migrate (permissionSchema ask index now)).Gives fields d () d') :
    let table := d.hosts.getD .fresh
    let rows := (table.rows.mergeSort fun a b => a.1 ≤ b.1).filterMap table.readRow?
    let records := expandAll ask now fields ⟨index, []⟩ (rows.filter (Row.isDue now))
    let earlier := if 2 ∈ d.versions.getD [] then d.perms else some (d.perms.getD [])
    d'.perms = earlier.map (·.upsertAll now records) ∧
      (earlier = none → records = []) ∧
      (∀ valid reply, Resolver.Steady ask valid reply → valid index →
        records = (rows.filter (Row.isDue now)).flatMap (Row.carried reply now)) ∧
      (∀ t, d'.perms = some t → ∃ old, earlier = some old ∧ t.Keyed ∧
        t = old.map (Table.refreshed now records) ++
          Table.newRows old.nextId now (Table.added old records)) ∧
      d'.hosts = some { table with rows := [] } ∧
      ∀ name ∈ staleTables, hasTable d' name = false ∧ tableInfo? d' name = none := by
  intro table rows records earlier
  obtain ⟨hcarried, hnone, hemptied, hothers⟩ := eq_of_migrate hversion h
  have hsorted : table.rows.Pairwise fun a b => a.1 ≤ b.1 := by
    cases hfound : d.hosts with
    | none => simp [table, hfound, HostTable.fresh]
    | some found =>
      have := hhosts found hfound
      simpa [table, hfound]
  have hrows : table.rows.filterMap table.readRow? = rows := by
    have hsame : table.rows.mergeSort (fun a b => a.1 ≤ b.1) = table.rows :=
      List.mergeSort_of_pairwise (by simpa using hsorted)
    exact congrArg (List.filterMap table.readRow?) hsame.symm
  have hrecords : expandAll ask now fields ⟨index, []⟩ (table.rows.filterMap table.readRow?) =
      records := by
    rw [hrows, expandAll_filter_isDue]
  rw [hrecords] at hcarried hnone
  have hkeyed : ∀ old, earlier = some old → old.Keyed := by
    intro old hold
    cases hfound : d.perms with
    | none =>
      have hold : 2 ∉ d.versions.getD [] ∧ old = [] := by simpa [earlier, hfound] using hold
      rw [hold.2]
      exact .nil
    | some found =>
      obtain rfl : found = old := by simpa [earlier, hfound] using hold
      exact hperms found hfound
  refine ⟨hcarried, hnone, fun valid reply hsteady hindex => ?_, ?_, hemptied, ?_⟩
  · exact expandAll_steady hsteady (Resolver.faithful_new hindex) now fields _
  · intro t ht
    rw [hcarried] at ht
    obtain ⟨old, hold, rfl⟩ := Option.map_eq_some_iff.mp ht
    have hold' := hkeyed old hold
    exact ⟨old, hold, hold'.upsertAll now records, Table.upsertAll_eq hold' now records⟩
  · intro name hname
    have hdropped : ∀ other ∈ d'.others, Text.lowerString other ∉ staleTables := by
      intro other hother
      rw [hothers] at hother
      simpa using (List.mem_filter.mp hother).2
    have hinfo := tableInfo?_eq_none hname hdropped
    exact ⟨hasTable_of_tableInfo? hinfo, hinfo⟩

end Permissions

/-- A table without three of its columns. A timed decision stands beside one that cannot be read,
one without a host and one whose time has come, and the first host is decided on once more. -/
def oldHosts : HostTable where
  columns := ["host", "type", "permission", "expireType", "expireTime"]
  rows := [
    (1, [.text "a.example", .text "popup", .integer 1, .integer 0, .integer 0]),
    (2, [.text "b.example", .text "popup", .integer 1, .integer 2, .integer 5000]),
    (4, [.text "c.example", .text "popup", .text "yes", .integer 0, .integer 0]),
    (5, [.null, .text "popup", .integer 1, .integer 0, .integer 0]),
    (7, [.text "d.example", .text "popup", .integer 1, .integer 2, .integer 1000]),
    (9, [.text "a.example", .text "popup", .integer 2, .integer 0, .integer 0])]

def oldPerms : Table := [
  ⟨3, "https://b.example", "popup", .block, .never, 0, 700⟩,
  ⟨8, "https://b.example", "camera", .allow, .never, 0, 800⟩]

def oldDatabase : Database where
  perms := some oldPerms
  hosts := some oldHosts
  others := ["Moz_Perms_V6", "moz_hosts_is_backup", "notes"]
  versions := some [0, 1]

/-- An index that fails when it is first asked and later knows of visits by https. -/
def wakingIndex (_ : String) : Action Nat (List SchemePort) := do
  let asked ← Action.get
  Action.set (asked + 1)
  if asked = 0 then .fail .storage else pure [⟨"https", 0⟩]

/-- The decision on the host that comes twice is found where it first came. -/
theorem tables_of_migrate_repeated :
    let now : Instant := .atMillis 2000
    let d' := ((migrate (permissionSchema (some wakingIndex) 0 now)).run oldDatabase).state
    d'.perms = some [
        ⟨3, "https://b.example", "popup", .allow, .timed, 5000, 2000⟩,
        ⟨8, "https://b.example", "camera", .allow, .never, 0, 800⟩,
        ⟨9, "http://a.example", "popup", .allow, .never, 0, 2000⟩,
        ⟨10, "https://a.example", "popup", .block, .never, 0, 2000⟩] ∧
      d'.hosts = some ⟨oldHosts.columns, []⟩ ∧ hasTable d' "moz_hosts_is_backup" = false ∧
      tableInfo? d' "moz_perms_v6" = none := by
  intro now d'
  have hanswer : ((migrate (permissionSchema (some wakingIndex) 0 now)).run oldDatabase).answer =
      .ok () := by
    decide +kernel
  have hrun := Action.Gives.of_run hanswer
  have hhosts : oldHosts.rows.Pairwise fun a b => a.1 ≤ b.1 := by decide
  have hperms : oldPerms.Keyed := ⟨by decide, by decide⟩
  have h := tables_of_migrate (some wakingIndex) 0 (by decide)
    (by rintro _ ⟨⟩; exact hhosts) (by rintro _ ⟨⟩; exact hperms) hrun
  obtain ⟨hcarried, -, -, -, hemptied, hstale⟩ := h
  have hsorted : oldHosts.rows.mergeSort (fun a b => a.1 ≤ b.1) = oldHosts.rows :=
    List.mergeSort_of_pairwise (by simpa using hhosts)
  simp only [oldDatabase, Option.getD_some, hsorted] at hcarried
  refine ⟨hcarried.trans ?_, hemptied, (hstale _ (by decide)).1, (hstale _ (by decide)).2⟩
  decide +kernel

end Store.Database

end Consent

import Consent.History.Log
import Consent.Legacy.Expand
import Consent.Legacy.HostTable
import Consent.Store.Repository

/-! The contents of a permission database and the migrations that bring it up to date. -/

namespace Consent.Store

open Legacy Host

/-- The tables of a database. A table that does not exist is `none`. -/
structure Database where
  perms : Option Table := none
  hosts : Option HostTable := none
  /-- Names of further tables. -/
  others : List String := []
  /-- What further tables hold; one that is not listed has no rows. -/
  held : List (String × HostTable) := []
  /-- The recorded schema versions, with 0 as the first. -/
  versions : Option (List Int) := none
  /-- Recorded visits, in the order of their ids. -/
  visits : Option (List Visit) := none
  deriving DecidableEq, Repr

/-- Tables left behind by interrupted migrations of earlier releases. -/
def staleTables : List String := ["moz_hosts_is_backup", "moz_perms_v6"]

/-- Versions that bring the tables of a database up to date. -/
structure Schema where
  name : String
  /-- The versions in the order they are applied. -/
  versions : List Int
  /-- What a version changes. -/
  apply : Int → Action Database Unit

namespace Database

def pending (versions : List Int) (d : Database) : List Int :=
  versions.filter fun v => !(d.versions.getD []).contains v

def other (d : Database) (name : String) : HostTable :=
  ((d.held.find? (·.1 = name)).map (·.2)).getD ⟨[], []⟩

def version (d : Database) : Int := (d.versions.getD []).foldl max 0

/-- Those of some schema versions that are not recorded though a newer one is. -/
def missing (versions : List Int) (d : Database) : List Int :=
  (d.pending versions).filter (· < d.version)

def due (versions : List Int) (d : Database) : Except Failure (List Int) :=
  if d.missing versions = [] then .ok (d.pending versions)
  else .error (.outOfOrder (d.missing versions) d.version)

def withPerms {α : Type} (f : Table → α × Table) : Action Database α := do
  let d ← Action.get
  match d.perms with
  | none => .fail .storage
  | some t =>
    let (x, t') := f t
    Action.set { d with perms := some t' }
    pure x

def deleteWhere (p : Row → Bool) : Action Database Nat :=
  withPerms fun t => ((t.filter p).length, t.filter (!p ·))

def readHosts (t : HostTable) : List (Int × List Cell) → Action Database (List Legacy.Row)
  | [] => pure []
  | row :: rest =>
    match t.readRow? row with
    | some r => do
      let rs ← readHosts t rest
      pure (r :: rs)
    | none => do
      Action.emit .warn "skipping unreadable moz_hosts row" [Log.cause .storage]
      readHosts t rest

structure Tally where
  written : Nat := 0
  skipped : Nat := 0

/-- A database together with the resolver that its rows by host are expanded with. -/
structure Carrying (ι : Type) where
  database : Database
  resolver : Resolver ι

def askHistory (history : Option History) : AskIndex History :=
  history.map fun _ => History.visitedUnder

variable {ι : Type}

def storeRecord (now : Instant) (tally : Tally) (r : Record) : Action (Carrying ι) Tally := do
  (withPerms fun t => ((), t.upsert now r)).on Carrying.database fun d c => { c with database := d }
  pure { tally with written := tally.written + 1 }

def carryRow [SuffixList] (ask : AskIndex ι) (now : Instant) (tally : Tally)
    (row : Legacy.Row) : Action (Carrying ι) Tally := do
  match ← ((expand ask now (some row)).on Carrying.resolver
      fun r c => { c with resolver := r }).attempt with
  | .error e =>
    Action.emit .warn "skipping legacy permission row"
      [Log.text "migration" "legacy_hosts", Log.cause e, Log.number "id" row.id]
    pure { tally with skipped := tally.skipped + 1 }
  | .ok records => records.foldlM (storeRecord now) tally

/-- Empties the table of decisions by host and drops the stale tables; their names match in any
letter case. -/
def clearHosts (d : Database) : Database :=
  { d with
    hosts := d.hosts.map fun t => { t with rows := [] }
    others := d.others.filter fun name => !staleTables.contains (Text.lowerString name)
    held := d.held.filter fun e => !staleTables.contains (Text.lowerString e.1) }

/-- Carries all decisions by host over to origins, with the schemes and ports that an index of
visits knows. -/
def carryHosts [SuffixList] (ask : AskIndex ι) (index : ι) (now : Instant) :
    Action Database Unit := do
  match (← Action.get).hosts with
  | none => .fail .storage
  | some t =>
    if !t.isReadable then .fail .storage
    else
      let rows ← readHosts t t.rows
      let carry : Action (Carrying ι) Tally := rows.foldlM (carryRow ask now) {}
      let tally ← carry.on (fun d => ⟨d, ⟨index, []⟩⟩) (fun c _ => c.database)
      Action.modify clearHosts
      Action.emit .info "legacy host permissions migrated"
        [Log.text "migration" "legacy_hosts", Log.number "legacy_rows" rows.length,
          Log.number "written" tally.written, Log.number "skipped" tally.skipped]

def permissionVersions : List Int := [1, 2, 3]

/-- The tables of decisions. The last version carries the decisions by host over to origins. -/
def permissionSchema [SuffixList] (ask : AskIndex ι) (index : ι) (now : Instant) : Schema where
  name := "permissions"
  versions := permissionVersions
  apply v :=
    if v = 1 then Action.modify fun d => { d with hosts := some (d.hosts.getD .fresh) }
    else if v = 2 then Action.modify fun d => { d with perms := some (d.perms.getD []) }
    else carryHosts ask index now

def historySchema : Schema where
  name := "places"
  versions := [1]
  apply _ := Action.modify fun d => { d with visits := some (d.visits.getD []) }

/-- Applies a schema version and records it; a version that fails changes nothing. -/
def upgrade (schema : Schema) (v : Int) : Action Database Unit :=
  Action.transact do
    schema.apply v
    Action.modify fun d => { d with versions := some ((d.versions.getD []) ++ [v]) }

def applyDue (schema : Schema) : Action Database Unit := do
  let d ← Action.get
  if d.versions = some [] then .fail .noFirstVersion
  else
    let due ← Action.ofExcept (d.due schema.versions)
    due.forM (upgrade schema)

def noteUnversioned (schema : Schema) (d : Database) : Action Database Unit :=
  if d.versions = some [] then
    Action.emit .debug "could not get current db version (may be new database)"
      [Log.text "schema" schema.name, Log.cause .noFirstVersion]
  else pure ()

def noteApplied (schema : Schema) (before after : Database) : Action Database Unit :=
  let applied := (before.pending schema.versions).length
  if applied = 0 then
    Action.emit .debug "database schema up to date"
      [Log.text "schema" schema.name, Log.number "version" after.version]
  else
    Action.emit .info "database migrations applied"
      [Log.text "schema" schema.name, Log.number "from_version" before.version,
        Log.number "to_version" after.version, Log.number "applied" applied]

/-- Applies the schema versions that are due. A database without a table of versions gets one. -/
def migrate (schema : Schema) : Action Database Unit := do
  Action.modify fun d => { d with versions := some (d.versions.getD [0]) }
  let before ← Action.get
  noteUnversioned schema before
  Action.during (.runMigrations schema.name) (applyDue schema)
  noteApplied schema before (← Action.get)

end Database

end Consent.Store

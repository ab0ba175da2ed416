import Consent.File.Path
import Consent.Store.Database

/-! A store of decisions in a file: it connects on first use, migrates, drops what the last session
left, and serves until it is closed. -/

namespace Consent

open Store Host

inductive Store.File where
  | database (d : Database)
  /-- Something else than a database. -/
  | foreign
  deriving DecidableEq, Repr

/-- How far the connection to the file has come; a failed one is not tried again. -/
inductive Store.Connection where
  | untried
  | failed (cause : Failure)
  | ready
  deriving DecidableEq, Repr

/-- A handle on a database file, with the history that its migration asks. -/
structure Store where
  path : String
  file : File
  history : Option History := none
  /-- The regular file in the way of the directory of `path`. -/
  obstacle : Option String := none
  connection : Connection := .untried
  opened : Bool := false
  closed : Bool := false
  deriving DecidableEq, Repr

inductive MigrationPhase where
  | needed
  | migrated (version : Int)
  deriving DecidableEq, Repr

namespace MigrationPhase

def name : MigrationPhase → String
  | .needed => "needs-migration"
  | .migrated _ => "migrated"

def version : MigrationPhase → Int
  | .needed => 0
  | .migrated v => v

def describe (phase : String) (version : Int) : String :=
  if phase = "migrated" then phase ++ "(version=" ++ Text.decimal version ++ ")" else phase

def text (p : MigrationPhase) : String := describe p.name p.version

end MigrationPhase

/-- How far a database has been migrated, if the versions that are due can be told. One without a
table of versions has all of them before it. -/
def Store.Database.phase (d : Database) : Except Failure MigrationPhase :=
  if d.versions = none then .ok .needed
  else
    match d.due permissionVersions with
    | .error e => .error (.during .checkPending e)
    | .ok due => .ok (if due.isEmpty then .migrated d.version else .needed)

structure TableStatus where
  name : String
  present : Bool
  rows : Nat
  deriving DecidableEq, Repr

namespace Store

/-- The schema that brings a database up to date, by the history to ask and the time. -/
class Upgrades where
  schema : Option History → Instant → Schema

instance [SuffixList] : Upgrades where
  schema history now :=
    Database.permissionSchema (Database.askHistory history) (history.getD {}) now

def establish : Action Store Unit := do
  let s ← Action.get
  if s.path = "" then .fail .emptyDatabasePath
  else
    match s.obstacle with
    | some file => .fail (.during .createDirectory (.notDirectory file))
    | none =>
      match s.file with
      | .foreign => .fail .storage
      | .database _ => Action.emit .debug "database connection established" [Log.text "path" s.path]

/-- Connects on the first call; later calls repeat its outcome. -/
def connect : Action Store Unit := do
  let s ← Action.get
  if s.closed then .fail .closed
  else
    match s.connection with
    | .ready => pure ()
    | .failed cause => .fail (.during .connect cause)
    | .untried =>
      Action.emit .debug "permission database initialization starting" [Log.text "path" s.path]
      match ← establish.attempt with
      | .ok () => Action.modify fun s => { s with connection := .ready }
      | .error e =>
        Action.modify fun s => { s with connection := .failed e }
        Action.emit .error "permission database initialization failed" [Log.cause e]
        .fail (.during .connect e)

def onDatabase {α : Type} (a : Action Database α) : Action Store α := fun fields s =>
  match s.file with
  | .foreign => ⟨.error .storage, s, []⟩
  | .database d =>
    let o := a fields d
    ⟨o.answer, { s with file := .database o.state }, o.log⟩

/-- Connects, applies the pending migrations and drops what lasts only for a session. Once this has
succeeded it does nothing. `now` is the time of the call. -/
def ensureOpen [Upgrades] (now : Instant) : Action Store Unit := do
  let s ← Action.get
  if s.opened then pure ()
  else
    connect
    onDatabase (Database.migrate (Upgrades.schema s.history now))
    let dropped ← Action.during .dropSession (onDatabase (Database.deleteWhere Row.isSession))
    if 0 < dropped then
      Action.emit .debug "dropped session permissions from previous run"
        [Log.number "count" dropped]
    Action.modify fun s => { s with opened := true }

def phase : Action Store MigrationPhase := do
  connect
  onDatabase do
    let d ← Action.get
    Action.ofExcept d.phase

def migrate [Upgrades] (now : Instant) : Action Store MigrationPhase := do
  ensureOpen now
  phase

def acquire [Upgrades] (now : Instant) : Action Store Unit := do
  ensureOpen now
  if (← Action.get).closed then .fail .closed

def close (s : Store) : Store := { s with closed := true }

def reopened (s : Store) : Store :=
  { s with connection := .untried, opened := false, closed := false }

def isInitialized (s : Store) : Bool := s.connection = .ready

/-- Runs on the table of decisions of an open store. -/
def serve [Upgrades] {α : Type} (now : Instant) (before : Action Store Unit)
    (f : Table → α × Table) : Action Store α := do
  acquire now
  before
  onDatabase (Database.withPerms f)

/-- The operations on the decisions of a store. Each of them opens the store if need be. -/
def repository [Upgrades] (now : Instant) : Repository Store where
  get origin kind :=
    serve now
      (Action.emit .debug "getting permission" [Log.text "origin" origin, Log.text "type" kind])
      fun t => ((t.find? origin kind).map Row.record, t)
  set r :=
    serve now
      (Action.emit .debug "setting permission"
        [Log.text "origin" r.origin, Log.text "type" r.kind, Log.text "state" r.state.name,
          Log.text "scope" r.scope.name])
      fun t => ((), t.upsert now r)
  delete origin kind :=
    serve now
      (Action.emit .debug "deleting permission" [Log.text "origin" origin, Log.text "type" kind])
      fun t => ((), t.erase origin kind)
  getAll origin :=
    serve now
      (Action.emit .debug "getting all permissions for origin" [Log.text "origin" origin])
      fun t => (t.recordsAt origin, t)
  list := serve now (pure ()) fun t => (t.records, t)
  deleteAll := serve now (Action.emit .debug "deleting all permissions" []) fun _ => ((), [])
  deleteExpired time :=
    serve now (pure ()) fun t =>
      ((t.filter (·.isLapsed time)).length, t.filter (!·.isLapsed time))
  deleteSession :=
    serve now (pure ()) fun t => ((t.filter Row.isSession).length, t.filter (!·.isSession))

def setNothing [Upgrades] (now : Instant) : Action Store Unit := do
  acquire now
  Action.emit .error "cannot set nil permission record" []
  .fail .missingRecord

def versionTable : String := "goose_db_version"

def catalog (d : Database) : List (String × List String × Nat) :=
  (match d.perms with
    | some t => [("moz_perms", ["id", "origin", "type", "permission", "expireType", "expireTime",
        "modificationTime"], t.length)]
    | none => [])
  ++ (match d.hosts with
    | some t => [("moz_hosts", "id" :: t.columns, t.rows.length)]
    | none => [])
  ++ d.others.map (fun name => (name, "id" :: (d.other name).columns, (d.other name).rows.length))
  ++ (match d.visits with
    | some vs => [("history_visits", ["id", "url", "scheme", "host", "port", "visited_at"],
        vs.length)]
    | none => [])
  ++ (match d.versions with
    | some vs => [(versionTable, ["id", "version_id", "is_applied", "tstamp"], vs.length),
        ("sqlite_sequence", ["name", "seq"], 1)]
    | none => [])

/-- The entry of a table; names match in any letter case. -/
def tableInfo? (d : Database) (name : String) : Option (String × List String × Nat) :=
  (catalog d).find? fun e => Text.lowerString e.1 = Text.lowerString name

/-- Whether a table of exactly this name exists. -/
def hasTable (d : Database) (name : String) : Bool := (catalog d).any (·.1 = name)

def contents [Upgrades] (now : Instant) : Action Store Database := do
  acquire now
  onDatabase Action.get

def tableExists [Upgrades] (now : Instant) (name : String) : Action Store Bool := do
  pure (hasTable (← contents now) name)

def countRows [Upgrades] (now : Instant) (name : String) : Action Store Nat := do
  match tableInfo? (← contents now) name with
  | some (_, _, rows) => pure rows
  | none => .fail .storage

/-- The columns of a table in lower case, ascending; none if there is no such table. -/
def columns [Upgrades] (now : Instant) (name : String) : Action Store (List String) := do
  match tableInfo? (← contents now) name with
  | some (_, cs, _) => pure ((cs.map Text.lowerString).eraseDups.mergeSort fun a b => !(b < a))
  | none => pure []

def tables [Upgrades] (now : Instant) : Action Store (List TableStatus) := do
  let d ← contents now
  pure ((["moz_perms", "moz_hosts"] ++ staleTables).map fun name =>
    if hasTable d name then
      ⟨name, true, ((tableInfo? d name).map (·.2.2)).getD 0⟩
    else ⟨name, false, 0⟩)

end Store

end Consent

import Consent.Settings.Profile
import Consent.Store.Disk

/-! One run of the program: what it sees, what it changes and what it prints. -/

namespace Consent

structure Build where
  version : String := ""
  commit : String := ""
  date : String := ""
  compiler : String := ""
  deriving DecidableEq, Repr

structure Session where
  environment : Environment
  build : Build := {}
  now : Instant
  /-- How many nanoseconds pass until the decisions are reached. -/
  lag : Nat := 0
  disk : Disk
  settings : Settings := .default
  /-- The store of decisions; it is opened on first use. -/
  store : Store := { path := "", file := .database {} }
  output : String := ""
  deriving DecidableEq, Repr

namespace Session

/-- The time at which the decisions are reached. -/
def later (s : Session) : Instant := s.now.addNanos s.lag

def print (text : String) : Action Session Unit :=
  Action.modify fun s => { s with output := s.output ++ text }

def printLine (text : String) : Action Session Unit := print (text ++ "\n")

def onStore {α : Type} (a : Action Store α) : Action Session α :=
  a.on Session.store fun st s => { s with store := st }

def onProfile {α : Type} (a : Environment → Action Settings.Profile α) : Action Session α :=
  fun fields s =>
    let o := a s.environment fields (.ofEnvironment s.environment s.disk.regular)
    let files := { s.disk.files with texts := o.state.files.texts }
    ⟨o.answer, { s with disk := { s.disk with files }, settings := o.state.current }, o.log⟩

/-- Runs on the database at a path as it is on the disk. -/
def onDatabase {α : Type} (path : String) (a : Action Store α) : Action Session α :=
  fun fields s =>
    let o := a fields (s.disk.handle s.environment path none)
    ⟨o.answer, { s with disk := s.disk.store s.environment path o.state.file }, o.log⟩

def onHistory {α : Type} (a : Action History α) : Action Session α := do
  let path := (← Action.get).settings.database.placesPath
  onDatabase path <| Store.onDatabase fun fields d =>
    match d.visits with
    | none => ⟨.error .storage, d, []⟩
    | some visits =>
      let o := a fields { visits }
      ⟨o.answer, { d with visits := some o.state.visits }, o.log⟩

/-- The recorded visits, as they can be asked. A history without its table cannot be used. -/
def history (s : Session) : History :=
  match s.disk.content s.environment s.settings.database.placesPath with
  | .database { visits := some visits, .. } => { visits }
  | _ => { closed := true }

def openHistory : Action Session Unit := do
  let s ← Action.get
  let path := s.settings.database.placesPath
  onDatabase path do
    Store.establish
    Store.onDatabase (Store.Database.migrate Store.Database.historySchema)

/-- Makes the directories, loads the settings, opens the history, and prepares the store. Paths and
level that are not empty take the place of those in the settings. -/
def start (path placesPath level : String) : Action Session Unit :=
  Action.during .start do
    let s ← Action.get
    let env := s.environment
    Settings.makeDirectories env s.disk.regular
    Action.modify fun s =>
      { s with disk := (Directories.ofEnvironment env).toList.foldl (·.makeDirectory ·) s.disk }
    Action.during .loadSettings (onProfile Settings.Profile.load)
    Action.modify fun s => { s with settings := s.settings.override path placesPath level }
    Action.during .openHistory openHistory
    Action.modify fun s =>
      { s with store := s.disk.settle.handle env s.settings.database.path (some s.history) }

/-- The disk after the run: the store was written if it was connected. -/
def finish (s : Session) : Disk :=
  let disk := if s.store.isInitialized then s.disk.store s.environment s.store.path s.store.file
    else s.disk
  disk.settle

end Session

end Consent

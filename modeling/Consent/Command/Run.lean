import Consent.Command.Help
import Consent.Command.Session
import Consent.Dialog.Prompt
import Consent.Host.TypedAddress
import Consent.Manage.View
import Consent.Screen.Grid

/-! What the commands do. -/

namespace Consent.Command

open Text Screen Session

inductive Fault where
  | usage (error : UsageError)
  | failed (failure : Failure)
  deriving DecidableEq, Repr

def Fault.message : Fault → String
  | .usage e => e.message
  | .failed f => f.message

def address (typed : String) : String := .ofList (Host.completeAddress typed.toList)

def signed (icon : Char) (text : String) : String := .ofList [icon, ' '] ++ text

def policy (s : Session) : Policy := ⟨.default, s.later⟩

def repository (s : Session) : Repository Store := Store.repository s.later

def showState (s : Session) (state : State) : String :=
  (Theme.ofPalette s.settings.palette).renderState .plain state

def showVerdict (s : Session) (v : Verdict) : String :=
  showState s v.state ++ " " ++ (Theme.ofPalette s.settings.palette).renderScope .plain v.scope.name

/-- Stores a decision: until a span has passed if that is positive, else with the scope that was
asked for, or that of the settings. -/
def decide (s : Session) (origin : String) (kind : Kind) (state : State) (lasting : Lasting) :
    Action Store Unit :=
  if 0 < lasting.expire.nanos then
    Decision.setUntil (policy s) (repository s) origin kind state
      (s.now.addNanos lasting.expire.nanos)
  else
    let scope := if lasting.session then .session
      else if lasting.persistent then .persistent
      else s.settings.scope
    Decision.set (policy s) (repository s) origin kind state scope

def showListed (s : Session) (several : Bool) (origin : String) (verdicts : List Verdict) :
    List String :=
  (if several then [Theme.render .plain {} (signed Icon.globe origin).toList] else [])
    ++ if verdicts.isEmpty then ["no permissions"]
      else verdicts.map fun v => fill 22 v.kind ++ " " ++ showVerdict s v

/-- Lists the decisions of addresses; all of them are looked up before anything is printed. -/
def listDecisions (addresses : List String) : Action Session Unit := do
  let s ← Action.get
  let origins := addresses.map address
  let listed ← origins.mapM fun origin => do
    let verdicts ← Action.during (.atAddress origin)
      (onStore (Decision.getAll (policy s) (repository s) origin))
    pure (showListed s (1 < addresses.length) origin verdicts)
  (List.intercalate [""] listed).forM printLine

def showRecords (now : Instant) (records : List Record) : List String :=
  if records.isEmpty then ["No permissions stored."]
  else (Grid.render Manage.titles (records.map (·.cells now))).map .ofList
    ++ [decimal records.length ++ " permissions"]

def describeMatching (exactHost : Bool) : String :=
  if exactHost then "exact origin only" else "inherited by subdomains"

def showKind (kinds : Registry) (kind : Kind) : String :=
  fill 22 kind ++ " " ++ describeMatching (kinds.exactHost kind) ++ "  "
    ++ ", ".intercalate ((kinds.states kind).map State.name)

def showTable (t : TableStatus) : String :=
  "  " ++ fill 20 t.name ++ " " ++ if t.present then decimal t.rows ++ " rows" else "absent"

/-- Reports how far the store has been migrated, and migrates it unless only that is asked. -/
def migrateStore (statusOnly : Bool) : Action Session Unit := do
  let s ← Action.get
  let phase ← onStore Store.phase
  printLine (signed Icon.database (s.store.path ++ ": " ++ phase.text))
  if !statusOnly then
    if phase.name = MigrationPhase.needed.name then
      let phase ← onStore (Store.migrate s.now)
      printLine (signed Icon.check ("migrated: " ++ phase.text))
    (← onStore (Store.tables s.now)).forM fun t => printLine (showTable t)

/-- Records visits at a time; those before one that fails stay. -/
def recordVisits (time : String) (addresses : List String) : Action Session Unit := do
  let s ← Action.get
  let time ← if time = "" then pure s.now
    else Action.ofExcept ((Instant.ofTimestamp time).mapError .visitTime)
  addresses.forM fun typed => do
    onHistory (History.addVisit s.now (address typed) time)
    printLine (signed Icon.check (address typed))

def showVisits (visits : List Visit) : List String :=
  if visits.isEmpty then ["No visits recorded."]
  else visits.map fun v => (Store.ofMillis v.atMillis).calendarText " " "" true ++ "  " ++ v.url

def showBuild (b : Build) : List String :=
  let known (title value : String) : List String := if value = "" then [] else [title ++ value]
  [applicationName ++ " " ++ if b.version = "" then "dev" else b.version]
    ++ known "commit:  " b.commit ++ known "built:   " b.date ++ known "go:      " b.compiler
    ++ ["source:  https://github.com/bnema/permstore"]

def restoreSettings (force : Bool) : Action Session Unit := do
  let path := (Directories.ofEnvironment (← Action.get).environment).configFile
  if force then
    onProfile fun env => Settings.Profile.writeFile env .default
    printLine (signed Icon.check ("wrote " ++ path))
  else .fail (.overwrites path)

namespace Task

def usesStore : Task → Bool
  | .settingsPath | .showSettings | .resetSettings _ | .version | .help _ => false
  | _ => true

/-- Does what is asked. There is no terminal, so nobody is asked back. -/
def perform : Task → Action Session Unit
  | .get typed kind => do
    let s ← Action.get
    let v ← onStore (Decision.get (policy s) (repository s) (address typed) kind)
    printLine (v.kind ++ " " ++ showVerdict s v)
  | .list addresses => listDecisions addresses
  | .all kind => do
    let s ← Action.get
    let records ← onStore (Decision.all (policy s) (repository s))
    let records := if kind = "" then records else records.filter (·.kind = kind)
    (showRecords s.now records).forM printLine
  | .set typed kind word lasting => do
    let s ← Action.get
    let origin := address typed
    let state ← Action.ofExcept ((State.ofWord word).mapError .stateName)
    onStore (decide s origin kind state lasting)
    printLine (signed Icon.check (origin ++ " " ++ kind ++ " " ++ showState s state))
  | .remove typed kind => do
    let s ← Action.get
    let origin := address typed
    onStore (Decision.remove (repository s) origin kind)
    printLine (signed Icon.trash ("removed " ++ origin ++ " " ++ kind))
  | .clear force => do
    let s ← Action.get
    if force then
      onStore (Decision.removeAll (repository s))
      printLine (signed Icon.trash "all permissions removed")
    else .fail .unconfirmed
  | .manage => .fail .notInteractive
  | .purgeExpired => do
    let s ← Action.get
    let n ← onStore (Decision.purgeExpired (repository s) s.now)
    printLine (signed Icon.clock (decimal n ++ " expired permissions removed"))
  | .request typed kind silently => do
    let s ← Action.get
    let prompter := if silently then none else some (Dialog.ask false [])
    let r ← onStore (Request.handle (policy s) (repository s) prompter (address typed) kind)
    match r.cause with
    | some e => .fail e
    | none => printLine (showState s r.state)
  | .kinds => do
    let p := policy (← Action.get)
    p.kinds.kinds.forM fun kind => printLine (showKind p.kinds kind)
  | .states kind => do
    let p := policy (← Action.get)
    (p.kinds.states kind).forM fun state => printLine (decimal state.code ++ "\t" ++ state.name)
  | .visit time addresses => recordVisits time addresses
  | .history limit => do (showVisits (← onHistory (History.newest limit))).forM printLine
  | .migrate statusOnly => migrateStore statusOnly
  | .settingsPath => do
    printLine (Directories.ofEnvironment (← Action.get).environment).configFile
  | .showSettings => do
    onProfile Settings.Profile.load
    print (← Action.get).settings.write
  | .resetSettings force => restoreSettings force
  | .version => do (showBuild (← Action.get).build).forM printLine
  | .help path => print (helpText (find path).1)

end Task

/-- Starts the program if need be, refuses flags that exclude each other, and does what is asked. -/
def Invocation.perform (i : Invocation) : Action Session Unit := do
  if i.task.usesStore then start i.path i.placesPath i.level
  if 1 < i.given.length then
    .fail (.exclusive i.exclusive (i.given.mergeSort fun a b => !(b < a)))
  i.task.perform

structure Report where
  output : String
  fault : Option Fault
  disk : Disk

/-- One run of the program. What was printed before a failure stays. -/
def run (s : Session) (words : List String) : Report :=
  match parse words with
  | .error e => ⟨"", some (.usage e), s.disk⟩
  | .ok i =>
    let o := i.perform.run s
    let fault := match o.answer with
      | .ok () => none
      | .error f => some (.failed f)
    ⟨o.state.output, fault, o.state.finish⟩

end Consent.Command

import Consent.Action
import Consent.File.Files
import Consent.Settings.Layers

/-! The settings file of one person, and what was last loaded from it. -/

namespace Consent.Settings

structure Profile where
  /-- The directory of the file. -/
  directory : String
  files : Files
  /-- Whether the file has been found there. -/
  found : Bool := false
  loaded : Option Settings := none
  deriving DecidableEq, Repr

def makeDirectory {σ : Type} (files : Files) (dir : String) : Action σ Unit :=
  match files.obstacle? dir with
  | some file => .fail (.notDirectory file)
  | none => pure ()

namespace Profile

def ofEnvironment (env : Environment) (files : Files) : Profile :=
  ⟨(Directories.ofEnvironment env).config, files, false, none⟩

def path (env : Environment) (p : Profile) : String :=
  let path := Directories.file p.directory "config.toml"
  if p.found then env.absolute path else path

def text? (env : Environment) (p : Profile) : Option String :=
  p.files.read? (env.absolute (p.path env))

def current (p : Profile) : Settings := p.loaded.getD .default

def writeFile (env : Environment) (s : Settings) : Action Profile Unit := do
  let p ← Action.get
  let path := p.path env
  Action.during .createSettingsDirectory
    (makeDirectory p.files (.ofList (Path.parent path.toList)))
  Action.set { p with files := p.files.write (env.absolute path) s.write }

/-- The text of the file, which is written with the defaults if it is not there. -/
def fetch (env : Environment) : Action Profile String := do
  let p ← Action.get
  match p.text? env with
  | some text =>
    Action.set { p with found := true }
    pure text
  | none =>
    Action.during (.createDefaultSettings p.directory) do
      makeDirectory p.files p.directory
      writeFile env .default
    Action.modify fun p => { p with found := true }
    pure Settings.default.write

def interpret (env : Environment) (path text : String) : Except Failure Settings :=
  match Toml.read? text.toList with
  | none => .error (.unreadableSettings path)
  | some document =>
    match ofLayers? ⟨env, document⟩ with
    | none => .error (.unusableSettings path)
    | some s =>
      let s := (s.resolvePaths env).normalize
      if s.isValid then .ok s else .error (.invalidSettings s.faults)

/-- Loads the settings. If that fails, those in force stay. -/
def load (env : Environment) : Action Profile Unit := do
  let text ← fetch env
  let p ← Action.get
  let s ← Action.ofExcept (interpret env (p.path env) text)
  Action.set { p with loaded := some s }

/-- Checks settings, writes them to the file and loads it. -/
def save (env : Environment) (s : Option Settings) : Action Profile Unit :=
  match s with
  | none => .fail .missingSettings
  | some s =>
    if s.isValid then do
      writeFile env s
      load env
    else .fail (.invalidSettings s.faults)

end Profile

def makeDirectories {σ : Type} (env : Environment) (files : Files) : Action σ Unit :=
  (Directories.ofEnvironment env).toList.forM fun dir =>
    Action.during (.create dir) (makeDirectory files dir)

end Consent.Settings

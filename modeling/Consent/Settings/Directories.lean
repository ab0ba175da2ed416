import Consent.File.Path
import Consent.Settings.Basic

/-! Where files are kept, as the environment says. -/

namespace Consent

open Text

/-- What the surroundings say: the variables, of which the last of a name counts, and the directory
that relative paths start from. -/
structure Environment where
  values : List (String × String) := []
  workingDirectory : String := "/"
  deriving DecidableEq, Repr

namespace Environment

def get (env : Environment) (name : String) : String :=
  (env.values.reverse.lookup name).getD ""

def set (env : Environment) (values : List (String × String)) : Environment :=
  { env with values := env.values ++ values }

def absolute (env : Environment) (path : String) : String :=
  if Path.isAbsolute path.toList then .ofList (Path.clean path.toList)
  else .ofList (Path.join [env.workingDirectory.toList, path.toList])

def expandHome (env : Environment) (path : String) : String :=
  let home := (env.get "HOME").toList
  match path.toList with
  | '~' :: rest =>
    if home.isEmpty || !(rest.isEmpty || rest.head? = some '/') then path
    else .ofList (Path.join [home, rest])
  | _ => path

/-- The path in a variable, with the home directory in the place of a tilde or of `$HOME` at its
front. -/
def pathVariable (env : Environment) (name : String) : List Char :=
  let home := (env.get "HOME").toList
  let value := (env.get name).toList
  if home.isEmpty then value
  else
    match value with
    | '~' :: rest => Path.join [home, rest]
    | _ =>
      match dropFront? "$HOME".toList value with
      | some rest => Path.join [home, rest]
      | none => value

/-- The directory that a variable names; without an absolute one, a directory below the home. -/
def baseDirectory (env : Environment) (name fallback : String) : List Char :=
  let path := env.pathVariable name
  if Path.isAbsolute path then path
  else Path.join [(env.get "HOME").toList, fallback.toList]

end Environment

def applicationName : String := "permstore"

structure Directories where
  config : String
  data : String
  state : String
  deriving DecidableEq, Repr

namespace Directories

/-- The usual directories, or one directory for everything during development. -/
def ofEnvironment (env : Environment) : Directories :=
  let below (dirs : List (List Char)) : String := .ofList (Path.join (dirs ++ [applicationName.toList]))
  if env.get "ENV" = "dev" then
    let dir := below [env.workingDirectory.toList, ".dev".toList]
    ⟨dir, dir, dir⟩
  else
    ⟨below [env.baseDirectory "XDG_CONFIG_HOME" ".config"],
      below [env.baseDirectory "XDG_DATA_HOME" ".local/share"],
      below [env.baseDirectory "XDG_STATE_HOME" ".local/state"]⟩

def file (dir name : String) : String := .ofList (Path.join [dir.toList, name.toList])

def configFile (d : Directories) : String := file d.config "config.toml"

def permissionsFile (d : Directories) : String := file d.data "permissions.sqlite"

def placesFile (d : Directories) : String := file d.data "places.sqlite"

def logDirectory (d : Directories) : String := file d.state "logs"

def toList (d : Directories) : List String := [d.config, d.data, d.state]

end Directories

namespace Settings

def resolvePaths (env : Environment) (s : Settings) : Settings :=
  let dirs := Directories.ofEnvironment env
  { s with
    database := { s.database with
      path := env.expandHome (orElse s.database.path dirs.permissionsFile)
      placesPath := env.expandHome (orElse s.database.placesPath dirs.placesFile) }
    logging := { s.logging with
      directory := env.expandHome (orElse s.logging.directory dirs.logDirectory) } }

end Settings

end Consent

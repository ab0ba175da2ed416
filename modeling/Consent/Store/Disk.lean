import Consent.File.Files
import Consent.Settings.Directories
import Consent.Store.Handle

/-! Files and databases by their paths. -/

namespace Consent

/-- What is stored: files, databases by their absolute paths, and directories that were made. -/
structure Disk where
  files : Files := {}
  databases : List (String × Store.File) := []
  directories : List String := []
  deriving DecidableEq, Repr

namespace Disk

/-- The name of a database that is kept only for a run. -/
def inMemory : String := ":memory:"

def location (env : Environment) (path : String) : String :=
  if path = inMemory then path else env.absolute path

def regular (d : Disk) : Files :=
  { d.files with others := d.files.others ++ d.databases.map (·.1) }

def isAbove (dir path : String) : Bool := (dir.toList ++ ['/']).isPrefixOf path.toList

/-- Whether a directory stands at a path: it was made, or there is something in it. -/
def isDirectory (d : Disk) (path : String) : Bool :=
  let paths := d.regular.texts.map (·.1) ++ d.regular.others ++ d.directories
  path = "/" || d.directories.contains path || paths.any (isAbove path)

def content (env : Environment) (path : String) (d : Disk) : Store.File :=
  let full := location env path
  if path.endsWith "/" || d.isDirectory full || d.files.isFile full then .foreign
  else (d.databases.lookup full).getD (.database {})

/-- The regular file in the way of the directory of a path, as the path spells it. -/
def obstacle? (env : Environment) (path : String) (d : Disk) : Option String :=
  (Path.obstacle? (fun p => d.regular.isFile (env.absolute (.ofList p)))
    (Path.parent path.toList)).map .ofList

def handle (env : Environment) (path : String) (history : Option History) (d : Disk) : Store where
  path := path
  file := d.content env path
  history := history
  obstacle := d.obstacle? env path

def store (env : Environment) (path : String) (file : Store.File) (d : Disk) : Disk :=
  match file with
  | .foreign => d
  | .database _ => { d with databases := Files.put (location env path) file d.databases }

def settle (d : Disk) : Disk := { d with databases := d.databases.filter (·.1 ≠ inMemory) }

def makeDirectory (full : String) (d : Disk) : Disk :=
  if d.directories.contains full then d else { d with directories := d.directories ++ [full] }

end Disk

end Consent

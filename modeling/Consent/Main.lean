import Consent.Command.Run
import Std.Time.DateTime.Timestamp

/-! The program at a prompt. Databases are kept in memory, so decisions and visits last for one run;
the settings file is read and written. -/

namespace Consent.Program

def settingNames : List (String × List String) := [
  ("DATABASE", ["PATH", "PLACES_PATH", "BUSY_TIMEOUT_MS"]),
  ("LOGGING", ["LEVEL", "FORMAT", "ENABLE_FILE_LOG", "LOG_DIR", "MAX_SIZE_MB", "MAX_BACKUPS",
    "MAX_AGE_DAYS"]),
  ("PERMISSIONS", ["DEFAULT_SCOPE"]),
  ("APPEARANCE", ["PALETTE"]),
  ("APPEARANCE_PALETTE", ["BACKGROUND", "SURFACE", "SURFACE_VARIANT", "TEXT", "MUTED", "ACCENT",
    "BORDER"])]

def variableNames : List String :=
  ["HOME", "ENV", "XDG_CONFIG_HOME", "XDG_DATA_HOME", "XDG_STATE_HOME", "PERMSTORE_LOG_LEVEL",
    "PERMSTORE_LOG_FORMAT"]
  ++ settingNames.flatMap fun (table, names) =>
    ("PERMSTORE_" ++ table) :: names.map fun name => "PERMSTORE_" ++ table ++ "_" ++ name

/-- The variables that are set, and the directory of the run. -/
def readEnvironment : IO Environment := do
  let values ← variableNames.filterMapM fun name => do
    return (← IO.getEnv name).map fun value => (name, value)
  return ⟨values, (← IO.currentDir).toString⟩

def readFiles (env : Environment) : IO Files := do
  let path := env.absolute (Directories.ofEnvironment env).configFile
  match ← (IO.FS.readFile path).toBaseIO with
  | .ok text => return { texts := [(path, text)] }
  | .error _ => return {}

def writeFiles (before after : Files) : IO Unit :=
  after.texts.forM fun (path, text) => do
    if before.read? path ≠ some text then
      IO.FS.createDirAll (String.ofList (Path.parent path.toList))
      IO.FS.writeFile path text

def readClock : IO Instant := do
  return ⟨(← Std.Time.Timestamp.now).toNanosecondsSinceUnixEpoch.val⟩

end Consent.Program

open Consent Consent.Program in
def main (words : List String) : IO UInt32 := do
  let environment ← readEnvironment
  let files ← readFiles environment
  let now ← readClock
  let lag := ((← readClock).nanos - now.nanos).toNat
  let report := Command.run { environment, now, lag, disk := { files } } words
  IO.print report.output
  writeFiles files report.disk.files
  match report.fault with
  | none => return 0
  | some fault =>
    IO.eprintln fault.message
    return 1

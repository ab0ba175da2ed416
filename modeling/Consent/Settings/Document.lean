import Consent.Settings.Basic
import Consent.Toml.Sections
import Consent.Toml.Writer

/-! The settings as a document. -/

namespace Consent.Settings

open Toml Text

inductive Value where
  | text (s : String)
  | number (n : Int)
  | flag (b : Bool)
  deriving DecidableEq, Repr

def Value.written : Value → List Char
  | .text s => writeText s.toList
  | .number n => writeInteger n
  | .flag b => writeBoolean b

def indent (depth : Nat) : List Char := List.replicate (2 * depth) ' '

/-- The header of the table at a path; deeper tables are indented further. -/
def headerLine (path : List String) : Line :=
  indent (path.length - 1) ++ '[' :: joinWith '.' (path.map String.toList) ++ [']']

def settingLine (path : List String) (setting : String × Value) : Line :=
  indent path.length ++ setting.1.toList ++ " = ".toList ++ setting.2.written

/-- The lines of a table. An empty line stands behind its settings, if it has any. -/
def tableLines (path : List String) (settings : List (String × Value)) : List Line :=
  headerLine path :: settings.map (settingLine path) ++ if settings.isEmpty then [] else [[]]

def Database.values (d : Database) : List (String × Value) := [
  ("path", .text d.path),
  ("places_path", .text d.placesPath),
  ("busy_timeout_ms", .number d.busyTimeoutMs)]

def Logging.values (l : Logging) : List (String × Value) := [
  ("level", .text l.level),
  ("format", .text l.format),
  ("enable_file_log", .flag l.toFile),
  ("log_dir", .text l.directory),
  ("max_size_mb", .number l.maxSizeMb),
  ("max_backups", .number l.maxBackups),
  ("max_age_days", .number l.maxAgeDays)]

def Palette.values (p : Palette) : List (String × Value) := [
  ("background", .text p.background),
  ("surface", .text p.surface),
  ("surface_variant", .text p.surfaceVariant),
  ("text", .text p.text),
  ("muted", .text p.muted),
  ("accent", .text p.accent),
  ("border", .text p.border)]

def contents (s : Settings) : List (List String × List (String × Value)) := [
  (["database"], s.database.values),
  (["logging"], s.logging.values),
  (["permissions"], [("default_scope", .text s.defaultScope)]),
  (["appearance"], []),
  (["appearance", "palette"], s.palette.values)]

def encode (s : Settings) : List Char :=
  joinWith '\n' (s.contents.flatMap fun t => tableLines t.1 t.2)

/-- The encoded settings with the tables in order. -/
def write (s : Settings) : String := .ofList (sortSections s.encode)

end Consent.Settings

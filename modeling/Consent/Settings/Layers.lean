import Consent.Settings.Directories
import Consent.Settings.Document
import Consent.Toml.Reader

/-! Settings from variables and from a document; what neither holds keeps its default. -/

namespace Consent.Settings

open Toml Text

abbrev Key := List String

def variableOf (key : Key) : String :=
  "PERMSTORE_" ++ (String.ofList ((("_".intercalate key).toList).map Char.toUpper))

def shortVariable? : Key → Option String
  | ["logging", "level"] => some "PERMSTORE_LOG_LEVEL"
  | ["logging", "format"] => some "PERMSTORE_LOG_FORMAT"
  | _ => none

def entry? (es : Entries) (name : String) : Option Node :=
  (es.find? fun e => lowerString e.1 = name).map (·.2)

/-- The value at a path of names. A name of a document may hold several names of the path with dots
between them, and the longest such name counts. -/
def search : Nat → Entries → Key → Option Node
  | 0, _, _ => none
  | depth + 1, es, key =>
    (List.range key.length).reverse.findSome? fun n =>
      match entry? es (".".intercalate (key.take (n + 1))), key.drop (n + 1) with
      | some node, [] => some node
      | some (.table _ inner), rest => search depth inner rest
      | _, _ => none

def find? (es : Entries) (key : Key) : Option Node := search key.length es key

def parents (key : Key) : List Key :=
  (List.range (key.length - 1)).map fun n => key.take (n + 1)

structure Layers where
  environment : Environment
  document : Entries

namespace Layers

/-- A variable that names a table hides what would be in the table. -/
def hides (l : Layers) (key : Key) : Bool :=
  (parents key).any fun table => l.environment.get (variableOf table) ≠ ""

def inVariable (l : Layers) (name : String) : Option Node :=
  let value := l.environment.get name
  if value = "" then none else some (.text value)

/-- The value of a setting, or its default. Nothing is left of a hidden setting. -/
def value? (l : Layers) (key : Key) (preset : Value) : Option Node :=
  match l.inVariable (variableOf key) with
  | some n => some n
  | none =>
    if l.hides key then none
    else
      match (shortVariable? key).bind l.inVariable with
      | some n => some n
      | none =>
        match find? l.document key with
        | some n => some n
        | none =>
          some (match preset with
            | .text s => .text s
            | .number n => .integer n
            | .flag b => .boolean b)

/-- Whether something else stands where a table belongs. -/
def isMisplaced (l : Layers) (table : Key) : Bool :=
  match find? l.document table with
  | none => false
  | some (.table _ _) => false
  | some _ => l.environment.get (variableOf table) ≠ "" || !l.hides table

end Layers

/-- A number without what stands behind the point. One that does not fit 64 bits becomes the
least. -/
def wholePart : Fractional → Int
  | .finite negative size =>
    let n : Int := if negative then -size.floor else size.floor
    if -9223372036854775808 ≤ n && n ≤ 9223372036854775807 then n else -9223372036854775808
  | _ => -9223372036854775808

def realText : Fractional → String
  | .finite negative size => .ofList ((if negative then ['-'] else []) ++ size.plain)
  | .infinite negative => if negative then "-Inf" else "+Inf"
  | .notANumber => "NaN"

def textOf? : Node → Option String
  | .text s => some s
  | .integer n => some (decimal n)
  | .real r => some (realText r)
  | .boolean b => some (if b then "1" else "0")
  | _ => none

/-- A value taken as a number; the empty text is zero. -/
def numberOf? : Node → Option Int
  | .integer n => some n
  | .real r => some (wholePart r)
  | .boolean b => some (if b then 1 else 0)
  | .text s => if s = "" then some 0 else (readNumber s.toList).toOption
  | _ => none

def isZero : Fractional → Bool
  | .finite _ size => size.mantissa = 0
  | _ => false

/-- A value taken as a truth value; the empty text is false. -/
def flagOf? : Node → Option Bool
  | .boolean b => some b
  | .integer n => some (n ≠ 0)
  | .real r => some (!isZero r)
  | .text s => if s = "" then some false else readTruth? s.toList
  | _ => none

def tables : List Key :=
  [["database"], ["logging"], ["permissions"], ["appearance"], ["appearance", "palette"]]

/-- The settings of all layers, if every value can be used where it stands. -/
def ofLayers? (l : Layers) : Option Settings := do
  let text (key : Key) (preset : String) : Option String :=
    match l.value? key (.text preset) with
    | some n => textOf? n
    | none => some ""
  let number (key : Key) (preset : Int) : Option Int :=
    match l.value? key (.number preset) with
    | some n => numberOf? n
    | none => some 0
  let flag (key : Key) (preset : Bool) : Option Bool :=
    match l.value? key (.flag preset) with
    | some n => flagOf? n
    | none => some false
  let color (name preset : String) : Option String := text ["appearance", "palette", name] preset
  if tables.any l.isMisplaced then none
  else
    let d := Settings.default
    some {
      database := {
        path := ← text ["database", "path"] d.database.path
        placesPath := ← text ["database", "places_path"] d.database.placesPath
        busyTimeoutMs := ← number ["database", "busy_timeout_ms"] d.database.busyTimeoutMs }
      logging := {
        level := ← text ["logging", "level"] d.logging.level
        format := ← text ["logging", "format"] d.logging.format
        toFile := ← flag ["logging", "enable_file_log"] d.logging.toFile
        directory := ← text ["logging", "log_dir"] d.logging.directory
        maxSizeMb := ← number ["logging", "max_size_mb"] d.logging.maxSizeMb
        maxBackups := ← number ["logging", "max_backups"] d.logging.maxBackups
        maxAgeDays := ← number ["logging", "max_age_days"] d.logging.maxAgeDays }
      defaultScope := ← text ["permissions", "default_scope"] d.defaultScope
      palette := {
        background := ← color "background" d.palette.background
        surface := ← color "surface" d.palette.surface
        surfaceVariant := ← color "surface_variant" d.palette.surfaceVariant
        text := ← color "text" d.palette.text
        muted := ← color "muted" d.palette.muted
        accent := ← color "accent" d.palette.accent
        border := ← color "border" d.palette.border } }

end Consent.Settings

import Consent.Settings.Basic
import Consent.Text.Numeral
import Consent.Text.Quoted
import Consent.Text.Split

/-! Which settings are accepted, and what is said of the others. -/

namespace Consent.Settings

open Text

inductive Rule where
  | oneOf (words : List String)
  | atLeast (bound : Int)
  | atMost (bound : Int)
  | hexColor
  deriving DecidableEq, Repr

structure Fault where
  key : String
  rule : Rule
  /-- The text of the setting. -/
  found : String
  deriving DecidableEq, Repr

def Fault.message (f : Fault) : String :=
  f.key ++ ": " ++ match f.rule with
    | .oneOf words => "must be one of [" ++ " ".intercalate words ++ "], got " ++ quoteString f.found
    | .atLeast bound => "must be >= " ++ decimal bound
    | .atMost bound => "must be <= " ++ decimal bound
    | .hexColor => "must be a hex color, got " ++ quoteString f.found

def faultsMessage (faults : List Fault) : String :=
  "config validation failed:\n  - " ++ "\n  - ".intercalate (faults.map Fault.message)

/-- A number sign and 3, 4, 6 or 8 hexadecimal digits. -/
def isHexColor (s : List Char) : Bool :=
  match s with
  | '#' :: ds => ds.all isHexDigit && [3, 4, 6, 8].contains ds.length
  | _ => false

def levelWords : List String :=
  ["trace", "debug", "info", "warn", "warning", "error", "off", "disabled"]

def formatWords : List String := ["console", "json"]

def scopeWords : List String := ["persistent", "session"]

def checkWord (words : List String) (key found : String) : List Fault :=
  if words.contains found then [] else [⟨key, .oneOf words, found⟩]

def checkLeast (bound : Int) (key : String) (found : Int) : List Fault :=
  if bound ≤ found then [] else [⟨key, .atLeast bound, decimal found⟩]

def checkMost (bound : Int) (key : String) (found : Int) : List Fault :=
  if found ≤ bound then [] else [⟨key, .atMost bound, decimal found⟩]

/-- Checks a color; it may be left empty. -/
def checkColor (key found : String) : List Fault :=
  if found = "" || isHexColor found.toList then [] else [⟨key, .hexColor, found⟩]

def faults (s : Settings) : List Fault :=
  checkLeast 0 "database.busy_timeout_ms" s.database.busyTimeoutMs
    ++ checkMost 600000 "database.busy_timeout_ms" s.database.busyTimeoutMs
    ++ checkWord levelWords "logging.level" s.logging.level
    ++ checkWord formatWords "logging.format" s.logging.format
    ++ checkLeast 1 "logging.max_size_mb" s.logging.maxSizeMb
    ++ checkLeast 0 "logging.max_backups" s.logging.maxBackups
    ++ checkLeast 0 "logging.max_age_days" s.logging.maxAgeDays
    ++ checkWord scopeWords "permissions.default_scope" s.defaultScope
    ++ checkColor "appearance.palette.background" s.palette.background
    ++ checkColor "appearance.palette.surface" s.palette.surface
    ++ checkColor "appearance.palette.surface_variant" s.palette.surfaceVariant
    ++ checkColor "appearance.palette.text" s.palette.text
    ++ checkColor "appearance.palette.muted" s.palette.muted
    ++ checkColor "appearance.palette.accent" s.palette.accent
    ++ checkColor "appearance.palette.border" s.palette.border

def isValid (s : Settings) : Bool := s.faults.isEmpty

def isSmallLetter (c : Char) : Bool := 'a' ≤ c && c ≤ 'z'

def isCapital (c : Char) : Bool := 'A' ≤ c && c ≤ 'Z'

/-- A name of joined words in lower case with underscores. A capital starts a word if a small letter
stands on either side of it. -/
def snakeFrom (before : Option Char) : List Char → List Char
  | [] => []
  | c :: rest =>
    if isCapital c then
      let small := (before.map isSmallLetter).getD false || (rest.head?.map isSmallLetter).getD false
      let mark := if before.isSome && small then ['_'] else []
      mark ++ Char.ofNat (c.toNat + 32) :: snakeFrom (some c) rest
    else c :: snakeFrom (some c) rest

def snakeCase (name : List Char) : List Char := snakeFrom none name

/-- The name of the setting at a path of joined words below `Config`. -/
def keyOfPath (path : List Char) : List Char :=
  let parts := splitOn '.' path
  let parts := if parts.head? = some "Config".toList then parts.tail else parts
  joinWith '.' (parts.map snakeCase)

end Consent.Settings

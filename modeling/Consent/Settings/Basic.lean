import Consent.Permission.Record
import Consent.Text.Blank
import Consent.Text.LetterCase

/-! The settings, their defaults and their normal form. -/

namespace Consent

open Text

/-- Where decisions and visits are stored. An empty path means the usual place. -/
structure Settings.Database where
  path : String := ""
  placesPath : String := ""
  /-- How long to wait for a locked database. -/
  busyTimeoutMs : Int := 5000
  deriving DecidableEq, Repr

structure Settings.Logging where
  level : String := "info"
  format : String := "console"
  toFile : Bool := false
  directory : String := ""
  maxSizeMb : Int := 10
  maxBackups : Int := 3
  maxAgeDays : Int := 7
  deriving DecidableEq, Repr

structure Settings.Palette where
  background : String := "#0a0a0b"
  surface : String := "#1a1a1b"
  surfaceVariant : String := "#2d2d2d"
  text : String := "#ffffff"
  muted : String := "#909090"
  accent : String := "#4ade80"
  border : String := "#333333"
  deriving DecidableEq, Repr

structure Settings where
  database : Settings.Database := {}
  logging : Settings.Logging := {}
  /-- The scope of decisions that are made without one. -/
  defaultScope : String := "persistent"
  palette : Settings.Palette := {}
  deriving DecidableEq, Repr

namespace Settings

def default : Settings := {}

def normalWord (s : String) : String := lowerString (trimString s)

/-- The normal form of a scope; what is no scope stays as it is. -/
def normalScope (s : String) : String :=
  match normalWord s with
  | "" | "persistent" => "persistent"
  | "session" => "session"
  | _ => s

def normalize (s : Settings) : Settings :=
  { s with
    logging := { s.logging with
      level := normalWord s.logging.level
      format := normalWord s.logging.format }
    defaultScope := normalScope s.defaultScope }

def scope (s : Settings) : Scope := .ofName s.defaultScope

def orElse (text fallback : String) : String := if text = "" then fallback else text

/-- The settings with paths and level from the command line; empty ones change nothing. -/
def override (s : Settings) (path placesPath level : String) : Settings :=
  { s with
    database := { s.database with
      path := orElse path s.database.path
      placesPath := orElse placesPath s.database.placesPath }
    logging := { s.logging with level := orElse level s.logging.level } }

end Settings

end Consent

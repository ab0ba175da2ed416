import Consent.Failure
import Consent.Log.Level

/-! Events of the log. -/

namespace Consent.Log

inductive Value where
  | text (s : String)
  | number (n : Int)
  | cause (f : Failure)
  deriving DecidableEq, Repr

/-- A named value. Of two fields with one name the later counts. -/
abbrev Field := String × Value

structure Event where
  level : Level
  message : String
  fields : List Field
  deriving DecidableEq, Repr

def text (name value : String) : Field := (name, .text value)

def number (name : String) (value : Int) : Field := (name, .number value)

def cause (f : Failure) : Field := ("error", .cause f)

/-- The events that a logger of a level passes on, each with the fields of the logger. -/
def passed (level : Level) (fields : List Field) (messages : List (Level × String)) : List Event :=
  (messages.filter fun m => level.admits m.1).map fun m => ⟨m.1, m.2, fields⟩

end Consent.Log

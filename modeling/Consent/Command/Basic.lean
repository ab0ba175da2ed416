import Consent.Command.Flag
import Consent.Settings.Directories

/-! Commands: how they are called, and what they are asked to do. -/

namespace Consent

open Text

structure Command.Lasting where
  session : Bool := false
  persistent : Bool := false
  /-- Only a positive span limits the decision. -/
  expire : Duration := ⟨0⟩
  deriving DecidableEq, Repr

inductive Command.Task where
  | get (address : String) (kind : Kind)
  | list (addresses : List String)
  /-- Only the decisions about a kind, unless it is empty. -/
  | all (kind : Kind)
  | set (address : String) (kind : Kind) (state : String) (lasting : Lasting)
  | remove (address : String) (kind : Kind)
  | clear (force : Bool)
  | manage
  | purgeExpired
  | request (address : String) (kind : Kind) (silently : Bool)
  | kinds
  | states (kind : Kind)
  /-- Visits now, unless a timestamp is given. -/
  | visit (time : String) (addresses : List String)
  | history (limit : Int)
  | migrate (statusOnly : Bool)
  | settingsPath
  | showSettings
  | resetSettings (force : Bool)
  | version
  | help (path : List String)
  deriving DecidableEq, Repr

inductive Command.Arity where
  | nothing
  | exactly (n : Nat)
  | atLeast (n : Nat)
  deriving DecidableEq, Repr

structure Command where
  /-- The words that call the command; none call the program itself. -/
  path : List String
  aliases : List String := []
  /-- The operands as they are shown in the help. -/
  operands : String := ""
  summary : String
  details : String := ""
  arity : Command.Arity := .nothing
  flags : List Command.Flag := []
  /-- Flags of which at most one may be given. -/
  exclusive : List String := []
  /-- What the words after the command ask for; a command that only holds others has nothing to
  do. -/
  task : Option (Command.Words → Command.Task) := none

namespace Command

def globalFlags : List Flag := [
  { name := "db", purpose := "permission database path (default from config)" },
  { name := "log-level", purpose := "log level: trace, debug, info, warn, error" },
  { name := "places", purpose := "history database path (default from config)" }]

def helpFlag (name : String) : Flag where
  name := "help"
  letter := some 'h'
  type := .truth
  purpose := "help for " ++ name

def forceFlag (purpose : String) : Flag where
  name := "force"
  letter := some 'f'
  type := .truth
  purpose := purpose

/-- The flags by which words are told from values while a command is looked for. -/
def ownFlags (c : Command) : List Flag := c.flags ++ globalFlags

def name (c : Command) : String := c.path.getLast?.getD applicationName

def allFlags (c : Command) : List Flag := helpFlag c.name :: c.ownFlags

def fullName (c : Command) : String := " ".intercalate (applicationName :: c.path)

/-- Whether a word calls the command below its parent. -/
def answersTo (c : Command) (word : String) : Bool := c.name = word || c.aliases.contains word

def checkArity (c : Command) (operands : List String) : Except UsageError Unit :=
  match c.arity, operands with
  | .nothing, [] => .ok ()
  | .nothing, word :: _ => .error (.unknownCommand word c.fullName [])
  | .exactly n, _ =>
    if operands.length = n then .ok () else .error (.wrongCount n operands.length)
  | .atLeast n, _ =>
    if n ≤ operands.length then .ok () else .error (.tooFew n operands.length)

def Words.operand (ws : Words) (position : Nat) : String := ws.operands.getD position ""

end Command

end Consent

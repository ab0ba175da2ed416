import Consent.Command.Catalog
import Consent.Text.Distance
import Consent.Text.LetterCase

/-! Finding the command that a line of words calls. -/

namespace Consent.Command

open Text

/-- Whether a word is followed by its value: a flag without an equals sign that is not known to be
on or off. -/
def takesNext (flags : List Flag) (word : String) : Bool :=
  let isSwitch (p : Flag → Bool) : Bool := flags.any fun f => p f && f.type = .truth
  match word.toList with
  | '-' :: '-' :: name => !name.contains '=' && !isSwitch (·.name = .ofList name)
  | ['-', c] => c ≠ '=' && c.toNat < 128 && !isSwitch (·.letter = some c)
  | _ => false

/-- The words that are neither flags nor their values. A value is not looked for in the last word. -/
def plainWords (flags : List Flag) : List String → List String
  | [] => []
  | word :: rest =>
    if word = "--" then []
    else if takesNext flags word then
      match rest with
      | [] | [_] => []
      | _ :: rest => plainWords flags rest
    else if word = "" || word.startsWith "-" then plainWords flags rest
    else word :: plainWords flags rest

def dropWord (flags : List Flag) (target : String) : List String → List String
  | [] => []
  | word :: rest =>
    if word = "--" then word :: rest
    else if takesNext flags word then
      match rest with
      | [] => [word]
      | value :: rest => word :: value :: dropWord flags target rest
    else if word = target then rest
    else word :: dropWord flags target rest

/-- Follows the words down from a command as far as they call commands, and leaves the other words.
Every step uses a word, so their number is fuel enough. -/
def descend : Nat → Command → List String → Command × List String
  | 0, c, words => (c, words)
  | fuel + 1, c, words =>
    match plainWords c.ownFlags words with
    | [] => (c, words)
    | word :: _ =>
      match c.children.find? (·.answersTo word) with
      | none => (c, words)
      | some d => descend fuel d (dropWord c.ownFlags word words)

def find (words : List String) : Command × List String := descend words.length root words

/-- Commands that may have been meant by a word: at most two places off, or longer. -/
def similar (word : String) : List String :=
  let bytes (s : String) : List UInt8 := (lowerString s).toList.flatMap String.utf8EncodeChar
  ((root.children.map name).filter (· ≠ "help")).filter fun name =>
    distance (bytes word) (bytes name) ≤ 2
      || (lowerString word).toList.isPrefixOf (lowerString name).toList

structure Invocation where
  task : Task
  /-- Paths and level that take the place of those in the settings. -/
  path : String := ""
  placesPath : String := ""
  level : String := ""
  /-- Flags of which at most one may be given, and those that were. -/
  exclusive : List String := []
  given : List String := []
  deriving DecidableEq, Repr

/-- Understands a line: the command is found first, then its flags are read, and its operands are
counted last. Whoever asks for help, or calls a command that only holds others, gets help. -/
def parse (words : List String) : Except UsageError Invocation := do
  let (c, rest) := find words
  match c.path, plainWords c.ownFlags rest with
  | [], word :: _ => .error (.unknownCommand word c.fullName (similar word))
  | _, _ =>
    let ws ← readWords c.allFlags rest
    match ws.given.truth "help", c.task with
    | false, some task =>
      c.checkArity ws.operands
      .ok {
        task := task ws
        path := ws.given.text "db"
        placesPath := ws.given.text "places"
        level := ws.given.text "log-level"
        exclusive := c.exclusive
        given := c.exclusive.filter ws.given.has }
    | _, _ => .ok { task := .help c.path }

end Consent.Command

import Consent.Text.Numeral
import Consent.Text.Split
import Consent.Time.Duration.Reader

/-! Flags of a command line, and the values they are given. -/

namespace Consent.Command

open Text

inductive FlagType where
  | text
  /-- Given without a value, it means true. -/
  | truth
  | number
  | duration
  deriving DecidableEq, Repr

/-- A flag: `--name`, and perhaps a dash and one letter. -/
structure Flag where
  name : String
  letter : Option Char := none
  type : FlagType := .text
  /-- What the flag is for. -/
  purpose : String
  /-- The number it stands for when it is not given. -/
  otherwise : Int := 0
  deriving DecidableEq, Repr

inductive FlagValue where
  | text (s : String)
  | truth (b : Bool)
  | number (n : Int)
  | duration (d : Duration)
  deriving DecidableEq, Repr

inductive ValueFault where
  | truth
  | number (fault : NumeralFault)
  | duration (fault : DurationFault)
  deriving DecidableEq, Repr

def ValueFault.message (text : String) : ValueFault → String
  | .truth =>
    "strconv.ParseBool: parsing " ++ quoteString text ++ ": " ++ NumeralFault.malformed.message
  | .number fault => "strconv.ParseInt: parsing " ++ quoteString text ++ ": " ++ fault.message
  | .duration fault => fault.message text

inductive UsageError where
  | unknownCommand (word path : String) (similar : List String)
  | unknownFlag (name : String)
  /-- A letter without a flag, and the letters from it on. -/
  | unknownLetter (letter : Char) (letters : String)
  | missingValue (name : String)
  | missingLetterValue (letter : Char) (letters : String)
  | malformedFlag (text : String)
  | badValue (flag : Flag) (text : String) (fault : ValueFault)
  | wrongCount (wanted given : Nat)
  | tooFew (wanted given : Nat)
  deriving DecidableEq, Repr

namespace Flag

def label (f : Flag) : String :=
  match f.letter with
  | some c => "-" ++ String.ofList [c] ++ ", --" ++ f.name
  | none => "--" ++ f.name

def read (f : Flag) (text : String) : Except UsageError FlagValue :=
  match f.type with
  | .text => .ok (.text text)
  | .truth =>
    match readTruth? text.toList with
    | some b => .ok (.truth b)
    | none => .error (.badValue f text .truth)
  | .number =>
    match readNumber text.toList with
    | .ok n => .ok (.number n)
    | .error fault => .error (.badValue f text (.number fault))
  | .duration =>
    match Duration.read text.toList with
    | .ok d => .ok (.duration d)
    | .error fault => .error (.badValue f text (.duration fault))

end Flag

namespace UsageError

/-- The first byte of a character, shown as a character of its own. -/
def firstByte (c : Char) : Char := Char.ofNat (((String.utf8EncodeChar c).head?.map (·.toNat)).getD 0)

def suggestions (similar : List String) : String :=
  if similar.isEmpty then ""
  else "\n\nDid you mean this?\n" ++ String.join (similar.map fun name => "\t" ++ name ++ "\n")

def message : UsageError → String
  | .unknownCommand word path similar =>
    "unknown command " ++ quoteString word ++ " for " ++ quoteString path ++ suggestions similar
  | .unknownFlag name => "unknown flag: --" ++ name
  | .unknownLetter c letters =>
    "unknown shorthand flag: " ++ quoteSingle (firstByte c) ++ " in -" ++ letters
  | .missingValue name => "flag needs an argument: --" ++ name
  | .missingLetterValue c letters =>
    "flag needs an argument: " ++ quoteSingle c ++ " in -" ++ letters
  | .malformedFlag text => "bad flag syntax: " ++ text
  | .badValue flag text fault =>
    "invalid argument " ++ quoteString text ++ " for " ++ quoteString flag.label ++ " flag: "
      ++ fault.message text
  | .wrongCount wanted given =>
    "accepts " ++ decimal wanted ++ " arg(s), received " ++ decimal given
  | .tooFew wanted given =>
    "requires at least " ++ decimal wanted ++ " arg(s), only received " ++ decimal given

end UsageError

abbrev Settled := List (String × FlagValue)

namespace Settled

/-- The last value given to a flag. -/
def get? (vs : Settled) (name : String) : Option FlagValue := vs.reverse.lookup name

def has (vs : Settled) (name : String) : Bool := (vs.get? name).isSome

def text (vs : Settled) (name : String) : String :=
  match vs.get? name with
  | some (.text s) => s
  | _ => ""

def truth (vs : Settled) (name : String) : Bool :=
  match vs.get? name with
  | some (.truth b) => b
  | _ => false

def number (vs : Settled) (name : String) (otherwise : Int) : Int :=
  match vs.get? name with
  | some (.number n) => n
  | _ => otherwise

def duration (vs : Settled) (name : String) : Duration :=
  match vs.get? name with
  | some (.duration d) => d
  | _ => ⟨0⟩

end Settled

/-- What one word of a command line does. -/
inductive Word where
  | operand
  /-- All words after it are operands. -/
  | stop
  /-- Flags with their values. -/
  | flags (given : Settled)
  /-- Flags, the last of which takes the next word as its value. -/
  | wants (given : Settled) (flag : Flag) (missing : UsageError)

/-- Reads the letters after a single dash. A letter may take the letters behind it as its value, after
an equals sign if there is one. Letters that spell an option of a test run are passed over. -/
def readLetters (flags : List Flag) : List Char → Except UsageError Word
  | [] => .ok (.flags [])
  | c :: rest =>
    if "test.".toList.isPrefixOf (c :: rest) then .ok (.flags [])
    else
      match flags.find? (·.letter = some c) with
      | none => .error (.unknownLetter c (.ofList (c :: rest)))
      | some flag =>
        let taken (text : List Char) : Except UsageError Word := do
          let v ← flag.read (.ofList text)
          .ok (.flags [(flag.name, v)])
        match rest with
        | '=' :: d :: value => taken (d :: value)
        | [] =>
          if flag.type = .truth then .ok (.flags [(flag.name, .truth true)])
          else .ok (.wants [] flag (.missingLetterValue c (.ofList [c])))
        | _ :: _ =>
          if flag.type = .truth then do
            match ← readLetters flags rest with
            | .flags given => .ok (.flags ((flag.name, .truth true) :: given))
            | .wants given last missing => .ok (.wants ((flag.name, .truth true) :: given) last missing)
            | word => .ok word
          else taken rest

def readLong (flags : List Flag) (body : List Char) : Except UsageError Word :=
  if body.head? = some '-' || body.head? = some '=' then
    .error (.malformedFlag (.ofList ('-' :: '-' :: body)))
  else
    let (name, value) := cut '=' body
    let name := String.ofList name
    match flags.find? (·.name = name) with
    | none => .error (.unknownFlag name)
    | some flag =>
      match value with
      | some value => do
        let v ← flag.read (.ofList value)
        .ok (.flags [(name, v)])
      | none =>
        if flag.type = .truth then .ok (.flags [(name, .truth true)])
        else .ok (.wants [] flag (.missingValue name))

def readWord (flags : List Flag) (word : String) : Except UsageError Word :=
  match word.toList with
  | ['-', '-'] => .ok .stop
  | '-' :: '-' :: body => readLong flags body
  | '-' :: c :: letters => readLetters flags (c :: letters)
  | _ => .ok .operand

structure Words where
  operands : List String := []
  given : Settled := []
  deriving DecidableEq, Repr

def Words.after (given : Settled) (ws : Words) : Words := { ws with given := given ++ ws.given }

/-- Reads all words, up to the first that cannot be understood. -/
def readWords (flags : List Flag) : List String → Except UsageError Words
  | [] => .ok {}
  | word :: rest => do
    match ← readWord flags word with
    | .operand =>
      let ws ← readWords flags rest
      .ok { ws with operands := word :: ws.operands }
    | .stop => .ok { operands := rest }
    | .flags given => return (← readWords flags rest).after given
    | .wants given flag missing =>
      match rest with
      | [] => .error missing
      | text :: rest =>
        let v ← flag.read text
        return (← readWords flags rest).after (given ++ [(flag.name, v)])

end Consent.Command

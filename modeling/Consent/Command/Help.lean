import Consent.Command.Line

/-! What is shown to those who ask for help. -/

namespace Consent.Command

open Text

def fill (n : Nat) (s : String) : String := s ++ .ofList (List.replicate (n - s.length) ' ')

namespace Flag

def placeholder (f : Flag) : String :=
  match f.type with
  | .text => " string"
  | .truth => ""
  | .number => " int"
  | .duration => " duration"

def form (f : Flag) : String :=
  (if f.letter.isSome then "  " else "      ") ++ f.label ++ f.placeholder

/-- What the flag is for, with the number that it stands for otherwise. -/
def note (f : Flag) : String :=
  f.purpose ++ if f.otherwise = 0 then "" else " (default " ++ decimal f.otherwise ++ ")"

end Flag

/-- Flags one below the other, ascending by name. -/
def describeFlags (flags : List Flag) : List String :=
  let flags := flags.mergeSort fun a b => !(b.name < a.name)
  let longest := (flags.map (·.form.length)).foldl max 0
  flags.map fun f => fill (longest + 3) f.form ++ f.note

def helpPart (title : String) (lines : List String) : List String :=
  if lines.isEmpty then [] else ["", title] ++ lines

def usageLines (c : Command) : List String :=
  let operands := if c.operands = "" then "" else " " ++ c.operands
  (if c.task.isSome then ["  " ++ c.fullName ++ operands ++ " [flags]"] else [])
    ++ if c.children.isEmpty then [] else ["  " ++ c.fullName ++ " [command]"]

def describeChildren (c : Command) : List String :=
  let longest := (c.children.map (·.name.length)).foldl max 11
  c.children.map fun d => "  " ++ fill longest d.name ++ " " ++ d.summary

def helpText (c : Command) : String :=
  let isRoot := c.path.isEmpty
  let own := helpFlag c.name :: c.flags ++ if isRoot then globalFlags else []
  let lines := [if c.details = "" then c.summary else c.details]
    ++ helpPart "Usage:" c.usageLines
    ++ helpPart "Aliases:"
      (if c.aliases.isEmpty then [] else ["  " ++ ", ".intercalate (c.name :: c.aliases)])
    ++ helpPart "Available Commands:" c.describeChildren
    ++ helpPart "Flags:" (describeFlags own)
    ++ helpPart "Global Flags:" (if isRoot then [] else describeFlags globalFlags)
    ++ if c.children.isEmpty then []
      else ["", "Use \"" ++ c.fullName ++ " [command] --help\" for more information about a command."]
  String.join (lines.map (· ++ "\n"))

end Consent.Command

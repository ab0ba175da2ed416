/-! White space around text. -/

namespace Consent.Text

/-- White space: the ASCII blanks, next line, the no-break space and the Unicode spaces. -/
def isBlank (c : Char) : Bool :=
  match c.toNat with
  | 0x09 | 0x0a | 0x0b | 0x0c | 0x0d | 0x20 | 0x85 | 0xa0 | 0x1680 => true
  | 0x2028 | 0x2029 | 0x202f | 0x205f | 0x3000 => true
  | n => 0x2000 ≤ n && n ≤ 0x200a

def dropEndWhile (p : Char → Bool) : List Char → List Char
  | [] => []
  | c :: r =>
    match dropEndWhile p r with
    | [] => if p c then [] else [c]
    | r' => c :: r'

def trimWhile (p : Char → Bool) (s : List Char) : List Char :=
  dropEndWhile p (s.dropWhile p)

def trim (s : List Char) : List Char := trimWhile isBlank s

def trimString (s : String) : String := .ofList (trim s.toList)

@[simp] theorem trim_nil : trim [] = [] := rfl

@[simp] theorem toList_trimString (s : String) : (trimString s).toList = trim s.toList := by
  simp [trimString]

end Consent.Text

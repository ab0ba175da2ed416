import Consent.Text.LetterCase
import Consent.Uri.Authority

/-! URIs: scheme, authority, path, query and fragment. -/

namespace Consent

open Text Uri

/-- A URI in its parts. Path, query and fragment stay as written; a URI whose rest does not begin
with a slash after its scheme has no authority. -/
structure Uri where
  scheme : List Char
  authority : Option Authority
  path : List Char
  query : Option (List Char)
  fragment : List Char
  deriving DecidableEq, Repr

structure UriError where
  input : List Char
  fault : Fault
  deriving DecidableEq, Repr

def UriError.message (e : UriError) : String :=
  "parse " ++ quote e.input ++ ": " ++ e.fault.message

namespace Uri

def isLetter (c : Char) : Bool := ('a' ≤ c && c ≤ 'z') || ('A' ≤ c && c ≤ 'Z')

def isSchemeChar (c : Char) : Bool := isLetter c || isDigit c || ['+', '-', '.'].contains c

/-- Cuts off a scheme and its colon. Text that does not begin with a scheme has none. -/
def cutScheme (s : List Char) : Except Fault (List Char × List Char) :=
  match s with
  | ':' :: _ => .error .missingScheme
  | c :: _ =>
    if isLetter c then
      match s.dropWhile isSchemeChar with
      | ':' :: rest => .ok (s.takeWhile isSchemeChar, rest)
      | _ => .ok ([], s)
    else .ok ([], s)
  | [] => .ok ([], [])

def isControl (c : Char) : Bool := c.toNat < 0x20 || c.toNat = 0x7f

def readHierarchy (scheme s : List Char) : Except Fault (Option Authority × List Char) :=
  match s with
  | '/' :: '/' :: rest =>
    if scheme.isEmpty && rest.head? = some '/' then do
      let _ ← unescape .plain s
      .ok (none, s)
    else do
      let authority ← Authority.parse (rest.takeWhile (· ≠ '/'))
      let path := rest.dropWhile (· ≠ '/')
      let _ ← unescape .plain path
      .ok (some authority, path)
  | '/' :: _ => do
    let _ ← unescape .plain s
    .ok (none, s)
  | _ =>
    if !scheme.isEmpty then .ok (none, s)
    else if (s.takeWhile (· ≠ '/')).contains ':' then .error .colonInFirstSegment
    else do
      let _ ← unescape .plain s
      .ok (none, s)

def readBody (s : List Char) : Except Fault Uri :=
  if s.any isControl then .error .control
  else do
    let (scheme, rest) ← cutScheme s
    let (hierarchy, query) := cut '?' rest
    let (authority, path) ← readHierarchy scheme hierarchy
    .ok { scheme := lower scheme, authority, path, query, fragment := [] }

/-- Reads a URI. A bad fragment is blamed on the whole text, all else on the text before it. -/
def parse (s : List Char) : Except UriError Uri :=
  let (body, fragment) := cut '#' s
  match readBody body with
  | .error fault => .error ⟨body, fault⟩
  | .ok uri =>
    match fragment with
    | none => .ok uri
    | some text =>
      match unescape .plain text with
      | .error fault => .error ⟨s, fault⟩
      | .ok _ => .ok { uri with fragment := text }

def host (u : Uri) : List Char := (u.authority.map (·.host)).getD []

def port (u : Uri) : List Char := (u.authority.bind (·.port)).getD []

def isBare (u : Uri) : Bool :=
  match u.authority with
  | none => false
  | some a =>
    !a.isVoid && a.userinfo.isNone && u.path.isEmpty && u.query.isNone && u.fragment.isEmpty

end Uri

end Consent

import Consent.Uri.Escape

/-! The authority of a URI: an optional userinfo, a host and an optional port. -/

namespace Consent.Uri

open Text Host

/-- The host is decoded and has lost its brackets; the port is the text after the colon. -/
structure Authority where
  userinfo : Option (List Char)
  host : List Char
  port : Option (List Char)
  deriving DecidableEq, Repr

/-- Text after a host: nothing, or a colon and digits (perhaps none). -/
def portText? : List Char → Option (Option (List Char))
  | [] => some none
  | ':' :: digits => if digits.all isDigit then some (some digits) else none
  | _ => none

def cutZone : List Char → List Char × Option (List Char)
  | [] => ([], none)
  | c :: rest =>
    if ['%', '2', '5'].isPrefixOf (c :: rest) then ([], some (c :: rest))
    else
      let (before, zone) := cutZone rest
      (c :: before, zone)

def decodeLiteral (s : List Char) : Except Fault (List Piece) :=
  match cutZone s with
  | (address, none) => decode .host address
  | (address, some zone) => do
    let a ← decode .host address
    let z ← decode .zone zone
    .ok (a ++ z)

/-- A bracketed literal must be a colon-separated address. -/
def readLiteral (s : List Char) : Except Fault (List Char) := do
  let text ← decodeLiteral s
  let chars := text.map Piece.toChar
  match parseIp chars with
  | .error e => .error (.badAddress text e)
  | .ok .v4 => .error .badLiteral
  | .ok (.v6 _) => .ok chars

/-- Host and port. A bracket anywhere but at the front is no literal; otherwise the last colon
starts the port. -/
def readHostPort (s : List Char) : Except Fault (List Char × Option (List Char)) :=
  match cutLast? '[' s with
  | some ([], inner) =>
    match cutLast? ']' inner with
    | none => .error .missingBracket
    | some (literal, after) =>
      match portText? after with
      | none => .error (.badPort after)
      | some port => (readLiteral literal).map fun host => (host, port)
  | some (_ :: _, _) => .error .badLiteral
  | none =>
    match cutLast? ':' s with
    | none => (decode .host s).map fun host => (host.map Piece.toChar, none)
    | some (before, after) =>
      if after.all isDigit then
        (decode .host before).map fun host => (host.map Piece.toChar, some after)
      else .error (.badPort (':' :: after))

def isUserinfoChar (c : Char) : Bool :=
  isAlnum c || ['-', '.', '_', ':', '~', '!', '$', '&', '\'', '(', ')', '*', '+', ',', ';', '=',
    '%', '@'].contains c

/-- Name and password are divided by the first colon, and both must unescape. -/
def checkUserinfo (s : List Char) : Except Fault Unit :=
  if !s.all isUserinfoChar then .error .badUserinfo
  else do
    let (name, password) := cut ':' s
    let _ ← unescape .plain name
    let _ ← unescape .plain (password.getD [])
    .ok ()

/-- The host follows the last at sign and is read before the userinfo is checked. -/
def Authority.parse (s : List Char) : Except Fault Authority := do
  match cutLast? '@' s with
  | none =>
    let (host, port) ← readHostPort s
    .ok ⟨none, host, port⟩
  | some (userinfo, rest) =>
    let (host, port) ← readHostPort rest
    checkUserinfo userinfo
    .ok ⟨some userinfo, host, port⟩

def Authority.isVoid (a : Authority) : Bool := a.host.isEmpty && a.port.isNone

end Consent.Uri

import Consent.Host.IpAddress

/-! Percent escapes, and which of them the parts of a URI admit. -/

namespace Consent.Uri

open Text Host

inductive Fault where
  | control
  | missingScheme
  | colonInFirstSegment
  | badEscape (text : List Piece)
  | badHostChar (c : Char)
  | badPort (text : List Char)
  | badLiteral
  | missingBracket
  | badAddress (text : List Piece) (error : IpError)
  | badUserinfo
  deriving DecidableEq, Repr

def Fault.message : Fault → String
  | .control => "net/url: invalid control character in URL"
  | .missingScheme => "missing protocol scheme"
  | .colonInFirstSegment => "first path segment in URL cannot contain colon"
  | .badEscape text => "invalid URL escape " ++ quotePieces text
  | .badHostChar c => "invalid character " ++ quote [c] ++ " in host name"
  | .badPort text => "invalid port " ++ quote text ++ " after host"
  | .badLiteral => "invalid IP-literal"
  | .missingBracket => "missing ']' in host"
  | .badAddress text error => "invalid host: " ++ error.message text
  | .badUserinfo => "net/url: invalid userinfo"

inductive Part where
  /-- Path, fragment and userinfo: every escape is allowed. -/
  | plain
  /-- Host: only bytes outside ASCII and the percent sign may be escaped. -/
  | host
  /-- Zone of a literal: only the percent sign, the space and what a host may hold. -/
  | zone
  deriving DecidableEq, Repr

def isHostChar (c : Char) : Bool :=
  isAlnum c || ['!', '"', '$', '&', '\'', '(', ')', '*', '+', ',', '-', '.', ':', ';', '<', '=',
    '>', '[', ']', '_', '~'].contains c

def admitsEscape (part : Part) (high low : Char) : Bool :=
  let value := 16 * hexValue high + hexValue low
  match part with
  | .plain => true
  | .host => 0x80 ≤ value || (high = '2' && low = '5')
  | .zone =>
    (high = '2' && low = '5') || value = 0x20
      || (value < 0x80 && isHostChar (Char.ofNat value))

def admitsChar (part : Part) (c : Char) : Bool :=
  part = .plain || 0x80 ≤ c.toNat || isHostChar c

/-- The byte that two hexadecimal digits spell; an ASCII byte is a character. -/
def escapedPiece (high low : Char) : Piece :=
  let value := 16 * hexValue high + hexValue low
  if value < 0x80 then .char (Char.ofNat value) else .byte value.toUInt8

/-- Replaces the escapes by what they stand for. The first problem from the left wins. -/
def unescape (part : Part) : List Char → Except Fault (List Piece)
  | [] => .ok []
  | '%' :: rest =>
    match rest with
    | high :: low :: rest' =>
      if isHexDigit high && isHexDigit low then
        if admitsEscape part high low then
          (unescape part rest').map (escapedPiece high low :: ·)
        else .error (.badEscape [.char '%', .char high, .char low])
      else .error (.badEscape (takeBytes 3 ('%' :: rest)))
    | _ => .error (.badEscape (takeBytes 3 ('%' :: rest)))
  | c :: rest =>
    if admitsChar part c then (unescape part rest).map (.char c :: ·)
    else .error (.badHostChar c)

def decode (part : Part) (s : List Char) : Except Fault (List Piece) :=
  (unescape part s).map settle

end Consent.Uri

import Consent.Origin.Basic
import Consent.Text.Blank
import Consent.Uri.Basic

/-! Reading origins from URIs and from stored keys. -/

namespace Consent

open Text

inductive OriginError where
  | empty
  | badAttributes (error : Origin.AttributeError)
  | badUri (error : UriError)
  | unsupportedScheme (scheme : List Char)
  | noHost (raw : List Char)
  | badPort (text : List Char)
  deriving DecidableEq, Repr

def invalidOrigin : String := "invalid origin: "

def OriginError.message : OriginError → String
  | .empty => invalidOrigin ++ "empty"
  | .badAttributes e => invalidOrigin ++ e.message
  | .badUri e => invalidOrigin ++ e.message
  | .unsupportedScheme scheme => "scheme cannot carry site permissions: " ++ quote scheme
  | .noHost raw => invalidOrigin ++ quote raw ++ " has no host"
  | .badPort text => invalidOrigin ++ "port " ++ quote text

namespace Origin

/-- Whether the text is scheme, host and perhaps a port, and nothing else. -/
def isBare (s : List Char) : Bool :=
  match Uri.parse s with
  | .ok u => u.isBare
  | .error _ => false

/-- Divides a text into the URI and its attributes. A caret starts attributes only right after a
bare origin; anywhere else it belongs to the URI. -/
def cutAttributes (s : List Char) : Except OriginError (List Char × Attributes) :=
  match cut '^' s with
  | (_, none) => .ok (s, {})
  | (base, some suffix) =>
    if isBare base then
      match Attributes.parse suffix with
      | .ok attributes => .ok (base, attributes)
      | .error e => .error (.badAttributes e)
    else .ok (s, {})

def readPort (s : List Char) : Except OriginError Int :=
  if s.isEmpty then .ok 0
  else
    let n := valueOf s
    if 0 < n && n ≤ 65535 then .ok n else .error (.badPort s)

def ofUri (raw : List Char) (u : Uri) (attributes : Attributes) : Except OriginError Origin :=
  if !canCarry (.ofList u.scheme) then .error (.unsupportedScheme u.scheme)
  else if u.host.isEmpty then .error (.noHost raw)
  else do
    let port ← readPort u.port
    .ok (make (.ofList u.scheme) (.ofList u.host) port attributes)

def parseTrimmed (s : List Char) : Except OriginError Origin :=
  if s.isEmpty then .error .empty
  else do
    let (base, attributes) ← cutAttributes s
    match Uri.parse base with
    | .error e => .error (.badUri e)
    | .ok u => ofUri s u attributes

/-- Reads the origin of a URI, or a stored key. -/
def parse (raw : String) : Except OriginError Origin := parseTrimmed (trim raw.toList)

end Origin

end Consent

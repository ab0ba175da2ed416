import Consent.Text.Numeral
import Consent.Text.Quoted
import Consent.Text.Split

/-! Isolation attributes: they keep apart identities that share scheme, host and port. -/

namespace Consent.Origin

open Text

/-- The app an identity belongs to (0 for none) and whether it lives in an embedded browser. -/
structure Attributes where
  appId : UInt32 := 0
  inBrowser : Bool := false
  deriving DecidableEq, Repr, Inhabited

def Attributes.isDefault (a : Attributes) : Bool := a.appId == 0 && !a.inBrowser

inductive AttributeError where
  | malformed (param : List Char)
  | badAppId (value : List Char) (fault : NumeralFault)
  | badInBrowser (value : List Char)
  | unknownKey (key : List Char)
  deriving DecidableEq, Repr

def AttributeError.message : AttributeError → String
  | .malformed param => "malformed attribute " ++ quote param
  | .badAppId value fault =>
    "appId " ++ quote value ++ ": strconv.ParseUint: parsing " ++ quote value ++ ": " ++ fault.message
  | .badInBrowser value => "inBrowser must be 1, got " ++ quote value
  | .unknownKey key => "unknown attribute " ++ quote key

namespace Attributes

def appIdKey : List Char := ['a', 'p', 'p', 'I', 'd']

def inBrowserKey : List Char := ['i', 'n', 'B', 'r', 'o', 'w', 's', 'e', 'r']

def params (a : Attributes) : List (List Char) :=
  (if a.appId = 0 then [] else [appIdKey ++ '=' :: digits a.appId.toNat])
    ++ (if a.inBrowser then [inBrowserKey ++ ['=', '1']] else [])

/-- A caret and the parameters with ampersands between them; nothing for default attributes. -/
def suffix (a : Attributes) : List Char :=
  if a.isDefault then [] else '^' :: joinWith '&' a.params

/-- A numeral of at least one digit, below 2^32. -/
def parseAppId (s : List Char) : Except NumeralFault UInt32 :=
  if s.isEmpty then .error .malformed else (readDigits 10 4294967296 false 0 s).map Nat.toUInt32

def apply (a : Attributes) (param : List Char) : Except AttributeError Attributes :=
  match cut '=' param with
  | (_, none) => .error (.malformed param)
  | (key, some value) =>
    if key = appIdKey then
      match parseAppId value with
      | .ok id => .ok { a with appId := id }
      | .error fault => .error (.badAppId value fault)
    else if key = inBrowserKey then
      if value = ['1'] then .ok { a with inBrowser := true } else .error (.badInBrowser value)
    else .error (.unknownKey key)

/-- Reads parameters divided by ampersands, with or without the caret before them. Of two
parameters with one key the later wins. -/
def parse (s : List Char) : Except AttributeError Attributes :=
  let s := match s with
    | '^' :: rest => rest
    | s => s
  if s.isEmpty then .ok {} else (splitOn '&' s).foldlM apply {}

end Attributes

end Consent.Origin

import Consent.Origin.Attributes
import Consent.Text.LetterCase

/-! Origins: the scheme, host and port that a decision is stored for, and their stored keys. -/

namespace Consent

open Text

/-- An origin. Port 0 stands for the default port of the scheme. -/
structure Origin where
  scheme : String
  host : String
  port : Int
  attributes : Origin.Attributes
  deriving DecidableEq, Repr

namespace Origin

/-- The default port of a scheme that can carry permissions, in any letter case. -/
def defaultPort? (scheme : String) : Option Int :=
  match lowerString scheme with
  | "http" => some 80
  | "https" => some 443
  | "ftp" => some 21
  | _ => none

def canCarry (scheme : String) : Bool := (defaultPort? scheme).isSome

def defaultPort (scheme : String) : Int := (defaultPort? scheme).getD 0

/-- Builds an origin in lower case, with the scheme's default port folded to 0. -/
def make (scheme host : String) (port : Int) (attributes : Attributes) : Origin where
  scheme := lowerString scheme
  host := lowerString host
  port := if port = defaultPort scheme then 0 else port
  attributes := attributes

def withHost (o : Origin) (host : String) : Origin := { o with host := lowerString host }

/-- A host that contains a colon is written in brackets. -/
def bracketed (host : List Char) : List Char :=
  if host.contains ':' then '[' :: host ++ [']'] else host

/-- The key under which decisions for the origin are stored. -/
def key (o : Origin) : String :=
  o.scheme ++ "://" ++ .ofList (bracketed o.host.toList)
    ++ (if o.port = 0 then "" else ":" ++ decimal o.port)
    ++ .ofList o.attributes.suffix

end Origin

end Consent

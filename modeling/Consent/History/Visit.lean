import Consent.Origin.Parser
import Consent.Time.Instant

/-! Visits to pages, and the schemes and ports they were made with. -/

namespace Consent

open Text

/-- A scheme and a port seen in the history. Port 0 stands for the default port of the scheme. -/
structure SchemePort where
  scheme : String
  port : Int
  deriving DecidableEq, Repr

def SchemePort.text (sp : SchemePort) : String :=
  if sp.port = 0 then sp.scheme else sp.scheme ++ ":" ++ decimal sp.port

def SchemePort.le (a b : SchemePort) : Bool :=
  if a.scheme = b.scheme then a.port ≤ b.port else a.scheme < b.scheme

/-- A visit. Its time is stored in milliseconds. -/
structure Visit where
  url : String
  scheme : String
  host : String
  port : Int
  atMillis : Int
  deriving DecidableEq, Repr

inductive VisitFault where
  | badUri (error : UriError)
  | incomplete
  | badPort
  deriving DecidableEq, Repr

def VisitFault.message : VisitFault → String
  | .badUri e => e.message
  | .incomplete => "scheme and host are required"
  | .badPort => "bad port"

structure VisitError where
  url : String
  fault : VisitFault
  deriving DecidableEq, Repr

def VisitError.message (e : VisitError) : String :=
  "invalid visit url " ++ quoteString e.url ++ ": " ++ e.fault.message

namespace Visit

/-- Ports are 64-bit numbers; no text stands for the default port. -/
def readPort (s : List Char) : Option Int :=
  if valueOf s < limit63 then some (valueOf s) else none

/-- Reads scheme, host and port of a visited URL, with the default port folded to 0. -/
def parse (url : String) (atMillis : Int) : Except VisitError Visit :=
  match Uri.parse (trim url.toList) with
  | .error e => .error ⟨url, .badUri e⟩
  | .ok u =>
    if u.scheme.isEmpty || u.host.isEmpty then .error ⟨url, .incomplete⟩
    else
      match readPort u.port with
      | none => .error ⟨url, .badPort⟩
      | some port =>
        let scheme := lowerString (.ofList u.scheme)
        .ok {
          url, scheme, atMillis
          host := .ofList (lower u.host)
          port := if port = Origin.defaultPort scheme then 0 else port }

/-- Whether the visited host is the domain or lies below it: it is longer, and its last characters,
one more than the domain has, are a point and the domain. -/
def isUnder (v : Visit) (domain : String) : Bool :=
  let host := v.host.toList
  let below := domain.toList
  v.host = domain || below.length < host.length && ending (below.length + 1) host = '.' :: below

end Visit

end Consent

import Consent.Host.IpAddress
import Consent.Origin.Attributes
import Consent.Permission.Record
import Consent.Text.Blank

/-! Decisions of the earlier layout, stored by host instead of origin. -/

namespace Consent.Legacy

open Text Host

structure Row where
  id : Int
  host : String
  kind : Kind
  state : State
  expiry : Expiry
  expireAt : Instant
  modified : Instant
  attributes : Origin.Attributes
  deriving DecidableEq, Repr

inductive RowError where
  | missing
  | noHost (id : Int)
  | noKind (id : Int)
  | noState (id : Int)
  | badHost (id : Int) (host : String)
  deriving DecidableEq, Repr

def RowError.message (e : RowError) : String :=
  "malformed legacy permission row: " ++ match e with
  | .missing => "nil row"
  | .noHost id => "row " ++ decimal id ++ " has no host"
  | .noKind id => "row " ++ decimal id ++ " has no type"
  | .noState id => "row " ++ decimal id ++ " has no permission"
  | .badHost id host => "row " ++ decimal id ++ " has invalid host " ++ quoteString host

def stripBrackets (s : List Char) : List Char := trimWhile (fun c => c = '[' || c = ']') s

/-- Whether a host value is carried over as it stands: a name in angle brackets, or anything with
a colon that is no numeric address. -/
def isVerbatim (host : List Char) : Bool :=
  if host.head? = some '<' && host.getLast? = some '>' then true
  else if isIpLiteral (stripBrackets host) then false
  else host.contains ':'

def isForeign (c : Char) : Bool := [' ', '/', '?', '#', '@'].contains c

namespace Row

/-- A row has a host, a kind and a positive decision, and its host is verbatim or a host name. -/
def check (r : Row) : Except RowError Unit :=
  if r.host = "" then .error (.noHost r.id)
  else if r.kind = "" then .error (.noKind r.id)
  else if r.state.code ≤ 0 then .error (.noState r.id)
  else if !isVerbatim r.host.toList && r.host.toList.any isForeign then
    .error (.badHost r.id r.host)
  else .ok ()

def isExpired (r : Row) (now : Instant) : Bool := r.expiry = .timed && !(now < r.expireAt)

def recordAt (r : Row) (origin : String) : Record where
  origin := origin
  kind := r.kind
  state := r.state
  expiry := r.expiry
  expireAt := r.expireAt
  modified := r.modified

end Row

end Consent.Legacy

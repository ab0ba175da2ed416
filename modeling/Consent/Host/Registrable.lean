import Consent.Host.IpAddress
import Consent.Host.PublicSuffix
import Consent.Text.LetterCase

/-! The registrable domain of a host, and the hosts between the two. -/

namespace Consent.Host

open Text

/-- Lower case, without one trailing dot. -/
def normal (host : List Char) : List Char := dropLastIf '.' (lower host)

/-- The public suffix and one label more. There is none for hosts with an empty label, for numeric
addresses and for public suffixes themselves. -/
def siteName? [SuffixList] (host : List Char) : Option (List Char) :=
  let ls := labels host
  let n := suffixLength ls.reverse
  if ls.any List.isEmpty || (parseIp host).isOk || ls.length ≤ n then none
  else some (lastLabels (n + 1) host)

structure Registration where
  domain : List Char
  /-- Whether `domain` is a registrable domain; otherwise it is the host itself. -/
  found : Bool
  deriving DecidableEq, Repr

def registrable [SuffixList] (host : List Char) : Registration :=
  let h := normal host
  if h.isEmpty || isIpLiteral h then ⟨h, false⟩
  else
    match siteName? h with
    | some domain => ⟨domain, true⟩
    | none => ⟨h, false⟩

/-- The hosts reached by dropping labels from the front, down to `domain`. -/
def climb (domain : List Char) : List (List Char) → List (List Char)
  | [] => []
  | _ :: rest =>
    let parent := joinWith '.' rest
    if rest.isEmpty then []
    else if parent = domain then [parent]
    else parent :: climb domain rest

/-- The parents of a host, nearest first, ending with its registrable domain. -/
def ancestors [SuffixList] (host : List Char) : List (List Char) :=
  let h := normal host
  let r := registrable h
  if !r.found || h = r.domain || !('.' :: r.domain).isSuffixOf h then []
  else climb r.domain (labels h)

end Consent.Host

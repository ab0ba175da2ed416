import Consent.Text.Numeral
import Consent.Text.Quoted
import Consent.Text.Split

/-! Numeric addresses as text: four decimal octets, or colon-separated hexadecimal groups. -/

namespace Consent.Host

open Text

inductive IpForm where
  | v4
  | v6 (zone : List Char)
  deriving DecidableEq, Repr

inductive IpFault where
  | noSeparator
  | missingGroups
  | emptyZone
  | leadingZero
  | largeOctet
  | emptyOctet
  | manyOctets
  | fewOctets
  | strayCharacter
  | longGroup
  | emptyGroup
  | misplacedOctets
  | noRoomForOctets
  | missingColon
  | trailingColon
  | secondGap
  | trailingText
  | fewGroups
  | idleGap
  deriving DecidableEq, Repr

def IpFault.message : IpFault → String
  | .noSeparator => "unable to parse IP"
  | .missingGroups => "missing IPv6 address"
  | .emptyZone => "zone must be a non-empty string"
  | .leadingZero => "IPv4 field has octet with leading zero"
  | .largeOctet => "IPv4 field has value >255"
  | .emptyOctet => "IPv4 field must have at least one digit"
  | .manyOctets => "IPv4 address too long"
  | .fewOctets => "IPv4 address too short"
  | .strayCharacter => "unexpected character"
  | .longGroup => "each group must have 4 or less digits"
  | .emptyGroup => "each colon-separated field must have at least one digit"
  | .misplacedOctets => "embedded IPv4 address must replace the final 2 fields of the address"
  | .noRoomForOctets => "too many hex fields to fit an embedded IPv4 at the end of the address"
  | .missingColon => "unexpected character, want colon"
  | .trailingColon => "colon must be followed by more characters"
  | .secondGap => "multiple :: in address"
  | .trailingText => "trailing garbage after address"
  | .fewGroups => "address string too short"
  | .idleGap => "the :: must expand to at least one field of zeros"

/-- A fault, and how many characters before the zone are left from the place that shows it
(none when no place does). -/
structure IpError where
  fault : IpFault
  left : Nat
  deriving DecidableEq, Repr

/-- Reads the octets from the one in progress on: `done` octets are complete, and the current one
has `width` digits that spell `value`. -/
def readOctets (done value width : Nat) : List Char → Except IpError Unit
  | [] => if done < 3 then .error ⟨.fewOctets, 0⟩ else .ok ()
  | c :: rest =>
    if isDigit c then
      if width = 1 && value = 0 then .error ⟨.leadingZero, 0⟩
      else
        let value := 10 * value + digitValue c
        if 255 < value then .error ⟨.largeOctet, 0⟩ else readOctets done value (width + 1) rest
    else if c = '.' then
      if width = 0 || rest.isEmpty then .error ⟨.emptyOctet, rest.length + 1⟩
      else if done = 3 then .error ⟨.manyOctets, 0⟩
      else readOctets (done + 1) 0 0 rest
    else .error ⟨.strayCharacter, rest.length + 1⟩

structure Groups where
  count : Nat
  gap : Bool

/-- Reads at most `room` groups after `seen` others; `gap` tells whether `::` was met. -/
def readGroups : (room seen : Nat) → (gap : Bool) → List Char → Except IpError Groups
  | 0, seen, gap, s => if s.isEmpty then .ok ⟨seen, gap⟩ else .error ⟨.trailingText, s.length⟩
  | room + 1, seen, gap, s =>
    let group := s.takeWhile isHexDigit
    let rest := s.dropWhile isHexDigit
    if 4 < group.length then .error ⟨.longGroup, s.length⟩
    else if group.isEmpty then .error ⟨.emptyGroup, s.length⟩
    else
      match rest with
      | [] => .ok ⟨seen + 1, gap⟩
      | '.' :: _ =>
        if !gap && seen ≠ 6 then .error ⟨.misplacedOctets, s.length⟩
        else if 6 < seen then .error ⟨.noRoomForOctets, s.length⟩
        else (readOctets 0 0 0 s).map fun _ => ⟨seen + 2, gap⟩
      | ':' :: ':' :: rest' =>
        if gap then .error ⟨.secondGap, rest'.length + 1⟩
        else if rest'.isEmpty then .ok ⟨seen + 1, true⟩
        else readGroups room (seen + 1) true rest'
      | ':' :: rest' =>
        if rest'.isEmpty then .error ⟨.trailingColon, 1⟩
        else readGroups room (seen + 1) gap rest'
      | _ => .error ⟨.missingColon, rest.length⟩

/-- Eight groups, or fewer with one `::` that stands for the missing ones. -/
def checkGroups (g : Groups) : Except IpError Unit :=
  if g.count < 8 then
    if g.gap then .ok () else .error ⟨.fewGroups, 0⟩
  else if g.gap then .error ⟨.idleGap, 0⟩
  else .ok ()

def readV6 (s : List Char) : Except IpError Unit :=
  match s with
  | [':', ':'] => .ok ()
  | ':' :: ':' :: rest => readGroups 8 0 true rest >>= checkGroups
  | _ => readGroups 8 0 false s >>= checkGroups

/-- Reads a numeric address. The first point, colon or percent sign tells its form. -/
def parseIp (s : List Char) : Except IpError IpForm :=
  match s.find? (fun c => c = '.' || c = ':' || c = '%') with
  | some '.' => (readOctets 0 0 0 s).map fun _ => .v4
  | some ':' =>
    match cut '%' s with
    | (_, some []) => .error ⟨.emptyZone, 0⟩
    | (address, zone) => (readV6 address).map fun _ => .v6 (zone.getD [])
  | some _ => .error ⟨.missingGroups, 0⟩
  | none => .error ⟨.noSeparator, 0⟩

def isIpLiteral (s : List Char) : Bool :=
  match parseIp s with
  | .ok .v4 | .ok (.v6 []) => true
  | _ => false

/-- The wording of a fault in `text`; its place is shown by the rest of the text before the zone. -/
def IpError.message (text : List Piece) (e : IpError) : String :=
  let address := text.takeWhile (· ≠ .char '%')
  let place := address.drop (address.length - e.left)
  "ParseAddr(" ++ quotePieces text ++ "): " ++ e.fault.message
    ++ if e.left = 0 then "" else " (at " ++ quotePieces place ++ ")"

end Consent.Host

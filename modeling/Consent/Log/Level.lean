import Consent.Text.LetterCase
import Consent.Text.Pieces

/-! How much is logged. -/

namespace Consent.Log

open Text

/-- The levels, least severe first; nothing is logged at the last. -/
inductive Level where
  | trace
  | debug
  | info
  | warn
  | error
  | disabled
  deriving DecidableEq, Repr, Inhabited

namespace Level

def rank : Level → Int
  | .trace => -1
  | .debug => 0
  | .info => 1
  | .warn => 2
  | .error => 3
  | .disabled => 7

def name : Level → String
  | .trace => "trace"
  | .debug => "debug"
  | .info => "info"
  | .warn => "warn"
  | .error => "error"
  | .disabled => "disabled"

/-- The level of a name in any letter case; an unknown name means `info`. -/
def ofName (text : String) : Level :=
  match lowerString text with
  | "trace" => .trace
  | "debug" => .debug
  | "warn" | "warning" => .warn
  | "error" => .error
  | "disabled" | "off" => .disabled
  | _ => .info

def admits (l e : Level) : Bool := l.rank ≤ e.rank && l ≠ .disabled

end Level

/-- A URL cut to at most `max` bytes, of which three are dots; a limit of three or less cuts
nothing. -/
def truncateUrl (url : String) (max : Int) : String :=
  if max ≤ 3 || url.utf8ByteSize ≤ max.toNat then url
  else .ofList ((takeBytes (max.toNat - 3) url.toList).map Piece.toChar) ++ "..."

end Consent.Log

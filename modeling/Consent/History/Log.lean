import Consent.Action

/-! The history of visits: the newest are listed first, and an index asks it for a domain. -/

namespace Consent

open Text

/-- The visits in the order they were recorded, and whether the history can still be used. -/
structure History where
  visits : List Visit := []
  closed : Bool := false
  deriving DecidableEq, Repr

namespace History

def loggedUrlLength : Int := 60

def record (h : History) (v : Visit) : History := { h with visits := h.visits ++ [v] }

/-- The pairs of the visits to a domain or below it, each once, ascending. -/
def pairsUnder (h : History) (domain : String) : List SchemePort :=
  let domain := lowerString domain
  let visited := h.visits.filter (·.isUnder domain)
  (visited.map fun v => ⟨v.scheme, v.port⟩).eraseDups.mergeSort SchemePort.le

/-- The visits, newest first; of two at one time the later recorded comes first. -/
def newestFirst (h : History) : List Visit :=
  h.visits.reverse.mergeSort fun a b => b.atMillis ≤ a.atMillis

def usable : Action History Unit := do
  if (← Action.get).closed then .fail .storage

/-- Records a visit; one without a time was made `now`. -/
def addVisit (now : Instant) (url : String) (time : Instant) : Action History Unit := do
  let millis := if time = .unset then now.millis else time.millis
  let v ← Action.ofExcept ((Visit.parse url millis).mapError .visit)
  Action.emit .debug "recording visit"
    [Log.text "url" (Log.truncateUrl url loggedUrlLength)]
  usable
  Action.modify (·.record v)

def visitedUnder (domain : String) : Action History (List SchemePort) := do
  usable
  pure ((← Action.get).pairsUnder domain)

/-- The newest visits, at most `limit` if that is positive. -/
def newest (limit : Int) : Action History (List Visit) := do
  usable
  let vs := (← Action.get).newestFirst
  pure (if limit ≤ 0 then vs else vs.take limit.toNat)

end History

end Consent

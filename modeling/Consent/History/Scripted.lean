import Consent.History.Resolver

/-! An index of visits that answers as it is told and notes every question. -/

namespace Consent.Scripted

/-- The answers and failures by domain, and the questions so far. -/
structure Index where
  pairs : List (String × List SchemePort) := []
  failures : List (String × String) := []
  /-- Whether a domain fails only on its first question. -/
  recovers : Bool := false
  questions : List String := []
  deriving Repr

def Index.visitedUnder (domain : String) : Action Index (List SchemePort) := do
  let i ← Action.get
  Action.set { i with questions := i.questions ++ [domain] }
  match i.failures.lookup domain with
  | some text =>
    if i.recovers && i.questions.contains domain then pure ((i.pairs.lookup domain).getD [])
    else .fail (.reported text)
  | none => pure ((i.pairs.lookup domain).getD [])

end Consent.Scripted

import Consent.Action
import Consent.Host.Registrable

/-! Which schemes and ports a site was visited with, asked once for each registrable domain. -/

namespace Consent

open Text Host

structure Resolver (ι : Type) where
  index : ι
  answers : List (String × List SchemePort)

/-- How to ask an index for the schemes and ports visited under a domain. Without a way to ask
there is no history. -/
abbrev AskIndex (ι : Type) := Option (String → Action ι (List SchemePort))

namespace Resolver

variable {ι : Type}

/-- The pairs whose scheme can carry permissions, each once, ascending. -/
def usable (pairs : List SchemePort) : List SchemePort :=
  (pairs.eraseDups.filter fun sp => Origin.canCarry sp.scheme).mergeSort SchemePort.le

def domainOf [SuffixList] (host : String) : String := .ofList (registrable host.toList).domain

/-- The usable pairs visited under the host's registrable domain. Only answers are kept, so a
failure is asked again. -/
def resolve [SuffixList] (ask : AskIndex ι) (host : String) :
    Action (Resolver ι) (List SchemePort) :=
  match ask with
  | none => pure []
  | some visitedUnder => do
    let domain := domainOf host
    let r ← Action.get
    match r.answers.lookup domain with
    | some pairs => pure pairs
    | none =>
      Action.emit .debug "querying visit index" [Log.text "domain" domain]
      let visited ← (visitedUnder domain).on (·.index) fun i r => { r with index := i }
      let pairs := usable visited
      Action.modify fun r => { r with answers := (domain, pairs) :: r.answers }
      pure pairs

end Resolver

end Consent

import Consent.Permission.State

/-! The kinds of permission and how each of them behaves. -/

namespace Consent

open Text

abbrev Kind := String

structure KindDefinition where
  kind : Kind
  /-- The decisions that can be stored, in display order. -/
  states : List State
  /-- Whether a decision applies only to the host it was made for; otherwise subdomains inherit it. -/
  exactHost : Bool := false
  deriving DecidableEq, Repr

inductive RegistryError where
  | unnamed
  | definedTwice (kind : Kind)
  | noStates (kind : Kind)
  | stateTwice (kind : Kind) (state : State)
  deriving DecidableEq, Repr

def RegistryError.message : RegistryError → String
  | .unnamed => "kind definition without a name"
  | .definedTwice kind => "kind " ++ quoteString kind ++ " defined twice"
  | .noStates kind => "kind " ++ quoteString kind ++ " has no states"
  | .stateTwice kind state => "kind " ++ quoteString kind ++ " lists state " ++ state.name ++ " twice"

def repeated? (seen : List State) : List State → Option State
  | [] => none
  | s :: rest => if seen.contains s then some s else repeated? (s :: seen) rest

def KindDefinition.check (seen : List Kind) (d : KindDefinition) : Except RegistryError Unit :=
  if d.kind = "" then .error .unnamed
  else if seen.contains d.kind then .error (.definedTwice d.kind)
  else if d.states.isEmpty then .error (.noStates d.kind)
  else
    match repeated? [] d.states with
    | some s => .error (.stateTwice d.kind s)
    | none => .ok ()

structure Registry where
  definitions : List KindDefinition
  deriving DecidableEq, Repr

namespace Registry

def checkAll (seen : List Kind) : List KindDefinition → Except RegistryError Unit
  | [] => .ok ()
  | d :: rest => do
    d.check seen
    checkAll (d.kind :: seen) rest

/-- Every kind is named, is defined once, and lists at least one decision and none twice. -/
def ofDefinitions (ds : List KindDefinition) : Except RegistryError Registry := do
  checkAll [] ds
  .ok ⟨ds⟩

/-- The decisions about kinds that are undecided at first, and about kinds without a definition. -/
def askStates : List State := [.unknown, .allow, .block]

/-- The decisions about kinds that are always decided one way. -/
def binaryStates : List State := [.allow, .block]

def default : Registry where
  definitions := [
    ⟨"camera", askStates, true⟩,
    ⟨"cookie", [.allow, .allowSessionCookies, .block], false⟩,
    ⟨"desktop-notification", askStates, true⟩,
    ⟨"geo", askStates, true⟩,
    ⟨"image", binaryStates, false⟩,
    ⟨"indexedDB", askStates, false⟩,
    ⟨"install", binaryStates, false⟩,
    ⟨"microphone", askStates, true⟩,
    ⟨"popup", binaryStates, false⟩,
    ⟨"screen", askStates, true⟩]

instance : Inhabited Registry := ⟨default⟩

def find? (r : Registry) (kind : Kind) : Option KindDefinition :=
  r.definitions.find? (·.kind = kind)

def kinds (r : Registry) : List Kind :=
  (r.definitions.map (·.kind)).mergeSort fun a b => !(b < a)

def isRegistered (r : Registry) (kind : Kind) : Bool := (r.find? kind).isSome

def states (r : Registry) (kind : Kind) : List State :=
  match r.find? kind with
  | some d => d.states
  | none => askStates

def exactHost (r : Registry) (kind : Kind) : Bool :=
  match r.find? kind with
  | some d => d.exactHost
  | none => false

def admits (r : Registry) (kind : Kind) (state : State) : Bool := (r.states kind).contains state

end Registry

end Consent

import Consent.Decision
import Consent.Manage.Table
import Consent.Screen.Message

/-! Browsing and changing the stored decisions. -/

namespace Consent.Manage

structure Model where
  table : Table := {}
  /-- The decisions of the last listing. -/
  records : List Record := []
  width : Int := 104
  height : Int := 24
  failure : Option Failure := none
  status : String := ""
  /-- Whether all keys are explained. -/
  showsHelp : Bool := false
  deriving DecidableEq, Repr

inductive Message where
  | screen (m : Screen.Message)
  | loaded (records : Except Failure (List Record))
  | changed (status : String) (failure : Option Failure)

/-- The first event: nothing has been done yet, and the decisions are listed. -/
def Message.opening : Message := .changed "" none

inductive Effect where
  | quit
  | load
  | set (r : Record) (state : State)
  | delete (r : Record)
  deriving DecidableEq, Repr

namespace Model

def selected? (m : Model) : Option Record :=
  if m.table.cursor < 0 then none else m.records[m.table.cursor.toNat]?

/-- What a key does. -/
def press (m : Model) (key : String) : Model × Option Effect :=
  let fresh := { m with failure := none, status := "" }
  match key with
  | "q" | "esc" | "ctrl+c" => (m, some .quit)
  | "?" => ({ m with showsHelp := !m.showsHelp }, none)
  | "r" => (fresh, some .load)
  | "a" => (fresh, m.selected?.map (.set · .allow))
  | "b" => (fresh, m.selected?.map (.set · .block))
  | "x" | "d" => (fresh, m.selected?.map .delete)
  | _ => ({ m with table := m.table.press key }, none)

def update (now : Instant) (m : Model) : Message → Model × Option Effect
  | .screen (.resize width height) =>
    ({ m with width, height, table := m.table.resize width (max (height - 6) 3 - 2) }, none)
  | .screen (.key key) => m.press key
  | .loaded (.error e) => ({ m with failure := some e }, none)
  | .loaded (.ok records) =>
    let table := m.table.setRows (records.map (·.cells now))
    let table := if (records.length : Int) ≤ table.cursor then
        table.setCursor (max (records.length - 1) 0)
      else table
    ({ m with records, table }, none)
  | .changed status failure => ({ m with status, failure }, some .load)

end Model

/-- Stores another decision in the place of one, with the same expiry. -/
def change {σ : Type} (p : Policy) (repo : Repository σ) (r : Record) (state : State) :
    Action σ Unit :=
  if r.expiry = .timed then Decision.setUntil p repo r.origin r.kind state r.expireAt
  else Decision.set p repo r.origin r.kind state r.scope

def perform {σ : Type} (p : Policy) (repo : Repository σ) : Effect → Action σ (Option Message)
  | .quit => pure none
  | .load => do
    let records ← (Decision.all p repo).attempt
    pure (some (.loaded records))
  | .set r state => do
    let status := r.origin ++ " " ++ r.kind ++ " set to " ++ state.name
    match ← (change p repo r state).attempt with
    | .ok () => pure (some (.changed status none))
    | .error e =>
      Action.emit .warn "manage: set failed" [Log.cause e, Log.text "origin" r.origin]
      pure (some (.changed status (some (.during (.edit r.origin r.kind) e))))
  | .delete r => do
    let status := r.origin ++ " " ++ r.kind ++ " removed"
    match ← (Decision.remove repo r.origin r.kind).attempt with
    | .ok () => pure (some (.changed status none))
    | .error e => pure (some (.changed status (some e)))

/-- Takes an event, and everything that follows from it up to a number of steps; tells whether the
model asked to quit. -/
def handle {σ : Type} (p : Policy) (repo : Repository σ) :
    Nat → Model → Message → Action σ (Model × Bool)
  | 0, m, msg => pure ((m.update p.now msg).1, false)
  | steps + 1, m, msg => do
    match m.update p.now msg with
    | (m, none) => pure (m, false)
    | (m, some effect) =>
      match ← perform p repo effect with
      | none => pure (m, true)
      | some msg => handle p repo steps m msg

end Consent.Manage

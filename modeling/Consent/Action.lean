import Consent.Log.Event

/-! Computations over a state that can fail and that leave a log. A failure keeps what was done to
the state before it. -/

namespace Consent

open Log

structure Outcome (σ α : Type) where
  answer : Except Failure α
  state : σ
  log : List Event

/-- A run over a state of type `σ`. The fields are those that every event of the run carries. -/
def Action (σ α : Type) : Type := List Field → σ → Outcome σ α

namespace Action

variable {σ τ α β : Type}

def run (a : Action σ α) (s : σ) : Outcome σ α := a [] s

protected def pure (x : α) : Action σ α := fun _ s => ⟨.ok x, s, []⟩

protected def bind (a : Action σ α) (f : α → Action σ β) : Action σ β := fun fields s =>
  match a fields s with
  | ⟨.ok x, s', log⟩ =>
    let o := f x fields s'
    ⟨o.answer, o.state, log ++ o.log⟩
  | ⟨.error e, s', log⟩ => ⟨.error e, s', log⟩

instance : Monad (Action σ) where
  pure := Action.pure
  bind := Action.bind

def fail (e : Failure) : Action σ α := fun _ s => ⟨.error e, s, []⟩

def ofExcept : Except Failure α → Action σ α
  | .ok x => .pure x
  | .error e => fail e

/-- Goes on with the failure as a value. -/
def attempt (a : Action σ α) : Action σ (Except Failure α) := fun fields s =>
  let o := a fields s
  ⟨.ok o.answer, o.state, o.log⟩

/-- Says what was being done if the action fails. -/
def during (activity : Activity) (a : Action σ α) : Action σ α := fun fields s =>
  let o := a fields s
  ⟨o.answer.mapError (.during activity), o.state, o.log⟩

/-- Leaves the state as it was if the action fails. -/
def transact (a : Action σ α) : Action σ α := fun fields s =>
  let o := a fields s
  match o.answer with
  | .ok _ => o
  | .error e => ⟨.error e, s, o.log⟩

def get : Action σ σ := fun _ s => ⟨.ok s, s, []⟩

def set (s : σ) : Action σ Unit := fun _ _ => ⟨.ok (), s, []⟩

def modify (f : σ → σ) : Action σ Unit := fun _ s => ⟨.ok (), f s, []⟩

def emit (level : Level) (message : String) (own : List Field) : Action σ Unit := fun fields s =>
  ⟨.ok (), s, [⟨level, message, fields ++ own⟩]⟩

def withFields (own : List Field) (a : Action σ α) : Action σ α := fun fields s =>
  a (fields ++ own) s

def on (part : σ → τ) (put : τ → σ → σ) (a : Action τ α) : Action σ α := fun fields s =>
  let o := a fields (part s)
  ⟨o.answer, put o.state s, o.log⟩

end Action

end Consent

import Consent.Action

/-! What decisions are read from and written to. -/

namespace Consent

/-- The operations on stored decisions, as runs over a state that holds them. -/
structure Repository (σ : Type) where
  /-- The decision stored for an origin and a kind. -/
  get : String → Kind → Action σ (Option Record)
  /-- Stores a decision, in place of the one with the same origin and kind. -/
  set : Record → Action σ Unit
  delete : String → Kind → Action σ Unit
  /-- The decisions stored for an origin, in the order they were first stored. -/
  getAll : String → Action σ (List Record)
  /-- All decisions, in the order they were first stored. -/
  list : Action σ (List Record)
  deleteAll : Action σ Unit
  /-- Deletes timed decisions that lapsed at or before a time, and counts them. -/
  deleteExpired : Instant → Action σ Nat
  /-- Deletes decisions that last only for the session, and counts them. -/
  deleteSession : Action σ Nat

end Consent

import Consent.Proofs.Decision.Stored
import Consent.Proofs.Store.Upkeep
import Consent.Request

/-! The uses of decisions do to a state what the operations of the repository do to it, so that
repositories that agree operation by operation agree on every use. -/

namespace Consent

open Host Log

variable {σ τ : Type} {R : σ → τ → Prop} {I : σ → Prop} {repo : Repository σ}
  {other : Repository τ}

namespace Decision

theorem simulates_store (h : repo.Simulates R other) (p : Policy) (raw : String) (kind : Kind)
    (state : State) (expiry : Expiry) (expireAt : Instant) :
    (store p repo raw kind state expiry expireAt).Simulates R
      (store p other raw kind state expiry expireAt) := by
  unfold store
  split
  · exact .logged (.fail _)
  · refine Action.Simulates.bind (.ofExcept _) fun o => ?_
    split
    · exact h.delete _ _
    · refine (h.set _).attempt.bind fun reply => ?_
      split
      · exact .logged (.fail _)
      · exact .emit _ _ _

theorem simulates_remove (h : repo.Simulates R other) (raw : String) (kind : Kind) :
    (remove repo raw kind).Simulates R (remove other raw kind) := by
  unfold remove
  split
  · exact h.delete _ _
  · split
    · exact .logged (h.delete _ _)
    · exact .fail _

theorem Change.simulates_make (h : repo.Simulates R other) (p : Policy) (raw : String)
    (kind : Kind) (change : Change) :
    (change.make p repo raw kind).Simulates R (change.make p other raw kind) := by
  cases change with
  | set state scope => exact simulates_store h p raw kind state _ _
  | setUntil state expireAt =>
    simp only [Change.make, Decision.setUntil]
    split
    · exact simulates_store h p raw kind state _ _
    · exact .fail _
  | remove => exact simulates_remove h raw kind

theorem simulates_lookUp (h : repo.Simulates R other) (p : Policy) (kind : Kind)
    (cs : List Origin) : (lookUp p repo kind cs).Simulates R (lookUp p other kind cs) := by
  induction cs with
  | nil => exact .pure _
  | cons o rest ih =>
    refine Action.Simulates.bind (.during _ (h.get o.key kind)) fun found => ?_
    split
    · split
      · exact ih
      · exact .pure _
    · exact ih

theorem simulates_get [SuffixList] (h : repo.Simulates R other) (p : Policy) (raw : String)
    (kind : Kind) : (get p repo raw kind).Simulates R (get p other raw kind) := by
  unfold get
  split
  · exact simulates_lookUp h p kind _
  · exact .pure _
  · exact .fail _

theorem simulates_getAll (h : repo.Simulates R other) (p : Policy) (raw : String) :
    (getAll p repo raw).Simulates R (getAll p other raw) := by
  unfold getAll
  split
  · exact Action.Simulates.bind (.during _ (h.getAll _)) fun _ => .pure _
  · exact .pure _
  · exact .fail _

theorem simulates_all (h : repo.Simulates R other) (p : Policy) :
    (all p repo).Simulates R (all p other) :=
  h.list.bind fun _ => .pure _

theorem keeps_all (h : repo.Keeps I) (p : Policy) : (all p repo).Keeps I :=
  (simulates_all h.simulates p).keeps

theorem simulates_purgeExpired (h : repo.Simulates R other) (time : Instant) :
    (purgeExpired repo time).Simulates R (purgeExpired other time) := by
  refine Action.Simulates.bind (.during _ (h.deleteExpired time)) fun n => ?_
  split
  · exact .logged (.pure _)
  · exact .pure _

end Decision

namespace Request

/-- Whoever is asked gives this answer, if there is anyone to ask. -/
def replying (reply : Option (Except Failure Answer)) : Option (Prompter σ) :=
  reply.map fun answer _ _ => .ofExcept answer

theorem simulates_ask (h : repo.Simulates R other) (p : Policy)
    (reply : Option (Except Failure Answer)) (raw : String) (kind : Kind) :
    (ask p repo (replying reply) raw kind).Simulates R (ask p other (replying reply) raw kind) := by
  cases reply with
  | none => exact .logged (.pure _)
  | some answer =>
    refine Action.Simulates.bind (.attempt (.ofExcept answer)) fun reply => ?_
    split
    · exact .logged (.pure _)
    · refine .logged ?_
      refine (Decision.simulates_store h p raw kind _ _ _).attempt.bind fun reply => ?_
      split
      · exact .logged (.pure _)
      · exact .pure _

theorem simulates_handle [SuffixList] (h : repo.Simulates R other) (p : Policy)
    (reply : Option (Except Failure Answer)) (raw : String) (kind : Kind) :
    (handle p repo (replying reply) raw kind).Simulates R
      (handle p other (replying reply) raw kind) := by
  refine .withFields _ ?_
  dsimp only
  split
  · exact .logged (.pure _)
  · refine (Decision.simulates_get h p raw kind).attempt.bind fun found => ?_
    split
    · exact .pure _
    · split
      · exact .logged (.pure _)
      · split
        · exact .logged (.pure _)
        · exact (simulates_ask h p reply raw kind).bind fun _ => .pure _

end Request

namespace Decision

/-- A use of the decisions. A request comes with the answer of whoever is asked, if there is anyone
to ask. -/
inductive Use where
  | change (raw : String) (kind : Kind) (c : Change)
  | get (raw : String) (kind : Kind)
  | getAll (raw : String)
  | all
  | removeAll
  | purgeExpired (time : Instant)
  | request (reply : Option (Except Failure Answer)) (raw : String) (kind : Kind)

/-- Makes the use; what it answers does not matter here. -/
def Use.make [SuffixList] {σ : Type} (p : Policy) (repo : Repository σ) : Use → Action σ Unit
  | .change raw kind c => c.make p repo raw kind
  | .get raw kind => do let _ ← Decision.get p repo raw kind
  | .getAll raw => do let _ ← Decision.getAll p repo raw
  | .all => do let _ ← Decision.all p repo
  | .removeAll => Decision.removeAll repo
  | .purgeExpired time => do let _ ← Decision.purgeExpired repo time
  | .request reply raw kind => do
    let _ ← Request.handle p repo (reply.map fun answer _ _ => .ofExcept answer) raw kind

theorem Use.simulates_make [SuffixList] (h : repo.Simulates R other) (p : Policy) (use : Use) :
    (use.make p repo).Simulates R (use.make p other) := by
  cases use with
  | change raw kind c => exact c.simulates_make h p raw kind
  | get raw kind => exact (simulates_get h p raw kind).bind fun _ => .pure _
  | getAll raw => exact (simulates_getAll h p raw).bind fun _ => .pure _
  | all => exact (simulates_all h p).bind fun _ => .pure _
  | removeAll => exact .logged h.deleteAll
  | purgeExpired time => exact (simulates_purgeExpired h time).bind fun _ => .pure _
  | request reply raw kind =>
    exact (Request.simulates_handle h p reply raw kind).bind fun _ => .pure _

/-- No use does what the operations of the repository do not do. -/
theorem Use.keeps_make [SuffixList] (h : repo.Keeps I) (p : Policy) (use : Use) :
    (use.make p repo).Keeps I :=
  (use.simulates_make h.simulates p).keeps

end Decision

end Consent

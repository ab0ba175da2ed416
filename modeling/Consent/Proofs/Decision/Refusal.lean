import Consent.Proofs.Decision.Use
import Consent.Proofs.Request

/-! Changes and requests that are refused before a repository is asked for anything. -/

namespace Consent

open Host Text

variable {σ : Type} {p : Policy} {repo : Repository σ} {raw : String} {kind : Kind} {state : State}
  {expiry : Expiry} {expireAt : Instant} {fields : List Log.Field} {s : σ} {e : Failure}

namespace Decision

/-- Why a decision is not stored, before a repository is asked; the state comes before the origin. -/
def refusal? (p : Policy) (raw : String) (kind : Kind) (state : State) : Option Failure :=
  if p.kinds.admits kind state then
    match Origin.parse raw with
    | .ok _ => none
    | .error e => some (.origin e)
  else some (.unavailable kind state)

/-- Why a change is not made, before a repository is asked: the time comes before all else. -/
def Change.refusal? (p : Policy) (raw : String) (kind : Kind) : Change → Option Failure
  | .set state _ => Decision.refusal? p raw kind state
  | .setUntil state expireAt =>
    if p.now < expireAt then Decision.refusal? p raw kind state else some (.notFuture expireAt)
  | .remove =>
    match Origin.parse raw with
    | .ok _ => none
    | .error e => if isRemovable (trim raw.toList) e then none else some (.origin e)

theorem store_of_refusal (h : refusal? p raw kind state = some e) :
    (store p repo raw kind state expiry expireAt fields s).answer = .error e ∧
      (store p repo raw kind state expiry expireAt fields s).state = s := by
  unfold refusal? at h
  unfold store readOrigin
  split at h
  · rename_i hadmits
    rw [if_neg (by simp [hadmits])]
    cases hparse : Origin.parse raw with
    | ok o =>
      rw [hparse] at h
      cases h
    | error e' =>
      rw [hparse] at h
      cases h
      exact ⟨rfl, rfl⟩
  · rename_i hadmits
    rw [if_pos (by simpa using hadmits)]
    cases h
    exact ⟨rfl, rfl⟩

/-- What is not refused is set in the repository, and ends as that does. -/
theorem store_of_not_refused (h : refusal? p raw kind state = none) (hstate : state ≠ .unknown)
    (repo : Repository σ) (expiry : Expiry) (expireAt : Instant) (fields : List Log.Field) (s : σ) :
    ∃ o, Origin.parse raw = .ok o ∧
      let r : Record := ⟨o.key, kind, state, expiry, expireAt, p.now⟩
      (store p repo raw kind state expiry expireAt fields s).answer =
          (repo.set r fields s).answer.mapError (.during (.set kind o.key)) ∧
        (store p repo raw kind state expiry expireAt fields s).state =
          (repo.set r fields s).state := by
  unfold refusal? at h
  split at h
  · rename_i hadmits
    cases hparse : Origin.parse raw with
    | error e =>
      rw [hparse] at h
      cases h
    | ok o =>
      refine ⟨o, rfl, ?_⟩
      intro r
      have horigin : (readOrigin raw : Action σ Origin).Gives fields s o s := by
        unfold readOrigin
        rw [hparse]
        exact ⟨rfl, rfl⟩
      unfold store
      rw [if_neg (by simp [hadmits]), Action.answer_bind, Action.state_bind, horigin.answer,
        horigin.state]
      dsimp only
      rw [if_neg hstate, Action.answer_bind, Action.state_bind, Action.answer_attempt,
        Action.state_attempt]
      cases (repo.set r fields s).answer <;> exact ⟨rfl, rfl⟩
  · cases h

theorem exists_refusal {e : OriginError} (h : Origin.parse raw = .error e) :
    ∃ e, refusal? p raw kind state = some e := by
  unfold refusal?
  rw [h]
  split
  · exact ⟨_, rfl⟩
  · exact ⟨_, rfl⟩

/-- What is not refused is one call: the decision is set or deleted. -/
theorem store_noting_of_not_refused {calls : List Scripted.Call}
    (h : refusal? p raw kind state = none) :
    ∃ call, (store p repo.noting raw kind state expiry expireAt fields (s, calls)).state.2 =
      calls ++ [call] := by
  unfold refusal? at h
  split at h
  · rename_i hadmits
    cases hparse : Origin.parse raw with
    | error e =>
      rw [hparse] at h
      cases h
    | ok o =>
      have horigin : (readOrigin raw : Action (σ × List Scripted.Call) Origin).Gives fields
          (s, calls) o (s, calls) := by
        unfold readOrigin
        rw [hparse]
        exact ⟨rfl, rfl⟩
      unfold store
      rw [if_neg (by simp [hadmits]), Action.state_bind, horigin.answer, horigin.state]
      dsimp only
      by_cases hunknown : state = .unknown
      · rw [if_pos hunknown]
        exact ⟨.delete o.key kind, rfl⟩
      · let r : Record := ⟨o.key, kind, state, expiry, expireAt, p.now⟩
        have hset : (repo.noting.set r fields (s, calls)).state.2 = calls ++ [.set (some r)] := rfl
        refine ⟨.set (some r), ?_⟩
        rw [if_neg hunknown, Action.state_bind, Action.answer_attempt, Action.state_attempt, ← hset]
        -- What follows the call is only logged.
        cases (repo.noting.set r fields (s, calls)).answer <;> rfl
  · cases h

theorem Change.make_of_refusal {change : Change} (h : change.refusal? p raw kind = some e) :
    (change.make p repo raw kind fields s).answer = .error e ∧
      (change.make p repo raw kind fields s).state = s := by
  cases change with
  | set state scope => exact store_of_refusal h
  | setUntil state expireAt =>
    simp only [Change.refusal?] at h
    simp only [Change.make, Decision.setUntil]
    split at h
    · rename_i hfuture
      rw [if_pos hfuture]
      exact store_of_refusal h
    · rename_i hpast
      rw [if_neg hpast]
      cases h
      exact ⟨rfl, rfl⟩
  | remove =>
    simp only [Change.refusal?] at h
    simp only [Change.make, Decision.remove]
    cases hparse : Origin.parse raw with
    | ok o =>
      rw [hparse] at h
      cases h
    | error e' =>
      rw [hparse] at h
      dsimp only at h ⊢
      split at h
      · cases h
      · rename_i hkept
        rw [if_neg hkept]
        cases h
        exact ⟨rfl, rfl⟩

theorem Change.make_noting_of_not_refused {change : Change} {calls : List Scripted.Call}
    (h : change.refusal? p raw kind = none) :
    ∃ call, (change.make p repo.noting raw kind fields (s, calls)).state.2 = calls ++ [call] := by
  cases change with
  | set state scope => exact store_noting_of_not_refused h
  | setUntil state expireAt =>
    simp only [Change.refusal?] at h
    simp only [Change.make, Decision.setUntil]
    split at h
    · rename_i hfuture
      rw [if_pos hfuture]
      exact store_noting_of_not_refused h
    · cases h
  | remove =>
    simp only [Change.refusal?] at h
    simp only [Change.make, Decision.remove]
    cases hparse : Origin.parse raw with
    | ok o => exact ⟨.delete o.key kind, rfl⟩
    | error e =>
      rw [hparse] at h
      dsimp only at h ⊢
      split at h
      · rename_i hremovable
        rw [if_pos hremovable]
        exact ⟨.delete (trimString raw) kind, rfl⟩
      · cases h

end Decision

namespace Request

variable [SuffixList]

/-- A request for what is no origin leaves the state alone, whatever the answer to it. Unless only
the scheme is at fault it is blocked, with the cause. -/
theorem handle_of_no_origin {e : OriginError} (h : Origin.parse raw = .error e)
    (repo : Repository σ) (reply : Option (Except Failure Answer)) (s : σ) :
    let handled := (handle p repo (replying reply) raw kind).run s
    handled.state = s ∧ (raw ≠ "" → (∀ scheme, e ≠ .unsupportedScheme scheme) →
      handled.answer = .ok { state := .block, cause := some (.origin e) }) := by
  intro handled
  by_cases hraw : raw = ""
  · subst hraw
    exact ⟨(gives_handle_of_empty (replying reply)).state, fun hne => absurd rfl hne⟩
  by_cases hscheme : ∃ scheme, e = .unsupportedScheme scheme
  · obtain ⟨scheme, rfl⟩ := hscheme
    refine ⟨?_, fun _ hother => absurd rfl (hother scheme)⟩
    have hget : (Decision.get p repo raw kind).Gives (context raw) s (.unknown kind) s := by
      unfold Decision.get
      rw [h]
      exact .pure _ _ _
    have hunsettled : (Verdict.unknown kind).state ∉ State.settled :=
      show State.unknown ∉ State.settled by decide
    cases reply with
    | none => exact (gives_handle_of_ask hget hunsettled (gives_ask_of_none _)).state
    | some answer =>
      cases answer with
      | error e => exact (gives_handle_of_ask hget hunsettled (gives_ask_of_failed rfl)).state
      | ok answer =>
        obtain ⟨e, hrefused⟩ : ∃ e, Decision.refusal? p raw kind answer.state = some e :=
          Decision.exists_refusal h
        have hset : (Decision.set p repo raw kind answer.state answer.scope (context raw) s).state =
            s := (Decision.store_of_refusal hrefused).2
        have hask : (ask p repo (replying (some (.ok answer))) raw kind).Gives (context raw) s
            answer.state _ := gives_ask_of_answer ⟨rfl, rfl⟩
        exact (gives_handle_of_ask hget hunsettled hask).state.trans hset
  · have hother : ∀ scheme, e ≠ .unsupportedScheme scheme := fun scheme heq => hscheme ⟨scheme, heq⟩
    have hget : Decision.get p repo raw kind (context raw) s =
        (Action.fail (.origin e) : Action σ Verdict) (context raw) s := by
      unfold Decision.get
      rw [h]
      cases e with
      | unsupportedScheme scheme => exact absurd rfl (hother scheme)
      | _ => rfl
    have hfails : (Decision.get p repo raw kind (context raw) s).answer = .error (.origin e) := by
      rw [hget]
      rfl
    have hhandle : (handle p repo (replying reply) raw kind).Gives [] s _ _ :=
      gives_handle_of_error hraw hfails
    refine ⟨hhandle.state.trans ?_, fun _ _ => hhandle.answer⟩
    rw [hget]
    rfl

end Request

end Consent

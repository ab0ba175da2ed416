import Consent.Proofs.Decision.Stored
import Consent.Request

/-! How requests end: blocked unless a stored decision or an answer allows them, and the same way
again once the answer was stored. -/

namespace Consent

open Host Log Store

/-- The decisions that a request can end with, and that end it without a question. -/
def State.settled : List State := [.allow, .allowSessionCookies, .block]

theorem State.mem_settled {state : State} :
    state ∈ settled ↔ state.isAllowing = true ∨ state = .block := by
  simp [settled, isAllowing, or_assoc]

theorem Answer.state_mem_settled (a : Answer) : a.state ∈ State.settled := by
  cases h : a.allowed <;> simp [Answer.state, h, State.settled]

namespace Request

/-- The fields that the events of a request carry. -/
def context (raw : String) : List Field :=
  [Log.text "component" "permission", Log.text "origin" raw]

section Ends

variable {σ : Type} {p : Policy} {repo : Repository σ}
  {prompter : Option (Prompter σ)} {prompt : Prompter σ} {raw : String} {kind : Kind}
  {s s₁ s₂ : σ} {v : Verdict}

theorem gives_ask_of_none (fields : List Field) :
    (ask p repo none raw kind).Gives fields s .block s :=
  .logged (.pure _ _ _)

theorem gives_ask_of_failed {fields : List Field} {e : Failure}
    (h : (prompt raw kind fields s).answer = .error e) :
    (ask p repo (some prompt) raw kind).Gives fields s .block (prompt raw kind fields s).state := by
  have hattempt : (prompt raw kind).attempt.Gives fields s (.error e) _ := .attempt_of_error h
  exact hattempt.bind (.logged (.pure _ _ _))

/-- An answer is returned whether or not it could be stored. -/
theorem gives_ask_of_answer {fields : List Field} {a : Answer}
    (h : (prompt raw kind).Gives fields s a s₁) :
    (ask p repo (some prompt) raw kind).Gives fields s a.state
      (Decision.set p repo raw kind a.state a.scope fields s₁).state := by
  refine h.attempt.bind (.logged ?_)
  have hset : (Decision.set p repo raw kind a.state a.scope).attempt.Gives fields s₁ _ _ :=
    ⟨rfl, rfl⟩
  refine hset.bind ?_
  cases (Decision.set p repo raw kind a.state a.scope fields s₁).answer with
  | error e => exact .logged (.pure _ _ _)
  | ok _ => exact .pure _ _ _

variable [SuffixList]

theorem gives_handle_of_empty (prompter : Option (Prompter σ)) :
    (handle p repo prompter "" kind).Gives [] s { state := .block } s :=
  Action.Gives.withFields (.logged (.pure _ _ _))

/-- Nothing is looked up for an empty text. -/
theorem ne_empty_of_get {fields : List Field}
    (h : (Decision.get p repo raw kind).Gives fields s v s₁) : raw ≠ "" := by
  rintro rfl
  cases h.answer

theorem gives_handle_of_error {e : Failure} (hraw : raw ≠ "")
    (h : (Decision.get p repo raw kind (context raw) s).answer = .error e) :
    (handle p repo prompter raw kind).Gives [] s { state := .block, cause := some e }
      (Decision.get p repo raw kind (context raw) s).state := by
  have hattempt : (Decision.get p repo raw kind).attempt.Gives (context raw) s (.error e) _ :=
    .attempt_of_error h
  refine Action.Gives.withFields ?_
  dsimp only
  rw [if_neg hraw]
  exact hattempt.bind (.pure _ _ _)

theorem gives_handle_of_settled (h : (Decision.get p repo raw kind).Gives (context raw) s v s₁)
    (hv : v.state ∈ State.settled) :
    (handle p repo prompter raw kind).Gives [] s { state := v.state } s₁ := by
  refine Action.Gives.withFields ?_
  dsimp only
  rw [if_neg (ne_empty_of_get h)]
  refine h.attempt.bind ?_
  dsimp only
  split
  · exact .logged (.pure _ _ _)
  · rename_i hallowing
    have hblock : v.state = .block := (State.mem_settled.mp hv).resolve_left hallowing
    rw [if_pos hblock, hblock]
    exact .logged (.pure _ _ _)

theorem gives_handle_of_ask {state : State}
    (h : (Decision.get p repo raw kind).Gives (context raw) s v s₁) (hv : v.state ∉ State.settled)
    (hask : (ask p repo prompter raw kind).Gives (context raw) s₁ state s₂) :
    (handle p repo prompter raw kind).Gives [] s { state } s₂ := by
  rw [State.mem_settled, not_or] at hv
  refine Action.Gives.withFields ?_
  dsimp only
  rw [if_neg (ne_empty_of_get h)]
  refine h.attempt.bind ?_
  simp only [hv.1, hv.2, if_false]
  exact hask.bind (.pure _ _ _)

/-- Nobody is asked: the run is the same whoever could be, whatever they would do and answer. -/
def AsksNobody (p : Policy) (repo : Repository σ) (raw : String) (kind : Kind) (s : σ) : Prop :=
  ∀ prompter prompter' : Option (Prompter σ),
    (handle p repo prompter raw kind).run s = (handle p repo prompter' raw kind).run s

theorem asksNobody_of_settled (h : (Decision.get p repo raw kind).Gives (context raw) s v s₁)
    (hv : v.state ∈ State.settled) : AsksNobody p repo raw kind s := by
  intro prompter prompter'
  unfold handle Action.run Action.withFields
  dsimp only
  rw [if_neg (ne_empty_of_get h), if_neg (ne_empty_of_get h)]
  refine Action.bind_congr_of_answer h.attempt.answer ?_
  rcases State.mem_settled.mp hv with hallowing | hblock
  · simp only [hallowing, if_true]
  · simp only [hblock, if_true]

/-- Every request ends with a settled decision, and with one that allows only if that was stored, or
if nothing settled was stored and the answer to the question allows. -/
theorem handle_total (p : Policy) (repo : Repository σ) (prompter : Option (Prompter σ))
    (raw : String) (kind : Kind) (s : σ) :
    let looked := Decision.get p repo raw kind (context raw) s
    ∃ r, ((handle p repo prompter raw kind).run s).answer = .ok r ∧ r.state ∈ State.settled ∧
      (r.state.isAllowing = true → ∃ v, looked.answer = .ok v ∧
        (v.state = r.state ∨ v.state ∉ State.settled ∧ ∃ prompt a, prompter = some prompt ∧
          (prompt raw kind (context raw) looked.state).answer = .ok a ∧ a.allowed = true)) := by
  intro looked
  have hblock : State.block ∈ State.settled := by decide
  have hclosed : State.block.isAllowing = true → False := by decide
  by_cases hraw : raw = ""
  · subst hraw
    exact ⟨_, (gives_handle_of_empty prompter).answer, hblock, fun h => (hclosed h).elim⟩
  cases hlooked : looked.answer with
  | error e =>
    exact ⟨_, (gives_handle_of_error hraw hlooked).answer, hblock, fun h => (hclosed h).elim⟩
  | ok v =>
    have hget : (Decision.get p repo raw kind).Gives (context raw) s v looked.state :=
      ⟨hlooked, rfl⟩
    by_cases hv : v.state ∈ State.settled
    · exact ⟨_, (gives_handle_of_settled hget hv).answer, hv, fun _ => ⟨v, rfl, Or.inl rfl⟩⟩
    cases prompter with
    | none =>
      have hask := gives_handle_of_ask hget hv (gives_ask_of_none _)
      exact ⟨_, hask.answer, hblock, fun h => (hclosed h).elim⟩
    | some prompt =>
      cases hprompt : (prompt raw kind (context raw) looked.state).answer with
      | error e =>
        have hask := gives_handle_of_ask hget hv (gives_ask_of_failed hprompt)
        exact ⟨_, hask.answer, hblock, fun h => (hclosed h).elim⟩
      | ok a =>
        have hask := gives_handle_of_ask hget hv (gives_ask_of_answer ⟨hprompt, rfl⟩)
        refine ⟨_, hask.answer, a.state_mem_settled, fun h => ⟨v, rfl, Or.inr ⟨hv, prompt, a, rfl,
          hprompt, ?_⟩⟩⟩
        cases hallowed : a.allowed with
        | true => rfl
        | false => simp [Answer.state, hallowed, State.isAllowing, State.block, State.allow,
            State.allowSessionCookies] at h

end Ends

section Store

variable [SuffixList] {s s₁ s₂ : Store} {p : Policy} {now : Instant} {raw : String} {kind : Kind}

/-- Once an answer is stored the request ends with it, at any time and without a question. -/
theorem again_of_set {a : Answer} {fields : List Field}
    (h : (Decision.set p (repository now) raw kind a.state a.scope).Gives fields s₁ () s₂)
    (p' : Policy) (now' : Instant) :
    ((Decision.get p' (repository now') raw kind).run s₂).answer = .ok ⟨kind, a.state, a.scope⟩ ∧
      AsksNobody p' (repository now') raw kind s₂ ∧
      ∀ prompter, (handle p' (repository now') prompter raw kind).Gives [] s₂ { state := a.state }
        s₂ := by
  have hknown : a.state ≠ .unknown := by
    intro hunknown
    have hsettled := a.state_mem_settled
    rw [hunknown] at hsettled
    revert hsettled
    decide
  have hget := Decision.gives_get_of_set hknown h p' now'
  have hsettled : (⟨kind, a.state, a.scope⟩ : Verdict).state ∈ State.settled := a.state_mem_settled
  exact ⟨(hget []).answer, asksNobody_of_settled (hget (context raw)) hsettled,
    fun prompter => gives_handle_of_settled (hget (context raw)) hsettled⟩

/-- A request ends with a decision that allows or blocks. It allows only what was stored or what was
answered when nothing settled was stored, and without a text, a lookup, anybody to ask or an answer
it blocks and stores nothing. A settled decision is not asked about, and an answer that was stored
settles the request for the rest of the session. -/
theorem handle_closed_and_remembered (s : Store) (p : Policy) (now : Instant)
    (prompter : Option (Prompter Store)) (raw : String) (kind : Kind) :
    let looked := Decision.get p (repository now) raw kind (context raw) s
    let o := (handle p (repository now) prompter raw kind).run s
    ∃ r, o.answer = .ok r ∧ r.state ∈ State.settled ∧
      (r.state.isAllowing = true → ∃ v, looked.answer = .ok v ∧
        (v.state = r.state ∨ v.state ∉ State.settled ∧ ∃ prompt a, prompter = some prompt ∧
          (prompt raw kind (context raw) looked.state).answer = .ok a ∧ a.allowed = true)) ∧
      AtMostOpened (context raw) now s looked.state ∧
      (raw = "" → r.state = .block ∧ o.state = s) ∧
      (∀ e, looked.answer = .error e → r.state = .block ∧ o.state = looked.state) ∧
      ∀ v, looked.answer = .ok v →
        (v.state ∈ State.settled → r.state = v.state ∧ o.state = looked.state ∧
          AsksNobody p (repository now) raw kind s) ∧
        (v.state ∉ State.settled → prompter = none →
          r.state = .block ∧ o.state = looked.state) ∧
        (v.state ∉ State.settled → ∀ prompt, prompter = some prompt →
          let asked := prompt raw kind (context raw) looked.state
          (∀ e, asked.answer = .error e → r.state = .block ∧ o.state = asked.state) ∧
          ∀ a, asked.answer = .ok a →
            let stored := Decision.set p (repository now) raw kind a.state a.scope (context raw)
              asked.state
            r.state = a.state ∧ o.state = stored.state ∧ (stored.answer = .ok () →
              ∀ p' now',
                ((Decision.get p' (repository now') raw kind).run o.state).answer =
                  .ok ⟨kind, a.state, a.scope⟩ ∧
                AsksNobody p' (repository now') raw kind o.state ∧
                ∀ prompter', (handle p' (repository now') prompter' raw kind).Gives [] o.state
                  { state := a.state } o.state)) := by
  intro looked o
  obtain ⟨r, hr, hsettled, hallowing⟩ := handle_total p (repository now) prompter raw kind s
  -- Any account of how the request ends is about this resolution and this store.
  have hends : ∀ {r' s'}, (handle p (repository now) prompter raw kind).Gives [] s r' s' →
      r.state = r'.state ∧ o.state = s' := by
    intro r' s' h
    have hsame : r = r' := Except.ok.inj (hr.symm.trans h.answer)
    exact ⟨congrArg Resolution.state hsame, h.state⟩
  have hempty : raw = "" → r.state = .block ∧ o.state = s := by
    rintro rfl
    exact hends (gives_handle_of_empty prompter)
  refine ⟨r, hr, hsettled, hallowing, Decision.atMostOpened_get raw, hempty, ?_, ?_⟩
  · intro e hlooked
    by_cases hraw : raw = ""
    · have hlookedState : looked.state = s := by
        subst hraw
        rfl
      rw [hlookedState]
      exact hempty hraw
    · exact hends (gives_handle_of_error hraw hlooked)
  · intro v hlooked
    have hget : (Decision.get p (repository now) raw kind).Gives (context raw) s v looked.state :=
      ⟨hlooked, rfl⟩
    refine ⟨fun hv => ?_, fun hv hprompter => ?_, fun hv prompt hprompter => ⟨?_, ?_⟩⟩
    · obtain ⟨hstate, hstore⟩ := hends (gives_handle_of_settled hget hv)
      exact ⟨hstate, hstore, asksNobody_of_settled hget hv⟩
    · subst hprompter
      exact hends (gives_handle_of_ask hget hv (gives_ask_of_none _))
    · intro e hasked
      subst hprompter
      exact hends (gives_handle_of_ask hget hv (gives_ask_of_failed hasked))
    · intro a hasked
      subst hprompter
      obtain ⟨hstate, hstore⟩ :=
        hends (gives_handle_of_ask hget hv (gives_ask_of_answer ⟨hasked, rfl⟩))
      refine ⟨hstate, hstore, fun hstored p' now' => ?_⟩
      rw [hstore]
      exact again_of_set ⟨hstored, rfl⟩ p' now'

end Store

/-- Somebody who allows everything, but only this once. -/
def allowingOnce : Prompter Store := fun _ _ => pure ⟨true, false⟩

/-- The answer holds a year later, and nobody is asked for it again. -/
theorem handle_closed_and_remembered_once :
    let s : Store := { path := "permissions.db", file := .database {} }
    let p : Policy := { now := .atMillis 1700000000000 }
    let later : Policy := { now := .atMillis 1731536000000 }
    let o := (handle p (repository p.now) (some allowingOnce) "https://example.com" "camera").run s
    (o.answer.map Resolution.state = .ok .allow) ∧
      ((Decision.get later (repository later.now) "https://example.com" "camera").run
        o.state).answer = .ok ⟨"camera", .allow, .session⟩ ∧
      AsksNobody later (repository later.now) "https://example.com" "camera" o.state ∧
      (handle later (repository later.now) none "https://example.com" "camera").Gives [] o.state
        { state := .allow } o.state := by
  intro s p later o
  obtain ⟨r, hr, -, -, -, -, -, hfound⟩ := handle_closed_and_remembered s p p.now
    (some allowingOnce) "https://example.com" "camera"
  obtain ⟨-, -, hasked⟩ := hfound (.unknown "camera") (by decide +kernel)
  obtain ⟨-, hanswered⟩ := hasked (by decide) allowingOnce rfl
  obtain ⟨hstate, -, hstored⟩ := hanswered ⟨true, false⟩ rfl
  obtain ⟨hget, hnobody, hagain⟩ := hstored (by decide +kernel) later later.now
  refine ⟨?_, hget, hnobody, hagain none⟩
  rw [hr]
  exact congrArg Except.ok hstate

end Request

end Consent

import Consent.Action
import Consent.Proofs.Except

/-! The answer and the state that a run leaves, computed along its construction; logs aside. -/

namespace Consent.Action

open Log

variable {σ τ α β : Type} {fields : List Field} {s : σ}

@[simp] theorem answer_pure (x : α) : ((pure x : Action σ α) fields s).answer = .ok x := rfl
@[simp] theorem state_pure (x : α) : ((pure x : Action σ α) fields s).state = s := rfl

@[simp] theorem answer_fail (e : Failure) :
    ((fail e : Action σ α) fields s).answer = .error e := rfl
@[simp] theorem state_fail (e : Failure) : ((fail e : Action σ α) fields s).state = s := rfl

@[simp] theorem answer_get : ((get : Action σ σ) fields s).answer = .ok s := rfl
@[simp] theorem state_get : ((get : Action σ σ) fields s).state = s := rfl

@[simp] theorem answer_set (s' : σ) : (set s' fields s).answer = .ok () := rfl
@[simp] theorem state_set (s' : σ) : (set s' fields s).state = s' := rfl

@[simp] theorem answer_modify (f : σ → σ) : (modify f fields s).answer = .ok () := rfl
@[simp] theorem state_modify (f : σ → σ) : (modify f fields s).state = f s := rfl

@[simp] theorem answer_emit (level : Level) (message : String) (own : List Field) :
    ((emit level message own : Action σ Unit) fields s).answer = .ok () := rfl
@[simp] theorem state_emit (level : Level) (message : String) (own : List Field) :
    ((emit level message own : Action σ Unit) fields s).state = s := rfl

@[simp] theorem answer_attempt (a : Action σ α) :
    (a.attempt fields s).answer = .ok (a fields s).answer := rfl
@[simp] theorem state_attempt (a : Action σ α) :
    (a.attempt fields s).state = (a fields s).state := rfl

@[simp] theorem answer_during (activity : Activity) (a : Action σ α) :
    (a.during activity fields s).answer = (a fields s).answer.mapError (.during activity) := rfl
@[simp] theorem state_during (activity : Activity) (a : Action σ α) :
    (a.during activity fields s).state = (a fields s).state := rfl

@[simp] theorem answer_on (part : σ → τ) (put : τ → σ → σ) (a : Action τ α) :
    (a.on part put fields s).answer = (a fields (part s)).answer := rfl
@[simp] theorem state_on (part : σ → τ) (put : τ → σ → σ) (a : Action τ α) :
    (a.on part put fields s).state = put (a fields (part s)).state s := rfl

@[simp] theorem answer_ofExcept (x : Except Failure α) :
    ((ofExcept x : Action σ α) fields s).answer = x := by
  cases x <;> rfl

@[simp] theorem state_ofExcept (x : Except Failure α) :
    ((ofExcept x : Action σ α) fields s).state = s := by
  cases x <;> rfl

theorem answer_bind (a : Action σ α) (f : α → Action σ β) :
    ((a >>= f) fields s).answer = match (a fields s).answer with
      | .ok x => (f x fields (a fields s).state).answer
      | .error e => .error e := by
  change (Action.bind a f fields s).answer = _
  unfold Action.bind
  split <;> simp_all

theorem state_bind (a : Action σ α) (f : α → Action σ β) :
    ((a >>= f) fields s).state = match (a fields s).answer with
      | .ok x => (f x fields (a fields s).state).state
      | .error _ => (a fields s).state := by
  change (Action.bind a f fields s).state = _
  unfold Action.bind
  split <;> simp_all

theorem get_bind (f : σ → Action σ β) : (get >>= f) fields s = f s fields s := rfl

theorem ofExcept_ok_bind (x : α) (f : α → Action σ β) :
    (ofExcept (.ok x) >>= f) fields s = f x fields s := rfl

theorem ofExcept_error_bind (e : Failure) (f : α → Action σ β) :
    (ofExcept (.error e) >>= f) fields s = fail e fields s := rfl

/-- The run answers `x` and leaves the state `s'`. -/
structure Gives (a : Action σ α) (fields : List Field) (s : σ) (x : α) (s' : σ) : Prop where
  answer : (a fields s).answer = .ok x
  state : (a fields s).state = s'

namespace Gives

variable {a : Action σ α} {f : α → Action σ β} {s' s'' : σ} {x : α} {y : β}

theorem of_run (h : (a.run s).answer = .ok x) : Gives a [] s x (a.run s).state := ⟨h, rfl⟩

theorem bind (ha : Gives a fields s x s') (hf : Gives (f x) fields s' y s'') :
    Gives (a >>= f) fields s y s'' := by
  refine ⟨?_, ?_⟩
  · rw [answer_bind, ha.answer, ha.state]
    exact hf.answer
  · rw [state_bind, ha.answer, ha.state]
    exact hf.state

theorem pure (x : α) (fields : List Field) (s : σ) :
    Gives (Pure.pure x : Action σ α) fields s x s := ⟨rfl, rfl⟩

theorem get (fields : List Field) (s : σ) : Gives Action.get fields s s s := ⟨rfl, rfl⟩

theorem modify (f : σ → σ) (fields : List Field) (s : σ) :
    Gives (Action.modify f) fields s () (f s) := ⟨rfl, rfl⟩

theorem emit (level : Level) (message : String) (own fields : List Field) (s : σ) :
    Gives (Action.emit level message own) fields s () s := ⟨rfl, rfl⟩

theorem logged {level : Level} {message : String} {own : List Field} (ha : Gives a fields s x s') :
    Gives (Action.emit level message own >>= fun _ => a) fields s x s' :=
  (emit level message own fields s).bind ha

theorem during (activity : Activity) (ha : Gives a fields s x s') :
    Gives (a.during activity) fields s x s' :=
  ⟨by simp [ha.answer], by simp [ha.state]⟩

theorem attempt (ha : Gives a fields s x s') : Gives a.attempt fields s (.ok x) s' :=
  ⟨by rw [answer_attempt, ha.answer], ha.state⟩

theorem attempt_of_error {e : Failure} (h : (a fields s).answer = .error e) :
    Gives a.attempt fields s (.error e) (a fields s).state :=
  ⟨by rw [answer_attempt, h], rfl⟩

theorem withFields {own : List Field} (ha : Gives a (fields ++ own) s x s') :
    Gives (a.withFields own) fields s x s' :=
  ⟨ha.answer, ha.state⟩

theorem transact (ha : Gives a fields s x s') : Gives a.transact fields s x s' := by
  unfold Action.transact
  refine ⟨?_, ?_⟩ <;> simp [ha.answer, ha.state]

end Gives

/-- Only the answer that was given matters to what follows. -/
theorem bind_congr_of_answer {a : Action σ α} {f g : α → Action σ β} {x : α}
    (h : (a fields s).answer = .ok x) (hfg : f x = g x) :
    (a >>= f) fields s = (a >>= g) fields s := by
  change Action.bind a f fields s = Action.bind a g fields s
  unfold Action.bind
  split
  · rename_i y s' log ha
    rw [ha] at h
    cases h
    rw [hfg]
  · rfl

/-- A run that gave an answer did so in two steps. -/
theorem gives_of_bind {a : Action σ α} {f : α → Action σ β} {y : β} {s'' : σ}
    (h : Gives (a >>= f) fields s y s'') :
    ∃ x s', Gives a fields s x s' ∧ Gives (f x) fields s' y s'' := by
  obtain ⟨hanswer, hstate⟩ := h
  rw [answer_bind] at hanswer
  rw [state_bind] at hstate
  cases ha : (a fields s).answer with
  | error e => simp [ha] at hanswer
  | ok x =>
    rw [ha] at hanswer hstate
    exact ⟨x, (a fields s).state, ⟨ha, rfl⟩, ⟨hanswer, hstate⟩⟩

theorem gives_of_during {activity : Activity} {a : Action σ α} {x : α} {s' : σ}
    (h : Gives (a.during activity) fields s x s') : Gives a fields s x s' := by
  have hanswer := h.answer
  rw [answer_during] at hanswer
  cases ha : (a fields s).answer with
  | error e => simp [ha] at hanswer
  | ok y =>
    rw [ha] at hanswer
    exact ⟨ha.trans hanswer, h.state⟩

/-- A run that gave an answer was not undone. -/
theorem gives_of_transact {a : Action σ α} {x : α} {s' : σ}
    (h : Gives a.transact fields s x s') : Gives a fields s x s' := by
  obtain ⟨hanswer, hstate⟩ := h
  unfold transact at hanswer hstate
  cases ha : (a fields s).answer with
  | error e => simp [ha] at hanswer
  | ok y =>
    simp only [ha] at hanswer hstate
    exact ⟨ha.trans hanswer, hstate⟩

/-- A run that failed was undone. -/
theorem state_transact_of_error {a : Action σ α} {e : Failure}
    (h : (a.transact fields s).answer = .error e) : (a.transact fields s).state = s := by
  unfold transact at h ⊢
  cases ha : (a fields s).answer with
  | error e' => simp only [ha]
  | ok x => simp [ha] at h

theorem Gives.state_unique {a : Action σ α} {x y : α} {s' s'' : σ} (h : Gives a fields s x s')
    (h' : Gives a fields s y s'') : s' = s'' :=
  h.state.symm.trans h'.state

/-- The run leaves what holds of the state in place, also where it fails. -/
def Keeps (I : σ → Prop) (a : Action σ α) : Prop := ∀ fields s, I s → I (a fields s).state

namespace Keeps

variable {I : σ → Prop} {J : τ → Prop} {a : Action σ α} {f : α → Action σ β}

theorem pure (x : α) : Keeps I (Pure.pure x : Action σ α) := fun _ _ h => h

theorem fail (e : Failure) : Keeps I (Action.fail e : Action σ α) := fun _ _ h => h

theorem ofExcept (x : Except Failure α) : Keeps I (Action.ofExcept x : Action σ α) := by
  intro fields s h
  rwa [state_ofExcept]

theorem get : Keeps I (Action.get : Action σ σ) := fun _ _ h => h

theorem emit (level : Level) (message : String) (own : List Field) :
    Keeps I (Action.emit level message own : Action σ Unit) := fun _ _ h => h

theorem modify {g : σ → σ} (h : ∀ s, I s → I (g s)) : Keeps I (Action.modify g) :=
  fun _ s hs => h s hs

theorem attempt (ha : Keeps I a) : Keeps I a.attempt := ha

theorem during (activity : Activity) (ha : Keeps I a) : Keeps I (a.during activity) := ha

theorem transact (ha : Keeps I a) : Keeps I a.transact := by
  intro fields s h
  unfold Action.transact
  dsimp only
  split
  · exact ha fields s h
  · exact h

theorem bind (ha : Keeps I a) (hf : ∀ x, Keeps I (f x)) : Keeps I (a >>= f) := by
  intro fields s h
  rw [state_bind]
  split
  · exact hf _ fields _ (ha fields s h)
  · exact ha fields s h

theorem logged {level : Level} {message : String} {own : List Field} (ha : Keeps I a) :
    Keeps I (Action.emit level message own >>= fun _ => a) :=
  (emit level message own).bind fun _ => ha

theorem on {part : τ → σ} {put : σ → τ → τ} (ha : Keeps I a) (hpart : ∀ c, J c → I (part c))
    (hput : ∀ s c, I s → J c → J (put s c)) : Keeps J (a.on part put) :=
  fun fields c h => hput _ c (ha fields (part c) (hpart c h)) h

theorem forM {f : α → Action σ PUnit} (hf : ∀ x, Keeps I (f x)) (xs : List α) :
    Keeps I (xs.forM f) := by
  induction xs with
  | nil => exact .pure _
  | cons x rest ih => exact (hf x).bind fun _ => ih

theorem foldlM {f : β → α → Action σ β} (hf : ∀ y x, Keeps I (f y x)) (y : β) (xs : List α) :
    Keeps I (xs.foldlM f y) := by
  induction xs generalizing y with
  | nil => exact .pure y
  | cons x rest ih =>
    rw [List.foldlM_cons]
    exact (hf y x).bind ih

end Keeps

/-- Where the run fails, it leaves what holds of the state in place. -/
def KeepsOnFailure (I : σ → Prop) (a : Action σ α) : Prop :=
  ∀ fields s e, I s → (a fields s).answer = .error e → I (a fields s).state

theorem Keeps.onFailure {I : σ → Prop} {a : Action σ α} (h : a.Keeps I) : a.KeepsOnFailure I :=
  fun fields s _ hs _ => h fields s hs

namespace KeepsOnFailure

variable {I : σ → Prop} {a : Action σ α} {f : α → Action σ β}

theorem modify (g : σ → σ) : KeepsOnFailure I (Action.modify g) := by
  intro fields s e _ hfails
  cases hfails

theorem bind (ha : a.Keeps I) (hf : ∀ x, KeepsOnFailure I (f x)) : KeepsOnFailure I (a >>= f) := by
  intro fields s e hs hfails
  rw [answer_bind] at hfails
  rw [state_bind]
  cases hanswer : (a fields s).answer with
  | error e' => exact ha fields s hs
  | ok x =>
    rw [hanswer] at hfails
    exact hf x fields _ e (ha fields s hs) hfails

theorem bind_of_gives (ha : a.KeepsOnFailure I)
    (hf : ∀ fields s x s', I s → a.Gives fields s x s' →
      ∀ e, (f x fields s').answer = .error e → I (f x fields s').state) :
    KeepsOnFailure I (a >>= f) := by
  intro fields s e hs hfails
  rw [answer_bind] at hfails
  rw [state_bind]
  cases hanswer : (a fields s).answer with
  | error e' => exact ha fields s e' hs hanswer
  | ok x =>
    rw [hanswer] at hfails
    exact hf fields s x _ hs ⟨hanswer, rfl⟩ e hfails

theorem during (activity : Activity) (ha : a.KeepsOnFailure I) :
    KeepsOnFailure I (a.during activity) := by
  intro fields s e hs hfails
  rw [answer_during] at hfails
  cases hanswer : (a fields s).answer with
  | error e' => exact ha fields s e' hs hanswer
  | ok x =>
    rw [hanswer] at hfails
    cases hfails

/-- Of actions in a row only those with none after them may change something. -/
theorem forM {f : α → Action σ PUnit} {xs : List α} (hf : ∀ x, KeepsOnFailure I (f x))
    (hxs : xs.Pairwise fun x _ => (f x).Keeps I) : KeepsOnFailure I (xs.forM f) := by
  induction hxs with
  | nil => exact (Keeps.pure _).onFailure
  | @cons x rest hx _ ih =>
    cases rest with
    | nil =>
      refine (hf x).bind_of_gives fun fields s u s' _ _ e hfails => ?_
      cases hfails
    | cons y rest => exact .bind (hx y List.mem_cons_self) fun _ => ih

end KeepsOnFailure

/-- From related states the two runs give the same answer, and they leave related states. -/
def Simulates (R : σ → τ → Prop) (a : Action σ α) (b : Action τ α) : Prop :=
  ∀ fields s u, R s u →
    (a fields s).answer = (b fields u).answer ∧ R (a fields s).state (b fields u).state

namespace Simulates

variable {R : σ → τ → Prop} {a : Action σ α} {b : Action τ α} {f : α → Action σ β}
  {g : α → Action τ β}

theorem pure (x : α) : Simulates R (Pure.pure x) (Pure.pure x) := fun _ _ _ h => ⟨rfl, h⟩

theorem fail (e : Failure) : Simulates R (Action.fail e : Action σ α) (Action.fail e) :=
  fun _ _ _ h => ⟨rfl, h⟩

theorem emit (level : Level) (message : String) (own : List Field) :
    Simulates R (Action.emit level message own) (Action.emit level message own) :=
  fun _ _ _ h => ⟨rfl, h⟩

theorem ofExcept (x : Except Failure α) : Simulates R (Action.ofExcept x) (Action.ofExcept x) := by
  cases x with
  | ok x => exact .pure x
  | error e => exact .fail e

theorem attempt (h : Simulates R a b) : Simulates R a.attempt b.attempt := by
  intro fields s u hR
  obtain ⟨hanswer, hstate⟩ := h fields s u hR
  exact ⟨congrArg Except.ok hanswer, hstate⟩

theorem during (activity : Activity) (h : Simulates R a b) :
    Simulates R (a.during activity) (b.during activity) := by
  intro fields s u hR
  obtain ⟨hanswer, hstate⟩ := h fields s u hR
  rw [answer_during, answer_during, hanswer]
  exact ⟨rfl, hstate⟩

theorem withFields (own : List Field) (h : Simulates R a b) :
    Simulates R (a.withFields own) (b.withFields own) :=
  fun fields => h (fields ++ own)

theorem bind (h : Simulates R a b) (hf : ∀ x, Simulates R (f x) (g x)) :
    Simulates R (a >>= f) (b >>= g) := by
  intro fields s u hR
  obtain ⟨hanswer, hstate⟩ := h fields s u hR
  rw [answer_bind, answer_bind, state_bind, state_bind, hanswer]
  cases (b fields u).answer with
  | error e => exact ⟨rfl, hstate⟩
  | ok x => exact hf x fields _ _ hstate

theorem logged {level : Level} {message : String} {own : List Field} (h : Simulates R a b) :
    Simulates R (Action.emit level message own >>= fun _ => a)
      (Action.emit level message own >>= fun _ => b) :=
  (emit level message own).bind fun _ => h

theorem keeps {I : σ → Prop} {a : Action σ α} (h : Simulates (fun s u => s = u ∧ I s) a a) :
    a.Keeps I :=
  fun fields s hs => (h fields s s ⟨rfl, hs⟩).2.2

end Simulates

theorem Keeps.simulates {I : σ → Prop} {a : Action σ α} (h : a.Keeps I) :
    Simulates (fun s u => s = u ∧ I s) a a := by
  rintro fields s _ ⟨rfl, hs⟩
  exact ⟨rfl, rfl, h fields s hs⟩

end Consent.Action

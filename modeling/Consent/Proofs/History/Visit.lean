import Consent.History.Log
import Consent.Proofs.Action
import Consent.Proofs.Origin.Key

/-! What the visits of a history look like, however it was recorded. -/

namespace Consent

open Text

/-- A visit as it is recorded: a scheme in lower case and a port that is not the default one. -/
structure Visit.Folded (v : Visit) : Prop where
  scheme : lowerString v.scheme = v.scheme
  port : 0 ≤ v.port
  port_ne : Origin.canCarry v.scheme = true → v.port ≠ Origin.defaultPort v.scheme

theorem Visit.folded_of_parse {url : String} {millis : Int} {v : Visit}
    (h : Visit.parse url millis = .ok v) : v.Folded := by
  unfold Visit.parse at h
  split at h
  · cases h
  · split at h
    · cases h
    · split at h
      · cases h
      · rename_i port hport
        cases h
        have hnonneg : 0 ≤ port := by
          unfold readPort at hport
          split at hport
          · rw [← Option.some.inj hport]
            omega
          · cases hport
        refine ⟨by simp, ?_, fun hcarry => ?_⟩
        · dsimp only
          split
          · exact Int.le_refl 0
          · exact hnonneg
        · have hne := Origin.defaultPort_ne_zero hcarry
          dsimp only at hne ⊢
          split
          · exact hne.symm
          · assumption

/-- Counting characters from the end finds the hosts that end in a point and the domain. -/
theorem Visit.isUnder_iff {v : Visit} {domain : String} :
    v.isUnder domain = true ↔ v.host = domain ∨ '.' :: domain.toList <:+ v.host.toList := by
  unfold Visit.isUnder ending
  simp only [Bool.or_eq_true, Bool.and_eq_true, decide_eq_true_iff]
  refine or_congr_right ⟨fun h => ?_, fun h => ⟨?_, ?_⟩⟩
  · rw [← h.2]
    exact List.drop_suffix _ _
  · exact h.length_le
  · exact (List.suffix_iff_eq_drop.mp h).symm

namespace History

/-- The histories that recording visits leads to. -/
inductive Recorded : History → Prop where
  | empty : Recorded {}
  | visit {h : History} (now : Instant) (url : String) (time : Instant) :
      Recorded h → Recorded ((addVisit now url time).run h).state

/-- Recording adds the visit of the URL, unless the URL names none or the history is closed. -/
theorem addVisit_run (now : Instant) (url : String) (time : Instant) (h : History) :
    let added := (addVisit now url time).run h
    match Visit.parse url (if time = .unset then now.millis else time.millis) with
    | .error e => added.answer = .error (.visit e) ∧ added.state = h
    | .ok v =>
      if h.closed then added.answer = .error .storage ∧ added.state = h
      else added.answer = .ok () ∧ added.state = h.record v := by
  unfold addVisit Action.run
  simp only [Action.answer_bind, Action.state_bind, Action.answer_ofExcept, Action.state_ofExcept]
  cases Visit.parse url (if time = .unset then now.millis else time.millis) with
  | error e => exact ⟨rfl, rfl⟩
  | ok v =>
    cases hclosed : h.closed with
    | true => simp [usable, Action.answer_bind, Action.state_bind, hclosed]
    | false => simp [usable, Action.answer_bind, Action.state_bind, hclosed]

theorem addVisit_state (now : Instant) (url : String) (time : Instant) (h : History) :
    ((addVisit now url time).run h).state = h ∨
      ∃ v millis, Visit.parse url millis = .ok v ∧
        ((addVisit now url time).run h).state = h.record v := by
  have hrun := addVisit_run now url time h
  dsimp only at hrun
  split at hrun
  · exact Or.inl hrun.2
  · rename_i v hparse
    split at hrun
    · exact Or.inl hrun.2
    · exact Or.inr ⟨v, _, hparse, hrun.2⟩

theorem Recorded.spec {h : History} (hr : h.Recorded) :
    h.closed = false ∧ ∀ v ∈ h.visits, v.Folded := by
  induction hr with
  | empty => exact ⟨rfl, fun v hv => by cases hv⟩
  | visit now url time hr ih =>
    rename_i h
    obtain hsame | ⟨v, millis, hparse, hstate⟩ := addVisit_state now url time h
    · rw [hsame]
      exact ih
    · rw [hstate]
      refine ⟨ih.1, fun w hw => ?_⟩
      rcases List.mem_append.mp hw with hw | hw
      · exact ih.2 w hw
      · rw [List.mem_singleton.mp hw]
        exact Visit.folded_of_parse hparse

end History

end Consent

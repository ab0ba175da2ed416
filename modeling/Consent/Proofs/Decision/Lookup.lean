import Consent.Decision
import Consent.Proofs.Action
import Consent.Proofs.Host.Site
import Consent.Store.Scripted

/-! A lookup asks for the candidates in order and ends with the first decisive reply. -/

namespace Consent

open Text Host

variable {σ α : Type}

namespace Repository

/-- Notes a call and makes it. -/
def note (call : Scripted.Call) (a : Action σ α) : Action (σ × List Scripted.Call) α :=
  fun fields s =>
    let o := a fields s.1
    ⟨o.answer, (o.state, s.2 ++ [call]), o.log⟩

/-- The same repository, with the calls that are made noted in order. -/
def noting (repo : Repository σ) : Repository (σ × List Scripted.Call) where
  get origin kind := note (.get origin kind) (repo.get origin kind)
  set r := note (.set (some r)) (repo.set r)
  delete origin kind := note (.delete origin kind) (repo.delete origin kind)
  getAll origin := note (.getAll origin) (repo.getAll origin)
  list := note .list repo.list
  deleteAll := note .deleteAll repo.deleteAll
  deleteExpired time := note (.deleteExpired time) (repo.deleteExpired time)
  deleteSession := note .deleteSession repo.deleteSession

end Repository

namespace Decision

/-- What a repository replies when it is asked for a decision. -/
abbrev Reply := Except Failure (Option Record)

/-- The replies to asking for every one of the origins in order. -/
def replies (repo : Repository σ) (kind : Kind) : σ → List Origin → List (Origin × Reply)
  | _, [] => []
  | s, o :: rest =>
    let outcome := (repo.get o.key kind).run s
    (o, outcome.answer) :: replies repo kind outcome.state rest

/-- Whether a reply ends a lookup: a failure, or a decision that has not lapsed. -/
def isDecisive (now : Instant) : Reply → Bool
  | .ok (some r) => !r.isExpired now
  | .ok none => false
  | .error _ => true

/-- What the first decisive of the replies amounts to. -/
def conclusion (now : Instant) (kind : Kind) (rs : List (Origin × Reply)) :
    Except Failure Verdict :=
  match rs.find? fun reply => isDecisive now reply.2 with
  | some (_, .ok (some r)) => .ok ⟨r.kind, r.state, r.scope⟩
  | some (o, .error e) => .error (.during (.lookUp kind o.key) e)
  | _ => .ok ⟨kind, .unknown, .persistent⟩

/-- The calls up to the first decisive reply. -/
def callsFor (now : Instant) (kind : Kind) (rs : List (Origin × Reply)) : List Scripted.Call :=
  (rs.take ((rs.takeWhile fun reply => !isDecisive now reply.2).length + 1)).map
    fun reply => .get reply.1.key kind

theorem conclusion_cons (now : Instant) (kind : Kind) (o : Origin) (reply : Reply)
    (rs : List (Origin × Reply)) :
    conclusion now kind ((o, reply) :: rs) =
      if isDecisive now reply then conclusion now kind [(o, reply)]
      else conclusion now kind rs := by
  unfold conclusion
  cases h : isDecisive now reply <;> simp [h]

theorem callsFor_cons (now : Instant) (kind : Kind) (o : Origin) (reply : Reply)
    (rs : List (Origin × Reply)) :
    callsFor now kind ((o, reply) :: rs) =
      .get o.key kind :: if isDecisive now reply then [] else callsFor now kind rs := by
  unfold callsFor
  cases h : isDecisive now reply <;> simp [h]

/-- One step of a lookup: a decisive reply ends it, any other reply leaves it to the rest. -/
theorem lookUp_cons (p : Policy) (repo : Repository σ) (kind : Kind) (o : Origin)
    (rest : List Origin) (s : σ) :
    let asked := (repo.get o.key kind).run s
    let later := (lookUp p repo kind rest).run asked.state
    ((lookUp p repo kind (o :: rest)).run s).answer =
        (if isDecisive p.now asked.answer then conclusion p.now kind [(o, asked.answer)]
          else later.answer) ∧
      ((lookUp p repo kind (o :: rest)).run s).state =
        if isDecisive p.now asked.answer then asked.state else later.state := by
  intro asked later
  have hasked : asked = repo.get o.key kind [] s := rfl
  unfold lookUp Action.run
  rw [Action.answer_bind, Action.state_bind, Action.answer_during, Action.state_during, ← hasked]
  cases hreply : asked.answer with
  | error e => simp [isDecisive, conclusion]
  | ok found =>
    cases found with
    | none => exact ⟨rfl, rfl⟩
    | some r =>
      cases hr : r.isExpired p.now with
      | true => simp [isDecisive, hr, later, Action.run]
      | false => simp [isDecisive, conclusion, hr, Verdict.ofRecord]

theorem lookUp_answer (p : Policy) (repo : Repository σ) (kind : Kind) (cs : List Origin) (s : σ) :
    ((lookUp p repo kind cs).run s).answer = conclusion p.now kind (replies repo kind s cs) := by
  induction cs generalizing s with
  | nil => rfl
  | cons o rest ih =>
    rw [replies, conclusion_cons, ← ih]
    exact (lookUp_cons p repo kind o rest s).1

/-- Noting the calls changes neither the answer nor what is done to the state. -/
theorem lookUp_noting (p : Policy) (repo : Repository σ) (kind : Kind) (cs : List Origin) (s : σ)
    (calls : List Scripted.Call) :
    let noted := (lookUp p repo.noting kind cs).run (s, calls)
    let plain := (lookUp p repo kind cs).run s
    noted.answer = plain.answer ∧
      noted.state = (plain.state, calls ++ callsFor p.now kind (replies repo kind s cs)) := by
  induction cs generalizing s calls with
  | nil => exact ⟨rfl, by simp [lookUp, replies, callsFor, Action.run]⟩
  | cons o rest ih =>
    intro noted plain
    obtain ⟨hnoted, hnotedState⟩ := lookUp_cons p repo.noting kind o rest (s, calls)
    obtain ⟨hplain, hplainState⟩ := lookUp_cons p repo kind o rest s
    obtain ⟨hanswer, hstate⟩ := ih ((repo.get o.key kind).run s).state (calls ++ [.get o.key kind])
    have hget : (repo.noting.get o.key kind).run (s, calls) =
        ⟨((repo.get o.key kind).run s).answer,
          (((repo.get o.key kind).run s).state, calls ++ [.get o.key kind]),
          ((repo.get o.key kind).run s).log⟩ := rfl
    rw [hget] at hnoted hnotedState
    rw [replies, callsFor_cons]
    simp only [noted, plain, hnoted, hnotedState, hplain, hplainState, hanswer, hstate]
    cases isDecisive p.now ((repo.get o.key kind).run s).answer <;> simp

/-- The origins whose decisions apply: the origin itself and, unless the kind binds the exact host,
the origin at each parent of its host. -/
theorem candidates_eq [SuffixList] (kinds : Registry) (o : Origin) (kind : Kind) :
    candidates kinds o kind = o :: if kinds.exactHost kind then []
      else (ancestors o.host.toList).map fun host => { o with host := .ofList host } := by
  unfold candidates
  split
  · rfl
  · congr 1
    refine List.map_congr_left fun host hhost => ?_
    simp [Origin.withHost, lowerString, lower_ancestor hhost]

/-- A lookup asks for the origin and, unless the kind binds the exact host, for the same origin at
each parent of its host, nearest first. It ends with the first candidate that has a decision which
has not lapsed, or for which the repository fails; it asks for no candidate behind that one, and
without such a candidate nothing is known. An origin of a scheme that carries no permissions is
unknown without any call, and no lookup calls anything but reads. -/
theorem get_eq_conclusion [SuffixList] (p : Policy) (repo : Repository σ) (raw : String)
    (kind : Kind) (s : σ) :
    let plain := (get p repo raw kind).run s
    let noted := (get p repo.noting raw kind).run (s, [])
    match Origin.parse raw with
    | .ok o =>
      let rs := replies repo kind s (o :: if p.kinds.exactHost kind then []
        else (ancestors o.host.toList).map fun host => { o with host := .ofList host })
      plain.answer = conclusion p.now kind rs ∧ noted.answer = plain.answer ∧
        noted.state = (plain.state, callsFor p.now kind rs)
    | .error (.unsupportedScheme _) =>
      plain.answer = .ok ⟨kind, .unknown, .persistent⟩ ∧ noted.answer = plain.answer ∧
        noted.state = (s, [])
    | .error e =>
      plain.answer = .error (.origin e) ∧ noted.answer = plain.answer ∧ noted.state = (s, []) := by
  intro plain noted
  cases hparse : Origin.parse raw with
  | ok o =>
    have hplain : plain = (lookUp p repo kind (candidates p.kinds o kind)).run s := by
      simp only [plain, get, hparse]
    have hnoted : noted = (lookUp p repo.noting kind (candidates p.kinds o kind)).run (s, []) := by
      simp only [noted, get, hparse]
    rw [hplain, hnoted]
    dsimp only
    rw [← candidates_eq]
    exact ⟨lookUp_answer p repo kind _ s, lookUp_noting p repo kind _ s []⟩
  | error e =>
    simp only [plain, noted, get, hparse]
    cases e <;> exact ⟨rfl, rfl, rfl⟩

end Decision

end Consent

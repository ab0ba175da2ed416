import Consent.Proofs.Decision.Handles
import Consent.Proofs.Decision.Isolation
import Consent.Proofs.Decision.Refusal
import Consent.Proofs.Origin.NormalForm

/-! Whatever decisions are made from an empty store on, its rows are sound: only records that the
rules admit are ever written, and what the rules refuse reaches no repository. -/

namespace Consent

open Host Log Store

/-- A record that the rules admit: a listed decision about an origin that was read, with a time
exactly if it is timed. -/
structure Record.Sound (kinds : Registry) (r : Record) : Prop where
  decided : r.state ≠ .unknown
  listed : r.state ∈ kinds.states r.kind
  origin : ∃ raw o, Origin.parse raw = .ok o ∧ r.origin = o.key
  expiry : (r.expiry = .never ∨ r.expiry = .session) ∧ r.expireAt = .unset ∨
    r.expiry = .timed ∧ 0 < r.expireAt.millis

/-- What holds of a row. -/
structure Store.Row.Sound (kinds : Registry) (row : Row) : Prop where
  decided : row.state ≠ .unknown
  listed : row.state ∈ kinds.states row.kind
  origin : ∃ raw o, Origin.parse raw = .ok o ∧ row.origin = o.key ∧
    (o.scheme = "http" ∨ o.scheme = "https" ∨ o.scheme = "ftp") ∧
    (o.port = 0 ∨ 1 ≤ o.port ∧ o.port ≤ 65535 ∧ o.port ≠ Origin.defaultPort o.scheme)
  expiry : row.expiry = .never ∨ row.expiry = .session ∨ row.expiry = .timed
  expireMillis : row.expireMillis ≠ 0 ↔ row.expiry = .timed

theorem Store.Row.sound_ofRecord {kinds : Registry} {r : Record} (h : r.Sound kinds) (id : Int)
    (now : Instant) : (Row.ofRecord id now r).Sound kinds := by
  obtain ⟨raw, o, hparse, hkey⟩ := h.origin
  have hread := Origin.asRead_of_parse hparse
  have hport : o.port = 0 ∨ 1 ≤ o.port ∧ o.port ≤ 65535 ∧ o.port ≠ Origin.defaultPort o.scheme := by
    by_cases hzero : o.port = 0
    · exact Or.inl hzero
    · have hrange := hread.port
      exact Or.inr ⟨by omega, hrange.2, hread.port_ne⟩
  have hexpiry : (Row.ofRecord id now r).expiry = r.expiry := rfl
  have hmillis : (Row.ofRecord id now r).expireMillis = toMillis r.expireAt := rfl
  refine ⟨h.decided, h.listed, ⟨raw, o, hparse, hkey, hread.scheme, hport⟩, ?_, ?_⟩
  · rw [hexpiry]
    rcases h.expiry with ⟨hlasting | hsession, -⟩ | ⟨htimed, -⟩
    · exact Or.inl hlasting
    · exact Or.inr (Or.inl hsession)
    · exact Or.inr (Or.inr htimed)
  · rw [hexpiry, hmillis]
    rcases h.expiry with ⟨huntimed, hunset⟩ | ⟨htimed, hpos⟩
    · have hzero : toMillis r.expireAt = 0 := if_pos hunset
      have hne : r.expiry ≠ .timed := by
        rcases huntimed with heq | heq
        · rw [heq]
          decide
        · rw [heq]
          decide
      simp [hzero, hne]
    · have hset : r.expireAt ≠ .unset := by
        intro heq
        rw [heq] at hpos
        revert hpos
        decide
      have hsame : toMillis r.expireAt = r.expireAt.millis := if_neg hset
      rw [hsame]
      exact iff_of_true (by omega) htimed

/-- The same repository, in which only records of `P` can be set. -/
def Repository.guarded {σ : Type} (P : Record → Prop) [DecidablePred P] (repo : Repository σ) :
    Repository σ :=
  { repo with set := fun r => if P r then repo.set r else pure () }

section Store

variable [SuffixList] {Q : Table → Prop} {now : Instant}

/-- Opening the store gives a table of `Q`. -/
def Store.OpensTo (Q : Table → Prop) (s : Store) : Prop := ∃ t, s.Opens t ∧ Q t

theorem Store.keeps_serve_opensTo {α : Type} {before : Action Store Unit} {f : Table → α × Table}
    (hbefore : ∀ fields s, before.Gives fields s () s) (hf : ∀ t, Q t → Q (f t).2) :
    (serve now before f).Keeps (OpensTo Q) := by
  rintro fields s ⟨t, hs, ht⟩
  obtain ⟨s', hserve, hready⟩ := hs.gives_serve (hbefore fields) now f
  rw [hserve.state]
  exact ⟨_, hready.opens, hf t ht⟩

/-- A table whose rows are all sound stays so as long as only sound records are set. -/
theorem Store.keeps_guarded (kinds : Registry) (now : Instant)
    [DecidablePred (Record.Sound kinds)] :
    ((repository now).guarded (Record.Sound kinds)).Keeps
      (OpensTo fun t => ∀ row ∈ t, row.Sound kinds) := by
  have hfilter : ∀ (q : Row → Bool) (t : Table), (∀ row ∈ t, row.Sound kinds) →
      ∀ row ∈ t.filter q, row.Sound kinds :=
    fun q t ht row hrow => ht row (List.mem_filter.mp hrow).1
  constructor
  · exact fun _ _ => keeps_serve_opensTo (.emit _ _ _) fun _ ht => ht
  · intro r
    unfold Repository.guarded
    dsimp only
    split
    · rename_i hr
      refine keeps_serve_opensTo (.emit _ _ _) fun t ht row hrow => ?_
      rcases Table.mem_of_mem_upsert hrow with hrow | ⟨id, rfl⟩
      · exact ht row hrow
      · exact Row.sound_ofRecord hr id now
    · exact .pure _
  · exact fun _ _ => keeps_serve_opensTo (.emit _ _ _) fun t ht => hfilter _ t ht
  · exact fun _ => keeps_serve_opensTo (.emit _ _ _) fun _ ht => ht
  · exact keeps_serve_opensTo (.pure _) fun _ ht => ht
  · exact keeps_serve_opensTo (.emit _ _ _) fun _ _ row hrow => by cases hrow
  · exact fun _ => keeps_serve_opensTo (.pure _) fun t ht => hfilter _ t ht
  · exact keeps_serve_opensTo (.pure _) fun t ht => hfilter _ t ht

end Store

namespace Decision

section Guarded

variable {σ : Type} {p : Policy} {repo : Repository σ} {raw : String} {kind : Kind} {state : State}
  [DecidablePred (Record.Sound p.kinds)]

/-- Storing writes sound records only. -/
theorem store_guarded {expiry : Expiry} {expireAt : Instant}
    (h : (expiry = .never ∨ expiry = .session) ∧ expireAt = .unset ∨
      expiry = .timed ∧ 0 < expireAt.millis) :
    store p (repo.guarded (Record.Sound p.kinds)) raw kind state expiry expireAt =
      store p repo raw kind state expiry expireAt := by
  unfold store
  split
  · rfl
  · rename_i hadmits
    funext fields s
    unfold readOrigin
    cases hparse : Origin.parse raw with
    | error e => rfl
    | ok o =>
      refine Action.bind_congr_of_answer (x := o) rfl ?_
      split
      · rfl
      · rename_i hunknown
        have hlisted : state ∈ p.kinds.states kind := by
          simpa [Registry.admits] using hadmits
        have hsound : Record.Sound p.kinds ⟨o.key, kind, state, expiry, expireAt, p.now⟩ :=
          ⟨hunknown, hlisted, ⟨raw, o, hparse, rfl⟩, h⟩
        simp only [Repository.guarded, if_pos hsound]

theorem set_guarded (scope : Scope) :
    set p (repo.guarded (Record.Sound p.kinds)) raw kind state scope =
      set p repo raw kind state scope := by
  refine store_guarded (Or.inl ⟨?_, rfl⟩)
  cases scope with
  | persistent => exact Or.inl rfl
  | session => exact Or.inr rfl

theorem Change.make_guarded (hnow : 0 < p.now.millis) (change : Change) :
    change.make p (repo.guarded (Record.Sound p.kinds)) raw kind = change.make p repo raw kind := by
  cases change with
  | set state scope => exact set_guarded scope
  | setUntil state expireAt =>
    simp only [Change.make, Decision.setUntil]
    split
    · rename_i hlt
      have hle := Instant.millis_le_millis (Int.le_of_lt hlt)
      exact store_guarded (Or.inr ⟨rfl, Int.lt_of_lt_of_le hnow hle⟩)
    · rfl
  | remove => rfl

theorem lookUp_guarded (cs : List Origin) :
    lookUp p (repo.guarded (Record.Sound p.kinds)) kind cs = lookUp p repo kind cs := by
  induction cs with
  | nil => rfl
  | cons o rest ih =>
    simp only [lookUp, ih]
    rfl

variable [SuffixList]

theorem get_guarded :
    get p (repo.guarded (Record.Sound p.kinds)) raw kind = get p repo raw kind := by
  simp only [get, lookUp_guarded]

theorem handle_guarded (prompter : Option (Prompter σ)) :
    Request.handle p (repo.guarded (Record.Sound p.kinds)) prompter raw kind =
      Request.handle p repo prompter raw kind := by
  simp only [Request.handle, Request.ask, get_guarded, set_guarded]

/-- No use of the decisions writes anything but sound records. -/
theorem Use.make_guarded (hnow : 0 < p.now.millis) (use : Use) :
    use.make p (repo.guarded (Record.Sound p.kinds)) = use.make p repo := by
  cases use with
  | change raw kind c => exact c.make_guarded hnow
  | get raw kind => simp only [Use.make, get_guarded]
  | request reply raw kind => simp only [Use.make, handle_guarded]
  | _ => rfl

end Guarded

section Runs

variable [SuffixList] {kinds : Registry} {s : Store}

/-- One step: a call leaves sound rows behind. -/
theorem Call.sound_run {call : Call} (hkinds : call.policy.kinds = kinds)
    (hnow : 0 < call.policy.now.millis) (h : s.OpensTo fun t => ∀ row ∈ t, row.Sound kinds) :
    (call.run s).OpensTo fun t => ∀ row ∈ t, row.Sound kinds := by
  classical
  subst hkinds
  have hkeeps := call.use.keeps_make (keeps_guarded call.policy.kinds call.now) call.policy
  rw [Use.make_guarded hnow] at hkeeps
  exact hkeeps call.fields s h

/-- The run: so do any calls, one after another. -/
theorem sound_runCalls (calls : List Call)
    (hcalls : ∀ call ∈ calls, call.policy.kinds = kinds ∧ 0 < call.policy.now.millis)
    (h : s.OpensTo fun t => ∀ row ∈ t, row.Sound kinds) :
    (runCalls calls s).OpensTo fun t => ∀ row ∈ t, row.Sound kinds := by
  induction calls generalizing s with
  | nil => exact h
  | cons call rest ih =>
    obtain ⟨hkinds, hnow⟩ := hcalls call List.mem_cons_self
    have hrest : ∀ call' ∈ rest, call'.policy.kinds = kinds ∧ 0 < call'.policy.now.millis :=
      fun call' hcall' => hcalls call' (List.mem_cons_of_mem call hcall')
    exact ih hrest (call.sound_run hkinds hnow h)

/-- From an empty store on, any uses of the decisions leave only sound rows. A change that the rules
refuse, for its time, its state or its origin, calls no repository and leaves everything as it was,
and so does a request for what is no origin; any other change is one call. -/
theorem runCalls_sound_and_refused (hs : s.Opens []) (calls : List Call)
    (hcalls : ∀ call ∈ calls, call.policy.kinds = kinds ∧ 0 < call.policy.now.millis) :
    (∃ t, (runCalls calls s).Opens t ∧ ∀ row ∈ t, row.Sound kinds) ∧
      ∀ {σ : Type} (repo : Repository σ) (p : Policy) (raw : String) (kind : Kind) (state : σ)
        (noted : List Scripted.Call),
        (∀ change : Change,
          let made := (change.make p repo.noting raw kind).run (state, noted)
          match change.refusal? p raw kind with
          | some e => made.answer = .error e ∧ made.state = (state, noted)
          | none => ∃ call, made.state.2 = noted ++ [call]) ∧
        ∀ reply e, Origin.parse raw = .error e →
          let handled := (Request.handle p repo.noting (Request.replying reply) raw kind).run
            (state, noted)
          handled.state = (state, noted) ∧ (raw ≠ "" → (∀ scheme, e ≠ .unsupportedScheme scheme) →
            handled.answer = .ok { state := .block, cause := some (.origin e) }) := by
  have hempty : s.OpensTo fun t => ∀ row ∈ t, row.Sound kinds :=
    ⟨[], hs, fun row hrow => by cases hrow⟩
  refine ⟨sound_runCalls calls hcalls hempty, fun repo p raw kind state noted => ⟨?_, ?_⟩⟩
  · intro change made
    cases hrefusal : change.refusal? p raw kind with
    | some e => exact Change.make_of_refusal hrefusal
    | none => exact Change.make_noting_of_not_refused hrefusal
  · intro reply e hparse
    exact Request.handle_of_no_origin hparse repo.noting reply (state, noted)

end Runs

/-- A day at noon, and the built-in kinds. -/
def noon : Policy := { now := .atMillis 1700000000000 }

/-- Decisions of every form, one of which is taken back, a change that is refused and an answer that
is remembered. -/
def mixedCalls : List Call := [
  ⟨noon, noon.now, [], .change "https://Example.com:443/a" "popup" (.set .allow .session)⟩,
  ⟨noon, noon.now, [], .change "http://a.example:8080" "cookie"
    (.setUntil .allowSessionCookies (.atMillis 1700000000001))⟩,
  ⟨noon, noon.now, [], .change "https://b.example" "geo" (.set .block .persistent)⟩,
  ⟨noon, noon.now, [], .change "https://b.example" "geo" (.set .unknown .persistent)⟩,
  ⟨noon, noon.now, [], .change "https://example.com" "popup" (.set .prompt .persistent)⟩,
  ⟨noon, noon.now, [], .request (some (.ok ⟨false, true⟩)) "ftp://c.example" "camera"⟩]

/-- Three rows are left, and a change for a time that is over calls nothing. -/
theorem runCalls_sound_and_refused_mixed :
    let left := runCalls mixedCalls newStore
    let late := ((Change.setUntil .allow (.atMillis 5)).make noon (repository noon.now).noting
      "https://example.com" "popup").run (left, [])
    ((all noon (repository noon.now)).run left).answer.map (·.map Record.origin) =
        .ok ["https://example.com", "http://a.example:8080", "ftp://c.example"] ∧
      (∃ t, left.Opens t ∧ ∀ row ∈ t, row.Sound .default) ∧
      late.answer = .error (.notFuture (.atMillis 5)) ∧ late.state = (left, []) := by
  intro left late
  have hcalls : ∀ call ∈ mixedCalls,
      call.policy.kinds = .default ∧ 0 < call.policy.now.millis := by decide
  have hrefused : (Change.setUntil .allow (.atMillis 5)).refusal? noon "https://example.com" "popup" =
      some (.notFuture (.atMillis 5)) := by decide
  obtain ⟨hsound, hrefusals⟩ := runCalls_sound_and_refused opens_newStore mixedCalls hcalls
  have hlate := (hrefusals (repository noon.now) noon "https://example.com" "popup" left []).1
    (.setUntil .allow (.atMillis 5))
  rw [hrefused] at hlate
  exact ⟨by decide +kernel, hsound, hlate⟩

end Decision

end Consent

import Consent.Command.Run
import Consent.Proofs.Command.Start
import Consent.Proofs.Decision.Refusal

/-! The time limit of a decision that is made on the command line. A positive span limits the
decision to it; one that is zero or less is passed over, as if no limit had been asked for. -/

namespace Consent

open Host Log Store

namespace Decision

variable [SuffixList] {s : Store} {state : State}

/-- A decision is stored through a new handle, or the file keeps its decisions. -/
theorem store_alternatives (hopened : s.opened = false) (hclosed : s.closed = false)
    (hstate : state ≠ .unknown) (p : Policy) (raw : String) (kind : Kind) (expiry : Expiry)
    (expireAt now : Instant) (fields : List Field) :
    let stored := store p (repository now) raw kind state expiry expireAt fields s
    (∃ (o : Origin) (t : Table), Origin.parse raw = .ok o ∧ stored.answer = .ok () ∧
        stored.state.Ready (t.upsert now ⟨o.key, kind, state, expiry, expireAt, p.now⟩) ∧
        stored.state.connection = .ready ∧ stored.state.path = s.path) ∨
      ∃ e, stored.answer = .error e ∧ stored.state.Shows s.path s.file.decisions? := by
  intro stored
  cases hrefusal : refusal? p raw kind state with
  | some e =>
    obtain ⟨hanswer, hkept⟩ : stored.answer = .error e ∧ stored.state = s :=
      store_of_refusal hrefusal
    rw [hkept]
    exact Or.inr ⟨e, hanswer, rfl, rfl⟩
  | none =>
    obtain ⟨o, hparse, hanswer, hleft⟩ := store_of_not_refused hrefusal hstate (repository now)
      expiry expireAt fields s
    let r : Record := ⟨o.key, kind, state, expiry, expireAt, p.now⟩
    rcases acquire_alternatives hopened hclosed fields now with
      ⟨s₁, t, hacquire, hready, hconnection, hpath⟩ | ⟨e, herror, hshows⟩
    · have hset : ((repository now).set r).Gives fields s () (s₁.withTable (t.upsert now r)) :=
        gives_serve hacquire hready (.emit _ _ _ fields s₁)
      rw [hset.answer] at hanswer
      have hstate' : stored.state = s₁.withTable (t.upsert now r) := hleft.trans hset.state
      refine Or.inl ⟨o, t, hparse, hanswer, ?_⟩
      rw [hstate']
      obtain ⟨d, hfile, -⟩ := hready.holds
      refine ⟨hready.withTable _, ?_, ?_⟩
      · simp [withTable, hfile, hconnection]
      · simp [withTable, hfile, hpath]
    · have hset : ((repository now).set r fields s).answer = .error e ∧
          ((repository now).set r fields s).state = (acquire now fields s).state := by
        unfold repository serve
        dsimp only
        rw [Action.answer_bind, Action.state_bind, herror]
        exact ⟨rfl, rfl⟩
      rw [hset.1] at hanswer
      rw [hset.2] at hleft
      exact Or.inr ⟨_, hanswer, hleft ▸ hshows⟩

end Decision

namespace Command

/-- The command that a line calls is the program itself or one of the catalog. -/
theorem find_mem (words : List String) : (find words).1 = root ∨ (find words).1 ∈ catalog := by
  have hdescend : ∀ fuel c words, c = root ∨ c ∈ catalog →
      (descend fuel c words).1 = root ∨ (descend fuel c words).1 ∈ catalog := by
    intro fuel
    induction fuel with
    | zero => exact fun c words hc => hc
    | succ fuel ih =>
      intro c words hc
      unfold descend
      split
      · exact hc
      · split
        · exact hc
        · rename_i d hfound
          have hd : d ∈ c.children := List.mem_of_find?_eq_some hfound
          exact ih d _ (Or.inr (List.mem_filter.mp hd).1)
  exact hdescend _ root words (Or.inl rfl)

theorem mem_catalog {c : Command} :
    c ∈ catalog ↔ c ∈ decisionCommands ++ fileCommands ++ programCommands :=
  List.mem_mergeSort

/-- Only one command stores decisions. -/
theorem eq_setCommand {c : Command} {task : Words → Task} {ws : Words} {typed word : String}
    {kind : Kind} {lasting : Lasting} (hc : c = root ∨ c ∈ catalog) (htask : c.task = some task)
    (hset : task ws = .set typed kind word lasting) : c = setCommand := by
  rcases hc with rfl | hc
  · cases htask
  · rw [mem_catalog] at hc
    simp only [decisionCommands, fileCommands, programCommands, List.cons_append, List.nil_append,
      List.mem_cons, List.not_mem_nil, or_false] at hc
    repeat' (rcases hc with rfl | hc)
    all_goals first | rfl | cases htask <;> cases hset

/-- Of the flags that say how long a decision lasts, one that is on was given. -/
theorem given_of_parse {words : List String} {i : Invocation} {typed word : String} {kind : Kind}
    {lasting : Lasting} (hparse : parse words = .ok i)
    (htask : i.task = .set typed kind word lasting) :
    (lasting.session = true → "session" ∈ i.given) ∧
      (lasting.persistent = true → "persistent" ∈ i.given) := by
  have hmem := find_mem words
  unfold parse at hparse
  generalize find words = found at hparse hmem
  obtain ⟨c, rest⟩ := found
  dsimp only at hparse hmem
  split at hparse
  · cases hparse
  · obtain ⟨ws, -, hparse⟩ := Except.bind_eq_ok.mp hparse
    split at hparse
    · rename_i task hhelp hasked
      obtain ⟨_, -, hparse⟩ := Except.bind_eq_ok.mp hparse
      cases hparse
      obtain rfl := eq_setCommand hmem hasked htask
      cases hasked
      cases htask
      have hhas : ∀ {name}, ws.given.truth name = true → ws.given.has name = true := by
        intro name hon
        unfold Settled.truth at hon
        unfold Settled.has
        cases hvalue : ws.given.get? name with
        | none =>
          rw [hvalue] at hon
          cases hon
        | some value => rfl
      constructor
      · intro hon
        exact List.mem_filter.mpr ⟨by decide, hhas hon⟩
      · intro hon
        exact List.mem_filter.mpr ⟨by decide, hhas hon⟩
    · cases hparse
      cases htask

/-- A time limit that is the only flag given leaves the others off. -/
theorem expire_alone {words : List String} {i : Invocation} {typed word : String} {kind : Kind}
    {lasting : Lasting} (hparse : parse words = .ok i)
    (htask : i.task = .set typed kind word lasting) (hgiven : "expire" ∈ i.given)
    (hone : i.given.length ≤ 1) : lasting.session = false ∧ lasting.persistent = false := by
  obtain ⟨hsession, hpersistent⟩ := given_of_parse hparse htask
  have honly : ∀ {name}, name ∈ i.given → name = "expire" := by
    intro name hname
    match hflags : i.given, hone with
    | [], _ =>
      rw [hflags] at hname
      cases hname
    | [flag], _ =>
      rw [hflags, List.mem_singleton] at hname hgiven
      rw [hname, hgiven]
  constructor
  · by_contra hon
    exact absurd (honly (hsession (by simpa using hon))) (by decide)
  · by_contra hon
    exact absurd (honly (hpersistent (by simpa using hon))) (by decide)

/-- What a line leaves and whether it succeeds is up to what it asks for. -/
theorem run_of_parse {words : List String} {i : Invocation} (hparse : parse words = .ok i)
    (s : Session) :
    (run s words).disk = (i.perform.run s).state.finish ∧
      ((run s words).fault = none ↔ (i.perform.run s).answer = .ok ()) := by
  unfold run
  rw [hparse]
  dsimp only
  cases (i.perform.run s).answer <;> simp

/-- The settings in force in a run. -/
def Invocation.settings (i : Invocation) (s : Session) : Settings :=
  ((Session.start i.path i.placesPath i.level).run s).state.settings

/-- How a decision ends that is made with a scope and a span: only a positive span limits it. -/
def ending (now : Instant) (scope : Scope) (span : Duration) : Expiry × Instant :=
  if 0 < span.nanos then (.timed, now.addNanos span.nanos) else (.ofScope scope, .unset)

/-- The run failed, and the decisions on the disk are those it began with. -/
def FailsUnchanged (s : Session) (o : Outcome Session Unit) : Prop :=
  ∃ e, o.answer = .error e ∧
    ∀ full ≠ Disk.inMemory, o.state.finish.decisions? full = s.disk.decisions? full

/-- The run stored a decision in the database at a path. -/
def StoresAt (path : String) (r : Record) (s : Session) (o : Outcome Session Unit) : Prop :=
  o.answer = .ok () ∧ ∃ t : Table, o.state.store.Ready (t.upsert s.later r) ∧
    (Disk.location s.environment path ≠ Disk.inMemory →
      o.state.finish.decisions? (Disk.location s.environment path) = some (t.upsert s.later r))

/-- A span that limits a decision has passed before the decision can be made. -/
def IsOver (span : Duration) (lag : Nat) : Prop := 0 < span.nanos ∧ span.nanos ≤ lag

instance (span : Duration) (lag : Nat) : Decidable (IsOver span lag) :=
  inferInstanceAs (Decidable (_ ∧ _))

section Run

variable {s st : Session} {i : Invocation} {typed word : String} {kind : Kind} {lasting : Lasting}
  {state : State}

theorem later_lt_iff {n : Int} : s.later < s.now.addNanos n ↔ s.lag < n := by
  change s.now.nanos + s.lag < s.now.nanos + n ↔ s.lag < n
  omega

/-- A decision up to a time to come is stored with it; one whose span is over is refused. -/
theorem decide_eq_store (hsession : lasting.session = false)
    (hpersistent : lasting.persistent = false) (origin : String) :
    decide s origin kind state lasting =
      let ends := ending s.now s.settings.scope lasting.expire
      if IsOver lasting.expire s.lag then
        .fail (.notFuture (s.now.addNanos lasting.expire.nanos))
      else Decision.store (policy s) (repository s) origin kind state ends.1 ends.2 := by
  unfold decide ending IsOver
  by_cases hpositive : 0 < lasting.expire.nanos
  · have hfuture : (policy s).now < s.now.addNanos lasting.expire.nanos ↔
        ¬lasting.expire.nanos ≤ s.lag := by
      rw [Int.not_le]
      exact later_lt_iff
    simp only [hpositive, if_true, true_and, Decision.setUntil, hfuture, ite_not]
  · simp only [hpositive, if_false, false_and, hsession, hpersistent, Bool.false_eq_true]
    rfl

/-- Setting a decision does to the store what making it does. -/
theorem perform_set_word (hword : State.ofWord word = .ok state) :
    let o := (Task.set typed kind word lasting).perform.run st
    let made := decide st (address typed) kind state lasting [] st.store
    o.answer = made.answer ∧ o.state.store = made.state ∧
      o.state.finish = ({ st with store := made.state } : Session).finish := by
  dsimp only [Task.perform, Action.run]
  rw [Action.get_bind, hword, Except.mapError_ok, Action.ofExcept_ok_bind]
  exact Session.onStore_printLine _ _

/-- A run that ends as storing a decision does, once the program is started. -/
theorem storesAt_of_store (hst : Session.Unwritten s st) {path : String}
    {history : Option History}
    (hstore : st.store = st.disk.settle.handle s.environment path history)
    (hstate : state ≠ .unknown) {raw : String} {expiry : Expiry} {expireAt : Instant}
    {o : Outcome Session Unit} {made : Outcome Store Unit}
    (hmade : made = Decision.store ⟨.default, s.later⟩ (Store.repository s.later) raw kind state
      expiry expireAt [] st.store)
    (hanswer : o.answer = made.answer) (hleft : o.state.store = made.state)
    (hfinish : o.state.finish = ({ st with store := made.state } : Session).finish) :
    FailsUnchanged s o ∨ ∃ origin, Origin.parse raw = .ok origin ∧
      StoresAt path ⟨origin.key, kind, state, expiry, expireAt, s.later⟩ s o := by
  have hopened : st.store.opened = false := by
    rw [hstore]
    rfl
  have hclosed : st.store.closed = false := by
    rw [hstore]
    rfl
  have hpath : st.store.path = path := by
    rw [hstore]
    rfl
  unfold FailsUnchanged StoresAt
  rw [← hpath, hfinish, hleft, hanswer, hmade]
  rcases Decision.store_alternatives hopened hclosed hstate ⟨.default, s.later⟩ raw kind expiry
      expireAt s.later [] with
    ⟨origin, t, hparse, hanswer, hready, hconnection, hkept⟩ | ⟨e, hanswer, hshows⟩
  · refine Or.inr ⟨origin, hparse, hanswer, t, hready, ?_⟩
    rw [← hkept]
    exact hst.finish_of_ready hready hconnection
  · refine Or.inl ⟨e, hanswer, fun full hfull => ?_⟩
    exact hst.finish_of_shows hstore hshows hfull

/-- Once the program is started, the decision is stored with the end that the span gives it, or no
decision on the disk is changed. It is not stored if the span is over. -/
theorem perform_set_started (hst : Session.Unwritten s st) {path : String}
    {history : Option History}
    (hstore : st.store = st.disk.settle.handle s.environment path history)
    (hsession : lasting.session = false) (hpersistent : lasting.persistent = false)
    (hknown : State.ofWord word ≠ .ok .unknown) :
    let o := (Task.set typed kind word lasting).perform.run st
    let ends := ending s.now st.settings.scope lasting.expire
    FailsUnchanged s o ∨ ¬IsOver lasting.expire s.lag ∧ ∃ (origin : Origin) (state : State),
      Origin.parse (address typed) = .ok origin ∧ State.ofWord word = .ok state ∧
      StoresAt path ⟨origin.key, kind, state, ends.1, ends.2, s.later⟩ s o := by
  intro o ends
  cases hword : State.ofWord word with
  | error e =>
    have hfailed : o = ⟨.error (.stateName e), st, []⟩ := by
      unfold o
      dsimp only [Task.perform, Action.run]
      rw [Action.get_bind, hword, Except.mapError_error, Action.ofExcept_error_bind]
      rfl
    rw [hfailed]
    exact Or.inl ⟨_, rfl, fun full hfull => hst.finish hfull⟩
  | ok state =>
    have hstate : state ≠ .unknown := by
      rintro rfl
      exact hknown hword
    obtain ⟨hanswer, hleft, hfinish⟩ :
        o.answer = _ ∧ o.state.store = _ ∧ o.state.finish = _ := perform_set_word hword
    have hdecide : decide st (address typed) kind state lasting = _ :=
      decide_eq_store hsession hpersistent (address typed)
    rw [hst.now, hst.lag] at hdecide
    by_cases hover : IsOver lasting.expire s.lag
    · rw [if_pos hover] at hdecide
      rw [hdecide] at hanswer hfinish
      refine Or.inl ⟨_, hanswer, fun full hfull => ?_⟩
      rw [hfinish]
      exact hst.finish hfull
    · rw [if_neg hover, policy, repository, hst.later] at hdecide
      have hmade : decide st (address typed) kind state lasting [] st.store = _ :=
        congrFun (congrFun hdecide []) st.store
      rcases storesAt_of_store hst hstore hstate hmade hanswer hleft hfinish with
        hfails | ⟨origin, hparse, hstored⟩
      · exact Or.inl hfails
      · exact Or.inr ⟨hover, origin, state, hparse, rfl, hstored⟩

theorem perform_set (htask : i.task = .set typed kind word lasting) :
    i.perform = (Session.start i.path i.placesPath i.level >>= fun _ =>
      if 1 < i.given.length then
        Action.fail (.exclusive i.exclusive (i.given.mergeSort fun a b => !(b < a)))
      else Task.perform (.set typed kind word lasting)) := by
  unfold Invocation.perform
  simp only [htask, Task.usesStore, if_true]
  congr 1

/-- The same of the run as a whole. -/
theorem perform_set_alternatives (hs : s.store.isInitialized = false)
    (htask : i.task = .set typed kind word lasting)
    (hflags : i.given.length ≤ 1 → lasting.session = false ∧ lasting.persistent = false)
    (hknown : State.ofWord word ≠ .ok .unknown) :
    let o := i.perform.run s
    let ends := ending s.now (i.settings s).scope lasting.expire
    FailsUnchanged s o ∨ ¬IsOver lasting.expire s.lag ∧ ∃ (origin : Origin) (state : State),
      Origin.parse (address typed) = .ok origin ∧ State.ofWord word = .ok state ∧
      StoresAt (i.settings s).database.path
        ⟨origin.key, kind, state, ends.1, ends.2, s.later⟩ s o := by
  intro o ends
  have hst : Session.Unwritten s ((Session.start i.path i.placesPath i.level) [] s).state :=
    Session.keeps_start [] s ⟨rfl, rfl, rfl, hs, fun _ => rfl⟩
  have hstore : ∀ {st : Session},
      (Session.start i.path i.placesPath i.level).Gives [] s () st → ∃ history, _ :=
    Session.store_of_start
  have hsettings : i.settings s =
      ((Session.start i.path i.placesPath i.level) [] s).state.settings := rfl
  have hperform : o = i.perform [] s := rfl
  unfold ends
  rw [hsettings]
  rw [perform_set htask] at hperform
  -- From here on only what was said about starting the program matters.
  generalize Session.start i.path i.placesPath i.level = start at *
  unfold FailsUnchanged StoresAt
  rw [hperform, Action.answer_bind, Action.state_bind]
  cases hstarted : (start [] s).answer with
  | error e =>
    dsimp only
    exact Or.inl ⟨e, rfl, fun full hfull => hst.finish hfull⟩
  | ok _ =>
    dsimp only
    by_cases hseveral : 1 < i.given.length
    · rw [if_pos hseveral]
      exact Or.inl ⟨_, rfl, fun full hfull => hst.finish hfull⟩
    · rw [if_neg hseveral]
      obtain ⟨hsession, hpersistent⟩ := hflags (by omega)
      obtain ⟨history, hopened⟩ := hstore ⟨hstarted, rfl⟩
      exact perform_set_started hst hopened hsession hpersistent hknown

end Run

/-- The stored form of the end of a span: the last millisecond that is not beyond it. -/
theorem toMillis_addNanos {now : Instant} {nanos : Int} (hnow : 0 ≤ now.millis) (hpos : 0 < nanos) :
    let time := toMillis (now.addNanos nanos)
    time * 1000000 ≤ now.nanos + nanos ∧ now.nanos + nanos < (time + 1) * 1000000 := by
  rw [Instant.millis_nonneg_iff] at hnow
  have hset : now.addNanos nanos ≠ .unset := by
    intro heq
    have hnanos := congrArg Instant.nanos heq
    simp only [Instant.addNanos, Instant.unset] at hnanos
    omega
  intro time
  have htime : time = (now.nanos + nanos) / 1000000 := if_neg hset
  omega

/-- The row of a decision that is made with a scope and a span. -/
theorem row_of_ending (id : Int) (now later : Instant) (scope : Scope) (span : Duration)
    (origin : String) (kind : Kind) (state : State) :
    let ends := ending now scope span
    let row := Row.ofRecord id later ⟨origin, kind, state, ends.1, ends.2, later⟩
    (0 < span.nanos → row.expiry = .timed ∧
      row.expireMillis = toMillis (now.addNanos span.nanos) ∧
      (0 ≤ now.millis → row.expireMillis * 1000000 ≤ now.nanos + span.nanos ∧
        now.nanos + span.nanos < (row.expireMillis + 1) * 1000000)) ∧
    (span.nanos ≤ 0 → row.expiry = .ofScope scope ∧ row.expireMillis = 0) := by
  intro ends row
  constructor
  · intro hpositive
    have hends : ends = (.timed, now.addNanos span.nanos) := if_pos hpositive
    have htime : row.expireMillis = toMillis (now.addNanos span.nanos) :=
      congrArg (fun ends : Expiry × Instant => toMillis ends.2) hends
    refine ⟨congrArg Prod.fst hends, htime, fun hnow => ?_⟩
    rw [htime]
    exact toMillis_addNanos hnow hpositive
  · intro hpast
    have hends : ends = (.ofScope scope, .unset) := if_neg (Int.not_lt.mpr hpast)
    have htime : row.expireMillis = toMillis .unset :=
      congrArg (fun ends : Expiry × Instant => toMillis ends.2) hends
    exact ⟨congrArg Prod.fst hends, htime⟩

/-- A time limit that is asked for with a positive span is stored: the decision is timed, and ends
at the time of the call plus the span, which is not over before the decision is made. One that is
zero or less is dropped: the decision is stored with the scope of the settings, and without an end.
Where the command fails, no decision on the disk is changed. -/
theorem run_set_limited (env : Environment) (build : Build) (now : Instant) (lag : Nat)
    (disk : Disk) {words : List String} {i : Invocation} {typed word : String} {kind : Kind}
    {lasting : Lasting} (hparse : parse words = .ok i)
    (htask : i.task = .set typed kind word lasting)
    (hgiven : "expire" ∈ i.given) (hknown : State.ofWord word ≠ .ok .unknown) :
    let s : Session := { environment := env, build, now, lag, disk }
    let report := run s words
    let settings := i.settings s
    let full := Disk.location env settings.database.path
    let span := lasting.expire.nanos
    (report.fault ≠ none → ∀ full ≠ Disk.inMemory,
      report.disk.decisions? full = disk.decisions? full) ∧
    (report.fault = none → ∃ origin state t row, Origin.parse (address typed) = .ok origin ∧
      State.ofWord word = .ok state ∧ (i.perform.run s).state.store.Ready t ∧
      (full ≠ Disk.inMemory → report.disk.decisions? full = some t) ∧
      t.find? origin.key kind = some row ∧ row.state = state ∧
      (0 < span → lag < span ∧ row.expiry = .timed ∧
        row.expireMillis = toMillis (now.addNanos span) ∧
        (0 ≤ now.millis → row.expireMillis * 1000000 ≤ now.nanos + span ∧
          now.nanos + span < (row.expireMillis + 1) * 1000000)) ∧
      (span ≤ 0 → row.expiry = .ofScope settings.scope ∧ row.expireMillis = 0)) := by
  intro s report settings full span
  obtain ⟨hdisk, hfault⟩ := run_of_parse hparse s
  have hunconnected : s.store.isInitialized = false := rfl
  have halternatives := perform_set_alternatives hunconnected htask
    (expire_alone hparse htask hgiven) hknown
  have hsettings : i.settings s = settings := rfl
  rw [hsettings] at halternatives
  change report.disk = _ at hdisk
  change report.fault = none ↔ _ at hfault
  clear_value settings report
  generalize i.perform.run s = o at *
  rcases halternatives with
    ⟨e, hanswer, hkept⟩ | ⟨hover, origin, state, horigin, hword, hanswer, t, hready, hstored⟩
  · rw [hdisk, hfault, hanswer]
    exact ⟨fun _ => hkept, nofun⟩
  · refine ⟨fun hfailed => absurd (hfault.mpr hanswer) hfailed, fun _ => ?_⟩
    rw [hdisk]
    obtain ⟨id, hfound⟩ := Table.find?_upsert_self t s.later _
    obtain ⟨hlimited, hdropped⟩ :=
      row_of_ending id now s.later settings.scope lasting.expire origin.key kind state
    refine ⟨origin, state, _, _, horigin, hword, hready, hstored, hfound, rfl, ?_, hdropped⟩
    exact fun hpositive => ⟨Int.not_le.mp fun hle => hover ⟨hpositive, hle⟩, hlimited hpositive⟩

theorem children_perm (c : Command) :
    c.children.Perm ((decisionCommands ++ fileCommands ++ programCommands).filter fun d =>
      !d.path.isEmpty && d.path.dropLast = c.path) :=
  (List.mergeSort_perm _ _).filter _

theorem find?_children_set : root.children.find? (·.answersTo "set") = some setCommand := by
  have honly : root.children.filter (·.answersTo "set") = [setCommand] :=
    List.perm_singleton.mp ((children_perm root).filter _)
  rw [← List.head?_filter, honly]
  rfl

theorem children_set : setCommand.children = [] :=
  (children_perm setCommand).eq_nil

/-- A line that allows popups for a span. -/
def allowFor (span : String) : List String :=
  ["set", "https://Example.com/a", "popup", "allow", "--expire", span]

theorem find_allowFor {span : String} (others : List String)
    (hwords : plainWords root.ownFlags (allowFor span) = "set" :: others)
    (hrest : plainWords setCommand.ownFlags (allowFor span).tail = others)
    (hdrop : dropWord root.ownFlags "set" (allowFor span) = (allowFor span).tail) :
    find (allowFor span) = (setCommand, (allowFor span).tail) := by
  change descend 6 root (allowFor span) = _
  unfold descend
  rw [hwords]
  dsimp only
  rw [find?_children_set]
  dsimp only
  rw [hdrop]
  unfold descend
  rw [hrest, children_set]
  cases others <;> rfl

/-- What such a line asks for. -/
def allowing (d : Duration) : Invocation where
  task := .set "https://Example.com/a" "popup" "allow" { expire := d }
  exclusive := ["session", "persistent", "expire"]
  given := ["expire"]

theorem parse_allowFor_hour : parse (allowFor "1h") = .ok (allowing ⟨3600000000000⟩) := by
  have hfind : find (allowFor "1h") = (setCommand, (allowFor "1h").tail) :=
    find_allowFor ["https://Example.com/a", "popup", "allow"] (by decide +kernel)
      (by decide +kernel) (by decide +kernel)
  unfold parse
  rw [hfind]
  decide +kernel

def home : Environment := { values := [("HOME", "/home/me")] }

/-- A settings file that says nothing. -/
def plainDisk : Disk := { files := { texts := [("/home/me/.config/permstore/config.toml", "")] } }

def plainSession : Session :=
  { environment := home, now := .atMillis 1700000000000, lag := 2000000, disk := plainDisk }

/-- In a new store a popup is allowed for an hour. -/
theorem run_set_limited_hour :
    let report := run plainSession (allowFor "1h")
    report.fault = none ∧ ∃ t row,
      report.disk.decisions? "/home/me/.local/share/permstore/permissions.sqlite" = some t ∧
      t.find? "https://example.com" "popup" = some row ∧ row.state = .allow ∧
      row.expiry = .timed ∧ row.expireMillis = 1700003600000 := by
  intro report
  have hfault : report.fault = none := by
    unfold report run
    rw [parse_allowFor_hour]
    decide +kernel
  obtain ⟨-, hstored⟩ := run_set_limited home {} (.atMillis 1700000000000) 2000000 plainDisk
    parse_allowFor_hour rfl (by decide) (by decide +kernel)
  obtain ⟨origin, state, t, row, horigin, hword, -, hdisk, hfound, hstate, hlimited, -⟩ :=
    hstored hfault
  have hparse : Origin.parse (address "https://Example.com/a") =
      .ok ⟨"https", "example.com", 0, {}⟩ := by decide +kernel
  have hallow : State.ofWord "allow" = .ok .allow := by decide +kernel
  have hplace : Disk.location home
      ((allowing ⟨3600000000000⟩).settings plainSession).database.path =
        "/home/me/.local/share/permstore/permissions.sqlite" := by decide +kernel
  have hkey : (Origin.mk "https" "example.com" 0 {}).key = "https://example.com" := by
    decide +kernel
  cases horigin.symm.trans hparse
  cases hword.symm.trans hallow
  rw [hkey] at hfound
  obtain ⟨-, htimed, htime, -⟩ := hlimited (by decide)
  have hmillis : toMillis (Instant.addNanos (.atMillis 1700000000000) 3600000000000) =
      1700003600000 := by
    decide
  refine ⟨hfault, t, row, ?_, hfound, hstate, htimed, htime.trans hmillis⟩
  unfold plainSession at hplace
  rw [hplace] at hdisk
  exact hdisk (by decide)

theorem parse_allowFor_past : parse (allowFor "-1h") = .ok (allowing ⟨-3600000000000⟩) := by
  have hfind : find (allowFor "-1h") = (setCommand, (allowFor "-1h").tail) :=
    find_allowFor ["https://Example.com/a", "popup", "allow"] (by decide +kernel)
      (by decide +kernel) (by decide +kernel)
  unfold parse
  rw [hfind]
  decide +kernel

/-- With a span that is over before it starts the command succeeds, and popups are allowed for
good. -/
theorem pastSpan_allows_forever :
    let report := run plainSession (allowFor "-1h")
    parse (allowFor "-1h") = .ok (allowing ⟨-3600000000000⟩) ∧
      "expire" ∈ (allowing ⟨-3600000000000⟩).given ∧ report.fault = none ∧
      report.disk.decisions? "/home/me/.local/share/permstore/permissions.sqlite" =
        some [⟨1, "https://example.com", "popup", .allow, .never, 0, 1700000000002⟩] := by
  intro report
  refine ⟨parse_allowFor_past, by decide, ?_⟩
  unfold report run
  rw [parse_allowFor_past]
  decide +kernel

end Command

end Consent

import Consent.Proofs.Decision.Use
import Consent.Proofs.Store.Trace

/-! Handles on one file that are used one after another: what each of them shows of the decisions of
its session, and what it finds when it is opened. -/

namespace Consent

open Host Log Store

/-- A question to a repository. -/
inductive Read where
  | get (origin : String) (kind : Kind)
  | getAll (origin : String)
  | list

namespace Read

/-- Asks the question. -/
def make {σ : Type} (repo : Repository σ) : Read → Action σ (List Record)
  | .get origin kind => do
    let found ← repo.get origin kind
    pure found.toList
  | .getAll origin => repo.getAll origin
  | .list => repo.list

/-- Whether the question is about a record. -/
def covers (r : Record) : Read → Bool
  | .get origin kind => r.origin = origin && r.kind = kind
  | .getAll origin => r.origin = origin
  | .list => true

/-- The records of a table that the question finds. -/
def select (t : Table) : Read → List Record
  | .get origin kind => (t.decision? origin kind).toList
  | .getAll origin => t.recordsAt origin
  | .list => t.records

variable {t : Table} {r : Record}

theorem mem_select (h : t.Keyed) (read : Read) :
    r ∈ read.select t ↔ read.covers r = true ∧ r ∈ t.records := by
  cases read with
  | get origin kind => simp [select, covers, Table.decision?_eq_some_iff h]
  | getAll origin =>
    simp only [select, covers, Table.recordsAt, Table.records, List.mem_map, List.mem_filter,
      decide_eq_true_iff]
    constructor
    · rintro ⟨row, ⟨hrow, horigin⟩, rfl⟩
      exact ⟨horigin, row, hrow, rfl⟩
    · rintro ⟨horigin, row, hrow, rfl⟩
      exact ⟨row, ⟨hrow, horigin⟩, rfl⟩
  | list => simp [select, covers]

end Read

namespace Store

variable [SuffixList] {fields : List Field} {s s₁ : Store} {now : Instant} {t : Table} {ws : Trace}
  {r : Record}

theorem gives_read (hacquire : (acquire now).Gives fields s () s₁) (hready : s₁.Ready t)
    (read : Read) : (read.make (repository now)).Gives fields s (read.select t) s₁ := by
  have hsame : s₁.withTable t = s₁ := hready.withTable_self
  cases read with
  | get origin kind => exact (Decision.gives_get hacquire hready).bind ⟨rfl, rfl⟩
  | getAll origin =>
    rw [← hsame]
    exact gives_serve hacquire hready (.emit _ _ _ _ _)
  | list =>
    rw [← hsame]
    exact gives_serve hacquire hready (.pure _ _ _)

theorem answer_read_of_error {e : Failure} (h : (acquire now fields s).answer = .error e)
    (read : Read) : (read.make (repository now) fields s).answer = .error e := by
  cases read with
  | get origin kind =>
    have hget : ((repository now).get origin kind fields s).answer = .error e :=
      (serve_of_error h).1
    simp only [Read.make]
    rw [Action.answer_bind, hget]
  | getAll origin => exact (serve_of_error h).1
  | list => exact (serve_of_error h).1

/-- A decision of a session is shown to the questions about it exactly as long as it stands. -/
theorem Follows.shown_iff (h : Follows s ws) (hr : r.expiry = .session) (fields : List Field)
    (now : Instant) (read : Read) :
    (∃ rs, (read.make (repository now) fields s).answer = .ok rs ∧ r ∈ rs) ↔
      read.covers r = true ∧ ws.Stands r := by
  rcases h.acquire_cases fields now with
    ⟨s₁, t, hacquire, hready, -, hkeyed, hshows⟩ | ⟨rfl, e, hanswer, -⟩
  · have hread := gives_read hacquire hready read
    rw [hread.answer, ← hshows r hr, ← Read.mem_select hkeyed]
    simp
  · rw [answer_read_of_error hanswer read]
    constructor
    · rintro ⟨rs, hrs, -⟩
      cases hrs
    · rintro ⟨-, hstands⟩
      exact absurd hstands Trace.not_stands_nil

end Store

namespace Decision

section Handles

variable [SuffixList] {fields : List Field} {s s₀ next opened : Store} {now : Instant} {t : Table}
  {ws : Trace} {p : Policy} {kind : Kind} {v : Verdict}

theorem stands_of_lookUp (h : Follows s ws) (cs : List Origin)
    (hv : (lookUp p (repository now) kind cs fields s).answer = .ok v) (hscope : v.scope = .session) :
    ∃ r, r.expiry = .session ∧ ws.Stands r ∧ v = .ofRecord r := by
  induction cs generalizing s with
  | nil =>
    cases hv
    cases hscope
  | cons o rest ih =>
    obtain ⟨found, s₁, hget, hrest⟩ := Action.gives_of_bind ⟨hv, rfl⟩
    have hget := Action.gives_of_during hget
    have hs₁ : Follows s₁ ws := by
      have hkept := (follows_tracing now).get o.key kind fields (s, ws) h
      rw [← hget.state]
      exact hkept
    cases found with
    | none => exact ih hs₁ hrest.answer
    | some r =>
      dsimp only at hrest
      split at hrest
      · exact ih hs₁ hrest.answer
      · cases hrest.answer
        have hr : r.expiry = .session := by
          by_contra hne
          simp [Verdict.ofRecord, Record.scope, hne] at hscope
        have hshown : ∃ rs, ((Read.get o.key kind).make (repository now) fields s).answer = .ok rs ∧
            r ∈ rs := by
          refine ⟨[r], ?_, List.mem_singleton.mpr rfl⟩
          simp only [Read.make]
          rw [Action.answer_bind, hget.answer]
          rfl
        exact ⟨r, hr, ((h.shown_iff hr fields now _).mp hshown).2, rfl⟩

/-- A lookup reports a decision of a session only while it stands. -/
theorem stands_of_get {raw : String} (h : Follows s ws)
    (hv : (get p (repository now) raw kind fields s).answer = .ok v) (hscope : v.scope = .session) :
    ∃ r, r.expiry = .session ∧ ws.Stands r ∧ v = .ofRecord r := by
  unfold get at hv
  cases hparse : Origin.parse raw with
  | ok o =>
    rw [hparse] at hv
    exact stands_of_lookUp h _ hv hscope
  | error e =>
    rw [hparse] at hv
    cases e with
    | unsupportedScheme _ =>
      cases hv
      cases hscope
    | _ => cases hv

/-- A use of the decisions at a time. -/
structure Call where
  policy : Policy
  now : Instant
  fields : List Field := []
  use : Use

/-- What the call leaves of a store. -/
def Call.run (call : Call) (s : Store) : Store :=
  (call.use.make call.policy (repository call.now) call.fields s).state

/-- The same, with the changes noted that the call makes. -/
def Call.trace (call : Call) (c : Store × Trace) : Store × Trace :=
  (call.use.make call.policy ((repository call.now).tracing call.now) call.fields c).state

/-- The calls that are made through one handle, and the history that its migration asks. -/
structure Turn where
  history : Option History := none
  calls : List Call

def runCalls (calls : List Call) (s : Store) : Store := calls.foldl (fun s call => call.run s) s

/-- The changes that calls make through one handle. -/
def changes (calls : List Call) (s : Store) : Trace :=
  (calls.foldl (fun c call => call.trace c) (s, [])).2

/-- Every turn takes a new handle on the file that the one before it left. -/
def runTurns (turns : List Turn) (s : Store) : Store :=
  turns.foldl (fun s turn => runCalls turn.calls (s.renewed turn.history)) s

@[simp] theorem runTurns_nil (s : Store) : runTurns [] s = s := rfl

theorem fst_foldl_trace (calls : List Call) (c : Store × Trace) :
    (calls.foldl (fun c call => call.trace c) c).1 = runCalls calls c.1 := by
  induction calls generalizing c with
  | nil => rfl
  | cons call rest ih =>
    have hsame : (call.trace c).1 = call.run c.1 :=
      (call.use.simulates_make (Repository.simulates_tracing call.now _) call.policy call.fields c
        c.1 rfl).2
    have hrest := ih (call.trace c)
    rw [hsame] at hrest
    exact hrest

theorem keeps_foldl_trace {I : Store × Trace → Prop}
    (hI : ∀ now, ((repository now).tracing now).Keeps I) (calls : List Call) (c : Store × Trace)
    (h : I c) : I (calls.foldl (fun c call => call.trace c) c) := by
  induction calls generalizing c with
  | nil => exact h
  | cons call rest ih =>
    have hcall : I (call.trace c) := call.use.keeps_make (hI call.now) call.policy call.fields c h
    exact ih (call.trace c) hcall

/-- What every operation keeps of a store and the changes so far holds of what calls leave. -/
theorem keeps_changes {I : Store × Trace → Prop}
    (hI : ∀ now, ((repository now).tracing now).Keeps I) (calls : List Call) (h : I (s, [])) :
    I (runCalls calls s, changes calls s) := by
  have hsame : calls.foldl (fun c call => call.trace c) (s, []) =
      (runCalls calls s, changes calls s) :=
    Prod.ext (fst_foldl_trace calls (s, [])) rfl
  rw [← hsame]
  exact keeps_foldl_trace hI calls (s, []) h

/-- The changes account for what a handle shows, whatever it is used for. -/
theorem follows_calls (calls : List Call) (h : Follows s []) :
    Follows (runCalls calls s) (changes calls s) :=
  keeps_changes follows_tracing calls h

theorem keeps_runCalls {I : Store → Prop} (hI : ∀ now, (repository now).Keeps I)
    (calls : List Call) (h : I s) : I (runCalls calls s) := by
  induction calls generalizing s with
  | nil => exact h
  | cons call rest ih =>
    exact ih (call.use.keeps_make (hI call.now) call.policy call.fields s h)

theorem keeps_runTurns {I : Store → Prop} (hI : ∀ now, (repository now).Keeps I)
    (hrenewed : ∀ s history, I s → I (s.renewed history)) (turns : List Turn) (h : I s) :
    I (runTurns turns s) := by
  induction turns generalizing s with
  | nil => exact h
  | cons turn rest ih => exact ih (keeps_runCalls hI turn.calls (hrenewed s turn.history h))

theorem simulates_serve {α : Type} {before : Action Store Unit} {f : Table → α × Table}
    (hacquire : ∀ fields now, (acquire now).Gives fields next () opened) (hready : opened.Ready t)
    (hbefore : ∀ fields s, before.Gives fields s () s) :
    (serve now before f).Simulates (fun s u => s = u ∨ s = next ∧ u = opened)
      (serve now before f) := by
  rintro fields s u (rfl | ⟨rfl, rfl⟩)
  · exact ⟨rfl, Or.inl rfl⟩
  · have hnext := gives_serve (f := f) (hacquire fields now) hready (hbefore fields u)
    have hagain : (acquire now).Gives fields u () u :=
      gives_acquire_of_opened hready.opened hready.notClosed
    have hopened := gives_serve (f := f) hagain hready (hbefore fields u)
    rw [hnext.answer, hnext.state, hopened.answer, hopened.state]
    exact ⟨rfl, Or.inl rfl⟩

/-- Whatever a handle that can be opened is used for, it is opened first, unless the use does not
need it. -/
theorem run_of_acquire (hacquire : ∀ fields now, (acquire now).Gives fields next () opened)
    (hready : opened.Ready t) (call : Call) :
    call.run next = call.run opened ∨ call.run next = next ∧ call.run opened = opened := by
  -- The two handles differ up to the first operation that the use needs, and agree after it.
  have hserve : (repository call.now).Simulates (fun s u => s = u ∨ s = next ∧ u = opened)
      (repository call.now) := by
    constructor
    · exact fun _ _ => simulates_serve hacquire hready (.emit _ _ _)
    · exact fun _ => simulates_serve hacquire hready (.emit _ _ _)
    · exact fun _ _ => simulates_serve hacquire hready (.emit _ _ _)
    · exact fun _ => simulates_serve hacquire hready (.emit _ _ _)
    · exact simulates_serve hacquire hready (.pure ())
    · exact simulates_serve hacquire hready (.emit _ _ _)
    · exact fun _ => simulates_serve hacquire hready (.pure ())
    · exact simulates_serve hacquire hready (.pure ())
  exact (call.use.simulates_make hserve call.policy call.fields next opened
    (Or.inr ⟨rfl, rfl⟩)).2

/-- Handles on one file, used one after another for anything. A decision of a session is shown by
the reads of a handle exactly if it was set through that handle and has been neither removed nor
overwritten since, and lookups report no other. Once a handle was opened, opening a later one drops
the rows of the session and leaves all else in the file as it is; that is done before the first use
takes effect. -/
theorem session_of_handle (hs₀ : s₀.Keyed) (earlier : List Turn) (history : Option History)
    (calls : List Call) :
    let start := (runTurns earlier s₀).renewed history
    let s := runCalls calls start
    let ws := changes calls start
    (∀ (now : Instant) (read : Read) (r : Record), r.expiry = .session →
      ((∃ rs, ((read.make (repository now)).run s).answer = .ok rs ∧ r ∈ rs) ↔
        read.covers r = true ∧ ws.Stands r)) ∧
    (∀ now p raw kind v, ((get p (repository now) raw kind).run s).answer = .ok v →
      v.scope = .session → ∃ r, r.expiry = .session ∧ ws.Stands r ∧ v = .ofRecord r) ∧
    (s.opened = true → ∀ later history',
      let next := (runTurns later s).renewed history'
      ∃ d t, next.file = .database d ∧ d.perms = some t ∧
        (∀ fields now, (acquire now).Gives fields next () (next.openedOn d t)) ∧
        ∀ call : Call, call.run next = call.run (next.openedOn d t) ∨
          call.run next = next ∧ call.run (next.openedOn d t) = next.openedOn d t) := by
  intro start s ws
  have hstart : start.Keyed := keeps_runTurns keeps_repository (fun _ _ h => h) earlier hs₀
  have hfollows : Follows s ws :=
    follows_calls calls (.waiting (waiting_renewed history _) hstart rfl)
  refine ⟨fun now read r hr => hfollows.shown_iff hr [] now read,
    fun now p raw kind v hv hscope => stands_of_get hfollows hv hscope, ?_⟩
  intro hopened later history' next
  have hprepared : s.IsPrepared := by
    cases hfollows with
    | waiting hwaiting _ _ =>
      rw [hwaiting.opened] at hopened
      cases hopened
    | serving t _ hprepared _ _ => exact ⟨t, hprepared⟩
  obtain ⟨t, hlater⟩ : (runTurns later s).IsPrepared :=
    keeps_runTurns keeps_repository_prepared
      (fun _ _ ⟨t, h⟩ => ⟨t, h.path, h.obstacle, h.migrated⟩) later hprepared
  obtain ⟨d, hfile, hperms, hacquire⟩ := hlater.gives_acquire history'
  exact ⟨d, t, hfile, hperms, hacquire, run_of_acquire hacquire (ready_openedOn rfl d t)⟩

end Handles

/-- A database of an earlier release: a decision that lasts, one that an ended session left, and one
by host that is of a session too. -/
def leftDatabase : Database where
  perms := some [
    ⟨1, "https://kept.example", "popup", .allow, .never, 0, 1600000000000⟩,
    ⟨2, "https://left.example", "popup", .allow, .session, 0, 1600000000000⟩]
  hosts := some ⟨Legacy.HostTable.standardColumns, [(1, [.text "old.example", .text "popup",
    .integer 1, .integer 1, .integer 0, .integer 1600000000000, .integer 0, .integer 0])]⟩
  versions := some [0, 1, 2]

def leftStore : Store := { path := "permissions.db", file := .database leftDatabase }

/-- A use that sets a decision for the session. -/
def sessionCall : Call where
  policy := { now := .atMillis 1700000000000 }
  now := .atMillis 1700000000000
  use := .change "https://new.example" "popup" (.set .allow .session)

def firstHandle : Store := leftStore.renewed none

/-- The first handle after its use. -/
def firstStore : Store := runCalls [sessionCall] firstHandle

/-- The first handle migrates and shows the decision of its session beside the one that lasts; the
next one drops it. -/
theorem session_of_handle_left :
    let r : Record :=
      ⟨"https://new.example", "popup", .allow, .session, .unset, .atMillis 1700000000000⟩
    let listed := (Read.list.make (repository (.atMillis 1700000000000))).run firstStore
    (∃ rs, listed.answer = .ok rs ∧ r ∈ rs) ∧
      listed.answer.map (·.map Record.origin) =
        .ok ["https://kept.example", "https://new.example"] ∧
      firstStore.opened = true ∧ ∃ d t, firstStore.file = .database d ∧ d.perms = some t ∧
        ∀ fields now, (acquire now).Gives fields (firstStore.renewed none) ()
          ((firstStore.renewed none).openedOn d t) := by
  intro r listed
  have hs₀ : leftStore.Keyed := by
    rintro _ ⟨⟩ t ⟨⟩
    exact ⟨by decide, by decide⟩
  have hopened : firstStore.opened = true := by decide +kernel
  have hws : changes [sessionCall] firstHandle = [(.atMillis 1700000000000, .set r)] := by
    decide +kernel
  have horigins : listed.answer.map (·.map Record.origin) =
      .ok ["https://kept.example", "https://new.example"] := by decide +kernel
  have hmain := session_of_handle hs₀ [] none [sessionCall]
  simp only [runTurns_nil] at hmain
  rw [← firstHandle, ← firstStore, hws] at hmain
  obtain ⟨hshown, -, hlater⟩ := hmain
  obtain ⟨d, t, hfile, hperms, hacquire, -⟩ := hlater hopened [] none
  rw [runTurns_nil] at hacquire
  rw [runTurns_nil, file_renewed] at hfile
  have hstands : Trace.Stands [(.atMillis 1700000000000, .set r)] r :=
    ⟨[], .atMillis 1700000000000, r, [], rfl, by decide, by simp⟩
  have hlist := (hshown (.atMillis 1700000000000) .list r rfl).mpr ⟨rfl, hstands⟩
  exact ⟨hlist, horigins, hopened, d, t, hfile, hperms, hacquire⟩

end Decision

end Consent

import Consent.Proofs.Store.Ledger
import Consent.Proofs.Store.Opening

/-! The decisions of a session that a handle shows: those that were set through it and have been
neither removed nor overwritten since. -/

namespace Consent

open Host Log Store

deriving instance DecidableEq for Write

/-- Changes in the order they were made, with their times. -/
abbrev Trace := List (Instant × Write)

/-- Whether the change removes or overwrites the decision of a session that has the key. -/
def Write.affects (key : String × Kind) : Write → Bool
  | .set r => r.key = key
  | .delete origin kind => (origin, kind) = key
  | .deleteAll => true
  | .deleteExpired _ => false
  | .deleteSession => true

namespace Trace

variable {ws : Trace} {now : Instant} {w : Write} {r : Record}

/-- The record was set by one of the changes, and no later one affects it. -/
def Stands (ws : Trace) (r : Record) : Prop :=
  ∃ before made q after, ws = before ++ (made, .set q) :: after ∧ readBack made q = r ∧
    ∀ later ∈ after, later.2.affects r.key = false

theorem not_stands_nil : ¬Stands [] r := by
  rintro ⟨before, made, q, after, hws, -⟩
  simp at hws

theorem stands_concat :
    Stands (ws ++ [(now, w)]) r ↔
      (∃ q, w = .set q ∧ readBack now q = r) ∨ w.affects r.key = false ∧ Stands ws r := by
  constructor
  · rintro ⟨before, made, q, after, hws, hr, hafter⟩
    -- The change that set the record is the last one or one of those before.
    rcases List.eq_nil_or_concat after with rfl | ⟨after, last, rfl⟩
    · obtain ⟨-, hlast⟩ := List.append_inj' hws rfl
      obtain ⟨rfl, rfl⟩ : now = made ∧ w = .set q := by simpa using hlast
      exact Or.inl ⟨q, rfl, hr⟩
    · rw [List.concat_eq_append] at hws hafter
      have hsplit : ws ++ [(now, w)] = (before ++ (made, .set q) :: after) ++ [last] := by
        simpa using hws
      obtain ⟨rfl, hlast⟩ := List.append_inj' hsplit rfl
      obtain rfl : (now, w) = last := by simpa using hlast
      have hw := hafter (now, w) (List.mem_append_right _ List.mem_cons_self)
      refine Or.inr ⟨hw, before, made, q, after, rfl, hr, fun later hlater => ?_⟩
      exact hafter later (List.mem_append_left _ hlater)
  · rintro (⟨q, rfl, hr⟩ | ⟨hw, before, made, q, after, rfl, hr, hafter⟩)
    · exact ⟨ws, now, q, [], rfl, hr, by simp⟩
    · refine ⟨before, made, q, after ++ [(now, w)], by simp, hr, fun later hlater => ?_⟩
      rcases List.mem_append.mp hlater with hlater | hlater
      · exact hafter later hlater
      · rw [List.mem_singleton.mp hlater]
        exact hw

end Trace

namespace Repository

variable {σ α : Type}

/-- Makes a change and notes it, unless it fails. -/
def traced (w : Instant × Write) (a : Action σ α) : Action (σ × Trace) α := fun fields c =>
  let o := a fields c.1
  let trace := match o.answer with
    | .ok _ => c.2 ++ [w]
    | .error _ => c.2
  ⟨o.answer, (o.state, trace), o.log⟩

/-- Reads and notes nothing. -/
def untraced (a : Action σ α) : Action (σ × Trace) α := a.on Prod.fst fun s c => (s, c.2)

/-- The same repository, with the changes noted that are made at the time `now`. -/
def tracing (now : Instant) (repo : Repository σ) : Repository (σ × Trace) where
  get origin kind := untraced (repo.get origin kind)
  set r := traced (now, .set r) (repo.set r)
  delete origin kind := traced (now, .delete origin kind) (repo.delete origin kind)
  getAll origin := untraced (repo.getAll origin)
  list := untraced repo.list
  deleteAll := traced (now, .deleteAll) repo.deleteAll
  deleteExpired time := traced (now, .deleteExpired time) (repo.deleteExpired time)
  deleteSession := traced (now, .deleteSession) repo.deleteSession

theorem simulates_traced (w : Instant × Write) (a : Action σ α) :
    (traced w a).Simulates (fun c s => c.1 = s) a := by
  rintro fields c _ rfl
  exact ⟨rfl, rfl⟩

theorem simulates_untraced (a : Action σ α) :
    (untraced a).Simulates (fun c s => c.1 = s) a := by
  rintro fields c _ rfl
  exact ⟨rfl, rfl⟩

/-- Noting the changes does not bear on what the repository does. -/
theorem simulates_tracing (now : Instant) (repo : Repository σ) :
    (repo.tracing now).Simulates (fun c s => c.1 = s) repo where
  get _ _ := simulates_untraced _
  set _ := simulates_traced _ _
  delete _ _ := simulates_traced _ _
  getAll _ := simulates_untraced _
  list := simulates_untraced _
  deleteAll := simulates_traced _ _
  deleteExpired _ := simulates_traced _ _
  deleteSession := simulates_traced _ _

end Repository

/-- What a change makes of a table. -/
def Write.onTable (now : Instant) (t : Table) : Write → Table
  | .set r => t.upsert now r
  | .delete origin kind => t.erase origin kind
  | .deleteAll => []
  | .deleteExpired time => t.filter (!·.isLapsed time)
  | .deleteSession => t.filter (!·.isSession)

namespace Store

variable {α : Type} {fields : List Field} {s : Store} {now : Instant} {t : Table} {ws : Trace}
  {r : Record}

namespace Table

theorem keyed_onTable (h : t.Keyed) (now : Instant) (w : Write) : (w.onTable now t).Keyed := by
  cases w with
  | set r => exact h.upsert now r
  | delete origin kind => exact h.filter _
  | deleteAll => exact .nil
  | deleteExpired time => exact h.filter _
  | deleteSession => exact h.filter _

theorem mem_records_upsert (h : t.Keyed) (q : Record) :
    r ∈ (t.upsert now q).records ↔ readBack now q = r ∨ q.key ≠ r.key ∧ r ∈ t.records := by
  have hread : (readBack now q).key = q.key := rfl
  unfold records
  by_cases hq : q.key ∈ t.keys
  · rw [upsert_of_mem h.keys hq, List.map_map]
    simp only [List.mem_map, Function.comp_apply]
    constructor
    · rintro ⟨row, hrow, rfl⟩
      by_cases hkey : row.key = q.key
      · exact Or.inl (by simp [Row.revised, hkey])
      · rw [Row.revised_of_ne hkey]
        exact Or.inr ⟨Ne.symm hkey, row, hrow, rfl⟩
    · rintro (rfl | ⟨hne, row, hrow, rfl⟩)
      · obtain ⟨row, hrow, hkey⟩ := List.mem_map.mp hq
        exact ⟨row, hrow, by simp [Row.revised, hkey]⟩
      · exact ⟨row, hrow, congrArg Row.record (Row.revised_of_ne (Ne.symm hne))⟩
  · rw [upsert_of_not_mem hq, List.map_append, List.mem_append]
    constructor
    · rintro (hold | hnew)
      · obtain ⟨row, hrow, rfl⟩ := List.mem_map.mp hold
        refine Or.inr ⟨fun heq => hq ?_, hold⟩
        rw [heq]
        exact List.mem_map_of_mem hrow
      · exact Or.inl (List.mem_singleton.mp hnew).symm
    · rintro (rfl | ⟨-, hold⟩)
      · exact Or.inr List.mem_cons_self
      · exact Or.inl hold

theorem mem_records_filter {p : Row → Bool} {b : Bool}
    (hp : ∀ row : Row, row.record = r → p row = b) :
    r ∈ Table.records (t.filter (!p ·)) ↔ b = false ∧ r ∈ t.records := by
  unfold records
  simp only [List.mem_map, List.mem_filter]
  constructor
  · rintro ⟨row, ⟨hrow, hkeep⟩, hr⟩
    refine ⟨?_, row, hrow, hr⟩
    rw [← hp row hr]
    simpa using hkeep
  · rintro ⟨hb, row, hrow, hr⟩
    exact ⟨row, ⟨hrow, by simp [hp row hr, hb]⟩, hr⟩

/-- The decisions of a session after a change: the one that it set, and those it does not affect. -/
theorem mem_records_onTable (h : t.Keyed) (hr : r.expiry = .session) (w : Write) :
    r ∈ Table.records (w.onTable now t) ↔
      (∃ q, w = .set q ∧ readBack now q = r) ∨ w.affects r.key = false ∧ r ∈ t.records := by
  cases w with
  | set q => simpa [Write.onTable, Write.affects] using mem_records_upsert h q
  | delete origin kind =>
    have hkey : ∀ row : Row, row.record = r →
        row.hasKey origin kind = decide ((origin, kind) = r.key) := by
      rintro row rfl
      rw [Bool.eq_iff_iff, Row.hasKey_iff_key, decide_eq_true_iff, Row.key_record]
      exact eq_comm
    simpa [Write.onTable, erase, Write.affects] using mem_records_filter hkey
  | deleteAll => simp [Write.onTable, Write.affects, records]
  | deleteExpired time =>
    have hlapsed : ∀ row : Row, row.record = r → row.isLapsed time = false := by
      rintro row rfl
      have hsession : row.expiry = .session := hr
      simp [Row.isLapsed, hsession, Expiry.session, Expiry.timed]
    simpa [Write.onTable, Write.affects] using mem_records_filter hlapsed
  | deleteSession =>
    have hsession : ∀ row : Row, row.record = r → row.isSession = true := by
      rintro row rfl
      exact decide_eq_true hr
    simpa [Write.onTable, Write.affects] using mem_records_filter hsession

/-- The decisions of a session in the table are those that stand. -/
def Shows (t : Table) (ws : Trace) : Prop :=
  ∀ r, r.expiry = .session → (r ∈ t.records ↔ ws.Stands r)

theorem shows_nil (h : ∀ row ∈ t, row.isSession = false) : t.Shows [] := by
  intro r hr
  refine ⟨fun hmem => ?_, fun hstands => absurd hstands Trace.not_stands_nil⟩
  obtain ⟨row, hrow, rfl⟩ := List.mem_map.mp hmem
  have hsession : row.isSession = true := decide_eq_true hr
  rw [h row hrow] at hsession
  cases hsession

theorem Shows.onTable (h : t.Shows ws) (hkeyed : t.Keyed) (now : Instant) (w : Write) :
    Table.Shows (w.onTable now t) (ws ++ [(now, w)]) := by
  intro r hr
  rw [mem_records_onTable hkeyed hr, Trace.stands_concat, h r hr]

end Table

/-- A handle through which the changes were made. -/
inductive Follows (s : Store) (ws : Trace) : Prop where
  | waiting (waiting : s.Waiting) (keyed : s.Keyed) (nothing : ws = [])
  | serving (t : Table) (ready : s.Ready t) (prepared : s.Prepared t) (keyed : t.Keyed)
      (shows : t.Shows ws)

theorem Prepared.withTable (h : s.Prepared t) (t' : Table) : (s.withTable t').Prepared t' := by
  obtain ⟨d, hfile, hmigrated⟩ := h.migrated
  simp only [Store.withTable, hfile]
  exact ⟨h.path, h.obstacle, _, rfl, hmigrated.versions, rfl⟩

section Follows

variable [SuffixList]

/-- A handle that follows its changes can be opened, or it fails and nothing was changed so far. -/
theorem Follows.acquire_cases (h : Follows s ws) (fields : List Field) (now : Instant) :
    (∃ s₁ t, (acquire now).Gives fields s () s₁ ∧ s₁.Ready t ∧ s₁.Prepared t ∧ t.Keyed ∧
        t.Shows ws) ∨
      ws = [] ∧ ∃ e, (acquire now fields s).answer = .error e ∧
        Follows (acquire now fields s).state ws := by
  cases h with
  | waiting hwaiting hkeyed hws =>
    rcases hwaiting.acquire_cases hkeyed fields now with
      ⟨s₁, t, hacquire, hready, hprepared, hkeyed', hsession⟩ | ⟨e, hanswer, hwaiting', hkeyed'⟩
    · rw [hws]
      exact Or.inl ⟨s₁, t, hacquire, hready, hprepared, hkeyed', Table.shows_nil hsession⟩
    · exact Or.inr ⟨hws, e, hanswer, .waiting hwaiting' hkeyed' hws⟩
  | serving t hready hprepared hkeyed hshows =>
    have hacquire : (acquire now).Gives fields s () s :=
      gives_acquire_of_opened hready.opened hready.notClosed
    exact Or.inl ⟨s, t, hacquire, hready, hprepared, hkeyed, hshows⟩

theorem serve_of_error {before : Action Store Unit} {f : Table → α × Table} {e : Failure}
    (h : (acquire now fields s).answer = .error e) :
    (serve now before f fields s).answer = .error e ∧
      (serve now before f fields s).state = (acquire now fields s).state := by
  unfold serve
  rw [Action.answer_bind, Action.state_bind, h]
  exact ⟨rfl, rfl⟩

/-- One step: an operation does its work on the table, or it fails and changes nothing. -/
theorem Follows.serve_cases {ws' : Trace} {before : Action Store Unit} {f : Table → α × Table}
    (h : Follows s ws) (now : Instant) (hbefore : ∀ s, before.Gives fields s () s)
    (hf : ∀ t : Table, t.Keyed → t.Shows ws → (f t).2.Keyed ∧ (f t).2.Shows ws') :
    (∃ x s', (serve now before f).Gives fields s x s' ∧ Follows s' ws') ∨
      ∃ e, (serve now before f fields s).answer = .error e ∧
        Follows (serve now before f fields s).state ws := by
  rcases h.acquire_cases fields now with
    ⟨s₁, t, hacquire, hready, hprepared, hkeyed, hshows⟩ | ⟨-, e, hanswer, hstate⟩
  · obtain ⟨hkeyed', hshows'⟩ := hf t hkeyed hshows
    have hserve := gives_serve (f := f) hacquire hready (hbefore s₁)
    refine Or.inl ⟨_, _, hserve, ?_⟩
    exact .serving (f t).2 (hready.withTable _) (hprepared.withTable _) hkeyed' hshows'
  · obtain ⟨hfails, hleaves⟩ : (serve now before f fields s).answer = .error e ∧
        (serve now before f fields s).state = (acquire now fields s).state := serve_of_error hanswer
    refine Or.inr ⟨e, hfails, ?_⟩
    rw [hleaves]
    exact hstate

theorem follows_untraced {before : Action Store Unit} {f : Table → α × Table}
    (hbefore : ∀ fields s, before.Gives fields s () s) (hread : ∀ t, (f t).2 = t) :
    (Repository.untraced (serve now before f)).Keeps fun c => Follows c.1 c.2 := by
  intro fields c h
  have hf : ∀ t : Table, t.Keyed → t.Shows c.2 → (f t).2.Keyed ∧ (f t).2.Shows c.2 := by
    intro t hkeyed hshows
    rw [hread t]
    exact ⟨hkeyed, hshows⟩
  rcases h.serve_cases now (hbefore fields) hf with ⟨x, s', hserve, hs'⟩ | ⟨e, -, hs'⟩
  · change Follows (serve now before f fields c.1).state c.2
    rw [hserve.state]
    exact hs'
  · exact hs'

theorem follows_traced {w : Write} {before : Action Store Unit} {f : Table → α × Table}
    (hbefore : ∀ fields s, before.Gives fields s () s) (hwrite : ∀ t, (f t).2 = w.onTable now t) :
    (Repository.traced (now, w) (serve now before f)).Keeps fun c => Follows c.1 c.2 := by
  intro fields c h
  have hf : ∀ t : Table, t.Keyed → t.Shows c.2 →
      (f t).2.Keyed ∧ (f t).2.Shows (c.2 ++ [(now, w)]) := by
    intro t hkeyed hshows
    rw [hwrite t]
    exact ⟨Table.keyed_onTable hkeyed now w, hshows.onTable hkeyed now w⟩
  unfold Repository.traced
  rcases h.serve_cases now (hbefore fields) hf with ⟨x, s', hserve, hs'⟩ | ⟨e, hanswer, hs'⟩
  · simp only [hserve.answer, hserve.state]
    exact hs'
  · simp only [hanswer]
    exact hs'

/-- No operation lets the table and the changes that were made diverge. -/
theorem follows_tracing (now : Instant) :
    ((repository now).tracing now).Keeps fun c => Follows c.1 c.2 where
  get _ _ := follows_untraced (.emit _ _ _) fun _ => rfl
  set _ := follows_traced (.emit _ _ _) fun _ => rfl
  delete _ _ := follows_traced (.emit _ _ _) fun _ => rfl
  getAll _ := follows_untraced (.emit _ _ _) fun _ => rfl
  list := follows_untraced (.pure ()) fun _ => rfl
  deleteAll := follows_traced (.emit _ _ _) fun _ => rfl
  deleteExpired _ := follows_traced (.pure ()) fun _ => rfl
  deleteSession := follows_traced (.pure ()) fun _ => rfl

end Follows

end Store

end Consent

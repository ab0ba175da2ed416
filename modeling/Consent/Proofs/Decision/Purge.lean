import Consent.Proofs.Decision.Standing
import Consent.Proofs.Decision.Use
import Consent.Proofs.Request
import Consent.Proofs.Store.Ledger

/-! Purging takes out what has lapsed, and no later answer shows that it was done. -/

namespace Consent

open Host Log Store

theorem Record.isExpired_of_le {r : Record} {time later : Instant} (h : time ≤ later)
    (hr : r.isExpired time = true) : r.isExpired later = true := by
  unfold Record.isExpired at hr ⊢
  rw [Bool.and_eq_true, Bool.not_eq_true', decide_eq_false_iff_not] at hr ⊢
  exact ⟨hr.1, fun hlt => hr.2 (Int.lt_of_le_of_lt h hlt)⟩

namespace Store

/-- A row lapses when its decision does: a number that stands for no time is before every time since
the start of the numbers. -/
theorem Row.isLapsed_eq_isExpired {time : Instant} (h : 0 ≤ time.millis) (row : Row) :
    row.isLapsed time = row.record.isExpired time := by
  have hexpiry : row.record.expiry = row.expiry := rfl
  unfold Row.isLapsed Record.isExpired
  rw [hexpiry]
  congr 1
  rw [Bool.eq_iff_iff, Bool.not_eq_true', decide_eq_true_iff, decide_eq_false_iff_not]
  by_cases hunset : row.expireMillis ≤ 0
  · have hrecord : row.record.expireAt = .unset := if_pos hunset
    have hbefore : ¬time < row.record.expireAt := by
      rw [hrecord]
      intro hlt
      have hlt : time.nanos < -62135596800000000000 := hlt
      rw [Instant.millis_nonneg_iff] at h
      omega
    exact iff_of_true (by omega) hbefore
  · have hrecord : row.record.expireAt = .atMillis row.expireMillis := if_neg hunset
    rw [hrecord, Instant.lt_atMillis_iff]
    exact Int.not_lt.symm

namespace Table

variable {t : Table} {time later : Instant}

/-- The rows whose decisions have not lapsed. -/
def unlapsed (t : Table) (time : Instant) : Table := t.filter fun row => !row.record.isExpired time

/-- Where no key has two rows, dropping what has lapsed by a time does not change what stands at
that time. -/
theorem standing?_filter (h : t.Keyed) {q : Row → Bool}
    (hq : ∀ row, q row = false → row.record.isExpired later = true) (origin : String)
    (kind : Kind) :
    Table.standing? (t.filter q) later origin kind = t.standing? later origin kind := by
  have hkeyed : Table.Keyed (t.filter q) := h.filter q
  refine Option.ext fun r => ?_
  unfold standing?
  rw [Option.filter_eq_some_iff, Option.filter_eq_some_iff, decision?_eq_some_iff hkeyed,
    decision?_eq_some_iff h]
  unfold records
  constructor
  · rintro ⟨⟨hkey, hr⟩, hlive⟩
    exact ⟨⟨hkey, (List.filter_sublist.map Row.record).subset hr⟩, hlive⟩
  · rintro ⟨⟨hkey, hr⟩, hlive⟩
    obtain ⟨row, hrow, rfl⟩ := List.mem_map.mp hr
    have hkept : q row = true := by
      cases hrow : q row with
      | true => rfl
      | false => simp [hq row hrow] at hlive
    exact ⟨⟨hkey, List.mem_map_of_mem (List.mem_filter.mpr ⟨hrow, hkept⟩)⟩, hlive⟩

theorem standing?_unlapsed (h : t.Keyed) (hle : time ≤ later) (origin : String) (kind : Kind) :
    (t.unlapsed time).standing? later origin kind = t.standing? later origin kind := by
  refine standing?_filter h (fun row hrow => ?_) origin kind
  exact Record.isExpired_of_le hle (by simpa using hrow)

/-- A selection that takes nothing lapsed takes the same from what is left. -/
theorem filter_map_record_unlapsed {q : Record → Bool} (p : Row → Bool)
    (h : ∀ r, r.isExpired time = true → q r = false) :
    (((t.unlapsed time).filter p).map Row.record).filter q =
      ((t.filter p).map Row.record).filter q := by
  unfold unlapsed
  rw [List.filter_map, List.filter_map, List.filter_filter, List.filter_filter, List.filter_filter]
  congr 1
  refine List.filter_congr fun row _ => ?_
  cases hlapsed : row.record.isExpired time with
  | true => simp [h _ hlapsed]
  | false => simp

end Table

end Store

namespace Request

/-- How a request ends that was looked up and, where that settles nothing, is answered. -/
def resolved (reply : Option (Except Failure Answer)) : Except Failure Verdict → Resolution
  | .error e => { state := .block, cause := some e }
  | .ok v =>
    if v.state ∈ State.settled then { state := v.state }
    else
      match reply with
      | some (.ok answer) => { state := answer.state }
      | _ => { state := .block }

/-- A request ends as the lookup and the answer say, whether or not the answer could be stored. -/
theorem answer_handle_replying [SuffixList] {σ : Type} {p : Policy} {repo : Repository σ}
    {raw : String} (hraw : raw ≠ "") (reply : Option (Except Failure Answer)) (kind : Kind)
    (s : σ) :
    ((handle p repo (replying reply) raw kind).run s).answer =
      .ok (resolved reply (Decision.get p repo raw kind (context raw) s).answer) := by
  cases hlooked : (Decision.get p repo raw kind (context raw) s).answer with
  | error e => exact (gives_handle_of_error hraw hlooked).answer
  | ok v =>
    have hget : (Decision.get p repo raw kind).Gives (context raw) s v _ := ⟨hlooked, rfl⟩
    by_cases hv : v.state ∈ State.settled
    · simp only [resolved, if_pos hv]
      exact (gives_handle_of_settled hget hv).answer
    · simp only [resolved, if_neg hv]
      cases reply with
      | none => exact (gives_handle_of_ask hget hv (gives_ask_of_none _)).answer
      | some answer =>
        cases answer with
        | error e => exact (gives_handle_of_ask hget hv (gives_ask_of_failed rfl)).answer
        | ok answer => exact (gives_handle_of_ask hget hv (gives_ask_of_answer ⟨rfl, rfl⟩)).answer

end Request

namespace Decision

section Purge

variable [SuffixList] {fields : List Field} {s s' : Store} {t t' : Table} {p : Policy}
  {now time : Instant} {raw : String} {kind : Kind}

/-- Lookups see of a store only what stands in its table. -/
theorem answer_get_congr (hs : s.Opens t) (hs' : s'.Opens t')
    (h : ∀ origin, t.standing? p.now origin kind = t'.standing? p.now origin kind) :
    (get p (repository now) raw kind fields s).answer =
      (get p (repository now) raw kind fields s').answer := by
  cases hparse : Origin.parse raw with
  | error e =>
    unfold get
    rw [hparse]
    cases e <;> rfl
  | ok o =>
    obtain ⟨s₁, hacquire, hready⟩ := hs fields now
    obtain ⟨s₁', hacquire', hready'⟩ := hs' fields now
    rw [(gives_get_nearest hparse hacquire hready).answer,
      (gives_get_nearest hparse hacquire' hready').answer, nearest_congr fun c _ => h c.key]

theorem answer_getAll (hs : s.Opens t) :
    (getAll p (repository now) raw fields s).answer = match Origin.parse raw with
      | .ok o => .ok (((t.recordsAt o.key).filter (isListed p)).map .ofRecord)
      | .error (.unsupportedScheme _) => .ok []
      | .error e => .error (.origin e) := by
  unfold getAll
  cases hparse : Origin.parse raw with
  | error e => cases e <;> rfl
  | ok o =>
    obtain ⟨s₁, hserve, -⟩ := hs.gives_serve (.emit _ _ _ fields) now
      fun t => (t.recordsAt o.key, t)
    have hgetAll : ((repository now).getAll o.key).Gives fields s (t.recordsAt o.key) s₁ := hserve
    dsimp only
    rw [Action.answer_bind, Action.answer_during, hgetAll.answer]
    rfl

theorem answer_all (hs : s.Opens t) :
    (all p (repository now) fields s).answer = .ok (t.records.filter (!·.isExpired p.now)) := by
  obtain ⟨s₁, hserve, -⟩ := hs.gives_serve (.pure () fields) now fun t => (t.records, t)
  have hlist : (repository now).list.Gives fields s t.records s₁ := hserve
  unfold all
  rw [Action.answer_bind, hlist.answer]
  rfl

theorem gives_purgeExpired (hs : s.Opens t) (htime : 0 ≤ time.millis) (fields : List Field)
    (now : Instant) :
    ∃ s', (purgeExpired (repository now) time).Gives fields s
        (t.filter fun row => row.record.isExpired time).length s' ∧
      s'.Ready (t.unlapsed time) := by
  obtain ⟨s', hserve, hready⟩ := hs.gives_serve (.pure () fields) now fun t =>
    ((t.filter (·.isLapsed time)).length, t.filter (!·.isLapsed time))
  have hdelete : ((repository now).deleteExpired time).Gives fields s
      (t.filter (·.isLapsed time)).length s' := hserve
  simp only [Row.isLapsed_eq_isExpired htime] at hdelete hready
  refine ⟨s', (hdelete.during .purge).bind ?_, hready⟩
  split
  · exact .logged (.pure _ _ _)
  · exact .pure _ _ _

/-- Purging a store takes out exactly the rows whose decisions have lapsed, counts them and keeps
the others in order. From that time on, no lookup, no list and no request is answered otherwise
than it would have been without the purge. -/
theorem purgeExpired_unobservable (hs : s.Opens t) (ht : t.Keyed) (htime : 0 ≤ time.millis)
    (fields : List Field) (now : Instant) :
    ∃ s', (purgeExpired (repository now) time).Gives fields s
        (t.filter fun row => row.record.isExpired time).length s' ∧
      s'.Ready (t.filter fun row => !row.record.isExpired time) ∧
      ∀ p : Policy, time ≤ p.now → ∀ later,
        (∀ raw kind, ((get p (repository later) raw kind).run s').answer =
          ((get p (repository later) raw kind).run s).answer) ∧
        (∀ raw, ((getAll p (repository later) raw).run s').answer =
          ((getAll p (repository later) raw).run s).answer) ∧
        ((all p (repository later)).run s').answer = ((all p (repository later)).run s).answer ∧
        ∀ reply raw kind,
          ((Request.handle p (repository later) (Request.replying reply) raw kind).run s').answer =
            ((Request.handle p (repository later) (Request.replying reply) raw kind).run
              s).answer := by
  obtain ⟨s', hpurge, hready⟩ := gives_purgeExpired hs htime fields now
  refine ⟨s', hpurge, hready, fun p hle later => ?_⟩
  have hget : ∀ fields raw kind, (get p (repository later) raw kind fields s').answer =
      (get p (repository later) raw kind fields s).answer := fun fields raw kind =>
    answer_get_congr hready.opens hs fun origin => Table.standing?_unlapsed ht hle origin kind
  -- Nothing that has lapsed by then is listed.
  have hlapsed : ∀ r : Record, r.isExpired time = true → r.isExpired p.now = true :=
    fun r => Record.isExpired_of_le hle
  have hlisted : ∀ r : Record, r.isExpired time = true → isListed p r = false := by
    intro r hr
    simp [isListed, hlapsed r hr]
  refine ⟨fun raw kind => hget [] raw kind, fun raw => ?_, ?_, fun reply raw kind => ?_⟩
  · unfold Action.run
    rw [answer_getAll hready.opens, answer_getAll hs]
    simp only [Table.recordsAt, Table.filter_map_record_unlapsed _ hlisted]
  · unfold Action.run
    rw [answer_all hready.opens, answer_all hs]
    have hshown : ∀ r : Record, r.isExpired time = true → (!r.isExpired p.now) = false := by
      intro r hr
      simp [hlapsed r hr]
    have hrecords := Table.filter_map_record_unlapsed (t := t) (fun _ => true) hshown
    simpa [Table.records] using hrecords
  · by_cases hraw : raw = ""
    · subst hraw
      rw [Action.run, Action.run, (Request.gives_handle_of_empty _).answer,
        (Request.gives_handle_of_empty _).answer]
    · rw [Request.answer_handle_replying hraw, Request.answer_handle_replying hraw, hget]

end Purge

/-- Timed decisions without a time, with one before all times, at the time of the purge and after
it, and a decision that does not lapse. -/
def timedTable : Table := [
  ⟨1, "https://a.example", "popup", .allow, .timed, 0, 5⟩,
  ⟨2, "https://b.example", "popup", .allow, .timed, -7, 5⟩,
  ⟨4, "https://c.example", "popup", .allow, .timed, 1000, 5⟩,
  ⟨5, "https://d.example", "popup", .allow, .timed, 1001, 5⟩,
  ⟨9, "https://a.example", "camera", .block, .never, 0, 5⟩]

/-- An open store with these decisions. -/
def timedStore : Store where
  path := "permissions.db"
  file := .database { perms := some timedTable, versions := some [0, 1, 2, 3] }
  connection := .ready
  opened := true

/-- At the time itself a decision has lapsed, and one without a time has lapsed at any time. -/
theorem purgeExpired_unobservable_boundary :
    ∃ s', (purgeExpired (repository (.atMillis 1000)) (.atMillis 1000)).Gives [] timedStore 3 s' ∧
      s'.Ready (timedTable.drop 3) ∧
      ∀ p : Policy, Instant.atMillis 1000 ≤ p.now → ((all p (repository p.now)).run s').answer =
        ((all p (repository p.now)).run timedStore).answer := by
  have hready : timedStore.Ready timedTable := ⟨rfl, rfl, _, rfl, rfl⟩
  have hkeyed : timedTable.Keyed := ⟨by decide, by decide⟩
  have htime : 0 ≤ (Instant.atMillis 1000).millis := by decide
  obtain ⟨s', hpurge, hleft, hlater⟩ :=
    purgeExpired_unobservable hready.opens hkeyed htime [] (.atMillis 1000)
  exact ⟨s', hpurge, hleft, fun p hle => (hlater p hle p.now).2.2.1⟩

end Decision

end Consent

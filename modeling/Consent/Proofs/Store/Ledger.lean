import Mathlib.Data.List.Basic
import Consent.Proofs.Store.Keyed
import Consent.Proofs.Store.Migration

/-! A store is a map from origin and kind to decision that keeps the order in which its keys were
put in. -/

namespace Consent

open Host Log

namespace Record

/-- The time up to which the record holds is not given or lies after the start of 1970. -/
def Timely (r : Record) : Prop := r.expireAt = .unset ∨ 0 < r.expireAt.nanos

/-- The record as a store keeps it: its times are cut to the millisecond, and one without a time of
change was changed at the time of the call. -/
def stamped (now : Instant) (r : Record) : Record :=
  { r with
    expireAt := r.expireAt.cut
    modified := (if r.modified = .unset then now else r.modified).cut }

/-- Whether the record is a timed decision whose time is not after `time`. One without a time
lapsed at the start of 1970. -/
def hasLapsed (time : Instant) (r : Record) : Bool :=
  r.expiry = .timed && if r.expireAt = .unset then 0 ≤ time.millis else r.expireAt ≤ time

@[simp] theorem key_stamped (now : Instant) (r : Record) : (r.stamped now).key = r.key := rfl

end Record

/-- Decisions by their keys, in the order in which the keys were put in. -/
structure Ledger where
  entries : List Record
  distinct : (entries.map Record.key).Nodup

namespace Ledger

def empty : Ledger := ⟨[], .nil⟩

/-- Puts a decision in the place of the one with its key, or at the end if there is none. -/
def put (m : Ledger) (r : Record) : Ledger where
  entries :=
    if r.key ∈ m.entries.map Record.key then m.entries.map r.over else m.entries ++ [r]
  distinct := by
    split
    · have hkeys : (m.entries.map r.over).map Record.key = m.entries.map Record.key := by
        rw [List.map_map]
        exact List.map_congr_left fun q _ => r.key_over q
      rw [hkeys]
      exact m.distinct
    · rename_i hr
      rw [List.map_append, List.nodup_append]
      refine ⟨m.distinct, by simp, fun key hkey new hnew heq => hr ?_⟩
      rwa [← List.mem_singleton.mp hnew, ← heq]

theorem entries_put_of_mem {m : Ledger} {r : Record} (h : r.key ∈ m.entries.map Record.key) :
    (m.put r).entries = m.entries.map r.over := if_pos h

theorem entries_put_of_not_mem {m : Ledger} {r : Record} (h : r.key ∉ m.entries.map Record.key) :
    (m.put r).entries = m.entries ++ [r] := if_neg h

/-- Drops the decisions of `p`. -/
def drop (m : Ledger) (p : Record → Bool) : Ledger where
  entries := m.entries.filter (!p ·)
  distinct := (List.filter_sublist.map Record.key).nodup m.distinct

end Ledger

/-- A change that a repository is asked for. -/
inductive Write where
  | set (r : Record)
  | delete (origin : String) (kind : Kind)
  | deleteAll
  | deleteExpired (time : Instant)
  | deleteSession

namespace Write

/-- Asks a repository for the change. The last two tell how many decisions they deleted. -/
def make {σ : Type} (repo : Repository σ) : Write → Action σ (Option Nat)
  | .set r => do
    repo.set r
    pure none
  | .delete origin kind => do
    repo.delete origin kind
    pure none
  | .deleteAll => do
    repo.deleteAll
    pure none
  | .deleteExpired time => do
    let n ← repo.deleteExpired time
    pure (some n)
  | .deleteSession => do
    let n ← repo.deleteSession
    pure (some n)

/-- What the change makes of a ledger at the time `now`. -/
def apply (now : Instant) (m : Ledger) : Write → Ledger
  | .set r => m.put (r.stamped now)
  | .delete origin kind => m.drop fun r => r.origin = origin && r.kind = kind
  | .deleteAll => .empty
  | .deleteExpired time => m.drop (·.hasLapsed time)
  | .deleteSession => m.drop (·.expiry = .session)

/-- The answer to the change: the bulk deletions count the entries that they removed. -/
def reply (now : Instant) (m : Ledger) (w : Write) : Option Nat :=
  match w with
  | .deleteExpired _ | .deleteSession =>
    some (m.entries.length - (w.apply now m).entries.length)
  | _ => none

/-- The records of the changes have proper times. -/
def Timely : Write → Prop
  | .set r => r.Timely
  | _ => True

/-- Asks a store for changes one after another, each at its own time. -/
def makeAll [SuffixList] : List (Instant × Write) → Action Store (List (Option Nat))
  | [] => pure []
  | (now, w) :: rest => do
    let n ← w.make (Store.repository now)
    let ns ← makeAll rest
    pure (n :: ns)

/-- What changes make of a ledger. -/
def applyAll (m : Ledger) : List (Instant × Write) → Ledger
  | [] => m
  | (now, w) :: rest => applyAll (w.apply now m) rest

/-- The answers to changes. -/
def replies (m : Ledger) : List (Instant × Write) → List (Option Nat)
  | [] => []
  | (now, w) :: rest => w.reply now m :: replies (w.apply now m) rest

end Write

namespace Store

variable {fields : List Field} {s : Store} {now : Instant} {t : Table} {m : Ledger} {r : Record}

theorem toMillis_nonneg (h : r.Timely) : 0 ≤ toMillis r.expireAt := by
  unfold toMillis
  split
  · exact Int.le_refl 0
  · rename_i hne
    exact Instant.millis_nonneg_iff.mpr (Int.le_of_lt (h.resolve_left hne))

theorem readBack_eq_stamped (now : Instant) (r : Record) : readBack now r = r.stamped now := by
  have hrecord : readBack now r = { r with
      expireAt := ofMillis (toMillis r.expireAt)
      modified := ofMillis (if r.modified = .unset then now.millis else r.modified.millis) } := rfl
  have hmodified : (if r.modified = .unset then now.millis else r.modified.millis) =
      (if r.modified = .unset then now else r.modified).millis := by
    split <;> rfl
  rw [hrecord, ofMillis_toMillis, hmodified, ofMillis_millis, Record.stamped]

/-- A table with ascending ids that holds the entries of a ledger in order. -/
structure Represents (t : Table) (m : Ledger) : Prop where
  ids : t.Pairwise fun a b => a.id < b.id
  records : t.records = m.entries
  expiry : ∀ row ∈ t, 0 ≤ row.expireMillis

namespace Represents

theorem empty : Represents [] .empty := ⟨.nil, rfl, fun _ h => by cases h⟩

theorem keys_eq (h : Represents t m) : t.keys = m.entries.map Record.key := by
  rw [← h.records, Table.records, List.map_map]
  rfl

theorem keyed (h : Represents t m) : t.Keyed := ⟨h.ids, h.keys_eq ▸ m.distinct⟩

theorem length_eq (h : Represents t m) : m.entries.length = t.length := by
  rw [← h.records, Table.records, List.length_map]

theorem put (h : Represents t m) (hr : r.Timely) (now : Instant) :
    Represents (t.upsert now r) (m.put (r.stamped now)) := by
  have hrow : ∀ id, 0 ≤ (Row.ofRecord id now r).expireMillis := fun id =>
    toMillis_nonneg hr
  by_cases hmem : r.key ∈ t.keys
  · have hmem' : (r.stamped now).key ∈ m.entries.map Record.key := by
      rwa [Record.key_stamped, ← h.keys_eq]
    rw [Table.upsert_of_mem h.keyed.keys hmem]
    refine ⟨Table.ids_map Row.id_revised h.ids, ?_, ?_⟩
    · rw [Ledger.entries_put_of_mem hmem', ← h.records, Table.records, Table.records,
        List.map_map, List.map_map]
      refine List.map_congr_left fun row _ => ?_
      by_cases hkey : row.key = r.key
      · simp [Row.revised, Record.over, hkey, readBack_eq_stamped]
      · simp [Row.revised, Record.over, hkey]
    · intro row hmem
      obtain ⟨old, hold, rfl⟩ := List.mem_map.mp hmem
      unfold Row.revised
      split
      · exact hrow old.id
      · exact h.expiry old hold
  · have hmem' : (r.stamped now).key ∉ m.entries.map Record.key := by
      rwa [Record.key_stamped, ← h.keys_eq]
    have hkeyed := h.keyed.upsert now r
    rw [Table.upsert_of_not_mem hmem] at hkeyed ⊢
    refine ⟨hkeyed.ids, ?_, ?_⟩
    · rw [Ledger.entries_put_of_not_mem hmem', ← h.records, ← readBack_eq_stamped]
      exact List.map_append
    · intro row hrow'
      rcases List.mem_append.mp hrow' with hrow' | hrow'
      · exact h.expiry row hrow'
      · rw [List.mem_singleton.mp hrow']
        exact hrow t.nextId

theorem drop (h : Represents t m) {p : Row → Bool} {q : Record → Bool}
    (hpq : ∀ row ∈ t, p row = q row.record) :
    Represents (t.filter (!p ·)) (m.drop q) := by
  refine ⟨h.ids.filter _, ?_, fun row hrow => h.expiry row (List.mem_filter.mp hrow).1⟩
  simp only [Ledger.drop, ← h.records, Table.records, List.filter_map]
  congr 1
  refine List.filter_congr fun row hrow => ?_
  rw [hpq row hrow]
  rfl

end Represents

theorem Row.isLapsed_eq {row : Row} (h : 0 ≤ row.expireMillis) (time : Instant) :
    row.isLapsed time = row.record.hasLapsed time := by
  unfold Row.isLapsed Record.hasLapsed
  by_cases hzero : row.expireMillis = 0
  · simp [Row.record, ofMillis, hzero]
  · have hpos : 0 < row.expireMillis := by omega
    have hset : Instant.atMillis row.expireMillis ≠ .unset := Instant.atMillis_ne_unset hpos
    simp only [Row.record, ofMillis, if_neg (Int.not_le.mpr hpos), if_neg hset,
      Instant.atMillis_le_iff]

theorem length_filter_eq_sub {α : Type} (p : α → Bool) (l : List α) :
    (l.filter p).length = l.length - (l.filter (!p ·)).length := by
  have := l.length_eq_length_filter_add p
  omega

/-- One step: a change of the store is the change of the ledger. -/
theorem make_refines [SuffixList] (hs : s.Opens t) (h : Represents t m) (fields : List Field)
    (now : Instant) {w : Write} (hw : w.Timely) :
    ∃ s' t', (w.make (repository now)).Gives fields s (w.reply now m) s' ∧ s'.Opens t' ∧
      Represents t' (w.apply now m) := by
  cases w with
  | set r =>
    obtain ⟨s', hserve, hready⟩ := hs.gives_serve (.emit _ _ _ fields) now
      fun t => ((), t.upsert now r)
    exact ⟨s', _, hserve.bind ⟨rfl, rfl⟩, hready.opens, h.put hw now⟩
  | delete origin kind =>
    obtain ⟨s', hserve, hready⟩ := hs.gives_serve (.emit _ _ _ fields) now
      fun t => ((), t.erase origin kind)
    exact ⟨s', _, hserve.bind ⟨rfl, rfl⟩, hready.opens, h.drop fun _ _ => rfl⟩
  | deleteAll =>
    obtain ⟨s', hserve, hready⟩ := hs.gives_serve (.emit _ _ _ fields) now
      fun _ => ((), [])
    exact ⟨s', _, hserve.bind ⟨rfl, rfl⟩, hready.opens, .empty⟩
  | deleteExpired time =>
    obtain ⟨s', hserve, hready⟩ := hs.gives_serve (.pure () fields) now fun t =>
      ((t.filter (·.isLapsed time)).length, t.filter (!·.isLapsed time))
    have hdrop := h.drop fun row hrow => Row.isLapsed_eq (h.expiry row hrow) time
    refine ⟨s', _, hserve.bind ⟨?_, rfl⟩, hready.opens, hdrop⟩
    have hcount := length_filter_eq_sub (Row.isLapsed time) t
    simp [Write.reply, Write.apply, hdrop.length_eq, h.length_eq, hcount]
  | deleteSession =>
    obtain ⟨s', hserve, hready⟩ := hs.gives_serve (.pure () fields) now fun t =>
      ((t.filter Row.isSession).length, t.filter (!·.isSession))
    have hdrop : Represents (t.filter (!·.isSession)) (m.drop (·.expiry = .session)) :=
      h.drop fun _ _ => rfl
    refine ⟨s', _, hserve.bind ⟨?_, rfl⟩, hready.opens, hdrop⟩
    have hcount := length_filter_eq_sub Row.isSession t
    simp [Write.reply, Write.apply, hdrop.length_eq, h.length_eq, hcount]

/-- The run: changes of the store, one after another, are the changes of the ledger. -/
theorem makeAll_refines [SuffixList] (hs : s.Opens t) (h : Represents t m) (fields : List Field)
    (ws : List (Instant × Write)) (hws : ∀ w ∈ ws, w.2.Timely) :
    ∃ s' t', (Write.makeAll ws).Gives fields s (Write.replies m ws) s' ∧ s'.Opens t' ∧
      Represents t' (Write.applyAll m ws) := by
  induction ws generalizing s t m with
  | nil => exact ⟨s, t, ⟨rfl, rfl⟩, hs, h⟩
  | cons w rest ih =>
    obtain ⟨now, w⟩ := w
    have hw : w.Timely := hws (now, w) List.mem_cons_self
    have hrest : ∀ w' ∈ rest, w'.2.Timely := fun w' hw' => hws w' (List.mem_cons_of_mem _ hw')
    obtain ⟨s₁, t₁, hmake, hs₁, h₁⟩ := make_refines hs h fields now hw
    obtain ⟨s₂, t₂, hmakeAll, hs₂, h₂⟩ := ih hs₁ h₁ hrest
    exact ⟨s₂, t₂, hmake.bind (hmakeAll.bind ⟨rfl, rfl⟩), hs₂, h₂⟩

/-- Reading from a store is reading from the ledger that its table represents. -/
theorem reads_of_represents [SuffixList] (hs : s.Opens t) (h : Represents t m) (now : Instant) :
    ((repository now).list.run s).answer = .ok m.entries ∧
      (∀ origin kind, (((repository now).get origin kind).run s).answer =
        .ok (m.entries.find? fun r => r.origin = origin && r.kind = kind)) ∧
      ∀ origin, (((repository now).getAll origin).run s).answer =
        .ok (m.entries.filter (·.origin = origin)) := by
  refine ⟨?_, fun origin kind => ?_, fun origin => ?_⟩
  · obtain ⟨_, hserve, -⟩ := hs.gives_serve (.pure () []) now fun t => (t.records, t)
    rw [← h.records]
    exact hserve.answer
  · obtain ⟨_, hserve, -⟩ := hs.gives_serve (.emit _ _ _ []) now
      fun t => ((t.find? origin kind).map Row.record, t)
    rw [← h.records, Table.records, List.find?_map]
    exact hserve.answer
  · obtain ⟨_, hserve, -⟩ := hs.gives_serve (.emit _ _ _ []) now fun t => (t.recordsAt origin, t)
    rw [← h.records, Table.records, List.filter_map]
    exact hserve.answer

/-- From an empty store on, any changes are answered and kept as an insertion-ordered map would do
whose records have their times cut to the millisecond: the list of decisions, the lookup of one and
the decisions of an origin are those of the map, the ids ascend, no key has two rows, and the bulk
deletions count what they removed. -/
theorem repository_refines_ledger [SuffixList] (hs : s.Opens []) (ws : List (Instant × Write))
    (hws : ∀ w ∈ ws, w.2.Timely) :
    let o := (Write.makeAll ws).run s
    let m := Write.applyAll .empty ws
    o.answer = .ok (Write.replies .empty ws) ∧
      (∃ t, o.state.Opens t ∧ t.records = m.entries ∧ t.Keyed) ∧
      ∀ now, ((repository now).list.run o.state).answer = .ok m.entries ∧
        (∀ origin kind, (((repository now).get origin kind).run o.state).answer =
          .ok (m.entries.find? fun r => r.origin = origin && r.kind = kind)) ∧
        ∀ origin, (((repository now).getAll origin).run o.state).answer =
          .ok (m.entries.filter (·.origin = origin)) := by
  intro o m
  obtain ⟨s', t, hmakeAll, hs', ht⟩ := makeAll_refines hs .empty [] ws hws
  have hstate : o.state = s' := hmakeAll.state
  rw [hstate]
  exact ⟨hmakeAll.answer, ⟨t, hs', ht.records, ht.keyed⟩, reads_of_represents hs' ht⟩

def migratedDatabase : Database := { perms := some [], versions := some [0, 1, 2, 3] }

/-- A new handle on a migrated database without decisions. -/
def migratedStore : Store := { path := "permissions.db", file := .database migratedDatabase }

/-- Two decisions, of which the first is deleted and made again between two milliseconds and the
second is changed, and a third one for the session. -/
def ledgerWrites : List (Instant × Write) := [
  (.atMillis 1000, .set ⟨"https://a.example", "popup", .allow, .never, .unset, .unset⟩),
  (.atMillis 2000, .set ⟨"https://b.example", "popup", .allow, .never, .unset, .atMillis 1500⟩),
  (.atMillis 3000, .set ⟨"https://a.example", "camera", .allow, .session, .unset, .unset⟩),
  (.atMillis 4000, .delete "https://a.example" "popup"),
  (⟨5000700000⟩, .set ⟨"https://a.example", "popup", .block, .timed, ⟨9000900000⟩, .unset⟩),
  (.atMillis 6000, .set ⟨"https://b.example", "popup", .block, .never, .unset, .unset⟩),
  (.atMillis 7000, .deleteExpired (.atMillis 8000)),
  (.atMillis 8000, .deleteSession)]

/-- The decision that was made again comes last, the changed one keeps its place. -/
theorem repository_refines_ledger_rewritten :
    let o := (Write.makeAll ledgerWrites).run migratedStore
    o.answer = .ok [none, none, none, none, none, none, some 0, some 1] ∧
      ((repository (.atMillis 9000)).list.run o.state).answer = .ok [
        ⟨"https://b.example", "popup", .block, .never, .unset, .atMillis 6000⟩,
        ⟨"https://a.example", "popup", .block, .timed, .atMillis 9000, .atMillis 5000⟩] := by
  intro o
  have hnew : migratedStore.Unopened migratedDatabase := ⟨by decide, rfl, rfl, rfl, rfl, rfl⟩
  have hs : migratedStore.Opens [] := hnew.opens ⟨by decide, rfl⟩
  have hws : ∀ w ∈ ledgerWrites, w.2.Timely := by
    simp only [ledgerWrites, List.forall_mem_cons, Write.Timely]
    refine ⟨.inl rfl, .inl rfl, .inl rfl, trivial, .inr (by decide), .inl rfl, trivial, trivial, ?_⟩
    simp
  have h := repository_refines_ledger hs ledgerWrites hws
  exact ⟨h.1, (h.2.2 (.atMillis 9000)).1⟩

/-- A decision that was changed in the middle of a millisecond. -/
def midMillisecond : Record :=
  ⟨"https://a.example", "popup", .allow, .never, .unset, ⟨1700000000000500000⟩⟩

/-- It reads back with another time of change. -/
theorem list_ne_of_midMillisecond :
    let repo := repository (.atMillis 1700000000001)
    let o := ((Write.set midMillisecond).make repo).run migratedStore
    o.answer = .ok none ∧
      ∃ r, (repo.list.run o.state).answer = .ok [r] ∧
        r.modified = .atMillis 1700000000000 ∧ r ≠ midMillisecond := by
  refine ⟨by decide +kernel,
    ⟨"https://a.example", "popup", .allow, .never, .unset, .atMillis 1700000000000⟩, ?_, rfl, ?_⟩
  · decide +kernel
  · decide

end Store

end Consent

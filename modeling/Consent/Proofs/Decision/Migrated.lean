import Consent.Proofs.Decision.Stored
import Consent.Proofs.Legacy.Row
import Consent.Proofs.Store.Migration

/-! Decisions by host are found again after the migration, at every origin they stand for. -/

namespace Consent

open Host Legacy Store Text

/-- A stored time reads back as it is: storing it again does not change when a decision lapses. -/
theorem Store.isExpired_readBack {record : Record} {n : Int} (h : record.expireAt = ofMillis n)
    (now time : Instant) : (readBack now record).isExpired time = record.isExpired time := by
  have hexpire : (readBack now record).expireAt = record.expireAt := by
    change ofMillis (toMillis record.expireAt) = record.expireAt
    rw [h, ofMillis_toMillis, cut_ofMillis]
  unfold Record.isExpired
  rw [hexpire]
  rfl

namespace Decision

section Rows

variable [SuffixList] {now : Instant} {history : Option History} {table : HostTable} {t : Table}
  {row : Int × List Cell} {r : Legacy.Row} {sp : SchemePort}

/-- A row stores its own decision at the origins it stands for. -/
theorem decision?_upsertAll_carried (h : r.Lasting now)
    (hsp : sp ∈ r.targets (History.reply history)) (hkey : r.keyAt sp = (r.originAt sp).key) :
    (t.upsertAll now (r.carried (History.reply history) now)).decision? (r.originAt sp).key r.kind =
      some (readBack now (r.recordAt (r.originAt sp).key)) := by
  have hcarried : r.carried (History.reply history) now =
      (r.targets (History.reply history)).map fun sp => r.recordAt (r.keyAt sp) := by
    simp [Row.carried, Row.expansion, h.check_eq_ok, h.isExpired_eq_false, h.isVerbatim_eq_false]
  rw [hcarried]
  refine Table.decision?_upsertAll_of_mem (r := r.recordAt (r.originAt sp).key) t ?_ ?_
  · rw [← hkey]
    exact List.mem_map.mpr ⟨sp, hsp, rfl⟩
  · intro q hq hsame
    obtain ⟨sp', -, rfl⟩ := List.mem_map.mp hq
    have horigin : r.keyAt sp' = (r.originAt sp).key := hsame.1
    rw [horigin]

/-- Of all rows it is the last one with a key whose decision is kept. -/
theorem decision?_carriedTable (hids : table.rows.Pairwise fun a b => a.1 < b.1)
    (hrow : row ∈ table.rows) (hread : table.readRow? row = some r) (h : r.Lasting now)
    (hsp : sp ∈ r.targets (History.reply history)) (hkey : r.keyAt sp = (r.originAt sp).key)
    (hlater : ∀ row' ∈ table.rows, row.1 < row'.1 → ∀ r', table.readRow? row' = some r' →
      ∀ q ∈ r'.carried (History.reply history) now,
        ¬(q.origin = (r.originAt sp).key ∧ q.kind = r.kind)) :
    (Database.carriedTable now history table t).decision? (r.originAt sp).key r.kind =
      some (readBack now (r.recordAt (r.originAt sp).key)) := by
  obtain ⟨before, after, hrows⟩ := List.append_of_mem hrow
  rw [hrows] at hids
  have hafter : ∀ row' ∈ after, row.1 < row'.1 :=
    (List.pairwise_cons.mp (List.pairwise_append.mp hids).2.1).1
  rw [Database.carriedTable, hrows, List.filterMap_append, List.filterMap_cons, hread,
    List.flatMap_append, Table.upsertAll_append, List.flatMap_cons, Table.upsertAll_append,
    Table.decision?_upsertAll_of_ne]
  · exact decision?_upsertAll_carried h hsp hkey
  · intro q hq
    obtain ⟨r', hr', hq⟩ := List.mem_flatMap.mp hq
    obtain ⟨row', hrow', hread'⟩ := List.mem_filterMap.mp hr'
    have hmem : row' ∈ table.rows := by
      rw [hrows]
      exact List.mem_append_right before (List.mem_cons_of_mem row hrow')
    exact hlater row' hmem (hafter row' hrow') r' hread' q hq

theorem get_answer_of_decision? {s : Store} {p : Policy} {later : Instant} {raw : String}
    {o : Origin} {kind : Kind} {record : Record} (hready : s.Ready t)
    (hparse : Origin.parse raw = .ok o) (hrecord : t.decision? o.key kind = some record)
    (hlive : record.isExpired p.now = false) :
    ((get p (repository later) raw kind).run s).answer =
      .ok ⟨record.kind, record.state, record.scope⟩ :=
  (gives_get_of_decision? hready hparse hrecord hlive).answer

/-- Opening a store for the first time keeps every lasting decision by host: a lookup at any origin
that the row stands for answers with it, unless a later row stands for the same origin and kind. -/
theorem get_migrated {s : Store} {d : Database} {p : Policy} (hs : s.Unopened d)
    (hd : d.Awaits table) (hids : table.rows.Pairwise fun a b => a.1 < b.1)
    (hrecorded : ∀ h, s.history = some h → h.Recorded) (hrow : row ∈ table.rows)
    (hread : table.readRow? row = some r) (h : r.Lasting p.now)
    (hsp : r.StandsFor s.history sp) (hport : sp.port ≤ 65535)
    (hlater : ∀ row' ∈ table.rows, row.1 < row'.1 → ∀ r', table.readRow? row' = some r' →
      ∀ records, ((expand (Database.askHistory s.history) p.now (some r')).run
        ⟨s.history.getD {}, []⟩).answer = .ok records →
      ∀ q ∈ records, ¬(q.origin = (r.originAt sp).key ∧ q.kind = r.kind)) :
    ((ensureOpen p.now).run s).answer = .ok () ∧
      Origin.parse (r.originAt sp).key = .ok (r.originAt sp) ∧
      ∀ raw later, Origin.parse raw = .ok (r.originAt sp) →
        ((get p (repository later) raw r.kind).run ((ensureOpen p.now).run s).state).answer =
          .ok ⟨r.kind, r.state, .persistent⟩ := by
  have ho := h.originAt_ordinary hrecorded hsp hport
  have hopen : ∀ log, s.history = some log → log.closed = false :=
    fun log hlog => (hrecorded log hlog).spec.1
  have hcarried : ∀ row' ∈ table.rows, row.1 < row'.1 → ∀ r', table.readRow? row' = some r' →
      ∀ q ∈ r'.carried (History.reply s.history) p.now,
        ¬(q.origin = (r.originAt sp).key ∧ q.kind = r.kind) := by
    intro row' hrow' hlt r' hread' q hq
    have hexpand := (expand_steady (Database.steady_askHistory s.history)
      (Resolver.faithful_new rfl) p.now r' []).1
    unfold Row.carried at hq
    cases hexpansion : r'.expansion (History.reply s.history) p.now with
    | error e =>
      rw [hexpansion] at hq
      cases hq
    | ok records =>
      rw [hexpansion] at hq hexpand
      exact hlater row' hrow' hlt r' hread' records hexpand q hq
  have hreadable := HostTable.isReadable_of_readRow? hread h.state
  obtain ⟨s', hopened, hready⟩ := gives_ensureOpen [] p.now hs hd hreadable
  have hdecision := decision?_carriedTable (t := d.perms.getD []) hids hrow hread h
    (h.mem_targets hopen hsp) (h.keyAt_eq ho) hcarried
  have hkept := Table.decision?_filter_not_isSession hdecision h.expiry
  refine ⟨hopened.answer, ho.parse_key, fun raw later hparse => ?_⟩
  have hstate : ((ensureOpen p.now).run s).state = s' := hopened.state
  have hlive : (readBack p.now (r.recordAt (r.originAt sp).key)).isExpired p.now = false := by
    obtain ⟨n, hn⟩ := HostTable.expireAt_of_readRow? hread
    have hexpire : (r.recordAt (r.originAt sp).key).expireAt = ofMillis n := hn
    rw [isExpired_readBack hexpire]
    exact h.isExpired_eq_false
  have hscope : (readBack p.now (r.recordAt (r.originAt sp).key)).scope = .persistent :=
    if_neg h.expiry
  rw [hstate, get_answer_of_decision? hready hparse hkept hlive, hscope]
  rfl

end Rows

/-- Rows of the earlier layout: a host was blocked for an app, then allowed. -/
def hostRows : List (Int × List Cell) := [
  (1, [.text "Example.com", .text "popup", .integer 2, .integer 0, .integer 0, .integer 0,
    .integer 7, .integer 0]),
  (4, [.text "Example.com", .text "popup", .integer 1, .integer 0, .integer 0, .integer 0,
    .integer 7, .integer 0])]

def hostDatabase : Database := { hosts := some ⟨HostTable.standardColumns, hostRows⟩ }

/-- A history with one visit below that host. -/
def hostHistory : History :=
  ((History.addVisit (.atMillis 1) "http://www.example.com:8080/" .unset).run {}).state

/-- The later decision is found at the port of the visit. -/
theorem get_migrated_visited :
    let s : Store := ⟨"permissions.db", .database hostDatabase, some hostHistory, none, .untried,
      false, false⟩
    let p : Policy := { now := .atMillis 1700000000000 }
    ((ensureOpen p.now).run s).answer = .ok () ∧
      ((get p (repository p.now) "http://example.com:8080^appId=7" "popup").run
        ((ensureOpen p.now).run s).state).answer = .ok ⟨"popup", .allow, .persistent⟩ := by
  intro s p
  have hs : s.Unopened hostDatabase := ⟨by decide, rfl, rfl, rfl, rfl, rfl⟩
  have hrecorded : ∀ h, s.history = some h → h.Recorded := by
    intro h hh
    cases hh
    exact .visit _ _ _ .empty
  have hlasting : (⟨4, "Example.com", "popup", .allow, .never, .unset, .unset, ⟨7, false⟩⟩ :
      Legacy.Row).Lasting p.now :=
    ⟨by decide, by decide, by decide, by decide, by decide,
      List.all_eq_true.mp (by decide +kernel)⟩
  have hlast : ∀ row' ∈ hostRows, ¬(4 : Int) < row'.1 := by decide
  have h := get_migrated hs ⟨by decide, rfl, by decide⟩ (by decide) hrecorded
    (List.mem_cons_of_mem _ List.mem_cons_self) (by decide +kernel) hlasting
    (Or.inl ⟨hostHistory, ⟨"http://www.example.com:8080/", "http", "www.example.com", 8080, 1⟩,
      rfl, by decide +kernel, by decide +kernel, by decide +kernel, rfl⟩)
    (by decide) fun row' hrow' hlt => absurd hlt (hlast row' hrow')
  exact ⟨h.1, h.2.2 _ _ (by decide +kernel)⟩

end Decision

end Consent

import Consent.Proofs.Time.Millis
import Consent.Store.Table

/-! Which decision a table holds for an origin and a kind, after each way of changing it. -/

namespace Consent.Store

theorem Row.hasKey_iff {origin : String} {kind : Kind} {row : Row} :
    row.hasKey origin kind = true ↔ row.origin = origin ∧ row.kind = kind := by
  simp [Row.hasKey]

/-- A record as it reads back from its row. -/
def readBack (now : Instant) (r : Record) : Record := (Row.ofRecord 0 now r).record

@[simp] theorem Row.hasKey_ofRecord {id : Int} {now : Instant} {r : Record} {origin : String}
    {kind : Kind} : (Row.ofRecord id now r).hasKey origin kind =
      decide (r.origin = origin ∧ r.kind = kind) := by
  rw [Bool.eq_iff_iff, Row.hasKey_iff, decide_eq_true_iff]
  exact Iff.rfl

@[simp] theorem Row.record_ofRecord (id : Int) (now : Instant) (r : Record) :
    (Row.ofRecord id now r).record = readBack now r := rfl

theorem toMillis_ofMillis {n : Int} (h : 0 < n) : toMillis (ofMillis n) = n := by
  rw [ofMillis, if_neg (Int.not_le.mpr h), toMillis, if_neg (Instant.atMillis_ne_unset h),
    Instant.millis_atMillis]

theorem ofMillis_millis (t : Instant) : ofMillis t.millis = t.cut := by
  by_cases hpos : 0 < t.millis
  · rw [ofMillis, if_neg (Int.not_le.mpr hpos), Instant.cut_of_pos hpos]
  · rw [ofMillis, if_pos (Int.not_lt.mp hpos), Instant.cut_of_nonpos (Int.not_lt.mp hpos)]

/-- A stored time reads back cut to the millisecond. -/
theorem ofMillis_toMillis (t : Instant) : ofMillis (toMillis t) = t.cut := by
  by_cases hunset : t = .unset
  · rw [hunset]
    rfl
  · rw [toMillis, if_neg hunset, ofMillis_millis]

@[simp] theorem cut_ofMillis (n : Int) : (ofMillis n).cut = ofMillis n := by
  by_cases hn : n ≤ 0
  · rw [ofMillis, if_pos hn, Instant.cut_unset]
  · rw [ofMillis, if_neg hn, Instant.cut_atMillis (Int.not_le.mp hn)]

namespace Table

/-- The decision that the table holds for an origin and a kind. -/
def decision? (t : Table) (origin : String) (kind : Kind) : Option Record :=
  (t.find? origin kind).map Row.record

variable {now : Instant} {r : Record} {origin : String} {kind : Kind}

theorem find?_replace_of_ne (t : Table) (h : ¬(r.origin = origin ∧ r.kind = kind)) :
    (t.replace now r).find? origin kind = t.find? origin kind := by
  induction t with
  | nil => rfl
  | cons row rest ih =>
    unfold replace
    split
    · rename_i hkey
      have hrow : row.hasKey origin kind = false := by
        rw [Row.hasKey_iff] at hkey
        rw [Bool.eq_false_iff, Ne, Row.hasKey_iff, hkey.1, hkey.2]
        exact h
      simp [find?, h, hrow]
    · simp only [find?, List.find?_cons] at ih ⊢
      rw [ih]

theorem find?_replace_self (t : Table) (h : (t.find? r.origin r.kind).isSome = true) :
    ∃ id, (t.replace now r).find? r.origin r.kind = some (.ofRecord id now r) := by
  induction t with
  | nil => simp [find?] at h
  | cons row rest ih =>
    unfold replace
    split
    · exact ⟨row.id, by simp [find?]⟩
    · rename_i hkey
      have hkey' : row.hasKey r.origin r.kind = false := by simpa using hkey
      have hrest : (find? rest r.origin r.kind).isSome = true := by
        simpa [find?, List.find?_cons, hkey'] using h
      obtain ⟨id, hid⟩ := ih hrest
      exact ⟨id, by simpa [find?, List.find?_cons, hkey'] using hid⟩

/-- A decision that was stored is found as its row. -/
theorem find?_upsert_self (t : Table) (now : Instant) (r : Record) :
    ∃ id, (t.upsert now r).find? r.origin r.kind = some (.ofRecord id now r) := by
  unfold upsert
  split
  · rename_i hfound
    exact find?_replace_self t hfound
  · rename_i hfound
    have hnone : t.find? r.origin r.kind = none := by simpa using hfound
    unfold find? at hnone
    exact ⟨t.nextId, by simp [find?, List.find?_append, hnone]⟩

/-- Storing a decision sets the one with its key and no other. -/
theorem decision?_upsert (t : Table) :
    (t.upsert now r).decision? origin kind =
      if r.origin = origin ∧ r.kind = kind then some (readBack now r)
      else t.decision? origin kind := by
  by_cases hkey : r.origin = origin ∧ r.kind = kind
  · obtain ⟨id, hid⟩ := find?_upsert_self t now r
    rw [if_pos hkey, ← hkey.1, ← hkey.2, decision?, hid]
    rfl
  · rw [if_neg hkey]
    unfold upsert
    split
    · rw [decision?, find?_replace_of_ne t hkey, decision?]
    · simp [decision?, find?, List.find?_append, hkey]

theorem decision?_erase_of_ne (t : Table) {origin' : String} {kind' : Kind}
    (h : ¬(origin' = origin ∧ kind' = kind)) :
    (t.erase origin' kind').decision? origin kind = t.decision? origin kind := by
  unfold decision? find? erase
  rw [List.find?_filter]
  congr 2
  funext row
  by_cases hrow : row.hasKey origin kind = true
  · have hother : row.hasKey origin' kind' = false := by
      rw [Row.hasKey_iff] at hrow
      rw [Bool.eq_false_iff, Ne, Row.hasKey_iff, hrow.1, hrow.2]
      exact fun heq => h ⟨heq.1.symm, heq.2.symm⟩
    simp [hother]
  · simp [hrow]

/-- Storing a decision makes one row of it and touches no other. -/
theorem mem_of_mem_upsert {t : Table} {row : Row} (h : row ∈ t.upsert now r) :
    row ∈ t ∨ ∃ id, row = Row.ofRecord id now r := by
  have hreplace : ∀ t : Table, row ∈ t.replace now r →
      row ∈ t ∨ ∃ id, row = .ofRecord id now r := by
    intro t h
    induction t with
    | nil => cases h
    | cons old rest ih =>
      unfold replace at h
      split at h
      · rcases List.mem_cons.mp h with rfl | h
        · exact Or.inr ⟨old.id, rfl⟩
        · exact Or.inl (List.mem_cons_of_mem old h)
      · rcases List.mem_cons.mp h with rfl | h
        · exact Or.inl List.mem_cons_self
        · exact (ih h).imp_left (List.mem_cons_of_mem old)
  unfold upsert at h
  split at h
  · exact hreplace t h
  · rcases List.mem_append.mp h with h | h
    · exact Or.inl h
    · exact Or.inr ⟨t.nextId, List.mem_singleton.mp h⟩

theorem decision?_erase_self (t : Table) (origin : String) (kind : Kind) :
    (t.erase origin kind).decision? origin kind = none := by
  simp [decision?, find?, erase, List.find?_filter]

/-- Stores decisions one after another. -/
def upsertAll (now : Instant) (rs : List Record) (t : Table) : Table :=
  rs.foldl (fun t r => t.upsert now r) t

theorem upsertAll_append (rs rs' : List Record) (t : Table) :
    t.upsertAll now (rs ++ rs') = (t.upsertAll now rs).upsertAll now rs' :=
  List.foldl_append

theorem decision?_upsertAll_of_ne {rs : List Record} (t : Table)
    (h : ∀ r ∈ rs, ¬(r.origin = origin ∧ r.kind = kind)) :
    (t.upsertAll now rs).decision? origin kind = t.decision? origin kind := by
  induction rs generalizing t with
  | nil => rfl
  | cons r rest ih =>
    have hrest := ih (t.upsert now r) fun q hq => h q (List.mem_cons_of_mem r hq)
    rw [decision?_upsert, if_neg (h r List.mem_cons_self)] at hrest
    exact hrest

/-- Of the decisions with one key the last is kept, so one that has no rival is found again. -/
theorem decision?_upsertAll_of_mem {rs : List Record} (t : Table) (hr : r ∈ rs)
    (h : ∀ q ∈ rs, q.origin = r.origin ∧ q.kind = r.kind → q = r) :
    (t.upsertAll now rs).decision? r.origin r.kind = some (readBack now r) := by
  induction rs generalizing t with
  | nil => cases hr
  | cons q rest ih =>
    have hrest : ∀ q' ∈ rest, q'.origin = r.origin ∧ q'.kind = r.kind → q' = r :=
      fun q' hq' => h q' (List.mem_cons_of_mem q hq')
    by_cases hmem : r ∈ rest
    · exact ih (t.upsert now q) hmem hrest
    · have hqr : q = r := ((List.mem_cons.mp hr).resolve_right hmem).symm
      have hlast : ((t.upsert now r).upsertAll now rest).decision? r.origin r.kind =
          (t.upsert now r).decision? r.origin r.kind :=
        decision?_upsertAll_of_ne _ fun q' hq' hkey => hmem (hrest q' hq' hkey ▸ hq')
      rw [decision?_upsert, if_pos ⟨rfl, rfl⟩] at hlast
      rw [hqr]
      exact hlast

/-- Dropping the decisions of a session keeps all others. -/
theorem decision?_filter_not_isSession {t : Table} (h : t.decision? origin kind = some r)
    (hr : r.expiry ≠ .session) :
    Table.decision? (t.filter fun row => !row.isSession) origin kind = some r := by
  obtain ⟨row, hrow, rfl⟩ := Option.map_eq_some_iff.mp h
  have hkeep : row.isSession = false := by simpa [Row.isSession, Row.record] using hr
  obtain ⟨hkey, before, after, rfl, hbefore⟩ := List.find?_eq_some_iff_append.mp hrow
  have hnone : List.find? (Row.hasKey origin kind) (before.filter fun row => !row.isSession) =
      none := by
    refine List.find?_eq_none.mpr fun q hq => ?_
    simpa using hbefore q (List.mem_filter.mp hq).1
  simp [decision?, find?, List.filter_append, List.find?_append, hnone, hkeep, hkey]

end Table

end Consent.Store

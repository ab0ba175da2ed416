import Mathlib.Data.List.Basic
import Mathlib.Data.List.Induction
import Mathlib.Data.List.Nodup
import Consent.Proofs.Store.Table

/-! Tables as a store keeps them: the ids ascend, and every origin and kind has one row. -/

namespace Consent

/-- What a decision is stored under. -/
def Record.key (r : Record) : String × Kind := (r.origin, r.kind)

/-- The record in place of one with its key. -/
def Record.over (r q : Record) : Record := if q.key = r.key then r else q

@[simp] theorem Record.key_over (r q : Record) : (r.over q).key = q.key := by
  unfold Record.over
  split
  · rename_i h
    exact h.symm
  · rfl

namespace Store

variable {now : Instant} {r : Record} {origin : String} {kind : Kind}

namespace Row

/-- What the decision of a row is stored under. -/
def key (row : Row) : String × Kind := (row.origin, row.kind)

@[simp] theorem key_record (row : Row) : row.record.key = row.key := rfl

@[simp] theorem key_ofRecord (id : Int) (now : Instant) (r : Record) :
    (ofRecord id now r).key = r.key := rfl

@[simp] theorem id_ofRecord (id : Int) (now : Instant) (r : Record) :
    (ofRecord id now r).id = id := rfl

theorem hasKey_iff_key {row : Row} : row.hasKey origin kind = true ↔ row.key = (origin, kind) := by
  rw [hasKey_iff, key, Prod.mk.injEq]

/-- The row, with the record's values if the two have one key. -/
def revised (now : Instant) (r : Record) (row : Row) : Row :=
  if row.key = r.key then ofRecord row.id now r else row

@[simp] theorem key_revised (row : Row) : (row.revised now r).key = row.key := by
  unfold revised
  split
  · rename_i h
    exact h.symm
  · rfl

@[simp] theorem id_revised (row : Row) : (row.revised now r).id = row.id := by
  unfold revised
  split <;> rfl

theorem revised_of_ne {row : Row} (h : row.key ≠ r.key) : row.revised now r = row := if_neg h

end Row

namespace Table

variable {t : Table}

/-- The keys of the rows in order. -/
def keys (t : Table) : List (String × Kind) := t.map Row.key

/-- Ascending ids, and no key twice. -/
structure Keyed (t : Table) : Prop where
  ids : t.Pairwise fun a b => a.id < b.id
  keys : t.keys.Nodup

theorem isSome_find?_iff : (t.find? origin kind).isSome = true ↔ (origin, kind) ∈ t.keys := by
  rw [find?, List.find?_isSome, keys, List.mem_map]
  simp only [Row.hasKey_iff_key]

theorem map_revised_of_not_mem (h : r.key ∉ t.keys) : t.map (Row.revised now r) = t := by
  have hrows : ∀ row ∈ t, row.revised now r = row := by
    intro row hrow
    refine Row.revised_of_ne fun heq => h ?_
    rw [← heq]
    exact List.mem_map_of_mem hrow
  calc t.map (Row.revised now r) = t.map id := List.map_congr_left hrows
    _ = t := List.map_id t

/-- Where no key stands twice, replacing values touches the row with the key and no other. -/
theorem replace_eq_map (h : t.keys.Nodup) : t.replace now r = t.map (Row.revised now r) := by
  induction t with
  | nil => rfl
  | cons row rest ih =>
    obtain ⟨hnot, hrest⟩ := List.nodup_cons.mp h
    unfold replace
    rw [List.map_cons]
    split
    · rename_i hkey
      have hrow : row.key = r.key := Row.hasKey_iff_key.mp hkey
      rw [map_revised_of_not_mem (hrow ▸ hnot), Row.revised, if_pos hrow]
    · rename_i hkey
      have hrow : row.key ≠ r.key := fun heq => hkey (Row.hasKey_iff_key.mpr heq)
      rw [ih hrest, Row.revised_of_ne hrow]

theorem upsert_of_mem (h : t.keys.Nodup) (hr : r.key ∈ t.keys) :
    t.upsert now r = t.map (Row.revised now r) := by
  rw [upsert, if_pos (isSome_find?_iff.mpr hr), replace_eq_map h]

theorem upsert_of_not_mem (hr : r.key ∉ t.keys) :
    t.upsert now r = t ++ [Row.ofRecord t.nextId now r] := by
  rw [upsert, if_neg fun hfound => hr (isSome_find?_iff.mp hfound)]

theorem keys_map {f : Row → Row} (h : ∀ row, (f row).key = row.key) : keys (t.map f) = t.keys := by
  simp [keys, h]

theorem ids_map {f : Row → Row} (h : ∀ row, (f row).id = row.id)
    (ht : t.Pairwise fun a b => a.id < b.id) : (t.map f).Pairwise fun a b => a.id < b.id := by
  rw [List.pairwise_map]
  simpa only [h] using ht

theorem lt_nextId (h : t.Pairwise fun a b => a.id < b.id) : ∀ row ∈ t, row.id < t.nextId := by
  intro row hrow
  obtain ⟨before, last, rfl⟩ : ∃ before last, t = before ++ [last] :=
    ⟨_, _, (List.dropLast_concat_getLast (List.ne_nil_of_mem hrow)).symm⟩
  have hnext : nextId (before ++ [last]) = last.id + 1 := by simp [nextId]
  rw [hnext]
  rcases List.mem_append.mp hrow with hrow | hrow
  · have hlt := (List.pairwise_append.mp h).2.2 row hrow last List.mem_cons_self
    omega
  · rw [List.mem_singleton.mp hrow]
    omega

theorem nextId_map {f : Row → Row} (h : ∀ row, (f row).id = row.id) :
    nextId (t.map f) = t.nextId := by
  unfold nextId
  rw [List.getLast?_map]
  cases t.getLast? <;> simp [h]

namespace Keyed

theorem nil : Keyed [] := ⟨.nil, .nil⟩

/-- Storing a decision keeps the order of the ids and gives no key a second row. -/
theorem upsert (h : t.Keyed) (now : Instant) (r : Record) : (t.upsert now r).Keyed := by
  by_cases hr : r.key ∈ t.keys
  · rw [upsert_of_mem h.keys hr]
    refine ⟨ids_map Row.id_revised h.ids, ?_⟩
    rw [keys_map Row.key_revised]
    exact h.keys
  · rw [upsert_of_not_mem hr]
    constructor
    · rw [List.pairwise_append]
      refine ⟨h.ids, List.pairwise_singleton _ _, fun row hrow new hnew => ?_⟩
      rw [List.mem_singleton.mp hnew]
      exact lt_nextId h.ids row hrow
    · have hkeys : Table.keys (t ++ [Row.ofRecord t.nextId now r]) = t.keys ++ [r.key] := by
        simp [Table.keys]
      rw [hkeys, List.nodup_append]
      refine ⟨h.keys, by simp, fun key hkey new hnew heq => hr ?_⟩
      rwa [← List.mem_singleton.mp hnew, ← heq]

theorem filter (h : t.Keyed) (p : Row → Bool) : Keyed (t.filter p) :=
  ⟨h.ids.filter p, (List.filter_sublist.map Row.key).nodup h.keys⟩

theorem upsertAll (h : t.Keyed) (now : Instant) (rs : List Record) :
    (t.upsertAll now rs).Keyed := by
  induction rs generalizing t with
  | nil => exact h
  | cons r rest ih => exact ih (h.upsert now r)

end Keyed

theorem decision?_eq_some_iff_of_nodup (h : t.keys.Nodup) :
    t.decision? origin kind = some r ↔ (r.origin = origin ∧ r.kind = kind) ∧ r ∈ t.records := by
  constructor
  · intro hr
    obtain ⟨row, hrow, rfl⟩ := Option.map_eq_some_iff.mp hr
    have hkey : row.hasKey origin kind = true := List.find?_some hrow
    exact ⟨Row.hasKey_iff.mp hkey, List.mem_map_of_mem (List.mem_of_find?_eq_some hrow)⟩
  · rintro ⟨hkey, hr⟩
    obtain ⟨row, hrow, rfl⟩ := List.mem_map.mp hr
    have hmem : (origin, kind) ∈ t.keys := by
      rw [← Row.hasKey_iff_key.mp (Row.hasKey_iff.mpr hkey)]
      exact List.mem_map_of_mem hrow
    obtain ⟨found, hfound⟩ := Option.isSome_iff_exists.mp (isSome_find?_iff.mpr hmem)
    -- No key has two rows, so that the one that is found is the one that is meant.
    have hsame : found.key = row.key := by
      rw [Row.hasKey_iff_key.mp (List.find?_some hfound)]
      exact (Row.hasKey_iff_key.mp (Row.hasKey_iff.mpr hkey)).symm
    obtain rfl : found = row :=
      List.inj_on_of_nodup_map h (List.mem_of_find?_eq_some hfound) hrow hsame
    rw [decision?, hfound]
    rfl

theorem decision?_eq_some_iff (h : t.Keyed) :
    t.decision? origin kind = some r ↔ (r.origin = origin ∧ r.kind = kind) ∧ r ∈ t.records :=
  decision?_eq_some_iff_of_nodup h.keys

/-- No other row has the key of a row. -/
theorem not_mem_keys_of_keyed {before after : Table} {row : Row}
    (h : Keyed (before ++ row :: after)) : row.key ∉ before.keys ∧ row.key ∉ after.keys := by
  have hkeys := h.keys
  unfold keys at hkeys
  rw [List.map_append, List.map_cons, List.nodup_append, List.nodup_cons] at hkeys
  obtain ⟨-, ⟨hafter, -⟩, hbefore⟩ := hkeys
  exact ⟨fun hmem => hbefore _ hmem row.key List.mem_cons_self rfl, hafter⟩

/-- Erasing the key of a row takes out that row and no other. -/
theorem erase_of_keyed {before after : Table} {row : Row} (h : Keyed (before ++ row :: after)) :
    erase (before ++ row :: after) row.origin row.kind = before ++ after := by
  obtain ⟨hbefore, hafter⟩ := not_mem_keys_of_keyed h
  have hkeep : ∀ t : Table, row.key ∉ t.keys → t.filter (!·.hasKey row.origin row.kind) = t := by
    intro t ht
    refine List.filter_eq_self.mpr fun other hother => ?_
    rw [Bool.not_eq_true', Bool.eq_false_iff, Ne, Row.hasKey_iff_key]
    exact fun heq => ht (List.mem_map.mpr ⟨other, hother, heq⟩)
  have hrow : row.hasKey row.origin row.kind = true := Row.hasKey_iff_key.mpr rfl
  unfold erase
  rw [List.filter_append, List.filter_cons_of_neg (by simp [hrow]), hkeep before hbefore,
    hkeep after hafter]

/-- Storing a decision under the key of a row changes that row and no other. -/
theorem upsert_of_keyed {before after : Table} {row : Row} (h : Keyed (before ++ row :: after))
    (hr : r.key = row.key) :
    upsert now r (before ++ row :: after) = before ++ Row.ofRecord row.id now r :: after := by
  obtain ⟨hbefore, hafter⟩ := not_mem_keys_of_keyed h
  rw [← hr] at hbefore hafter
  have hmem : r.key ∈ keys (before ++ row :: after) := by
    rw [hr]
    exact List.mem_map_of_mem (List.mem_append_right before List.mem_cons_self)
  rw [upsert_of_mem h.keys hmem, List.map_append, List.map_cons, map_revised_of_not_mem hbefore,
    map_revised_of_not_mem hafter, Row.revised, if_pos hr.symm]

/-- The last of the records with a key. -/
def latest (rs : List Record) (key : String × Kind) : Option Record :=
  rs.reverse.find? (·.key = key)

theorem latest_concat (rs : List Record) (r : Record) (key : String × Kind) :
    latest (rs ++ [r]) key = if r.key = key then some r else latest rs key := by
  unfold latest
  rw [List.reverse_append, List.reverse_singleton, List.singleton_append, List.find?_cons]
  by_cases h : r.key = key <;> simp [h]

theorem key_of_latest {rs : List Record} {key : String × Kind} {q : Record}
    (h : latest rs key = some q) : q.key = key := by
  simpa using List.find?_some h

theorem isSome_latest {rs : List Record} {key : String × Kind} (h : key ∈ rs.map Record.key) :
    (latest rs key).isSome = true := by
  obtain ⟨q, hq, hkey⟩ := List.mem_map.mp h
  exact List.find?_isSome.mpr ⟨q, List.mem_reverse.mpr hq, by simpa using hkey⟩

/-- The row, with the values of the last record that has its key. -/
def refreshed (now : Instant) (rs : List Record) (row : Row) : Row :=
  match latest rs row.key with
  | some r => Row.ofRecord row.id now r
  | none => row

@[simp] theorem id_refreshed (rs : List Record) (row : Row) :
    (refreshed now rs row).id = row.id := by
  unfold refreshed
  split <;> rfl

@[simp] theorem key_refreshed (rs : List Record) (row : Row) :
    (refreshed now rs row).key = row.key := by
  unfold refreshed
  split
  · rename_i q hq
    exact key_of_latest hq
  · rfl

theorem refreshed_concat (rs : List Record) (r : Record) (row : Row) :
    refreshed now (rs ++ [r]) row = (refreshed now rs row).revised now r := by
  by_cases h : row.key = r.key
  · rw [Row.revised, key_refreshed, id_refreshed, if_pos h, refreshed, latest_concat, if_pos h.symm]
  · rw [Row.revised_of_ne (by rwa [key_refreshed]), refreshed, latest_concat, if_neg (Ne.symm h)]
    rfl

/-- The records that get a new row: of those with one key the last, in the place of the first. -/
def added (t : Table) (rs : List Record) : List Record :=
  ((rs.map Record.key).eraseDups.filter fun key => !t.keys.contains key).filterMap (latest rs)

/-- The new rows of records. -/
def newRows (n : Int) (now : Instant) (rs : List Record) : Table :=
  rs.mapIdx fun i r => Row.ofRecord (n + i) now r

theorem eraseDups_concat {κ : Type} [BEq κ] [LawfulBEq κ] (ks : List κ) (k : κ) :
    (ks ++ [k]).eraseDups = ks.eraseDups ++ if ks.contains k then [] else [k] := by
  rw [List.eraseDups_append]
  by_cases h : k ∈ ks <;> simp [List.removeAll, List.eraseDups_cons, h]

theorem added_concat_of_mem {rs : List Record} (h : r.key ∈ t.keys ∨ r.key ∈ rs.map Record.key) :
    added t (rs ++ [r]) = (added t rs).map r.over := by
  have hkeys : ((rs ++ [r]).map Record.key).eraseDups.filter (fun key => !t.keys.contains key) =
      (rs.map Record.key).eraseDups.filter fun key => !t.keys.contains key := by
    rw [List.map_append, List.map_singleton, eraseDups_concat, List.filter_append]
    by_cases hold : r.key ∈ rs.map Record.key
    · rw [List.contains_iff_mem.mpr hold]
      exact List.append_nil _
    · rw [if_neg (by rwa [List.contains_iff_mem])]
      simp [h.resolve_right hold]
  rw [added, hkeys, added, List.map_filterMap]
  refine List.filterMap_congr fun key hkey => ?_
  have hmem : key ∈ rs.map Record.key := List.mem_eraseDups.mp (List.mem_filter.mp hkey).1
  obtain ⟨q, hq⟩ := Option.isSome_iff_exists.mp (isSome_latest hmem)
  rw [latest_concat, hq, Option.map_some, Record.over, key_of_latest hq]
  by_cases heq : r.key = key
  · simp [heq]
  · simp [heq, Ne.symm heq]

theorem added_concat_of_not_mem {rs : List Record} (hrow : r.key ∉ t.keys)
    (hold : r.key ∉ rs.map Record.key) : added t (rs ++ [r]) = added t rs ++ [r] := by
  have hkeys : ((rs ++ [r]).map Record.key).eraseDups.filter (fun key => !t.keys.contains key) =
      ((rs.map Record.key).eraseDups.filter fun key => !t.keys.contains key) ++ [r.key] := by
    rw [List.map_append, List.map_singleton, eraseDups_concat, List.filter_append,
      if_neg (by rwa [List.contains_iff_mem])]
    simp [hrow]
  rw [added, hkeys, List.filterMap_append, added]
  congr 1
  · refine List.filterMap_congr fun key hkey => ?_
    have hmem : key ∈ rs.map Record.key := List.mem_eraseDups.mp (List.mem_filter.mp hkey).1
    have hne : r.key ≠ key := fun heq => hold (heq ▸ hmem)
    rw [latest_concat, if_neg hne]
  · simp [latest_concat]

theorem map_revised_newRows (n : Int) (qs : List Record) :
    (newRows n now qs).map (Row.revised now r) = newRows n now (qs.map r.over) := by
  refine List.ext_getElem? fun i => ?_
  simp only [newRows, List.getElem?_map, List.getElem?_mapIdx, Option.map_map]
  congr 1
  funext q
  by_cases h : q.key = r.key <;> simp [Row.revised, Record.over, h]

theorem nextId_append_newRows (t : Table) (qs : List Record) :
    nextId (t ++ newRows t.nextId now qs) = t.nextId + qs.length := by
  induction qs using List.reverseRecOn with
  | nil => simp [newRows]
  | append_singleton qs q _ =>
    simp [newRows, nextId, ← List.append_assoc]
    omega

theorem mem_keys_upsert (h : t.Keyed) {key : String × Kind} :
    key ∈ (t.upsert now r).keys ↔ key ∈ t.keys ∨ key = r.key := by
  by_cases hr : r.key ∈ t.keys
  · rw [upsert_of_mem h.keys hr, keys_map Row.key_revised]
    refine ⟨.inl, fun hkey => hkey.elim id fun heq => ?_⟩
    rwa [heq]
  · rw [upsert_of_not_mem hr]
    simp [keys]

theorem mem_keys_upsertAll (h : t.Keyed) {rs : List Record} {key : String × Kind} :
    key ∈ (t.upsertAll now rs).keys ↔ key ∈ t.keys ∨ key ∈ rs.map Record.key := by
  induction rs generalizing t with
  | nil => simp [upsertAll]
  | cons r rest ih =>
    have hrest := ih (h.upsert now r)
    rw [mem_keys_upsert h, or_assoc, ← List.mem_cons] at hrest
    exact hrest

/-- Storing records one after another: every row of the table keeps its place, with the values of
the last record that has its key, and new keys follow in the order of their first records. -/
theorem upsertAll_eq (h : t.Keyed) (now : Instant) (rs : List Record) :
    t.upsertAll now rs = t.map (refreshed now rs) ++ newRows t.nextId now (added t rs) := by
  induction rs using List.reverseRecOn with
  | nil =>
    have hsame : t.map (refreshed now []) = t := List.map_id t
    rw [hsame]
    exact (List.append_nil t).symm
  | append_singleton rs r ih =>
    have hstep : t.upsertAll now (rs ++ [r]) = (t.upsertAll now rs).upsert now r :=
      upsertAll_append rs [r] t
    have hkeyed : (t.upsertAll now rs).Keyed := h.upsertAll now rs
    have hrefreshed : t.map (refreshed now (rs ++ [r])) =
        (t.map (refreshed now rs)).map (Row.revised now r) := by
      rw [List.map_map]
      exact List.map_congr_left fun row _ => refreshed_concat rs r row
    by_cases hmem : r.key ∈ t.keys ∨ r.key ∈ rs.map Record.key
    · rw [hstep, upsert_of_mem hkeyed.keys ((mem_keys_upsertAll h).mpr hmem), ih, List.map_append,
        hrefreshed, map_revised_newRows, added_concat_of_mem hmem]
    · obtain ⟨hrow, hold⟩ := not_or.mp hmem
      have hnext : nextId (t.map (refreshed now rs)) = t.nextId := nextId_map (id_refreshed rs)
      have hunchanged : (t.map (refreshed now rs)).map (Row.revised now r) =
          t.map (refreshed now rs) := by
        refine map_revised_of_not_mem ?_
        rwa [keys_map (key_refreshed rs)]
      rw [hstep, upsert_of_not_mem fun hr => hmem ((mem_keys_upsertAll h).mp hr), ih, ← hnext,
        nextId_append_newRows, hrefreshed, hunchanged, added_concat_of_not_mem hrow hold,
        List.append_assoc, newRows, newRows, List.mapIdx_concat]

end Table

end Store

end Consent

import Mathlib.Data.List.Induction
import Consent.Manage.Model

/-! The selected decision: whatever was loaded and pressed, the cursor is on a row, or before the first
one since the list was empty. -/

namespace Consent.Manage

namespace Table

variable {t : Table}

@[simp] theorem cursor_setOffset (t : Table) (lines offset : Int) :
    (t.setOffset lines offset).cursor = t.cursor := rfl

@[simp] theorem rows_setOffset (t : Table) (lines offset : Int) :
    (t.setOffset lines offset).rows = t.rows := rfl

@[simp] theorem cursor_settle (t : Table) : t.settle.cursor = t.cursor := by
  unfold settle
  split <;> rfl

@[simp] theorem rows_settle (t : Table) : t.settle.rows = t.rows := by
  unfold settle
  split <;> rfl

@[simp] theorem cursor_moveTo (t : Table) (row : Int) :
    (t.moveTo row).cursor = clamp row 0 (t.rows.length - 1) := rfl

@[simp] theorem rows_moveTo (t : Table) (row : Int) : (t.moveTo row).rows = t.rows := rfl

/-- The cursor may be anywhere within the rows; without rows it is before the first. -/
def Seated (t : Table) : Prop := 0 ≤ t.cursor ∧ t.cursor < t.rows.length ∨ t.cursor = -1 ∧ t.rows = []

theorem seated_moveTo (t : Table) (row : Int) : (t.moveTo row).Seated := by
  unfold Seated
  rw [cursor_moveTo, rows_moveTo, clamp]
  cases t.rows with
  | nil =>
    refine Or.inr ⟨?_, rfl⟩
    simp only [List.length_nil]
    omega
  | cons row rows =>
    refine Or.inl ?_
    simp only [List.length_cons]
    omega

theorem Seated.of_eq {u : Table} (h : t.Seated) (hcursor : u.cursor = t.cursor)
    (hrows : u.rows = t.rows) : u.Seated := by
  rw [Seated, hcursor, hrows]
  exact h

theorem moveUp_eq (t : Table) (n : Int) : (t.moveUp n).cursor = (t.moveTo (t.cursor - n)).cursor ∧
    (t.moveUp n).rows = t.rows := by
  unfold moveUp
  dsimp only
  rw [cursor_settle, rows_settle]
  split
  · exact ⟨rfl, rfl⟩
  · split
    · exact ⟨rfl, rfl⟩
    · split <;> exact ⟨rfl, rfl⟩

theorem moveDown_eq (t : Table) (n : Int) :
    (t.moveDown n).cursor = (t.moveTo (t.cursor + n)).cursor ∧ (t.moveDown n).rows = t.rows := by
  unfold moveDown
  dsimp only
  split
  · exact ⟨cursor_settle _, rows_settle _⟩
  · split
    · exact ⟨cursor_settle _, rows_settle _⟩
    · split
      · exact ⟨cursor_settle _, rows_settle _⟩
      · split <;> exact ⟨cursor_settle _, rows_settle _⟩

/-- The keys that move the cursor up, of those that are left to the table. -/
def upKeys : List String := ["up", "k", "pgup", "ctrl+u", "u", "home", "g"]

/-- The keys that move the cursor down. -/
def downKeys : List String := ["down", "j", "pgdown", "f", " ", "ctrl+d", "end", "G"]

theorem press_of_mem_upKeys {key : String} (h : key ∈ upKeys) (t : Table) :
    ∃ n, t.press key = t.moveUp n := by
  simp only [upKeys, List.mem_cons, List.not_mem_nil, or_false] at h
  rcases h with rfl | rfl | rfl | rfl | rfl | rfl | rfl <;> exact ⟨_, rfl⟩

theorem press_of_mem_downKeys {key : String} (h : key ∈ downKeys) (t : Table) :
    ∃ n, t.press key = t.moveDown n := by
  simp only [downKeys, List.mem_cons, List.not_mem_nil, or_false] at h
  rcases h with rfl | rfl | rfl | rfl | rfl | rfl | rfl | rfl <;> exact ⟨_, rfl⟩

/-- A key that moves the cursor seats it. -/
theorem press_of_mem {key : String} (h : key ∈ upKeys ++ downKeys) (t : Table) :
    (t.press key).Seated ∧ (t.press key).rows = t.rows := by
  rcases List.mem_append.mp h with h | h
  · obtain ⟨n, hpress⟩ := press_of_mem_upKeys h t
    obtain ⟨hcursor, hrows⟩ := moveUp_eq t n
    rw [hpress]
    exact ⟨(seated_moveTo t (t.cursor - n)).of_eq hcursor hrows, hrows⟩
  · obtain ⟨n, hpress⟩ := press_of_mem_downKeys h t
    obtain ⟨hcursor, hrows⟩ := moveDown_eq t n
    rw [hpress]
    exact ⟨(seated_moveTo t (t.cursor + n)).of_eq hcursor hrows, hrows⟩

/-- Any other key but two that the table knows leaves it as it is. -/
theorem press_of_notMem {key : String} (h : key ∉ upKeys ++ downKeys) (hb : key ≠ "b")
    (hd : key ≠ "d") (t : Table) : t.press key = t := by
  unfold press
  split <;> simp_all [upKeys, downKeys]

theorem rows_setRows (t : Table) (rows : List (List String)) : (t.setRows rows).rows = rows :=
  rows_settle _

/-- New rows leave the cursor where it is, or move it to the last of them. -/
theorem cursor_setRows (t : Table) (rows : List (List String)) :
    (t.setRows rows).cursor = min t.cursor (rows.length - 1) :=
  cursor_settle _

end Table

/-- Whether an event is a key that moves the cursor. -/
def Message.Moves : Message → Prop
  | .screen (.key key) => key ∈ Table.upKeys ++ Table.downKeys
  | _ => False

/-- The decisions that are shown after some events: the last that were loaded. -/
def listed (events : List Message) : List Record :=
  events.foldl (fun shown event =>
    match event with
    | .loaded (.ok records) => records
    | _ => shown) []

/-- Whether an event leaves the cursor before the first row: a load or a move after which nothing is
shown. -/
def Unseats (before : List Message) (event : Message) : Prop :=
  listed (before ++ [event]) = [] ∧ (event.Moves ∨ ∃ records, event = .loaded (.ok records))

/-- Whether the cursor was left before the first row and not moved since. -/
def Astray (events : List Message) : Prop :=
  ∃ before event after, events = before ++ event :: after ∧ Unseats before event ∧
    ∀ later ∈ after, ¬ later.Moves

theorem listed_concat (events : List Message) (event : Message) : listed (events ++ [event]) =
    match event with
    | .loaded (.ok records) => records
    | _ => listed events := by
  rw [listed, List.foldl_append]
  rfl

theorem astray_concat_iff (events : List Message) (event : Message) :
    Astray (events ++ [event]) ↔ Unseats events event ∨ ¬ event.Moves ∧ Astray events := by
  constructor
  · rintro ⟨before, first, after, heq, hunseats, hlater⟩
    rcases List.eq_nil_or_concat after with rfl | ⟨rest, last, rfl⟩
    · obtain ⟨rfl, hlast⟩ := List.append_inj' heq rfl
      rw [List.singleton_inj.mp hlast]
      exact Or.inl hunseats
    · rw [List.concat_eq_append] at hlater heq
      obtain ⟨rfl, hlast⟩ := List.append_inj' (heq.trans (List.append_assoc before (first :: rest)
        [last]).symm) rfl
      rw [List.singleton_inj.mp hlast]
      exact Or.inr ⟨hlater last (by simp), before, first, rest, rfl, hunseats, fun later hmem =>
        hlater later (List.mem_append_left _ hmem)⟩
  · rintro (hunseats | ⟨hstays, before, first, after, rfl, hunseats, hlater⟩)
    · exact ⟨events, event, [], rfl, hunseats, by simp⟩
    · refine ⟨before, first, after ++ [event], by simp, hunseats, ?_⟩
      exact List.forall_mem_append.mpr ⟨hlater, by simpa using hstays⟩

namespace Model

variable {m : Model} {events : List Message} {event : Message}

theorem press_of_mem {key : String} (h : key ∈ Table.upKeys ++ Table.downKeys) (m : Model) :
    (m.press key).1 = { m with table := m.table.press key } := by
  unfold press
  split <;> simp_all [Table.upKeys, Table.downKeys]

theorem press_of_notMem {key : String} (h : key ∉ Table.upKeys ++ Table.downKeys) (m : Model) :
    (m.press key).1.table = m.table ∧ (m.press key).1.records = m.records := by
  unfold press
  -- Only in the last case the key is left to the table.
  split <;> first
    | exact ⟨rfl, rfl⟩
    | exact ⟨Table.press_of_notMem h ‹_› ‹_› m.table, rfl⟩

/-- The model after some events, each with the time at which it came. -/
def after (events : List (Instant × Message)) : Model :=
  events.foldl (fun m e => (m.update e.1 e.2).1) {}

/-- What a model shows after some events, and where its cursor is. -/
structure Follows (events : List Message) (m : Model) : Prop where
  records : m.records = listed events
  rows : m.table.rows.length = m.records.length
  astray : Astray events → m.table.cursor = -1
  seated : ¬ Astray events →
    0 ≤ m.table.cursor ∧ (m.records ≠ [] → m.table.cursor < m.records.length)

theorem follows_start : Follows [] {} where
  records := rfl
  rows := rfl
  astray := by
    rintro ⟨before, event, after, heq, -⟩
    simp at heq
  seated _ := ⟨Int.le_refl 0, fun h => absurd rfl h⟩

/-- An event that neither loads nor moves the cursor changes nothing about the selection. -/
theorem Follows.stays {m' : Model} (h : Follows events m) (hmoves : ¬ event.Moves)
    (hload : ∀ records, event ≠ .loaded (.ok records)) (hcursor : m'.table.cursor = m.table.cursor)
    (hrows : m'.table.rows = m.table.rows) (hrecords : m'.records = m.records) :
    Follows (events ++ [event]) m' := by
  have hlisted : listed (events ++ [event]) = listed events := by
    rw [listed_concat]
    split
    · exact absurd rfl (hload _)
    · rfl
  have hastray : Astray (events ++ [event]) ↔ Astray events := by
    rw [astray_concat_iff]
    refine ⟨fun hastray => ?_, fun hastray => Or.inr ⟨hmoves, hastray⟩⟩
    rcases hastray with ⟨-, hmove | ⟨records, heq⟩⟩ | ⟨-, hastray⟩
    · exact absurd hmove hmoves
    · exact absurd heq (hload records)
    · exact hastray
  exact ⟨by rw [hrecords, hlisted, h.records], by rw [hrows, hrecords, h.rows],
    fun ha => hcursor.trans (h.astray (hastray.mp ha)),
    fun ha => by
      rw [hcursor, hrecords]
      exact h.seated (mt hastray.mpr ha)⟩

/-- A move puts the cursor on a row, if there is one. -/
theorem Follows.moved {key : String} (h : Follows events m)
    (hkey : key ∈ Table.upKeys ++ Table.downKeys) :
    Follows (events ++ [.screen (.key key)]) (m.press key).1 := by
  obtain ⟨hseated, hrows⟩ := Table.press_of_mem hkey m.table
  have hmoves : (Message.screen (.key key)).Moves := hkey
  have hlisted : listed (events ++ [.screen (.key key)]) = listed events := listed_concat _ _
  have hastray : Astray (events ++ [.screen (.key key)]) ↔ m.records = [] := by
    rw [astray_concat_iff, Unseats, hlisted, h.records]
    simp [hmoves]
  have hlength : m.table.rows = [] ↔ m.records = [] := by
    rw [← List.length_eq_zero_iff, h.rows, List.length_eq_zero_iff]
  have hcount := h.rows
  rw [press_of_mem hkey]
  unfold Table.Seated at hseated
  rw [hrows, hlength] at hseated
  refine ⟨by rw [hlisted, ← h.records], by rw [← hcount, ← hrows], ?_, ?_⟩
  · intro ha
    rcases hseated with ⟨hlow, hhigh⟩ | ⟨hcursor, -⟩
    · rw [hcount, hastray.mp ha] at hhigh
      exact absurd (Int.lt_of_le_of_lt hlow hhigh) (Int.lt_irrefl 0)
    · exact hcursor
  · intro ha
    rcases hseated with ⟨hlow, hhigh⟩ | ⟨-, hempty⟩
    · exact ⟨hlow, fun _ => hcount ▸ hhigh⟩
    · exact absurd (hastray.mpr hempty) ha

/-- After a load there is nothing left to correct: the rows themselves have bounded the cursor. -/
theorem update_loaded (m : Model) (now : Instant) (records : List Record) :
    (m.update now (.loaded (.ok records))).1 =
      { m with records, table := m.table.setRows (records.map (·.cells now)) } := by
  have hcursor := Table.cursor_setRows m.table (records.map (·.cells now))
  rw [List.length_map] at hcursor
  unfold update
  dsimp only
  rw [if_neg (by rw [hcursor]; omega)]

/-- A load moves the cursor to the last row at most, and before the first when there is none. -/
theorem Follows.loaded (h : Follows events m) (now : Instant) (records : List Record) :
    Follows (events ++ [.loaded (.ok records)]) (m.update now (.loaded (.ok records))).1 := by
  have hlisted : listed (events ++ [.loaded (.ok records)]) = records := listed_concat _ _
  have hcursor := Table.cursor_setRows m.table (records.map (·.cells now))
  rw [List.length_map] at hcursor
  have hmoves : ¬ (Message.loaded (.ok records)).Moves := id
  have hastray : Astray (events ++ [.loaded (.ok records)]) ↔ records = [] ∨ Astray events := by
    rw [astray_concat_iff, Unseats, hlisted]
    simp [hmoves]
  rw [update_loaded]
  refine ⟨hlisted.symm, by rw [Table.rows_setRows, List.length_map], ?_, ?_⟩
  · intro ha
    dsimp only
    rcases hastray.mp ha with rfl | ha
    · have hlow : -1 ≤ m.table.cursor := by
        by_cases ha : Astray events
        · exact Int.le_of_eq (h.astray ha).symm
        · exact Int.le_trans (by decide) (h.seated ha).1
      rw [hcursor, List.length_nil]
      omega
    · rw [hcursor, h.astray ha]
      omega
  · intro ha
    have hsome : 0 < records.length :=
      List.length_pos_iff.mpr fun hempty => ha (hastray.mpr (Or.inl hempty))
    have hlow := (h.seated fun hastray' => ha (hastray.mpr (Or.inr hastray'))).1
    dsimp only
    rw [hcursor]
    exact ⟨by omega, fun _ => by omega⟩

theorem Follows.step (h : Follows events m) (now : Instant) (event : Message) :
    Follows (events ++ [event]) (m.update now event).1 := by
  match event with
  | .screen (.resize width height) =>
    exact h.stays id nofun (Table.cursor_settle _) (Table.rows_settle _) rfl
  | .screen (.key key) =>
    by_cases hkey : key ∈ Table.upKeys ++ Table.downKeys
    · exact h.moved hkey
    · obtain ⟨htable, hrecords⟩ := press_of_notMem hkey m
      exact h.stays hkey nofun (congrArg Table.cursor htable) (congrArg Table.rows htable) hrecords
  | .loaded (.error e) => exact h.stays id nofun rfl rfl rfl
  | .loaded (.ok records) => exact h.loaded now records
  | .changed status failure => exact h.stays id nofun rfl rfl rfl

theorem follows_after (events : List (Instant × Message)) :
    Follows (events.map (·.2)) (after events) := by
  induction events using List.reverseRecOn with
  | nil => exact follows_start
  | append_singleton events e ih =>
    have hafter : after (events ++ [e]) = ((after events).update e.1 e.2).1 := by
      rw [after, List.foldl_append]
      rfl
    rw [hafter, List.map_append]
    exact ih.step e.1 e.2

/-- What the cursor is on. -/
theorem Follows.selected?_eq_none_iff (h : Follows events m) :
    m.selected? = none ↔ m.records = [] ∨ Astray events := by
  unfold selected?
  by_cases ha : Astray events
  · rw [h.astray ha]
    exact iff_of_true rfl (Or.inr ha)
  · obtain ⟨hlow, hhigh⟩ := h.seated ha
    rw [if_neg (Int.not_lt.mpr hlow), List.getElem?_eq_none_iff]
    constructor
    · intro hbeyond
      refine Or.inl (by_contra fun hsome => ?_)
      have := hhigh hsome
      omega
    · rintro (hempty | ha')
      · simp [hempty]
      · exact absurd ha' ha

/-- When a decision is selected. Whatever was loaded and pressed since the start, one of the shown
decisions is, and the keys that allow, block and delete act on it, unless none is shown or the cursor
was left before the first row, by a load of nothing or a move without rows, and not moved since. -/
theorem selected?_after_iff (events : List (Instant × Message)) :
    let m := after events
    m.records = listed (events.map (·.2)) ∧
      (m.selected? = none ↔ m.records = [] ∨ Astray (events.map (·.2))) ∧
      ∀ r, m.selected? = some r → r ∈ m.records ∧ (m.press "a").2 = some (.set r .allow) ∧
        (m.press "b").2 = some (.set r .block) ∧ (m.press "x").2 = some (.delete r) ∧
        (m.press "d").2 = some (.delete r) := by
  intro m
  have hfollows : Follows (events.map (·.2)) m := follows_after events
  refine ⟨hfollows.records, hfollows.selected?_eq_none_iff, fun r hr => ?_⟩
  have hmem : r ∈ m.records := by
    unfold selected? at hr
    split at hr
    · cases hr
    · exact List.mem_of_getElem? hr
  have hpress : ∀ f : Record → Effect, m.selected?.map f = some (f r) := by
    intro f
    rw [hr]
    rfl
  exact ⟨hmem, hpress _, hpress _, hpress _, hpress _⟩

/-- A decision that is listed again after the list was empty is not selected, and blocking does
nothing. -/
theorem relisted_not_selected :
    let r : Record := ⟨"https://maps.example.com", "popup", .allow, .never, .unset, .unset⟩
    let m := after [(⟨0⟩, .loaded (.ok [r])), (⟨1⟩, .loaded (.ok [])), (⟨2⟩, .loaded (.ok [r]))]
    m.records = [r] ∧ m.selected? = none ∧ (m.press "b").2 = none := by
  decide +kernel

end Model

end Consent.Manage

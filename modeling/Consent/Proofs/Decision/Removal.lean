import Consent.Proofs.Decision.Use
import Consent.Proofs.Origin.RoundTrip

/-! Which of the listed decisions can be removed by the origin they are listed with. -/

namespace Consent

open Host Store Text Log

namespace Decision

section Removal

variable [SuffixList] {s₀ s s₁ : Store} {p : Policy} {now : Instant} {t : Table} {raw key : String}
  {kind : Kind} {fields : List Field}

/-- The stores that come of `s₀` by any uses of its decisions, also by way of new handles. -/
inductive Used (s₀ : Store) : Store → Prop where
  | start : Used s₀ s₀
  | use {s : Store} (p : Policy) (now : Instant) (fields : List Field) (u : Use) :
    Used s₀ s → Used s₀ (u.make p (repository now) fields s).state
  | reopen {s : Store} : Used s₀ s → Used s₀ s.reopened

theorem Used.keyed (h : Used s₀ s) (hs₀ : s₀.Keyed) : s.Keyed := by
  induction h with
  | start => exact hs₀
  | use p now fields u _ ih => exact u.keeps_make (keeps_repository now) p fields _ ih
  | reopen _ ih => exact ih

/-- The key that removing a text deletes, if it deletes any. -/
def target? (raw : String) : Option String :=
  match Origin.parse raw with
  | .ok o => some o.key
  | .error e => if isRemovable (trim raw.toList) e then some (trimString raw) else none

omit [SuffixList] in
/-- Decisions about ordinary origins are removed by the key they are stored under. -/
theorem target?_key {o : Origin} (h : o.Ordinary) : target? o.key = some o.key := by
  rw [target?, h.parse_key]

omit [SuffixList] in
/-- Host values that were carried over as they stood are removed as they stand, unless they read as
an origin or have blanks at their ends. -/
theorem target?_of_isVerbatim {host : String} {e : OriginError}
    (h : Legacy.isVerbatim host.toList = true) (htrim : trim host.toList = host.toList)
    (hparse : Origin.parse host = .error e) : target? host = some host := by
  have hnonempty : host.toList.isEmpty = false := by
    cases hhost : host.toList with
    | nil =>
      rw [hhost] at h
      revert h
      decide
    | cons c rest => rfl
  have hremovable : isRemovable (trim host.toList) e = true := by
    rw [htrim]
    cases e <;> simp [isRemovable, hnonempty, h]
  rw [target?, hparse]
  dsimp only
  rw [if_pos hremovable, trimString, htrim, String.ofList_toList]

theorem gives_remove (hready : s.Ready t) (h : target? raw = some key) :
    (remove (repository now) raw kind).Gives fields s () (s.withTable (t.erase key kind)) := by
  have hdelete : ((repository now).delete key kind).Gives fields s () _ :=
    gives_serve (gives_acquire_of_opened hready.opened hready.notClosed) hready (.emit _ _ _ _ _)
  unfold target? at h
  unfold remove
  cases hparse : Origin.parse raw with
  | ok o =>
    rw [hparse] at h
    cases h
    exact hdelete
  | error e =>
    rw [hparse] at h
    dsimp only at h ⊢
    split at h
    · rename_i hremovable
      cases h
      rw [if_pos hremovable]
      exact .logged hdelete
    · cases h

theorem state_remove_of_none (h : target? raw = none) :
    (remove (repository now) raw kind fields s).state = s := by
  unfold target? at h
  unfold remove
  cases hparse : Origin.parse raw with
  | ok o =>
    rw [hparse] at h
    cases h
  | error e =>
    rw [hparse] at h
    dsimp only at h ⊢
    split at h
    · cases h
    · rename_i hremovable
      rw [if_neg hremovable]
      rfl

/-- A row stays if removing names another key. -/
theorem mem_of_remove {row : Row} (hready : s.Ready t) (hrow : row ∈ t)
    (h : target? raw ≠ some row.origin) :
    ∃ t', (remove (repository now) raw kind fields s).state.Ready t' ∧ row ∈ t' := by
  cases htarget : target? raw with
  | none =>
    rw [state_remove_of_none htarget]
    exact ⟨t, hready, hrow⟩
  | some key =>
    have hgives : (remove (repository now) raw kind).Gives fields s () _ :=
      gives_remove hready htarget
    rw [hgives.state]
    refine ⟨t.erase key kind, hready.withTable _, List.mem_filter.mpr ⟨hrow, ?_⟩⟩
    have hkey : row.hasKey key kind = false := by
      rw [Bool.eq_false_iff, Ne, Row.hasKey_iff]
      rintro ⟨rfl, -⟩
      exact h htarget
    simp [hkey]

/-- What is listed stands in the table. -/
theorem mem_of_all {records : List Record} {r : Record}
    (h : (all p (repository now)).Gives fields s records s₁) (hr : r ∈ records) :
    ∃ before row after, s₁.Ready (before ++ row :: after) ∧ row.record = r := by
  obtain ⟨found, s₂, hlist, hfilter⟩ := Action.gives_of_bind h
  obtain rfl : s₂ = s₁ := hfilter.state
  obtain ⟨s₃, t, -, hready, rfl, rfl⟩ := table_of_serve (.pure () fields) hlist
  have hrecords : t.records.filter (fun r => !r.isExpired p.now) = records :=
    Except.ok.inj hfilter.answer
  rw [← hrecords] at hr
  obtain ⟨row, hrow, rfl⟩ := List.mem_map.mp (List.mem_filter.mp hr).1
  obtain ⟨before, after, rfl⟩ := List.append_of_mem hrow
  rw [hready.withTable_self]
  exact ⟨before, row, after, hready, rfl⟩

/-- However a store was used, removing a listed decision by its listed origin takes out its row and
leaves all others as they are, if the key that removing makes of the origin is that origin. With any
other key the row stays. Keys of ordinary origins come out as they are, and so do host values that
were carried over as they stood, unless they read as an origin or have blanks at their ends. -/
theorem remove_listed {records : List Record} {r : Record} (hs₀ : s₀.Keyed) (h : Used s₀ s)
    (hall : (all p (repository now)).Gives fields s records s₁) (hr : r ∈ records)
    (later : Instant) :
    ∃ before row after, s₁.Ready (before ++ row :: after) ∧ row.record = r ∧
      let removed := (remove (repository later) r.origin r.kind).run s₁
      (target? r.origin = some r.origin →
        removed.answer = .ok () ∧ removed.state = s₁.withTable (before ++ after)) ∧
      (target? r.origin ≠ some r.origin → ∃ t, removed.state.Ready t ∧ row ∈ t) ∧
      (∀ o : Origin, o.Ordinary → r.origin = o.key → target? r.origin = some r.origin) ∧
      ∀ e, Legacy.isVerbatim r.origin.toList = true → trim r.origin.toList = r.origin.toList →
        Origin.parse r.origin = .error e → target? r.origin = some r.origin := by
  obtain ⟨before, row, after, hready, rfl⟩ := mem_of_all hall hr
  have hkeyed : Table.Keyed (before ++ row :: after) := by
    have hs₁ : s₁.Keyed := by
      rw [← hall.state]
      exact keeps_all (keeps_repository now) p fields s (h.keyed hs₀)
    obtain ⟨d, hfile, hperms⟩ := hready.holds
    exact hs₁ d hfile _ hperms
  refine ⟨before, row, after, hready, rfl, fun htarget => ?_, fun htarget => ?_, ?_, ?_⟩
  · have hgives : (remove (repository later) row.record.origin row.record.kind).Gives [] s₁ () _ :=
      gives_remove hready htarget
    refine ⟨hgives.answer, hgives.state.trans ?_⟩
    exact congrArg s₁.withTable (Table.erase_of_keyed hkeyed)
  · exact mem_of_remove hready (List.mem_append_right before List.mem_cons_self) htarget
  · intro o ho horigin
    rw [horigin]
    exact target?_key ho
  · intro e hverbatim htrim hparse
    exact target?_of_isVerbatim hverbatim htrim hparse

end Removal

/-- Rows by host of which one is a URI that is not spelled as its origin is. -/
def spelledRows : List (Int × List Legacy.Cell) := [
  (1, [.text "http://Example.com", .text "popup", .integer 1, .integer 0, .integer 0,
    .integer 1700000000000, .integer 0, .integer 0]),
  (2, [.text "example.com", .text "popup", .integer 2, .integer 0, .integer 0,
    .integer 1700000000000, .integer 0, .integer 0]),
  (3, [.text "<file>", .text "popup", .integer 2, .integer 0, .integer 0,
    .integer 1700000000000, .integer 0, .integer 0])]

def spelledStore : Store where
  path := "permissions.db"
  file := .database { hosts := some ⟨Legacy.HostTable.standardColumns, spelledRows⟩ }

/-- A host value in angle brackets is removed as it stands. -/
theorem remove_listed_file :
    let p : Policy := { now := .atMillis 1700000000000 }
    let s₁ := ((all p (repository p.now)).run spelledStore).state
    let removed := (remove (repository p.now) "<file>" "popup").run s₁
    ∃ before row after, s₁.Ready (before ++ row :: after) ∧ row.record.origin = "<file>" ∧
      removed.answer = .ok () ∧ removed.state = s₁.withTable (before ++ after) := by
  intro p s₁ removed
  let r : Record := ⟨"<file>", "popup", .block, .never, .unset, .atMillis 1700000000000⟩
  have hs₀ : spelledStore.Keyed := by
    rintro _ ⟨⟩ t ht
    cases ht
  have hlisted : ((all p (repository p.now)).run spelledStore).answer = .ok [
      ⟨"http://Example.com", "popup", .allow, .never, .unset, .atMillis 1700000000000⟩,
      ⟨"http://example.com", "popup", .block, .never, .unset, .atMillis 1700000000000⟩,
      ⟨"https://example.com", "popup", .block, .never, .unset, .atMillis 1700000000000⟩, r] := by
    decide +kernel
  have hall := Action.Gives.of_run hlisted
  obtain ⟨before, row, after, hready, hrow, hremoved, -⟩ :=
    remove_listed (r := r) hs₀ .start hall (by decide) p.now
  exact ⟨before, row, after, hready, congrArg Record.origin hrow, hremoved (by decide +kernel)⟩

/-- Removing the URI that was carried over as it stood takes out another decision, and the URI is
still listed. -/
theorem spelledUri_not_removed :
    let p : Policy := { now := .atMillis 1700000000000 }
    let listed := (all p (repository p.now)).run spelledStore
    let removed := (remove (repository p.now) "http://Example.com" "popup").run listed.state
    let left := (all p (repository p.now)).run removed.state
    listed.answer.map (·.map Record.origin) =
        .ok ["http://Example.com", "http://example.com", "https://example.com", "<file>"] ∧
      removed.answer = .ok () ∧
      left.answer.map (·.map Record.origin) =
        .ok ["http://Example.com", "https://example.com", "<file>"] := by
  decide +kernel

end Decision

end Consent

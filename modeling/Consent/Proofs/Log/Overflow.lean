import Consent.Proofs.Log.Pruning
import Consent.Proofs.Log.Rotation

/-! Limits that are too large for 64 bits: which of them still mean what they say. -/

namespace Consent.Log

variable {limits : Limits} {zone : Zone} {now : Instant}

/-- A number that 64 bits do not turn into a smaller positive one: it fits, or it wraps around to
one that is not positive. -/
def NotShrunk (n : Int) : Prop := n < 2 ^ 63 ∨ n % 2 ^ 64 = 0 ∨ 2 ^ 63 ≤ n % 2 ^ 64

theorem NotShrunk.le_bmod {n : Int} (h : NotShrunk n) (hpos : 0 < n.bmod Text.limit64) :
    n ≤ n.bmod Text.limit64 := by
  unfold NotShrunk at h
  rw [bmod_limit64] at *
  split at hpos <;> omega

theorem bmod_of_not_notShrunk {n : Int} (h : ¬ NotShrunk n) :
    0 < n.bmod Text.limit64 ∧ n.bmod Text.limit64 + 2 ^ 64 ≤ n := by
  unfold NotShrunk at h
  rw [bmod_limit64]
  split <;> omega

namespace Rotator

variable {r : Rotator} {cur : LogFile} {bytes : List UInt8}

/-- The log as a write finds it: a closed one is opened first. -/
def ready (now : Instant) (r : Rotator) : Rotator := if r.size.isNone then r.reopen now else r

/-- The tracked size is that of the current file. -/
structure Tracks (r : Rotator) (cur : LogFile) : Prop where
  current : r.current? = some cur
  size : r.size = some cur.content.length

theorem write_eq_of_tracks (h : (r.ready now).Tracks cur) :
    r.write zone now bytes =
      (if (r.ready now).isFull cur.content.length bytes.length then (r.ready now).rotate zone now
        else r.ready now).append now bytes := by
  have hwrite : r.write zone now bytes =
      (if (r.ready now).isFull ((r.ready now).size.getD 0) bytes.length then
          (r.ready now).rotate zone now
        else r.ready now).append now bytes := rfl
  rw [hwrite, h.size, Option.getD_some]

@[simp] theorem limits_ready (now : Instant) (r : Rotator) : (r.ready now).limits = r.limits := by
  unfold ready
  split
  · exact limits_reopen now r
  · rfl

/-- A size that is not shrunk is reached before the current file is put aside. -/
theorem rotates_late (hexact : NotShrunk (r.limits.maxSizeMb * 2 ^ 20))
    (h : (r.ready now).Tracks cur) : r.write zone now bytes = (r.ready now).append now bytes ∨
      r.limits.maxSizeMb * 2 ^ 20 < cur.content.length + bytes.length := by
  rw [write_eq_of_tracks h]
  cases hfull : (r.ready now).isFull cur.content.length bytes.length with
  | false => exact Or.inl rfl
  | true =>
    rw [isFull_eq_true_iff, limits_ready] at hfull
    exact Or.inr (Int.lt_of_le_of_lt (hexact.le_bmod hfull.1) hfull.2.2)

/-- An age that is not shrunk is reached before a file is deleted for it. -/
theorem outlives (hexact : NotShrunk (r.limits.maxAgeDays * 86400000000000)) {f : LogFile}
    (hf : f ∈ r.files) (hgone : f ∉ (r.dropOutdated now).files) :
    r.limits.maxAgeDays * 86400000000000 < now.nanos - f.modified.nanos := by
  have houtdated : r.limits.isOutdated now f = true := by
    by_contra hyoung
    refine hgone (List.mem_filter.mpr ⟨hf, ?_⟩)
    rw [Bool.eq_false_iff.mpr hyoung, Bool.and_false]
    rfl
  obtain ⟨hpos, hold⟩ := Limits.isOutdated_iff.mp houtdated
  have hage := Int.lt_of_le_of_lt (hexact.le_bmod hpos) hold
  omega

/-- A log whose current file has the size that is counted as the largest, at the start of 1970. -/
def full (limits : Limits) : Rotator where
  limits := limits
  files := [⟨limits.baseName, List.replicate limits.maxSize.toNat 0, ⟨0⟩, false, false⟩]
  size := some limits.maxSize.toNat

theorem isOpen_full (limits : Limits) : (full limits).IsOpen []
    ⟨limits.baseName, List.replicate limits.maxSize.toNat 0, ⟨0⟩, false, false⟩ :=
  ⟨rfl, rfl, by simp, by simp [full]⟩

theorem tracks_ready_full (limits : Limits) (now : Instant) : ((full limits).ready now).Tracks
    ⟨limits.baseName, List.replicate limits.maxSize.toNat 0, ⟨0⟩, false, false⟩ :=
  ⟨by simp [ready, full, current?], by simp [ready, full]⟩

/-- Such a log rotates for one byte more. -/
theorem write_full_ne_append (hpos : 0 < limits.maxSize) (zone : Zone) (now : Instant) :
    (full limits).write zone now [0] ≠ ((full limits).ready now).append now [0] := by
  have hopen := isOpen_full limits
  have hsize : (List.replicate limits.maxSize.toNat (0 : UInt8)).length = limits.maxSize.toNat :=
    List.length_replicate
  have hfull : (full limits).isFull limits.maxSize.toNat 1 = true := by
    refine isFull_eq_true_iff.mpr ⟨hpos, by omega, ?_⟩
    change limits.maxSize < _
    omega
  obtain ⟨kept, backup, -, -, -, hrotate⟩ := hopen.exists_rotate zone now
  intro hsame
  rw [hopen.write_eq, hsize, List.length_singleton, hfull, if_pos rfl, hrotate] at hsame
  have hnew := congrArg Rotator.size hsame
  simp only [append, ready, full, Option.isNone_some, Bool.false_eq_true, if_false, Option.map_some,
    List.length_singleton, Option.some.injEq] at hnew
  omega

/-- A closed log with a backup from the start of 1970. -/
def aged (limits : Limits) : Rotator where
  limits := limits
  files := [⟨limits.baseName ++ ".", [], ⟨0⟩, false, false⟩]

/-- Such a backup is deleted once the age that is counted is over. -/
theorem dropOutdated_aged (hpos : 0 < limits.maxAge) (hold : limits.maxAge < now.nanos) :
    ((aged limits).dropOutdated now).files = [] := by
  have haside : limits.IsAside ⟨limits.baseName ++ ".", [], ⟨0⟩, false, false⟩ :=
    ⟨rfl, List.prefix_rfl⟩
  have houtdated : limits.isOutdated now ⟨limits.baseName ++ ".", [], ⟨0⟩, false, false⟩ = true :=
    Limits.isOutdated_iff.mpr ⟨hpos, by simpa using hold⟩
  simp [dropOutdated, aged, Limits.isBackup_iff.mpr haside, houtdated]

/-- Which limits mean what they say. A write puts the current file aside only where it would grow
beyond the stated size, and a file is deleted for its age only where it is older than the stated age,
exactly if the number of bytes and that of nanoseconds are not turned into smaller positive ones. -/
theorem limits_exact_iff (limits : Limits) :
    ((∀ (r : Rotator) (zone : Zone) (now : Instant) (cur : LogFile) (bytes : List UInt8),
        r.limits = limits →
        (r.ready now).Tracks cur → r.write zone now bytes = (r.ready now).append now bytes ∨
          limits.maxSizeMb * 2 ^ 20 < cur.content.length + bytes.length) ↔
      NotShrunk (limits.maxSizeMb * 2 ^ 20)) ∧
    ((∀ (r : Rotator) (now : Instant), r.limits = limits →
        r.prune now = (r.dropOutdated now).dropExcess ∧
          ∀ f ∈ r.files, f ∉ (r.dropOutdated now).files →
            limits.maxAgeDays * 86400000000000 < now.nanos - f.modified.nanos) ↔
      NotShrunk (limits.maxAgeDays * 86400000000000)) := by
  refine ⟨⟨fun h => ?_, ?_⟩, ⟨fun h => ?_, ?_⟩⟩
  · by_contra hshrunk
    obtain ⟨hpos, hless⟩ := bmod_of_not_notShrunk hshrunk
    have hmax : limits.maxSize = (limits.maxSizeMb * 2 ^ 20).bmod Text.limit64 := rfl
    rcases h (full limits) (fun _ => 0) ⟨0⟩ _ [0] rfl (tracks_ready_full limits ⟨0⟩) with
      hsame | hlarge
    · exact write_full_ne_append (hmax ▸ hpos) _ ⟨0⟩ hsame
    · rw [List.length_replicate, List.length_singleton] at hlarge
      omega
  · rintro hexact r zone now cur bytes rfl htracks
    exact rotates_late hexact htracks
  · by_contra hshrunk
    obtain ⟨hpos, hless⟩ := bmod_of_not_notShrunk hshrunk
    have hmax : limits.maxAge = (limits.maxAgeDays * 86400000000000).bmod Text.limit64 := rfl
    have hgone : ((aged limits).dropOutdated ⟨limits.maxAge + 1⟩).files = [] :=
      dropOutdated_aged (hmax ▸ hpos) (Int.lt_succ limits.maxAge)
    have hold := (h (aged limits) ⟨limits.maxAge + 1⟩ rfl).2 _ (List.mem_singleton.mpr rfl)
      (by rw [hgone]; exact List.not_mem_nil)
    dsimp only at hold
    omega
  · rintro hexact r now rfl
    exact ⟨prune_eq now r, fun f hf hgone => outlives hexact hf hgone⟩

/-- With 17592186044417 megabytes a file of one megabyte is put aside, and with 213504 days a backup
is deleted after an hour. -/
theorem wrappedLimits_shrink :
    let limits : Limits := { maxSizeMb := 17592186044417, maxAgeDays := 213504 }
    (∃ (r : Rotator) (zone : Zone) (now : Instant) (cur : LogFile), r.limits = limits ∧
      (r.ready now).Tracks cur ∧
      cur.content.length = 1048576 ∧ r.write zone now [0] ≠ (r.ready now).append now [0]) ∧
    ∃ (r : Rotator) (f : LogFile), r.limits = limits ∧ f ∈ r.files ∧ f.modified = ⟨0⟩ ∧
      f ∉ (r.prune (.atMillis 3600000)).files := by
  intro limits
  refine ⟨⟨full limits, fun _ => 0, ⟨0⟩, _, rfl, tracks_ready_full limits ⟨0⟩, List.length_replicate,
    write_full_ne_append (by decide) _ ⟨0⟩⟩, aged limits, _, rfl, List.mem_singleton.mpr rfl, rfl, ?_⟩
  have hgone : ((aged limits).dropOutdated (.atMillis 3600000)).files = [] :=
    dropOutdated_aged (by decide) (by decide)
  rw [prune_eq, dropExcess, if_neg (by decide), hgone]
  exact List.not_mem_nil

end Rotator

end Consent.Log

import Mathlib.Algebra.Group.Int.Defs
import Mathlib.Data.List.Nodup
import Consent.Log.Rotation

/-! Which of the files that were put aside are deleted: the ones that are too old, then the oldest
beyond the number that is kept. -/

namespace Consent

/-- A bound on spans is not affected by where long spans are cut off. -/
theorem Duration.lt_clamp_iff {bound nanos : Int} (hlow : least ≤ bound) (hhigh : bound < greatest) :
    bound < (clamp nanos).nanos ↔ bound < nanos := by
  unfold clamp
  split
  · exact iff_of_true hhigh (Int.lt_trans hhigh ‹_›)
  · split
    · exact iff_of_false (Int.not_lt.mpr hlow) (by omega)
    · exact Iff.rfl

namespace Log

/-- A number of 64 bits is the number itself up to a multiple of 2^64, from -2^63 to 2^63. -/
theorem bmod_limit64 (n : Int) : n.bmod Text.limit64 =
    if n % 2 ^ 64 < 2 ^ 63 then n % 2 ^ 64 else n % 2 ^ 64 - 2 ^ 64 := rfl

variable {now : Instant} {f : LogFile}

namespace Limits

variable {limits : Limits}

/-- A file that was put aside: no directory, and named like the current file with more behind a
dot. -/
def IsAside (limits : Limits) (f : LogFile) : Prop :=
  f.isDirectory = false ∧ (limits.baseName ++ ".").toList <+: f.name.toList

instance (limits : Limits) : DecidablePred limits.IsAside := fun f =>
  inferInstanceAs (Decidable (f.isDirectory = false ∧ _ <+: f.name.toList))

theorem isBackup_iff : limits.isBackup f = true ↔ limits.IsAside f := by
  simp [isBackup, IsAside, List.isPrefixOf_iff_prefix]

theorem isBackup_eq (limits : Limits) (f : LogFile) :
    limits.isBackup f = decide (limits.IsAside f) :=
  Bool.eq_iff_iff.mpr (isBackup_iff.trans decide_eq_true_iff.symm)

theorem not_isAside_of_name_eq (h : f.name = limits.baseName) : ¬ limits.IsAside f := by
  intro haside
  have hlength := haside.2.length_le
  rw [h, String.toList_append, List.length_append] at hlength
  exact Nat.not_succ_le_self _ hlength

/-- A file that is at most as old as the stated number of days, if there is one. -/
def IsYoung (limits : Limits) (now : Instant) (f : LogFile) : Prop :=
  0 < limits.maxAgeDays → now.nanos - f.modified.nanos ≤ limits.maxAgeDays * 86400000000000

instance (limits : Limits) (now : Instant) : DecidablePred (limits.IsYoung now) := fun f =>
  inferInstanceAs (Decidable (0 < limits.maxAgeDays →
    now.nanos - f.modified.nanos ≤ limits.maxAgeDays * 86400000000000))

/-- The greatest age is the stated one as long as its nanoseconds can be counted in 64 bits. -/
theorem maxAge_eq (hlow : 0 ≤ limits.maxAgeDays) (hhigh : limits.maxAgeDays ≤ 106751) :
    limits.maxAge = limits.maxAgeDays * 86400000000000 := by
  rw [maxAge, bmod_limit64]
  split <;> omega

/-- Whatever its number of nanoseconds, a greatest age is compared with the age itself. -/
theorem isOutdated_iff : limits.isOutdated now f = true ↔
    0 < limits.maxAge ∧ limits.maxAge < now.nanos - f.modified.nanos := by
  have hrange : -2 ^ 63 ≤ limits.maxAge ∧ limits.maxAge < 2 ^ 63 - 1 := by
    rw [maxAge, bmod_limit64]
    split <;> omega
  rw [isOutdated, Bool.and_eq_true, decide_eq_true_eq, decide_eq_true_eq, Duration.between,
    Duration.lt_clamp_iff (by rw [Duration.least]; omega) (by rw [Duration.greatest]; omega)]

theorem isOutdated_eq (hlow : 0 ≤ limits.maxAgeDays) (hhigh : limits.maxAgeDays ≤ 106751)
    (now : Instant) (f : LogFile) :
    limits.isOutdated now f = !decide (limits.IsYoung now f) := by
  rw [Bool.eq_iff_iff, isOutdated_iff, maxAge_eq hlow hhigh, Bool.not_eq_true',
    decide_eq_false_iff_not, IsYoung]
  omega

end Limits

/-- Of two parts of a list without repetitions, the second is what is left without the first. -/
theorem perm_filter_notMem {l removed kept : List LogFile} (hl : l.Nodup)
    (h : (removed ++ kept).Perm l) : (l.filter (· ∉ removed)).Perm kept := by
  obtain ⟨-, -, hdisjoint⟩ := List.nodup_append.mp (h.nodup_iff.mpr hl)
  have hremoved : removed.filter (· ∉ removed) = [] := by simp
  have hkept : kept.filter (· ∉ removed) = kept := by
    refine List.filter_eq_self.mpr fun f hf => ?_
    exact decide_eq_true fun hmem => hdisjoint f hmem f hf rfl
  have hfilter := h.symm.filter (· ∉ removed)
  rwa [List.filter_append, hremoved, hkept, List.nil_append] at hfilter

namespace Rotator

variable {r : Rotator}

theorem byAge_perm (files : List LogFile) : (byAge files).Perm files :=
  (List.mergeSort_perm _ _).trans (List.mergeSort_perm _ _)

theorem byAge_pairwise (files : List LogFile) :
    (byAge files).Pairwise (·.modified ≤ ·.modified) := by
  have htrans : ∀ a b c : LogFile, decide (a.modified ≤ b.modified) = true →
      decide (b.modified ≤ c.modified) = true → decide (a.modified ≤ c.modified) = true := by
    intro a b c hab hbc
    exact decide_eq_true (Int.le_trans (of_decide_eq_true hab) (of_decide_eq_true hbc))
  have htotal : ∀ a b : LogFile, (decide (a.modified ≤ b.modified) ||
      decide (b.modified ≤ a.modified)) = true := by
    intro a b
    rw [Bool.or_eq_true, decide_eq_true_eq, decide_eq_true_eq]
    exact Int.le_total _ _
  exact (List.pairwise_mergeSort htrans htotal _).imp of_decide_eq_true

/-- The log without the backups that are too old. -/
def dropOutdated (now : Instant) (r : Rotator) : Rotator :=
  { r with files := r.files.filter fun f => !(r.limits.isBackup f && r.limits.isOutdated now f) }

/-- The log without the oldest backups beyond the number that is kept. -/
def dropExcess (r : Rotator) : Rotator :=
  let backups := r.files.filter r.limits.isBackup
  let excess := backups.length - r.limits.maxBackups.toNat
  if 0 < r.limits.maxBackups && 0 < excess then
    { r with
      files := r.files.filter fun f => !(((byAge backups).take excess).any (·.name = f.name)) }
  else r

theorem prune_eq (now : Instant) (r : Rotator) : r.prune now = (r.dropOutdated now).dropExcess :=
  rfl

/-- The backups are divided by age into those that are dropped and those that stay, however equally
old ones are arranged. -/
theorem exists_dropExcess (hnames : (r.files.map (·.name)).Nodup) :
    ∃ removed kept : List LogFile, (removed ++ kept).Perm (r.files.filter r.limits.isBackup) ∧
      (∀ f ∈ removed, ∀ g ∈ kept, f.modified ≤ g.modified) ∧
      (kept.length : Int) = (if r.limits.maxBackups ≤ 0 then
          ((r.files.filter r.limits.isBackup).length : Int)
        else min r.limits.maxBackups (r.files.filter r.limits.isBackup).length) ∧
      r.dropExcess = { r with files := r.files.filter (· ∉ removed) } := by
  generalize hbackups : r.files.filter r.limits.isBackup = backups
  generalize hexcess : backups.length - r.limits.maxBackups.toNat = excess
  by_cases hsome : 0 < r.limits.maxBackups ∧ 0 < excess
  · have hdrop : r.dropExcess = { r with
        files := r.files.filter fun f =>
          !(((byAge backups).take excess).any (·.name = f.name)) } := by
      rw [dropExcess, hbackups, hexcess]
      exact if_pos (by simpa using hsome)
    have hperm := byAge_perm backups
    have hsplit := List.take_append_drop excess (byAge backups)
    have hsorted := byAge_pairwise backups
    rw [← hsplit, List.pairwise_append] at hsorted
    refine ⟨(byAge backups).take excess, (byAge backups).drop excess, ?_, hsorted.2.2, ?_, ?_⟩
    · rwa [hsplit]
    · rw [List.length_drop, hperm.length_eq, if_neg (Int.not_le.mpr hsome.1)]
      omega
    · rw [hdrop]
      congr 1
      refine List.filter_congr fun f hf => ?_
      -- Files of one directory have different names, so a name finds the file itself.
      have hsame : ∀ g ∈ (byAge backups).take excess, g.name = f.name → g = f := by
        intro g hg hname
        have hmem : g ∈ backups := hperm.subset (List.take_subset _ _ hg)
        exact List.inj_on_of_nodup_map hnames (List.mem_filter.mp (hbackups ▸ hmem)).1 hf hname
      rw [Bool.eq_iff_iff, Bool.not_eq_true', List.any_eq_false, decide_eq_true_eq]
      constructor
      · intro hnone hmem
        exact hnone f hmem (decide_eq_true rfl)
      · intro hnot g hg hname
        exact hnot (hsame g hg (of_decide_eq_true hname) ▸ hg)
  · have hdrop : r.dropExcess = r := by
      rw [dropExcess, hbackups, hexcess]
      exact if_neg (by simpa using hsome)
    refine ⟨[], backups, List.Perm.refl _, by simp, ?_, by simp [hdrop]⟩
    split <;> omega

/-- With an age that can be counted, the backups that are not too old are the young ones. -/
theorem backups_dropOutdated (hlow : 0 ≤ r.limits.maxAgeDays) (hhigh : r.limits.maxAgeDays ≤ 106751) :
    (r.dropOutdated now).files.filter r.limits.isBackup =
      r.files.filter fun f => r.limits.IsAside f ∧ r.limits.IsYoung now f := by
  rw [dropOutdated, List.filter_filter]
  refine List.filter_congr fun f _ => ?_
  rw [Limits.isBackup_eq, Limits.isOutdated_eq hlow hhigh, Bool.decide_and]
  cases decide (r.limits.IsAside f) <;> cases decide (r.limits.IsYoung now f) <;> rfl

/-- What is pruned: the young backups are divided by age, and those that stay are the backups that
are left. -/
theorem exists_prune_division (hnames : (r.files.map (·.name)).Nodup)
    (hlow : 0 ≤ r.limits.maxAgeDays) (hhigh : r.limits.maxAgeDays ≤ 106751) :
    let young := r.files.filter fun f => r.limits.IsAside f ∧ r.limits.IsYoung now f
    ∃ removed rest : List LogFile, (removed ++ rest).Perm young ∧
      (∀ f ∈ removed, ∀ g ∈ rest, f.modified ≤ g.modified) ∧
      (rest.length : Int) = (if r.limits.maxBackups ≤ 0 then (young.length : Int)
        else min r.limits.maxBackups young.length) ∧
      (r.prune now).files = (r.dropOutdated now).files.filter (· ∉ removed) ∧
      ((r.prune now).files.filter fun f => r.limits.IsAside f).Perm rest := by
  intro young
  have hsublist : (r.dropOutdated now).files.Sublist r.files := List.filter_sublist
  obtain ⟨removed, rest, hperm, hnewer, hcount, hdrop⟩ :=
    exists_dropExcess ((hsublist.map (·.name)).nodup hnames)
  have hyoung : (r.dropOutdated now).files.filter r.limits.isBackup = young :=
    backups_dropOutdated hlow hhigh
  have hlimits : (r.dropOutdated now).limits = r.limits := rfl
  rw [hlimits, hyoung] at hperm hcount
  have hfiles : (r.prune now).files = (r.dropOutdated now).files.filter (· ∉ removed) := by
    rw [prune_eq, hdrop]
  have hasides : ((r.prune now).files.filter fun f => r.limits.IsAside f) =
      young.filter (· ∉ removed) := by
    rw [hfiles, ← hyoung, List.filter_filter, List.filter_filter]
    refine List.filter_congr fun f _ => ?_
    rw [Bool.and_comm, Limits.isBackup_eq]
  exact ⟨removed, rest, hperm, hnewer, hcount, hfiles,
    hasides ▸ perm_filter_notMem (hnames.of_map.filter _) hperm⟩

/-- Only a file that was put aside can be too old. -/
theorem mem_dropOutdated_of_not_isAside {f : LogFile} (hf : f ∈ r.files)
    (haside : ¬ r.limits.IsAside f) : f ∈ (r.dropOutdated now).files := by
  refine List.mem_filter.mpr ⟨hf, ?_⟩
  rw [Limits.isBackup_eq, decide_eq_false haside]
  rfl

/-- Pruning deletes the backups that are older than the greatest age, and of the others all but the
newest, as many as are kept. No other file is touched, in particular not the current one. -/
theorem prune_keeps_newest (hnames : (r.files.map (·.name)).Nodup)
    (hlow : 0 ≤ r.limits.maxAgeDays) (hhigh : r.limits.maxAgeDays ≤ 106751) :
    let kept := (r.prune now).files
    let young := r.files.filter fun f => r.limits.IsAside f ∧ r.limits.IsYoung now f
    kept.Sublist r.files ∧
      (∀ f ∈ r.files, f.name = r.limits.baseName ∨ ¬ r.limits.IsAside f → f ∈ kept) ∧
      (∀ f ∈ kept, r.limits.IsAside f → r.limits.IsYoung now f) ∧
      ((kept.filter fun f => r.limits.IsAside f).length : Int) =
        (if r.limits.maxBackups ≤ 0 then (young.length : Int)
          else min r.limits.maxBackups young.length) ∧
      ∀ f ∈ young, f ∉ kept → ∀ g ∈ kept, r.limits.IsAside g → f.modified ≤ g.modified := by
  intro kept young
  obtain ⟨removed, rest, hperm, hnewer, hcount, hfiles, hrest⟩ :=
    @exists_prune_division now r hnames hlow hhigh
  have hkept : kept = (r.dropOutdated now).files.filter (· ∉ removed) := hfiles
  have hyoung : (r.dropOutdated now).files.filter r.limits.isBackup = young :=
    backups_dropOutdated hlow hhigh
  have hstay : ∀ f, f ∈ kept ↔ f ∈ (r.dropOutdated now).files ∧ f ∉ removed := by
    intro f
    rw [hkept, List.mem_filter, decide_eq_true_eq]
  have haside_of_mem : ∀ f ∈ young, r.limits.IsAside f ∧ r.limits.IsYoung now f := fun f hf =>
    of_decide_eq_true (List.mem_filter.mp hf).2
  refine ⟨?_, ?_, ?_, ?_, ?_⟩
  · exact hkept ▸ List.filter_sublist.trans List.filter_sublist
  · intro f hf hother
    have haside : ¬ r.limits.IsAside f := hother.elim Limits.not_isAside_of_name_eq id
    refine (hstay f).mpr ⟨mem_dropOutdated_of_not_isAside hf haside, fun hmem => haside ?_⟩
    exact (haside_of_mem f (hperm.subset (List.mem_append_left rest hmem))).1
  · intro f hf haside
    have hbackup := List.mem_filter.mpr ⟨((hstay f).mp hf).1, Limits.isBackup_iff.mpr haside⟩
    exact (haside_of_mem f (hyoung ▸ hbackup)).2
  · rw [hrest.length_eq, hcount]
  · intro f hf hdropped g hg haside
    have hyounger : f ∈ (r.dropOutdated now).files := (List.mem_filter.mp (hyoung ▸ hf)).1
    have hgone : f ∈ removed := by
      by_contra hnot
      exact hdropped ((hstay f).mpr ⟨hyounger, hnot⟩)
    exact hnewer f hgone g (hrest.subset (List.mem_filter.mpr ⟨hg, decide_eq_true haside⟩))

/-- A log with an outdated backup, two equally old ones, a directory and a file of another name. -/
def sampleLog : Rotator where
  limits := { baseName := "a.log", maxBackups := 1, maxAgeDays := 1 }
  files := [⟨"a.log", [1], .atMillis 200000000, false, false⟩,
    ⟨"a.log.0", [2], .atMillis 100000000, false, false⟩,
    ⟨"a.log.1", [3], .atMillis 150000000, false, false⟩,
    ⟨"a.log.2.gz", [4], .atMillis 150000000, true, false⟩,
    ⟨"a.log.d", [], ⟨0⟩, false, true⟩, ⟨"b.log.0", [5], ⟨0⟩, false, false⟩]

theorem prune_keeps_newest_tie :
    let now : Instant := .atMillis 200000000
    (sampleLog.files.map (·.name)).Nodup ∧ 0 ≤ sampleLog.limits.maxAgeDays ∧
      sampleLog.limits.maxAgeDays ≤ 106751 ∧
      (((sampleLog.prune now).files.filter fun f => sampleLog.limits.IsAside f).length : Int)
        = 1 ∧
      ⟨"a.log.0", [2], .atMillis 100000000, false, false⟩ ∉ (sampleLog.prune now).files ∧
      ⟨"a.log.d", [], ⟨0⟩, false, true⟩ ∈ (sampleLog.prune now).files := by
  intro now
  have hnames : (sampleLog.files.map (·.name)).Nodup := by decide +kernel
  have hlow : 0 ≤ sampleLog.limits.maxAgeDays := by decide
  have hhigh : sampleLog.limits.maxAgeDays ≤ 106751 := by decide
  obtain ⟨-, hother, hyoung, hcount, -⟩ :=
    @prune_keeps_newest now sampleLog hnames hlow hhigh
  refine ⟨hnames, hlow, hhigh, hcount.trans (by decide +kernel), fun hkept => ?_, ?_⟩
  · exact absurd (hyoung _ hkept (by decide +kernel)) (by decide +kernel)
  · exact hother _ (by decide +kernel) (Or.inr (by decide +kernel))

end Rotator

end Log

end Consent

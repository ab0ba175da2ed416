import Mathlib.Data.List.Pairwise
import Consent.Proofs.Log.Rotation
import Consent.Proofs.Log.Stamp

/-! What becomes of the bytes that are written to a log of which nothing is deleted: each file that
is put aside stays, until another one is put aside while local clocks show the same millisecond. -/

namespace Consent.Log

variable {zone : Zone} {now : Instant} {limits : Limits} {others : List LogFile} {cur : LogFile}
  {bytes : List UInt8} {put : List (Instant × List UInt8)}

/-- Of what was put aside, the last in each millisecond that local clocks show. -/
def latest (zone : Zone) (put : List (Instant × List UInt8)) : List (Instant × List UInt8) :=
  put.pwFilter fun p q => shown zone p.1 ≠ shown zone q.1

theorem latest_cons (zone : Zone) (q : Instant × List UInt8) (put : List (Instant × List UInt8)) :
    latest zone (q :: put) =
      if ∀ a ∈ latest zone put, shown zone q.1 ≠ shown zone a.1 then q :: latest zone put
      else latest zone put := rfl

theorem latest_concat (zone : Zone) (put : List (Instant × List UInt8))
    (p : Instant × List UInt8) : latest zone (put ++ [p]) =
      (latest zone put).filter (fun q => shown zone q.1 ≠ shown zone p.1) ++ [p] := by
  induction put with
  | nil => rfl
  | cons q put ih =>
    have hlater : (∀ a ∈ latest zone (put ++ [p]), shown zone q.1 ≠ shown zone a.1) ↔
        shown zone q.1 ≠ shown zone p.1 ∧
          ∀ a ∈ latest zone put, shown zone q.1 ≠ shown zone a.1 := by
      rw [ih]
      constructor
      · intro h
        have hlast : shown zone q.1 ≠ shown zone p.1 :=
          h p (List.mem_append_right _ (List.mem_singleton.mpr rfl))
        refine ⟨hlast, fun a ha hsame => ?_⟩
        exact h a (List.mem_append_left _ (List.mem_filter.mpr ⟨ha, by simpa [← hsame]⟩)) hsame
      · rintro ⟨hlast, h⟩ a ha
        rcases List.mem_append.mp ha with ha | ha
        · exact h a (List.mem_filter.mp ha).1
        · rwa [List.mem_singleton.mp ha]
    rw [List.cons_append, latest_cons, latest_cons, if_congr hlater rfl rfl, ih]
    by_cases hkept : ∀ a ∈ latest zone put, shown zone q.1 ≠ shown zone a.1
    · rw [if_pos hkept]
      by_cases hlast : shown zone q.1 = shown zone p.1
      · rw [if_neg fun h => h.1 hlast, List.filter_cons_of_neg (by simpa using hlast)]
      · rw [if_pos ⟨hlast, hkept⟩, List.filter_cons_of_pos (by simpa using hlast), List.cons_append]
    · rw [if_neg hkept, if_neg fun h => hkept h.2]

theorem latest_sublist (zone : Zone) (put : List (Instant × List UInt8)) :
    (latest zone put).Sublist put :=
  List.pwFilter_sublist put

theorem latest_eq_self_iff :
    latest zone put = put ↔ (put.map fun p => shown zone p.1).Nodup := by
  rw [latest, List.pwFilter_eq_self, List.Nodup, List.pairwise_map]

/-- Of texts that are not empty, any part but the whole is shorter than the whole. -/
theorem eq_or_length_lt {part whole : List (Instant × List UInt8)} (hpart : part.Sublist whole)
    (hfull : ∀ p ∈ whole, p.2 ≠ []) :
    part = whole ∨ (part.map (·.2)).flatten.length < (whole.map (·.2)).flatten.length := by
  induction hpart with
  | slnil => exact Or.inl rfl
  | @cons part whole p hpart ih =>
    refine Or.inr ?_
    have hpos : 0 < p.2.length := List.length_pos_iff.mpr (hfull p List.mem_cons_self)
    simp only [List.map_cons, List.flatten_cons, List.length_append]
    rcases ih fun q hq => hfull q (List.mem_cons_of_mem p hq) with rfl | hless <;> omega
  | @cons_cons part whole p hpart ih =>
    rcases ih fun q hq => hfull q (List.mem_cons_of_mem p hq) with rfl | hless
    · exact Or.inl rfl
    · refine Or.inr ?_
      simp only [List.map_cons, List.flatten_cons, List.length_append]
      omega

/-- Nothing is lost of what holds something exactly where clocks show different milliseconds. -/
theorem flatten_latest_iff (hfull : ∀ p ∈ put, p.2 ≠ []) :
    ((latest zone put).map (·.2)).flatten = (put.map (·.2)).flatten ↔
      (put.map fun p => shown zone p.1).Nodup := by
  rw [← latest_eq_self_iff]
  refine ⟨fun h => ?_, fun h => by rw [h]⟩
  rcases eq_or_length_lt (latest_sublist zone put) hfull with hall | hless
  · exact hall
  · exact absurd (congrArg List.length h) (Nat.ne_of_lt hless)

/-- The name of a file that was put aside. -/
def Limits.backupName (limits : Limits) (zone : Zone) (t : Instant) : String :=
  limits.baseName ++ "." ++ stamp zone t ++ if limits.compress then ".gz" else ""

theorem Limits.backupName_eq_iff {t u : Instant} :
    limits.backupName zone t = limits.backupName zone u ↔ shown zone t = shown zone u := by
  rw [← stamp_eq_iff]
  constructor
  · intro h
    refine String.toList_inj.mp ?_
    have hlist := congrArg String.toList h
    simpa only [backupName, String.toList_append, List.append_assoc, List.append_cancel_left_eq,
      List.append_cancel_right_eq] using hlist
  · intro h
    rw [backupName, backupName, h]

/-- A stamp has no extension. -/
theorem stamp_ne_append_gz (zone : Zone) (t u : Instant) :
    stamp zone t ≠ stamp zone u ++ ".gz" := by
  intro h
  have hmem : 'z' ∈ (stamp zone t).toList := by simp [h]
  exact not_mem_stamp rfl (by decide) (by decide) zone t hmem

/-- What was put aside last in each millisecond that clocks show is in a file of its own, in this
order. -/
def HoldsLatest (limits : Limits) (zone : Zone) (put : List (Instant × List UInt8))
    (others : List LogFile) : Prop :=
  others.map (fun f => (f.name, f.content)) =
    (latest zone put).map fun p => (limits.backupName zone p.1, p.2)

/-- A file that is put aside replaces the one that was put aside in the same millisecond. -/
theorem HoldsLatest.concat {backup : LogFile} (h : HoldsLatest limits zone put others)
    (hname : backup.name = limits.backupName zone now) :
    HoldsLatest limits zone (put ++ [(now, backup.content)])
      (others.filter (·.name ≠ limits.backupName zone now) ++ [backup]) := by
  have hfilter := congrArg (List.filter (·.1 ≠ limits.backupName zone now)) h
  rw [List.filter_map, List.filter_map] at hfilter
  have hsame : (latest zone put).filter ((fun p : String × List UInt8 => decide (p.1 ≠
      limits.backupName zone now)) ∘ fun p => (limits.backupName zone p.1, p.2)) =
      (latest zone put).filter (fun q => shown zone q.1 ≠ shown zone now) := by
    refine List.filter_congr fun p _ => ?_
    simp [limits.backupName_eq_iff]
  rw [HoldsLatest, latest_concat, List.map_append, List.map_append, ← hsame, ← hfilter]
  simp [hname, Function.comp_def]

theorem HoldsLatest.flatten_iff {all : List UInt8} (h : HoldsLatest limits zone put others)
    (hsome : ∀ p ∈ put, p.2 ≠ []) (hall : (put.map (·.2)).flatten ++ cur.content = all) :
    (others.map (·.content)).flatten ++ cur.content = all ↔
      (put.map fun p => shown zone p.1).Nodup := by
  have hcontents : others.map (·.content) = (latest zone put).map (·.2) := by
    have := congrArg (List.map Prod.snd) h
    simpa [Function.comp_def] using this
  rw [hcontents, ← hall, List.append_cancel_right_eq, flatten_latest_iff hsome]

namespace Rotator

variable {r : Rotator}

theorem prune_eq_self (r : Rotator) (hbackups : r.limits.maxBackups = 0)
    (hage : r.limits.maxAgeDays = 0) (now : Instant) : r.prune now = r := by
  have hyoung : ∀ f, r.limits.isOutdated now f = false := by
    intro f
    simp [Limits.isOutdated, Limits.maxAge, hage]
  simp [prune, hbackups, hyoung]

/-- The current file is put aside under the name of the time, in the place of a file of that
name. -/
theorem IsOpen.putAside_eq (h : r.IsOpen others cur) (hholds : HoldsLatest r.limits zone put others)
    (now : Instant) : ∃ backup : LogFile,
      r.putAside zone now = others.filter (·.name ≠ r.limits.backupName zone now) ++ [backup] ∧
        backup.name = r.limits.backupName zone now ∧ backup.content = cur.content := by
  let aside := r.limits.baseName ++ "." ++ stamp zone now
  have hne : r.limits.baseName ≠ aside := by
    rw [show aside = r.limits.baseName ++ ("." ++ stamp zone now) from String.append_assoc]
    exact (append_ne _ (by simp)).symm
  have hrenamed := rename_append h.others h.name hne
  unfold putAside
  dsimp only
  rw [h.files, hrenamed]
  cases hcompress : r.limits.compress with
  | false =>
    have hname : r.limits.backupName zone now = aside := by
      simp [Limits.backupName, hcompress, aside]
    rw [hname]
    exact ⟨{ cur with name := aside }, rfl, rfl, rfl⟩
  | true =>
    have hname : r.limits.backupName zone now = aside ++ ".gz" := by
      simp [Limits.backupName, hcompress, aside]
    -- Files that were put aside before are compressed, so none has the name without extension.
    have hothers : ∀ f ∈ others, f.name ≠ aside := by
      intro f hf hsame
      have hmem : (f.name, f.content) ∈
          (latest zone put).map fun p => (r.limits.backupName zone p.1, p.2) :=
        hholds ▸ List.mem_map_of_mem hf
      obtain ⟨p, -, hp⟩ := List.mem_map.mp hmem
      have hbackup : r.limits.backupName zone p.1 = aside := (congrArg Prod.fst hp).trans hsame
      have hlist := congrArg String.toList hbackup
      refine stamp_ne_append_gz zone now p.1 (String.toList_inj.mp ?_)
      simpa [Limits.backupName, hcompress, aside] using hlist.symm
    have hall : others.filter (·.name ≠ aside) = others :=
      List.filter_eq_self.mpr fun f hf => decide_eq_true (hothers f hf)
    rw [if_pos rfl, hall, compressFile_append hothers rfl, hname]
    exact ⟨_, rfl, rfl, rfl⟩

theorem IsOpen.name_ne_of_mem_putAside (h : r.IsOpen others cur) (zone : Zone) (now : Instant) :
    ∀ f ∈ r.putAside zone now, f.name ≠ r.limits.baseName := by
  obtain ⟨rest, backup, hfiles, hrest, -, hname⟩ := h.exists_putAside zone now
  intro f hf
  rcases List.mem_append.mp (hfiles ▸ hf) with hmem | hmem
  · exact h.others f (hrest.subset hmem)
  · rwa [List.mem_singleton.mp hmem]

/-- What a write puts aside, with the time at which it does. -/
def rotation (r : Rotator) (now : Instant) (bytes : List UInt8) : List (Instant × List UInt8) :=
  (r.current?.toList.filter fun f => r.isFull f.content.length bytes.length).map fun f =>
    (now, f.content)

theorem IsOpen.rotation_eq (h : r.IsOpen others cur) (now : Instant) (bytes : List UInt8) :
    r.rotation now bytes =
      if r.isFull cur.content.length bytes.length then [(now, cur.content)] else [] := by
  have hnone : others.find? (·.name = r.limits.baseName) = none :=
    List.find?_eq_none.mpr fun f hf => by simpa using h.others f hf
  have hcurrent : r.current? = some cur := by
    rw [current?, h.files, List.find?_append, hnone]
    simp [h.name]
  rw [rotation, hcurrent]
  split <;> simp [*]

/-- A write to a log that deletes nothing: what it puts aside is kept under the time, and that and
the current file together are what the current file held before, and the bytes. -/
theorem IsOpen.write_step (h : r.IsOpen others cur) (hbackups : r.limits.maxBackups = 0)
    (hage : r.limits.maxAgeDays = 0) (hholds : HoldsLatest r.limits zone put others) (now : Instant)
    (bytes : List UInt8) : ∃ others' cur', (r.write zone now bytes).IsOpen others' cur' ∧
      HoldsLatest r.limits zone (put ++ r.rotation now bytes) others' ∧
      ((r.rotation now bytes).map (·.2)).flatten ++ cur'.content = cur.content ++ bytes ∧
      ∀ p ∈ r.rotation now bytes, p.2 ≠ [] := by
  rw [h.rotation_eq, h.write_eq]
  split
  · rename_i hfull
    obtain ⟨backup, hfiles, hname, hcontent⟩ := h.putAside_eq hholds now
    have hnames := h.name_ne_of_mem_putAside zone now
    have hprune := prune_eq_self { r with files := r.putAside zone now } hbackups hage now
    have hrotate : r.rotate zone now = ⟨r.limits, r.putAside zone now ++
        [⟨r.limits.baseName, [], now, false, false⟩], some 0⟩ := by
      rw [rotate_eq, hprune]
      exact reopen_of_forall hnames
    have hopen : (r.rotate zone now).IsOpen (r.putAside zone now)
        ⟨r.limits.baseName, [], now, false, false⟩ := by
      rw [hrotate]
      exact ⟨rfl, rfl, hnames, rfl⟩
    obtain ⟨next, hnext, hbytes⟩ := hopen.exists_append now bytes
    have hsome : cur.content ≠ [] := List.length_pos_iff.mp (isFull_eq_true_iff.mp hfull).2.1
    refine ⟨_, next, hnext, ?_, by simp [hbytes], by simpa using hsome⟩
    rw [hfiles, ← hcontent]
    exact hholds.concat hname
  · obtain ⟨next, hnext, hbytes⟩ := h.exists_append now bytes
    exact ⟨others, next, hnext, by simpa using hholds, by simp [hbytes], by simp⟩

/-- What the writes put aside, one after another, with the times at which they did. -/
def rotations (zone : Zone) (r : Rotator) :
    List (Instant × List UInt8) → List (Instant × List UInt8)
  | [] => []
  | (now, bytes) :: writes => r.rotation now bytes ++ (r.write zone now bytes).rotations zone writes

/-- After all writes to a log that deletes nothing, the last that was put aside at each time is in a
file of its own, and all that was put aside and the current file together are what was written. -/
theorem IsOpen.exists_rotations (h : r.IsOpen others cur) (hbackups : r.limits.maxBackups = 0)
    (hage : r.limits.maxAgeDays = 0) (hholds : HoldsLatest r.limits zone put others)
    (writes : List (Instant × List UInt8)) :
    ∃ others' cur', (r.writeAll zone writes).IsOpen others' cur' ∧
      HoldsLatest r.limits zone (put ++ r.rotations zone writes) others' ∧
      ((r.rotations zone writes).map (·.2)).flatten ++ cur'.content =
        cur.content ++ (writes.map (·.2)).flatten ∧
      ∀ p ∈ r.rotations zone writes, p.2 ≠ [] := by
  induction writes generalizing r others cur put with
  | nil =>
    exact ⟨others, cur, h, by simpa [rotations] using hholds, by simp [rotations],
      by simp [rotations]⟩
  | cons w writes ih =>
    obtain ⟨now, bytes⟩ := w
    obtain ⟨others₁, cur₁, hopen, hholds₁, hbytes₁, hsome₁⟩ :=
      h.write_step hbackups hage hholds now bytes
    have hlimits := h.limits_write zone now bytes
    obtain ⟨others', cur', hlast, hlatest, hbytes, hsome⟩ :=
      ih hopen (hlimits ▸ hbackups) (hlimits ▸ hage) (hlimits ▸ hholds₁)
    refine ⟨others', cur', hlast, ?_, ?_, ?_⟩
    · rw [hlimits, List.append_assoc] at hlatest
      exact hlatest
    · rw [rotations, List.map_append, List.flatten_append, List.append_assoc, hbytes,
        ← List.append_assoc, hbytes₁, List.append_assoc]
      rfl
    · exact List.forall_mem_append.mpr ⟨hsome₁, hsome⟩

theorem limits_start {dir : String} {disk : Files} {files : List LogFile}
    (h : start now dir disk limits files = .ok r) : r.limits =
      if limits.baseName = "" then { limits with baseName := "permstore.log" } else limits := by
  unfold start at h
  split at h
  · cases h
  · split at h
    · cases h
    · cases h
      exact limits_reopen _ _

theorem exists_rotations_start {dir : String} {disk : Files}
    (h : start now dir disk limits [] = .ok r) (hbackups : limits.maxBackups = 0)
    (hage : limits.maxAgeDays = 0) (zone : Zone) (writes : List (Instant × List UInt8)) :
    ∃ others cur, (r.writeAll zone writes).IsOpen others cur ∧
      HoldsLatest r.limits zone (r.rotations zone writes) others ∧
      ((r.rotations zone writes).map (·.2)).flatten ++ cur.content = (writes.map (·.2)).flatten ∧
      ∀ p ∈ r.rotations zone writes, p.2 ≠ [] := by
  have hlimits := limits_start h
  have hempty : HoldsLatest r.limits zone [] [] := rfl
  obtain ⟨-, hopen⟩ := isOpen_start h
  refine hopen.exists_rotations ?_ ?_ hempty writes <;> rw [hlimits] <;> split <;> assumption

/-- Where every write fills a file, each puts aside what the one before it wrote. -/
theorem IsOpen.times_rotations (h : r.IsOpen others cur) (hpos : 0 < r.limits.maxSize)
    (hcur : cur.content ≠ []) (zone : Zone) {writes : List (Instant × List UInt8)}
    (hlarge : ∀ w ∈ writes, r.limits.maxSize ≤ w.2.length) :
    (r.rotations zone writes).map (·.1) = writes.map (·.1) := by
  induction writes generalizing r others cur with
  | nil => rfl
  | cons w writes ih =>
    obtain ⟨now, bytes⟩ := w
    have hbytes : r.limits.maxSize ≤ bytes.length := hlarge _ List.mem_cons_self
    have hsize : 0 < cur.content.length := List.length_pos_iff.mpr hcur
    have hfull : r.isFull cur.content.length bytes.length = true :=
      isFull_eq_true_iff.mpr ⟨hpos, hsize, by omega⟩
    have hlimits := h.limits_write zone now bytes
    rcases h.write_cases zone now bytes with
      ⟨-, -, -, hfits⟩ | ⟨kept, next, -, hopen, hnext, -, -, -⟩
    · exact absurd (hfull.symm.trans hfits) (by decide)
    · have hsome : next.content ≠ [] := by
        rw [hnext]
        exact List.length_pos_iff.mp (by omega)
      have hrest := ih hopen (hlimits ▸ hpos) hsome fun w hw =>
        hlimits ▸ hlarge w (List.mem_cons_of_mem _ hw)
      rw [rotations, h.rotation_eq, if_pos hfull, List.map_append, hrest]
      rfl

/-- A log of files of one megabyte, when it is started. -/
def megabyteLog : Rotator :=
  ⟨{ maxSizeMb := 1 }, [⟨"permstore.log", [], ⟨0⟩, false, false⟩], some 0⟩

theorem start_megabyteLog :
    start ⟨0⟩ "logs" {} { maxSizeMb := 1 } [] = .ok megabyteLog := rfl

/-- Writes of a megabyte each. -/
def megabytes (times : List Instant) : List (Instant × List UInt8) :=
  times.map fun t => (t, List.replicate 1048576 0)

theorem times_of_megabytes (times : List Instant) : (megabytes times).map (·.1) = times := by
  rw [megabytes, List.map_map]
  exact List.map_id times

theorem times_rotations_megabytes (zone : Zone) (first : Instant) (times : List Instant) :
    (megabyteLog.rotations zone (megabytes (first :: times))).map (·.1) = times := by
  obtain ⟨-, hopen⟩ := isOpen_start start_megabyteLog
  have hsize : (List.replicate 1048576 (0 : UInt8)).length = 1048576 := List.length_replicate
  have hfits : megabyteLog.isFull 0 1048576 = false := by decide
  have hfirst : megabyteLog.rotation first (List.replicate 1048576 0) = [] := by
    rw [hopen.rotation_eq, hsize]
    rfl
  have hlimits := hopen.limits_write zone first (List.replicate 1048576 0)
  rcases hopen.write_cases zone first (List.replicate 1048576 0) with
    ⟨next, hnext, hcontent, -⟩ | ⟨-, -, -, -, -, -, -, hfull⟩
  · have hsome : next.content ≠ [] := by
      rw [hcontent]
      exact List.length_pos_iff.mp (by rw [List.nil_append, hsize]; decide)
    have hmax : (megabyteLog.write zone first (List.replicate 1048576 0)).limits.maxSize =
        1048576 := by
      rw [hlimits]
      decide
    have hrest := hnext.times_rotations (by rw [hmax]; decide) hsome zone fun w hw => by
      obtain ⟨t, -, rfl⟩ := List.mem_map.mp (hw : w ∈ megabytes times)
      rw [hmax, hsize]
      decide
    rw [megabytes, List.map_cons, rotations, hfirst, List.nil_append]
    exact hrest.trans (times_of_megabytes times)
  · rw [hsize] at hfull
    exact absurd (hfull.symm.trans hfits) (by decide)

theorem shown_rotations_megabytes (zone : Zone) (first : Instant) (times : List Instant) :
    (megabyteLog.rotations zone (megabytes (first :: times))).map (fun p => shown zone p.1) =
      times.map (shown zone) := by
  have htimes := congrArg (List.map (shown zone)) (times_rotations_megabytes zone first times)
  rwa [List.map_map] at htimes

/-- Times by which clocks are equally far ahead are shown as different milliseconds exactly if they
lie in different ones. -/
theorem nodup_shown_iff {offset : Int} (h : ∀ p ∈ put, zone p.1 = offset) :
    (put.map fun p => shown zone p.1).Nodup ↔ (put.map fun p => p.1.millis).Nodup := by
  unfold List.Nodup
  rw [List.pairwise_map, List.pairwise_map]
  refine List.Pairwise.iff_of_mem fun {p q} hp hq => ?_
  rw [Ne, Ne, shown_eq_iff ((h p hp).trans (h q hq).symm)]

/-- Whether a log keeps everything. One that is started in an empty directory, and of which nothing
is deleted, holds the last that was put aside in each millisecond that local clocks show, in this
order. What was put aside and the current file together are all that was written, whatever the clocks
show; so the files hold all of it exactly if no two files were put aside in one such millisecond. As
long as the local clocks are not set, that is exactly if no two were put aside in one millisecond. -/
theorem writeAll_keeps_all_iff {dir : String} {disk : Files}
    (h : start now dir disk limits [] = .ok r) (hbackups : limits.maxBackups = 0)
    (hage : limits.maxAgeDays = 0) (zone : Zone) (writes : List (Instant × List UInt8)) :
    ∃ others cur, (r.writeAll zone writes).IsOpen others cur ∧
      others.map (fun f => (f.name, f.content)) =
        ((r.rotations zone writes).pwFilter fun p q => shown zone p.1 ≠ shown zone q.1).map
          (fun p => (r.limits.backupName zone p.1, p.2)) ∧
      ((r.rotations zone writes).map (·.2)).flatten ++ cur.content =
        (writes.map (·.2)).flatten ∧
      ((others.map (·.content)).flatten ++ cur.content = (writes.map (·.2)).flatten ↔
        ((r.rotations zone writes).map fun p => shown zone p.1).Nodup) ∧
      ∀ offset, (∀ p ∈ r.rotations zone writes, zone p.1 = offset) →
        ((others.map (·.content)).flatten ++ cur.content = (writes.map (·.2)).flatten ↔
          ((r.rotations zone writes).map fun p => p.1.millis).Nodup) := by
  obtain ⟨others, cur, hopen, hholds, hall, hsome⟩ :=
    exists_rotations_start h hbackups hage zone writes
  have hiff := hholds.flatten_iff hsome hall
  exact ⟨others, cur, hopen, hholds, hall, hiff, fun offset hoffset =>
    hiff.trans (nodup_shown_iff hoffset)⟩

theorem writeAll_keeps_all_iff_megabytes :
    let zone : Zone := fun _ => 3600
    let writes := megabytes [.atMillis 1, .atMillis 2, .atMillis 3]
    start ⟨0⟩ "logs" {} { maxSizeMb := 1 } [] = .ok megabyteLog ∧
      ∃ others cur, (megabyteLog.writeAll zone writes).IsOpen others cur ∧
        (others.map (·.content)).flatten ++ cur.content = (writes.map (·.2)).flatten := by
  intro zone writes
  obtain ⟨others, cur, hopen, -, -, hiff, -⟩ :=
    writeAll_keeps_all_iff start_megabyteLog rfl rfl zone writes
  refine ⟨start_megabyteLog, others, cur, hopen, hiff.mpr ?_⟩
  rw [shown_rotations_megabytes]
  decide

/-- Three writes within a millisecond fill two files, and the second is put aside in the place of
the first. -/
theorem oneMillisecond_loses_file :
    let zone : Zone := fun _ => 0
    let writes := megabytes [⟨1⟩, ⟨2⟩, ⟨3⟩]
    start ⟨0⟩ "logs" {} { maxSizeMb := 1 } [] = .ok megabyteLog ∧
      ∃ others cur, (megabyteLog.writeAll zone writes).IsOpen others cur ∧
        (others.map (·.content)).flatten ++ cur.content ≠ (writes.map (·.2)).flatten := by
  intro zone writes
  obtain ⟨others, cur, hopen, hholds, hall, hsome⟩ :=
    exists_rotations_start start_megabyteLog rfl rfl zone writes
  refine ⟨start_megabyteLog, others, cur, hopen, fun hkept => ?_⟩
  have htimes := (hholds.flatten_iff hsome hall).mp hkept
  rw [shown_rotations_megabytes] at htimes
  exact absurd htimes (by decide)

end Rotator

end Consent.Log

import Mathlib.Algebra.Ring.Int.Defs
import Mathlib.Data.List.Infix
import Consent.Log.Rotation

/-! A log that is written to: each write goes whole to the end of the current file, which is put
aside first when the write would make it too large. -/

namespace Consent.Log

variable {zone : Zone} {now : Instant} {limits : Limits} {others : List LogFile} {cur : LogFile}

/-- The largest size is the stated one as long as its bytes can be counted in 64 bits. -/
theorem Limits.maxSize_eq (hlow : 0 ≤ limits.maxSizeMb) (hhigh : limits.maxSizeMb < 2 ^ 43) :
    limits.maxSize = limits.maxSizeMb * 2 ^ 20 := by
  have hlimit : Text.limit64 = 2 ^ 64 := rfl
  rw [maxSize, hlimit, Int.bmod_eq_of_le (by omega) (by omega)]
  rfl

namespace Rotator

variable {r : Rotator} {bytes : List UInt8}

/-- An open log: its directory holds the current file and others of other names, and the tracked
size is the length of the current file. -/
structure IsOpen (r : Rotator) (others : List LogFile) (cur : LogFile) : Prop where
  files : r.files = others ++ [cur]
  name : cur.name = r.limits.baseName
  others : ∀ f ∈ others, f.name ≠ r.limits.baseName
  size : r.size = some cur.content.length

/-- The file of one name is replaced by a file of a new name, and by no other. -/
theorem replace_append {old new : String} {g : LogFile → LogFile}
    (hothers : ∀ f ∈ others, f.name ≠ old) (hcur : cur.name = old) (hne : old ≠ new) :
    (((others ++ [cur]).filter (·.name ≠ new)).map fun f => if f.name = old then g f else f) =
      others.filter (·.name ≠ new) ++ [g cur] := by
  have hkept : ((others.filter (·.name ≠ new)).map fun f => if f.name = old then g f else f) =
      others.filter (·.name ≠ new) := by
    refine (List.map_congr_left fun f hf => ?_).trans (List.map_id _)
    exact if_neg (hothers f (List.mem_filter.mp hf).1)
  rw [List.filter_append, List.map_append, hkept]
  simp [hcur, hne]

theorem append_ne (base : String) {rest : String} (h : rest ≠ "") : base ++ rest ≠ base := by
  intro heq
  exact h (by simpa using heq)

theorem rename_append {old new : String} (hothers : ∀ f ∈ others, f.name ≠ old)
    (hcur : cur.name = old) (hne : old ≠ new) :
    rename old new (others ++ [cur]) =
      others.filter (·.name ≠ new) ++ [{ cur with name := new }] :=
  replace_append hothers hcur hne

theorem compressFile_append {name : String} (hothers : ∀ f ∈ others, f.name ≠ name)
    (hcur : cur.name = name) :
    compressFile now name (others ++ [cur]) =
      others.filter (·.name ≠ name ++ ".gz") ++ [⟨name ++ ".gz", cur.content, now, true, false⟩] :=
  replace_append hothers hcur (append_ne name (by decide)).symm

/-- The directory after the current file was put aside, before old backups are deleted. -/
def putAside (zone : Zone) (now : Instant) (r : Rotator) : List LogFile :=
  let aside := r.limits.baseName ++ "." ++ stamp zone now
  let files := rename r.limits.baseName aside r.files
  if r.limits.compress then compressFile now aside files else files

theorem rotate_eq (zone : Zone) (now : Instant) (r : Rotator) :
    r.rotate zone now = (prune now { r with files := r.putAside zone now }).reopen now := rfl

/-- The current file becomes a backup; at most backups of its new name give way to it. -/
theorem IsOpen.exists_putAside (h : r.IsOpen others cur) (zone : Zone) (now : Instant) :
    ∃ rest backup, r.putAside zone now = rest ++ [backup] ∧ rest.Sublist others ∧
      backup.content = cur.content ∧ backup.name ≠ r.limits.baseName := by
  let base := r.limits.baseName
  let aside := base ++ "." ++ stamp zone now
  have haside : aside ≠ base := by
    rw [show aside = base ++ ("." ++ stamp zone now) from String.append_assoc]
    exact append_ne base (by simp)
  have hrenamed := rename_append h.others h.name haside.symm
  have hpacked : aside ++ ".gz" ≠ base := by
    rw [show aside ++ ".gz" = base ++ ("." ++ stamp zone now ++ ".gz") by
      simp only [aside, String.append_assoc]]
    exact append_ne base (by simp)
  unfold putAside
  dsimp only
  rw [h.files, hrenamed]
  split
  · have hrest : ∀ f ∈ others.filter (·.name ≠ aside), f.name ≠ aside := fun f hf =>
      of_decide_eq_true (List.mem_filter.mp hf).2
    rw [compressFile_append hrest rfl]
    exact ⟨_, _, rfl, List.filter_sublist.trans List.filter_sublist, rfl, hpacked⟩
  · exact ⟨_, _, rfl, List.filter_sublist, rfl, haside⟩

theorem reopen_of_forall (h : ∀ f ∈ r.files, f.name ≠ r.limits.baseName) :
    r.reopen now = ⟨r.limits, r.files ++ [⟨r.limits.baseName, [], now, false, false⟩], some 0⟩ := by
  have hnone : r.current? = none := by
    refine List.find?_eq_none.mpr fun f hf => ?_
    simpa using h f hf
  rw [reopen, hnone]

/-- Deleting old backups leaves the other files as they are. -/
theorem exists_prune (now : Instant) (r : Rotator) :
    ∃ files, files.Sublist r.files ∧ r.prune now = { r with files } := by
  unfold prune
  dsimp only
  split
  · exact ⟨_, List.filter_sublist.trans List.filter_sublist, rfl⟩
  · exact ⟨_, List.filter_sublist, rfl⟩

/-- Rotating keeps what the current file held in one backup, if it keeps it, and changes no other
file. -/
theorem IsOpen.exists_rotate (h : r.IsOpen others cur) (zone : Zone) (now : Instant) :
    ∃ kept backup, kept.Sublist (others ++ [backup]) ∧ backup.content = cur.content ∧
      (∀ f ∈ kept, f.name ≠ r.limits.baseName) ∧
      r.rotate zone now =
        ⟨r.limits, kept ++ [⟨r.limits.baseName, [], now, false, false⟩], some 0⟩ := by
  obtain ⟨rest, backup, hfiles, hrest, hcontent, hname⟩ := h.exists_putAside zone now
  obtain ⟨kept, hkept, hprune⟩ := exists_prune now { r with files := r.putAside zone now }
  have hsublist : kept.Sublist (rest ++ [backup]) := hfiles ▸ hkept
  have hnames : ∀ f ∈ kept, f.name ≠ r.limits.baseName := by
    intro f hf
    rcases List.mem_append.mp (hsublist.subset hf) with hmem | hmem
    · exact h.others f (hrest.subset hmem)
    · rwa [List.mem_singleton.mp hmem]
  refine ⟨kept, backup, hsublist.trans (hrest.append_right [backup]), hcontent, hnames, ?_⟩
  rw [rotate_eq, hprune]
  exact reopen_of_forall hnames

/-- Appending adds the bytes to the current file and to no other. -/
theorem IsOpen.exists_append (h : r.IsOpen others cur) (now : Instant) (bytes : List UInt8) :
    ∃ next, (r.append now bytes).IsOpen others next ∧ next.content = cur.content ++ bytes := by
  have hothers : (others.map fun f =>
      if f.name = r.limits.baseName && !bytes.isEmpty then
        { f with content := f.content ++ bytes, modified := now }
      else f) = others := by
    refine (List.map_congr_left fun f hf => ?_).trans (List.map_id _)
    simp [h.others f hf]
  have hsize : (r.append now bytes).size = some (cur.content ++ bytes).length := by
    rw [append, h.size, Option.map_some, List.length_append]
  have hfiles : (r.append now bytes).files = others ++
      [if bytes.isEmpty then cur
        else { cur with content := cur.content ++ bytes, modified := now }] := by
    rw [append, h.files, List.map_append, hothers]
    cases bytes <;> simp [h.name]
  cases bytes with
  | nil => exact ⟨cur, ⟨hfiles, h.name, h.others, by simpa using hsize⟩, by simp⟩
  | cons b more => exact ⟨_, ⟨hfiles, h.name, h.others, hsize⟩, rfl⟩

theorem IsOpen.write_eq (h : r.IsOpen others cur) (zone : Zone) (now : Instant)
    (bytes : List UInt8) :
    r.write zone now bytes =
      (if r.isFull cur.content.length bytes.length then r.rotate zone now
        else r).append now bytes := by
  simp [write, h.size]

/-- What one write does: the bytes go to the end of the current file, or the current file is put
aside and the bytes are all that the new one holds. -/
theorem IsOpen.write_cases (h : r.IsOpen others cur) (zone : Zone) (now : Instant)
    (bytes : List UInt8) :
    (∃ next, (r.write zone now bytes).IsOpen others next ∧ next.content = cur.content ++ bytes ∧
        r.isFull cur.content.length bytes.length = false) ∨
      ∃ kept next backup, (r.write zone now bytes).IsOpen kept next ∧ next.content = bytes ∧
        kept.Sublist (others ++ [backup]) ∧ backup.content = cur.content ∧
        r.isFull cur.content.length bytes.length = true := by
  rw [h.write_eq]
  cases hfull : r.isFull cur.content.length bytes.length with
  | false =>
    obtain ⟨next, hnext, hcontent⟩ := h.exists_append now bytes
    exact Or.inl ⟨next, hnext, hcontent, rfl⟩
  | true =>
    obtain ⟨kept, backup, hkept, hbackup, hnames, hrotate⟩ := h.exists_rotate zone now
    have hopen : (r.rotate zone now).IsOpen kept ⟨r.limits.baseName, [], now, false, false⟩ := by
      rw [hrotate]
      exact ⟨rfl, rfl, hnames, rfl⟩
    obtain ⟨next, hnext, hcontent⟩ := hopen.exists_append now bytes
    exact Or.inr ⟨kept, next, backup, hnext, hcontent, hkept, hbackup, rfl⟩

@[simp] theorem limits_reopen (now : Instant) (r : Rotator) : (r.reopen now).limits = r.limits := by
  unfold reopen
  split <;> rfl

@[simp] theorem limits_rotate (zone : Zone) (now : Instant) (r : Rotator) :
    (r.rotate zone now).limits = r.limits := by
  obtain ⟨files, -, hprune⟩ := exists_prune now { r with files := r.putAside zone now }
  rw [rotate_eq, limits_reopen, hprune]

@[simp] theorem limits_append (now : Instant) (bytes : List UInt8) (r : Rotator) :
    (r.append now bytes).limits = r.limits := rfl

theorem IsOpen.limits_write (h : r.IsOpen others cur) (zone : Zone) (now : Instant)
    (bytes : List UInt8) :
    (r.write zone now bytes).limits = r.limits := by
  rw [h.write_eq]
  split <;> simp

/-- The log after some writes, each with the time at which it was made. -/
def writeAll (zone : Zone) (r : Rotator) (writes : List (Instant × List UInt8)) : Rotator :=
  writes.foldl (fun r w => r.write zone w.1 w.2) r

/-- What holds of a log with nothing written, and is kept where a write is appended and where the
log rotates, holds after all writes. -/
theorem IsOpen.exists_writeAll {P : List (List UInt8) → List LogFile → LogFile → Prop}
    (h : r.IsOpen others cur) (hempty : P [] others cur)
    (happend : ∀ {writes others cur next bytes}, P writes others cur →
      next.content = cur.content ++ bytes → r.isFull cur.content.length bytes.length = false →
        P (writes ++ [bytes]) others next)
    (hrotate : ∀ {writes others cur kept next backup bytes}, P writes others cur →
      next.content = bytes → kept.Sublist (others ++ [backup]) → backup.content = cur.content →
        r.isFull cur.content.length bytes.length = true → P (writes ++ [bytes]) kept next)
    (zone : Zone) (writes : List (Instant × List UInt8)) :
    ∃ others' cur', (r.writeAll zone writes).IsOpen others' cur' ∧
      P (writes.map (·.2)) others' cur' ∧ (r.writeAll zone writes).limits = r.limits := by
  induction writes using List.reverseRecOn with
  | nil => exact ⟨others, cur, h, hempty, rfl⟩
  | append_singleton writes w ih =>
    obtain ⟨before, last, hopen, hP, hlimits⟩ := ih
    have hfull : ∀ size count, (r.writeAll zone writes).isFull size count = r.isFull size count := by
      intro size count
      rw [isFull, isFull, hlimits]
    have hwrite : r.writeAll zone (writes ++ [w]) = (r.writeAll zone writes).write zone w.1 w.2 := by
      rw [writeAll, List.foldl_concat]
      rfl
    have hlast := (hopen.limits_write zone w.1 w.2).trans hlimits
    rw [hwrite, List.map_append]
    rcases hopen.write_cases zone w.1 w.2 with ⟨next, hnext, hcontent, hfits⟩ |
      ⟨kept, next, backup, hnext, hcontent, hkept, hbackup, hfits⟩
    · exact ⟨before, next, hnext, happend hP hcontent (hfull _ _ ▸ hfits), hlast⟩
    · exact ⟨kept, next, hnext, hrotate hP hcontent hkept hbackup (hfull _ _ ▸ hfits), hlast⟩

end Rotator

/-- What a file holds: some writes one after another, which keep the limit unless just one of them
holds anything. -/
structure IsBatch (limit : Int) (batch : List (List UInt8)) (content : List UInt8) : Prop where
  content_eq : content = batch.flatten
  within : content.length ≤ limit ∨ ∃ bytes, batch.filter (· ≠ []) = [bytes]

variable {limit : Int} {batch writes : List (List UInt8)} {content bytes : List UInt8}

theorem isBatch_nil (hlimit : 0 ≤ limit) : IsBatch limit [] [] :=
  ⟨rfl, Or.inl (by simpa using hlimit)⟩

/-- A write may follow where there is room for it, and always where nothing was written before. -/
theorem IsBatch.concat (h : IsBatch limit batch content) (hlimit : 0 ≤ limit)
    (hroom : content = [] ∨ content.length + bytes.length ≤ limit) :
    IsBatch limit (batch ++ [bytes]) (content ++ bytes) := by
  refine ⟨by simp [h.content_eq], ?_⟩
  rcases hroom with rfl | hroom
  · have hempty : batch.filter (· ≠ []) = [] := by
      have hflat := h.content_eq.symm
      simpa [List.flatten_eq_nil_iff] using hflat
    rw [List.filter_append, hempty]
    cases bytes with
    | nil => exact Or.inl (by simpa using hlimit)
    | cons b more => exact Or.inr ⟨b :: more, by simp⟩
  · exact Or.inl (by simpa using hroom)

/-- What a directory holds after some writes: the current file the last of them, and every other
file some of them. -/
structure Holds (limit : Int) (writes : List (List UInt8)) (others : List LogFile) (cur : LogFile) :
    Prop where
  current : ∃ batch, batch <:+ writes ∧ IsBatch limit batch cur.content
  others : ∀ f ∈ others, ∃ batch, batch <:+: writes ∧ IsBatch limit batch f.content

theorem Holds.exists_batch (h : Holds limit writes others cur) :
    ∀ f ∈ others ++ [cur], ∃ batch, batch <:+: writes ∧ IsBatch limit batch f.content := by
  intro f hf
  rcases List.mem_append.mp hf with hf | hf
  · exact h.others f hf
  · obtain ⟨batch, hsuffix, hbatch⟩ := h.current
    rw [List.mem_singleton.mp hf]
    exact ⟨batch, hsuffix.isInfix, hbatch⟩

theorem Holds.exists_batch_concat (h : Holds limit writes others cur) (bytes : List UInt8) :
    ∀ f ∈ others ++ [cur], ∃ batch, batch <:+: writes ++ [bytes] ∧
      IsBatch limit batch f.content := by
  intro f hf
  obtain ⟨batch, hinfix, hbatch⟩ := h.exists_batch f hf
  exact ⟨batch, hinfix.trans (List.prefix_append writes [bytes]).isInfix, hbatch⟩

theorem Holds.append {next : LogFile} (h : Holds limit writes others cur) (hlimit : 0 ≤ limit)
    (hnext : next.content = cur.content ++ bytes)
    (hroom : cur.content = [] ∨ cur.content.length + bytes.length ≤ limit) :
    Holds limit (writes ++ [bytes]) others next := by
  refine ⟨?_, fun f hf => h.exists_batch_concat bytes f (List.mem_append_left _ hf)⟩
  obtain ⟨batch, ⟨before, rfl⟩, hbatch⟩ := h.current
  exact ⟨batch ++ [bytes], ⟨before, by simp⟩, hnext ▸ hbatch.concat hlimit hroom⟩

theorem Holds.rotate {kept : List LogFile} {next backup : LogFile}
    (h : Holds limit writes others cur) (hlimit : 0 ≤ limit) (hnext : next.content = bytes)
    (hkept : kept.Sublist (others ++ [backup])) (hbackup : backup.content = cur.content) :
    Holds limit (writes ++ [bytes]) kept next := by
  refine ⟨⟨[bytes], ⟨writes, rfl⟩, ?_⟩, fun f hf => ?_⟩
  · rw [hnext]
    exact (isBatch_nil hlimit).concat hlimit (Or.inl rfl)
  · rcases List.mem_append.mp (hkept.subset hf) with hmem | hmem
    · exact h.exists_batch_concat bytes f (List.mem_append_left _ hmem)
    · rw [List.mem_singleton.mp hmem, hbackup]
      exact h.exists_batch_concat bytes cur (List.mem_append_right _ (List.mem_singleton.mpr rfl))

namespace Rotator

variable {r : Rotator}

theorem isFull_eq_true_iff {size count : Nat} : r.isFull size count = true ↔
    0 < r.limits.maxSize ∧ 0 < size ∧ r.limits.maxSize < size + count := by
  simp [isFull, and_assoc]

/-- Where a log does not rotate, there is room for the write, or nothing was written before. -/
theorem room_of_isFull_eq_false (hmax : 0 < r.limits.maxSize)
    (h : r.isFull content.length bytes.length = false) :
    content = [] ∨ content.length + bytes.length ≤ r.limits.maxSize := by
  by_cases hempty : content = []
  · exact Or.inl hempty
  · refine Or.inr (Int.not_lt.mp fun hlarge => ?_)
    have hfull := isFull_eq_true_iff.mpr ⟨hmax, List.length_pos_iff.mpr hempty, hlarge⟩
    rw [h] at hfull
    cases hfull

/-- A log that is started in an empty directory has made an empty file there. -/
theorem isOpen_start {dir : String} {disk : Files} (h : start now dir disk limits [] = .ok r) :
    r.limits.maxSizeMb = limits.maxSizeMb ∧
      r.IsOpen [] ⟨r.limits.baseName, [], now, false, false⟩ := by
  unfold start at h
  split at h
  · cases h
  · split at h
    · cases h
    · cases h
      refine ⟨?_, ?_⟩
      · split <;> simp
      · exact ⟨by simp [reopen, current?], rfl, by simp, by simp [reopen, current?]⟩

section

variable {dir : String} {disk : Files} (h : start now dir disk limits [] = .ok r)
  (zone : Zone) (writes : List (Instant × List UInt8))

include h

theorem isOpen_writeAll : ∃ others cur, (r.writeAll zone writes).IsOpen others cur ∧
    (r.writeAll zone writes).limits.maxSizeMb = limits.maxSizeMb := by
  obtain ⟨hmb, hopen⟩ := isOpen_start h
  obtain ⟨others, cur, hlast, -, hlimits⟩ := hopen.exists_writeAll (P := fun _ _ _ => True)
    trivial (fun _ _ _ => trivial) (fun _ _ _ _ _ => trivial) zone writes
  exact ⟨others, cur, hlast, hlimits ▸ hmb⟩

theorem holds_writeAll (hlow : 1 ≤ limits.maxSizeMb) (hhigh : limits.maxSizeMb < 2 ^ 43) :
    ∃ others cur, (r.writeAll zone writes).IsOpen others cur ∧
      Holds (limits.maxSizeMb * 2 ^ 20) (writes.map (·.2)) others cur := by
  obtain ⟨hmb, hopen⟩ := isOpen_start h
  have hsize : r.limits.maxSize = limits.maxSizeMb * 2 ^ 20 := by
    rw [Limits.maxSize_eq (by omega) (by omega), hmb]
  have hpos : 0 < r.limits.maxSize := by omega
  have hmax : 0 ≤ limits.maxSizeMb * 2 ^ 20 := by omega
  have hstart : Holds (limits.maxSizeMb * 2 ^ 20) [] []
      ⟨r.limits.baseName, [], now, false, false⟩ :=
    ⟨⟨[], List.suffix_rfl, isBatch_nil hmax⟩, by simp⟩
  obtain ⟨others, cur, hlast, hholds, -⟩ := hopen.exists_writeAll hstart
    (fun hholds hnext hfits =>
      hholds.append hmax hnext (hsize ▸ room_of_isFull_eq_false hpos hfits))
    (fun hholds hnext hkept hbackup _ => hholds.rotate hmax hnext hkept hbackup) zone writes
  exact ⟨others, cur, hlast, hholds⟩

theorem all_writeAll (hzero : limits.maxSizeMb = 0) :
    ∃ cur, (r.writeAll zone writes).IsOpen [] cur ∧ cur.content = (writes.map (·.2)).flatten := by
  obtain ⟨hmb, hopen⟩ := isOpen_start h
  have hmax : r.limits.maxSize = 0 := by
    rw [Limits.maxSize_eq (by omega) (by omega), hmb, hzero]
    rfl
  have hnever : ∀ {size count}, r.isFull size count ≠ true := by
    intro size count hfull
    exact absurd (hmax ▸ (isFull_eq_true_iff.mp hfull).1) (Int.lt_irrefl 0)
  obtain ⟨others, cur, hlast, ⟨rfl, hall⟩, -⟩ := hopen.exists_writeAll
    (P := fun writes others cur => others = [] ∧ cur.content = writes.flatten) ⟨rfl, rfl⟩
    (fun hall hnext _ => ⟨hall.1, by rw [hnext, hall.2, List.flatten_concat]⟩)
    (fun _ _ _ _ hfull => absurd hfull hnever) zone writes
  exact ⟨cur, hlast, hall⟩

end

/-- However often and however much is written: the tracked size is the length of the current file. A
write goes whole to the end of the current file, which is put aside first only where it holds
something and would grow too large. Every file keeps the limit unless just one of its writes holds
anything, and without a limit there is one file. -/
theorem writeAll_keeps_limit {dir : String} {disk : Files}
    (h : start now dir disk limits [] = .ok r) (zone : Zone)
    (writes : List (Instant × List UInt8)) :
    (∃ others cur, (r.writeAll zone writes).IsOpen others cur ∧
      ∀ now bytes, ∃ others' cur',
        ((r.writeAll zone writes).write zone now bytes).IsOpen others' cur' ∧
        (others' = others ∧ cur'.content = cur.content ++ bytes ∨
          (0 < limits.maxSize ∧ cur.content ≠ [] ∧
              limits.maxSize < cur.content.length + bytes.length) ∧
            cur'.content = bytes ∧ ∃ backup : LogFile, backup.content = cur.content ∧
              others'.Sublist (others ++ [backup]))) ∧
    (1 ≤ limits.maxSizeMb → limits.maxSizeMb < 2 ^ 43 → ∀ f ∈ (r.writeAll zone writes).files,
      ∃ batch, batch <:+: writes.map (·.2) ∧ IsBatch (limits.maxSizeMb * 2 ^ 20) batch f.content) ∧
    (limits.maxSizeMb = 0 →
      ∃ cur, (r.writeAll zone writes).IsOpen [] cur ∧ cur.content = (writes.map (·.2)).flatten) := by
  refine ⟨?_, fun hlow hhigh f hf => ?_, all_writeAll h zone writes⟩
  · obtain ⟨others, cur, hopen, hmb⟩ := isOpen_writeAll h zone writes
    have hmax : (r.writeAll zone writes).limits.maxSize = limits.maxSize := by
      rw [Limits.maxSize, Limits.maxSize, hmb]
    refine ⟨others, cur, hopen, fun now bytes => ?_⟩
    rcases hopen.write_cases zone now bytes with ⟨next, hnext, hcontent, -⟩ |
      ⟨kept, next, backup, hnext, hcontent, hkept, hbackup, hfull⟩
    · exact ⟨others, next, hnext, Or.inl ⟨rfl, hcontent⟩⟩
    · rw [isFull_eq_true_iff, hmax, List.length_pos_iff] at hfull
      exact ⟨kept, next, hnext, Or.inr ⟨hfull, hcontent, backup, hbackup, hkept⟩⟩
  · obtain ⟨others, cur, hopen, hholds⟩ := holds_writeAll h zone writes hlow hhigh
    exact hholds.exists_batch f (hopen.files ▸ hf)

theorem writeAll_keeps_limit_megabyte :
    let zone : Zone := fun _ => 3600
    let writes : List (Instant × List UInt8) :=
      [(⟨0⟩, List.replicate 1048575 0), (⟨1⟩, []), (⟨2⟩, [1]), (⟨3⟩, [2])]
    ∃ r, start ⟨0⟩ "logs" {} { maxSizeMb := 1 } [] = .ok r ∧
      ∀ f ∈ (r.writeAll zone writes).files,
        ∃ batch, batch <:+: writes.map (·.2) ∧ IsBatch (1 * 2 ^ 20) batch f.content := by
  intro zone writes
  have hstart : start ⟨0⟩ "logs" {} { maxSizeMb := 1 } [] =
      .ok ⟨{ maxSizeMb := 1 }, [⟨"permstore.log", [], ⟨0⟩, false, false⟩], some 0⟩ := by rfl
  exact ⟨_, hstart, (writeAll_keeps_limit hstart zone writes).2.1 (by decide) (by decide)⟩

end Rotator

end Consent.Log

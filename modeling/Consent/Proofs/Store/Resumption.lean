import Consent.Proofs.Store.Carried

/-! Migrations that fail. The versions before the one that failed stay applied, no row changes, and
the next attempt does what the first one would have done. -/

namespace Consent.Store

open Host Legacy Log

namespace Database

variable {fields : List Field} {now : Instant} {d d₁ d₂ d₃ : Database} {schema : Schema}
  {plan : Instant → Schema} {us : List Int} {e : Failure}

theorem version_le_iff {n : Int} :
    d.version ≤ n ↔ 0 ≤ n ∧ ∀ v ∈ d.versions.getD [], v ≤ n := by
  have hfold : ∀ (vs : List Int) (m : Int), vs.foldl max m ≤ n ↔ m ≤ n ∧ ∀ v ∈ vs, v ≤ n := by
    intro vs
    induction vs with
    | nil => simp
    | cons u rest ih =>
      intro m
      rw [List.foldl_cons, ih, List.forall_mem_cons]
      constructor
      · intro h
        exact ⟨by omega, by omega, h.2⟩
      · intro h
        exact ⟨by omega, h.2.2⟩
  exact hfold _ 0

/-- The same table as before, or a new one without rows. -/
def SameTable {α : Type} (isEmpty : α → Prop) (before after : Option α) : Prop :=
  after = before ∨ before = none ∧ ∃ t, after = some t ∧ isEmpty t

theorem SameTable.trans {α : Type} {isEmpty : α → Prop} {a b c : Option α}
    (hab : SameTable isEmpty a b) (hbc : SameTable isEmpty b c) : SameTable isEmpty a c := by
  rcases hbc with rfl | ⟨hnone, t, hc, ht⟩
  · exact hab
  · rcases hab with rfl | ⟨-, u, hb, -⟩
    · exact Or.inr ⟨hnone, t, hc, ht⟩
    · rw [hnone] at hb
      cases hb

theorem sameTable_getD {α : Type} {isEmpty : α → Prop} {new : α} (hnew : isEmpty new)
    (before : Option α) : SameTable isEmpty before (some (before.getD new)) := by
  cases before with
  | some t => exact Or.inl rfl
  | none => exact Or.inr ⟨rfl, new, rfl, hnew⟩

/-- The tables that the first database has are the same in the second, which has no further rows. -/
structure SameRows (d d' : Database) : Prop where
  hosts : SameTable (fun t : HostTable => t.rows = []) d.hosts d'.hosts
  perms : SameTable (fun t : Table => t = []) d.perms d'.perms
  others : d'.others = d.others
  held : d'.held = d.held
  visits : d'.visits = d.visits

namespace SameRows

theorem of_versions (d : Database) (vs : Option (List Int)) :
    SameRows d { d with versions := vs } :=
  ⟨Or.inl rfl, Or.inl rfl, rfl, rfl, rfl⟩

theorem refl (d : Database) : SameRows d d := of_versions d d.versions

theorem trans (h : SameRows d₁ d₂) (h' : SameRows d₂ d₃) : SameRows d₁ d₃ where
  hosts := h.hosts.trans h'.hosts
  perms := h.perms.trans h'.perms
  others := h'.others.trans h.others
  held := h'.held.trans h.held
  visits := h'.visits.trans h.visits

end SameRows

/-- A migration whose schema depends on the time in its last version only. Where a version before it
succeeds, it changes no row and leaves the recorded versions alone. -/
structure Staged (plan : Instant → Schema) : Prop where
  versions : ∀ now, (plan now).versions = permissionVersions
  timeless : ∀ {v : Int} {now fields d d'}, v = 1 ∨ v = 2 →
    ((plan now).apply v).Gives fields d () d' →
    ∀ now' fields', ((plan now').apply v).Gives fields' d () d'
  recorded : ∀ {v : Int} {now fields d d'}, v = 1 ∨ v = 2 →
    ((plan now).apply v).Gives fields d () d' → d'.versions = d.versions
  rows : ∀ {v : Int} {now fields d d'}, v = 1 ∨ v = 2 →
    ((plan now).apply v).Gives fields d () d' → SameRows d d'

/-- The first two versions make the tables that are missing, whatever the last one does. -/
theorem staged_of_last (name : String) (last : Instant → Action Database Unit) :
    Staged fun now =>
      { name
        versions := permissionVersions
        apply := fun v =>
          if v = 1 then Action.modify fun d => { d with hosts := some (d.hosts.getD .fresh) }
          else if v = 2 then Action.modify fun d => { d with perms := some (d.perms.getD []) }
          else last now } := by
  constructor
  · intro now
    rfl
  · intro v now fields d d' hv h now' fields'
    obtain rfl | rfl := hv
    · exact ⟨rfl, h.state⟩
    · exact ⟨rfl, h.state⟩
  · intro v now fields d d' hv h
    obtain rfl | rfl := hv
    · rw [← h.state]
      rfl
    · rw [← h.state]
      rfl
  · intro v now fields d d' hv h
    obtain rfl | rfl := hv
    · obtain rfl : { d with hosts := some (d.hosts.getD .fresh) } = d' := h.state
      refine ⟨sameTable_getD ?_ d.hosts, Or.inl rfl, rfl, rfl, rfl⟩
      rfl
    · obtain rfl : { d with perms := some (d.perms.getD []) } = d' := h.state
      refine ⟨Or.inl rfl, sameTable_getD ?_ d.perms, rfl, rfl, rfl⟩
      rfl

/-- Versions that were to be applied in turn and failed: some of them were applied, and what they
left stands. -/
theorem split_of_forM_error (h : (us.forM (upgrade schema) fields d).answer = .error e) :
    ∃ done v rest, us = done ++ v :: rest ∧ (done.forM (upgrade schema)).Gives fields d ()
      (us.forM (upgrade schema) fields d).state := by
  induction us generalizing d with
  | nil => cases h
  | cons u rest ih =>
    have hbind : (u :: rest).forM (upgrade schema) =
        (upgrade schema u >>= fun _ => rest.forM (upgrade schema)) := rfl
    rw [hbind, Action.answer_bind] at h
    rw [hbind, Action.state_bind]
    cases hu : (upgrade schema u fields d).answer with
    | error e' =>
      refine ⟨[], u, rest, rfl, ?_⟩
      dsimp only
      rw [show (upgrade schema u fields d).state = d from Action.state_transact_of_error hu]
      exact .pure () fields d
    | ok =>
      rw [hu] at h
      obtain ⟨done, v, later, hrest, hdone⟩ := ih h
      have hstep : (upgrade schema u).Gives fields d () (upgrade schema u fields d).state :=
        ⟨hu, rfl⟩
      exact ⟨u :: done, v, later, by rw [hrest]; rfl, hstep.bind hdone⟩

theorem forM_append_of_gives {done : List Int}
    (h : (done.forM (upgrade schema)).Gives fields d () d₁) (rest : List Int) :
    ((done ++ rest).forM (upgrade schema) fields d).answer =
        (rest.forM (upgrade schema) fields d₁).answer ∧
      ((done ++ rest).forM (upgrade schema) fields d).state =
        (rest.forM (upgrade schema) fields d₁).state := by
  induction done generalizing d with
  | nil =>
    cases h.state
    exact ⟨rfl, rfl⟩
  | cons u later ih =>
    obtain ⟨_, d₂, hu, hlater⟩ := Action.gives_of_bind h
    obtain ⟨hanswer, hstate⟩ := ih hlater
    change ((upgrade schema u >>= fun _ => (later ++ rest).forM (upgrade schema)) fields d).answer =
      _ ∧ ((upgrade schema u >>= fun _ => (later ++ rest).forM (upgrade schema)) fields d).state = _
    rw [Action.answer_bind, Action.state_bind, hu.answer, hu.state]
    exact ⟨hanswer, hstate⟩

/-- What the versions before the last one leave: they are recorded, no row has changed, and at any
other time they leave the same. -/
theorem Staged.of_forM (h : Staged plan) {vs done : List Int} (hvs : d.versions = some vs)
    (hdone : ∀ v ∈ done, v = 1 ∨ v = 2)
    (hrun : (done.forM (upgrade (plan now))).Gives fields d () d₁) :
    d₁.versions = some (vs ++ done) ∧ SameRows d d₁ ∧
      ∀ now' fields', (done.forM (upgrade (plan now'))).Gives fields' d () d₁ := by
  induction done generalizing d vs with
  | nil =>
    cases hrun.state
    rw [List.append_nil]
    exact ⟨hvs, .refl d, fun now' fields' => .pure () fields' d⟩
  | cons v rest ih =>
    have hv := hdone v List.mem_cons_self
    obtain ⟨_, d₂, hupgrade, hrest⟩ := Action.gives_of_bind hrun
    obtain ⟨d₃, happly, rfl⟩ := apply_of_upgrade hupgrade
    have hversions : some (d₃.versions.getD [] ++ [v]) = some (vs ++ [v]) := by
      rw [h.recorded hv happly, hvs, Option.getD_some]
    have hrows := (h.rows hv happly).trans (.of_versions d₃ (some (d₃.versions.getD [] ++ [v])))
    obtain ⟨hrecorded, hrows', hlater⟩ :=
      ih hversions (fun u hu => hdone u (List.mem_cons_of_mem v hu)) hrest
    refine ⟨?_, hrows.trans hrows', fun now' fields' => ?_⟩
    · rw [hrecorded, List.append_assoc]
      rfl
    · exact (gives_upgrade (h.timeless hv happly now' fields')).bind (hlater now' fields')

/-- Versions that were applied are no longer pending. -/
theorem pending_of_applied {vs done rest : List Int} (hnodup : vs.Nodup)
    (hpending : d.pending vs = done ++ rest)
    (hversions : d₁.versions.getD [] = d.versions.getD [] ++ done) : d₁.pending vs = rest := by
  have hnodup : (done ++ rest).Nodup := by
    rw [← hpending]
    exact hnodup.filter _
  have hfilter : d₁.pending vs = (d.pending vs).filter fun v => !done.contains v := by
    unfold pending
    rw [List.filter_filter, hversions]
    refine List.filter_congr fun v _ => ?_
    simp [Bool.and_comm]
  have hdone : done.filter (fun v => !done.contains v) = [] := by simp
  have hrest : rest.filter (fun v => !done.contains v) = rest := by
    rw [List.filter_eq_self]
    intro v hv
    have hnot : v ∉ done := fun hmem => (List.nodup_append.mp hnodup).2.2 v hmem v hv rfl
    simpa using hnot
  rw [hfilter, hpending, List.filter_append, hdone, hrest, List.nil_append]

/-- Applying pending versions in ascending order leaves none behind that is older. -/
theorem due_of_applied {vs done rest : List Int} (hascending : vs.Pairwise (· < ·))
    (hdue : d.due vs = .ok (done ++ rest))
    (hversions : d₁.versions.getD [] = d.versions.getD [] ++ done) : d₁.due vs = .ok rest := by
  obtain ⟨hpending, hmissing⟩ := due_eq_ok_iff.mp hdue
  have hleft : d₁.pending vs = rest :=
    pending_of_applied (hascending.imp Int.ne_of_lt) hpending hversions
  have hascending : (done ++ rest).Pairwise (· < ·) := hpending ▸ hascending.filter _
  refine due_eq_ok_iff.mpr ⟨hleft, ?_⟩
  rw [missing, List.filter_eq_nil_iff] at hmissing ⊢
  rw [hleft]
  rw [hpending] at hmissing
  intro u hu
  have hle : d.version ≤ u := by
    have hnot := hmissing u (List.mem_append_right done hu)
    simpa using hnot
  obtain ⟨hzero, hold⟩ := version_le_iff.mp hle
  have hnew : d₁.version ≤ u := by
    refine version_le_iff.mpr ⟨hzero, fun w hw => ?_⟩
    rw [hversions] at hw
    rcases List.mem_append.mp hw with hw | hw
    · exact hold w hw
    · have hlt := (List.pairwise_append.mp hascending).2.2 w hw u hu
      omega
  simpa using hnew

theorem version_begun (d : Database) : d.begun.version = d.version := by
  unfold begun version
  cases d.versions with
  | none => rfl
  | some vs => rfl

/-- The first version is not one of the schema. -/
theorem pending_begun (d : Database) :
    d.begun.pending permissionVersions = d.pending permissionVersions := by
  cases hvs : d.versions with
  | none =>
    unfold begun pending
    rw [hvs]
    rfl
  | some vs => rw [begun_of_versions hvs]

theorem missing_begun (d : Database) :
    d.begun.missing permissionVersions = d.missing permissionVersions := by
  rw [missing, pending_begun, version_begun, missing]

/-- What is reported of a database before its last version is applied. -/
theorem phase_of_version_lt (h : d.version < 3) :
    d.phase = if d.missing permissionVersions = [] then .ok .needed
      else .error (.during .checkPending
        (.outOfOrder (d.missing permissionVersions) d.version)) := by
  unfold phase
  split
  · rename_i hnone
    have hmissing : d.missing permissionVersions = [] := by
      unfold missing pending version
      rw [hnone]
      rfl
    rw [if_pos hmissing]
  · by_cases hmissing : d.missing permissionVersions = []
    · have hlast : 3 ∈ d.pending permissionVersions := by
        have hnot : 3 ∉ d.versions.getD [] := fun hmem => by
          have hle := le_version_of_mem hmem
          omega
        exact List.mem_filter.mpr ⟨by decide, by simpa using hnot⟩
      have hnonempty : (d.pending permissionVersions).isEmpty = false :=
        List.isEmpty_eq_false_iff.mpr (List.ne_nil_of_mem hlast)
      rw [due, if_pos hmissing, if_pos hmissing]
      simp [hnonempty]
    · rw [due, if_neg hmissing, if_neg hmissing]

/-- What is reported of a database that is at most at its last version. -/
theorem phase_of_missing (hversion : d.version ≤ 3) (h : d.missing permissionVersions = []) :
    d.phase = .ok (if d.version = 3 then .migrated 3 else .needed) := by
  by_cases hlast : d.version = 3
  · have hrecorded : 3 ∈ d.versions.getD [] := by
      by_contra hnot
      have hbelow : d.version ≤ 2 := version_le_iff.mpr ⟨by decide, fun v hv => by
        have hle := (version_le_iff.mp hversion).2 v hv
        have hne : v ≠ 3 := fun heq => hnot (heq ▸ hv)
        omega⟩
      omega
    have hnone : d.versions ≠ none := fun hnone => by simp [hnone] at hrecorded
    have hpending : d.pending permissionVersions = [] := by
      rw [List.eq_nil_iff_forall_not_mem]
      intro v hv
      have hlisted : v = 1 ∨ v = 2 ∨ v = 3 := by
        simpa [permissionVersions] using (List.mem_filter.mp hv).1
      have hnew : v ∉ d.versions.getD [] := by simpa using (List.mem_filter.mp hv).2
      have hne : v ≠ 3 := fun heq => hnew (heq ▸ hrecorded)
      have hearly : v ∈ d.missing permissionVersions :=
        List.mem_filter.mpr ⟨hv, by rw [decide_eq_true_iff]; omega⟩
      rw [h] at hearly
      cases hearly
    rw [phase, if_neg hnone, due, if_pos h, hpending, if_pos hlast, hlast]
    rfl
  · rw [phase_of_version_lt (by omega), if_pos h, if_neg hlast]

/-- A migration does not begin where versions are missing. -/
theorem Staged.answer_migrate_of_missing (h : Staged plan)
    (hmissing : d.missing permissionVersions ≠ []) (now : Instant) (fields : List Field) :
    (migrate (plan now) fields d).answer = .error (.during (.runMigrations (plan now).name)
      (.outOfOrder (d.missing permissionVersions) d.version)) := by
  have hsome : d.begun.versions ≠ some [] := by
    intro hempty
    refine hmissing ?_
    rw [← missing_begun]
    unfold missing pending version
    rw [hempty]
    rfl
  rw [(migrate_eq_applyDue (plan now) fields d).1, applyDue, Action.get_bind, if_neg hsome,
    h.versions now, due, missing_begun, if_neg hmissing, version_begun]
  rfl

/-- `d'` is what failed migrations left of `d`: no row has changed, the last version is still to
come, and a migration does to `d'` what it would do to `d`. -/
structure Resumes (plan : Instant → Schema) (d d' : Database) : Prop where
  rows : SameRows d d'
  version : d'.version < 3
  phase : d'.phase = d.phase
  answer : ∀ now fields,
    (migrate (plan now) fields d').answer = (migrate (plan now) fields d).answer
  state : ∀ now fields, (migrate (plan now) fields d').state = (migrate (plan now) fields d).state

namespace Resumes

theorem refl (hversion : d.version < 3) : Resumes plan d d :=
  ⟨.refl d, hversion, rfl, fun _ _ => rfl, fun _ _ => rfl⟩

theorem trans (h : Resumes plan d₁ d₂) (h' : Resumes plan d₂ d₃) : Resumes plan d₁ d₃ where
  rows := h.rows.trans h'.rows
  version := h'.version
  phase := h'.phase.trans h.phase
  answer now fields := (h'.answer now fields).trans (h.answer now fields)
  state now fields := (h'.state now fields).trans (h.state now fields)

theorem of_applyDue (hrows : SameRows d d₁) (hversion : d₁.version < 3)
    (hphase : d₁.phase = d.phase)
    (h : ∀ now fields,
      (applyDue (plan now) fields d₁.begun).answer = (applyDue (plan now) fields d.begun).answer ∧
      (applyDue (plan now) fields d₁.begun).state = (applyDue (plan now) fields d.begun).state) :
    Resumes plan d d₁ := by
  refine ⟨hrows, hversion, hphase, fun now fields => ?_, fun now fields => ?_⟩
  · rw [(migrate_eq_applyDue (plan now) fields d).1,
      (migrate_eq_applyDue (plan now) fields d₁).1, (h now fields).1]
  · rw [(migrate_eq_applyDue (plan now) fields d).2,
      (migrate_eq_applyDue (plan now) fields d₁).2, (h now fields).2]

/-- Adding the table of versions is no more than the next migration does first. -/
theorem begun (hversion : d.version < 3) : Resumes plan d d.begun := by
  have hversion' : d.begun.version < 3 := by rwa [version_begun]
  refine of_applyDue (.of_versions d _) hversion' ?_ fun now fields => ?_
  · rw [phase_of_version_lt hversion', phase_of_version_lt hversion, missing_begun, version_begun]
  · rw [begun_of_versions (d := d.begun) rfl]
    exact ⟨rfl, rfl⟩

end Resumes

/-- A migration that comes after the first of the versions that are due goes on with the others. -/
theorem Staged.resumes_of_forM (h : Staged plan) (hversion : d.version < 3) {done rest : List Int}
    (hsome : d.begun.versions ≠ some [])
    (hdue : d.begun.due permissionVersions = .ok (done ++ rest))
    (hdone : ∀ v ∈ done, v = 1 ∨ v = 2)
    (hrun : (done.forM (upgrade (plan now))).Gives fields d.begun () d₁) : Resumes plan d d₁ := by
  obtain ⟨hversions, hrows, hagain⟩ := h.of_forM rfl hdone hrun
  have hrecorded : d₁.versions.getD [] = d.begun.versions.getD [] ++ done := by
    rw [hversions]
    rfl
  have hversion₁ : d₁.version < 3 := by
    have hle : d₁.version ≤ 2 := by
      have hbefore : d.begun.version ≤ 2 := by
        rw [version_begun]
        omega
      refine version_le_iff.mpr ⟨by omega, fun v hv => ?_⟩
      rw [hrecorded] at hv
      rcases List.mem_append.mp hv with hv | hv
      · exact (version_le_iff.mp hbefore).2 v hv
      · have := hdone v hv
        omega
    omega
  have hleft : d₁.due permissionVersions = .ok rest := due_of_applied (by decide) hdue hrecorded
  have hphase : d₁.phase = d.phase := by
    rw [phase_of_version_lt hversion₁, phase_of_version_lt hversion,
      if_pos (due_eq_ok_iff.mp hleft).2, ← missing_begun, if_pos (due_eq_ok_iff.mp hdue).2]
  have hsome₁ : d₁.versions ≠ some [] := by
    intro hempty
    rw [hversions] at hempty
    have hnil := Option.some.inj hempty
    exact hsome (congrArg some (List.append_eq_nil_iff.mp hnil).1)
  refine .of_applyDue ((SameRows.of_versions d _).trans hrows) hversion₁ hphase
    fun now' fields' => ?_
  rw [begun_of_versions hversions]
  rw [applyDue_of_due hsome ((h.versions now').symm ▸ hdue),
    applyDue_of_due hsome₁ ((h.versions now').symm ▸ hleft)]
  obtain ⟨hanswer, hstate⟩ := forM_append_of_gives (hagain now' fields') rest
  exact ⟨hanswer.symm, hstate.symm⟩

/-- An attempt that fails stops at one of the versions that are due, or before the first of them. -/
theorem Staged.resumes_of_applyDue (h : Staged plan) (hversion : d.version < 3)
    (hfails : (applyDue (plan now) fields d.begun).answer = .error e) :
    Resumes plan d (applyDue (plan now) fields d.begun).state := by
  rcases applyDue_cases (plan now) fields d.begun with ⟨us, hsome, hdue, hrun⟩ | ⟨e', hrun⟩
  · rw [hrun] at hfails ⊢
    rw [h.versions now] at hdue
    obtain ⟨done, v, rest, rfl, hdone⟩ := split_of_forM_error hfails
    have hpending := (due_eq_ok_iff.mp hdue).1
    have hlisted : ∀ u ∈ done ++ v :: rest, u = 1 ∨ u = 2 ∨ u = 3 := by
      intro u hu
      rw [← hpending] at hu
      simpa [permissionVersions] using (List.mem_filter.mp hu).1
    have hascending : (done ++ v :: rest).Pairwise (· < ·) := by
      rw [← hpending]
      exact List.Pairwise.filter _ (by decide)
    -- The last version has none after it, so those that were applied are the first two.
    have hearly : ∀ u ∈ done, u = 1 ∨ u = 2 := by
      intro u hu
      have hlt := (List.pairwise_append.mp hascending).2.2 u hu v List.mem_cons_self
      have hu' := hlisted u (List.mem_append_left _ hu)
      have hv := hlisted v (List.mem_append_right _ List.mem_cons_self)
      omega
    exact h.resumes_of_forM hversion hsome hdue hearly hdone
  · rw [hrun]
    exact .begun hversion

/-- A failed migration changes no row, and the next one takes up where it stopped. -/
theorem Staged.resumes (h : Staged plan) (hversion : d.version < 3)
    (hfails : (migrate (plan now) fields d).answer = .error e) :
    Resumes plan d (migrate (plan now) fields d).state := by
  obtain ⟨hanswer, hstate⟩ := migrate_eq_applyDue (plan now) fields d
  rw [hanswer] at hfails
  rw [hstate]
  cases hrun : (applyDue (plan now) fields d.begun).answer with
  | ok =>
    rw [hrun] at hfails
    cases hfails
  | error e' => exact h.resumes_of_applyDue hversion hrun

end Database

end Consent.Store

import Consent.Permission.Registry
import Consent.Proofs.Except
import Consent.Proofs.Text.Order

/-! Which tables of kinds make a registry, and what it answers: each definition's own values, in
whatever order the table lists the definitions. -/

namespace Consent

open Text

/-- The first repetition is found by looking back, so none is found exactly where all differ. -/
theorem repeated?_eq_none_iff {seen states : List State} :
    repeated? seen states = none ↔ states.Nodup ∧ ∀ s ∈ states, s ∉ seen := by
  induction states generalizing seen with
  | nil => simp [repeated?]
  | cons s rest ih =>
    by_cases hs : s ∈ seen
    · simp [repeated?, hs]
    · rw [repeated?, if_neg (by simpa using hs), ih, List.nodup_cons]
      simp only [List.mem_cons, not_or, forall_eq_or_imp, hs, not_false_eq_true, true_and]
      grind

/-- A kind with a name, and with decisions of which none is listed twice. -/
structure KindDefinition.Sound (d : KindDefinition) : Prop where
  named : d.kind ≠ ""
  states_ne : d.states ≠ []
  states_once : d.states.Nodup

theorem KindDefinition.check_eq_ok_iff {seen : List Kind} {d : KindDefinition} :
    d.check seen = .ok () ↔ d.Sound ∧ d.kind ∉ seen := by
  unfold KindDefinition.check
  constructor
  · intro h
    split at h
    · cases h
    · rename_i hnamed
      split at h
      · cases h
      · rename_i hseen
        split at h
        · cases h
        · rename_i hstates
          split at h
          · cases h
          · rename_i hnone
            exact ⟨⟨hnamed, by simpa using hstates, (repeated?_eq_none_iff.mp hnone).1⟩,
              by simpa using hseen⟩
  · rintro ⟨⟨hnamed, hstates, honce⟩, hseen⟩
    have hnone : repeated? [] d.states = none := repeated?_eq_none_iff.mpr ⟨honce, by simp⟩
    simp [hnamed, hseen, hstates, hnone]

namespace Registry

variable {ds es : List KindDefinition} {q r : Registry} {kind : Kind} {d : KindDefinition}

/-- Sound definitions, of which no two define one kind. -/
structure IsTable (ds : List KindDefinition) : Prop where
  sound : ∀ d ∈ ds, d.Sound
  once : (ds.map (·.kind)).Nodup

theorem isTable_nil : IsTable [] where
  sound := fun _ h => nomatch h
  once := List.nodup_nil

theorem isTable_cons_iff :
    IsTable (d :: ds) ↔ d.Sound ∧ (∀ e ∈ ds, e.kind ≠ d.kind) ∧ IsTable ds := by
  constructor
  · intro h
    have honce := List.nodup_cons.mp h.once
    refine ⟨h.sound d List.mem_cons_self, fun e he heq => honce.1 ?_,
      fun e he => h.sound e (List.mem_cons_of_mem d he), honce.2⟩
    exact List.mem_map.mpr ⟨e, he, heq⟩
  · rintro ⟨hd, hother, hds⟩
    refine ⟨List.forall_mem_cons.mpr ⟨hd, hds.sound⟩,
      List.nodup_cons.mpr ⟨fun hmem => ?_, hds.once⟩⟩
    obtain ⟨e, he, heq⟩ := List.mem_map.mp hmem
    exact hother e he heq

theorem IsTable.perm (h : IsTable ds) (hperm : es.Perm ds) : IsTable es where
  sound := fun d hd => h.sound d (hperm.mem_iff.mp hd)
  once := (hperm.map _).nodup_iff.mpr h.once

/-- Checking one definition after another against the kinds seen so far finds out whether all of
them together are a table. -/
theorem checkAll_eq_ok_iff {seen : List Kind} :
    checkAll seen ds = .ok () ↔ IsTable ds ∧ ∀ d ∈ ds, d.kind ∉ seen := by
  induction ds generalizing seen with
  | nil => simp [checkAll, isTable_nil]
  | cons d rest ih =>
    rw [checkAll, Except.bind_eq_ok, isTable_cons_iff]
    constructor
    · rintro ⟨⟨⟩, hcheck, hall⟩
      obtain ⟨hd, hseen⟩ := KindDefinition.check_eq_ok_iff.mp hcheck
      obtain ⟨hrest, hfresh⟩ := ih.mp hall
      simp only [List.mem_cons, not_or] at hfresh
      exact ⟨⟨hd, fun e he => (hfresh e he).1, hrest⟩,
        List.forall_mem_cons.mpr ⟨hseen, fun e he => (hfresh e he).2⟩⟩
    · rintro ⟨⟨hd, hother, hrest⟩, hfresh⟩
      obtain ⟨hseen, hfresh⟩ := List.forall_mem_cons.mp hfresh
      refine ⟨(), KindDefinition.check_eq_ok_iff.mpr ⟨hd, hseen⟩, ih.mpr ⟨hrest, fun e he => ?_⟩⟩
      exact List.not_mem_cons_of_ne_of_not_mem (hother e he) (hfresh e he)

theorem ofDefinitions_eq_ok_iff : ofDefinitions ds = .ok r ↔ IsTable ds ∧ r = ⟨ds⟩ := by
  have hall : checkAll [] ds = .ok () ↔ IsTable ds := by simp [checkAll_eq_ok_iff]
  rw [ofDefinitions, Except.bind_eq_ok, ← hall]
  constructor
  · rintro ⟨⟨⟩, hok, hr⟩
    cases hr
    exact ⟨hok, rfl⟩
  · rintro ⟨hok, rfl⟩
    exact ⟨(), hok, rfl⟩

theorem find?_eq_some_iff (h : IsTable ds) : find? ⟨ds⟩ kind = some d ↔ d ∈ ds ∧ d.kind = kind := by
  constructor
  · intro hfind
    have hkind := List.find?_some hfind
    exact ⟨List.mem_of_find?_eq_some hfind, of_decide_eq_true hkind⟩
  · rintro ⟨hd, hkind⟩
    have hsome : (ds.find? (·.kind = kind)).isSome :=
      List.find?_isSome.mpr ⟨d, hd, decide_eq_true hkind⟩
    obtain ⟨e, he⟩ := Option.isSome_iff_exists.mp hsome
    have hkind' := List.find?_some he
    have hsame : e.kind = d.kind := (of_decide_eq_true hkind').trans hkind.symm
    rw [find?, he, List.inj_on_of_nodup_map h.once (List.mem_of_find?_eq_some he) hd hsame]

theorem find?_eq_none_iff : find? ⟨ds⟩ kind = none ↔ ∀ d ∈ ds, d.kind ≠ kind := by
  simp [find?]

/-- The registry tells the definitions' own values, and those that hold for the other kinds. -/
structure Tells (r : Registry) (ds : List KindDefinition) : Prop where
  ascending : r.kinds.Pairwise (· < ·)
  mem_kinds : ∀ kind, kind ∈ r.kinds ↔ ∃ d ∈ ds, d.kind = kind
  defined : ∀ d ∈ ds, r.states d.kind = d.states ∧ r.exactHost d.kind = d.exactHost
  undefined : ∀ kind, (∀ d ∈ ds, d.kind ≠ kind) →
    r.states kind = [.unknown, .allow, .block] ∧ r.exactHost kind = false
  admits : ∀ kind state, r.admits kind state = true ↔ state ∈ r.states kind

theorem mem_kinds : kind ∈ kinds ⟨ds⟩ ↔ ∃ d ∈ ds, d.kind = kind := by
  rw [kinds, List.mem_mergeSort, List.mem_map]

theorem IsTable.pairwise_kinds (h : IsTable ds) : (kinds ⟨ds⟩).Pairwise (· < ·) := by
  have hsorted : (kinds ⟨ds⟩).Pairwise (· ≤ ·) := 
    pairwise_mergeSort_text id (ds.map KindDefinition.kind)
  have hnodup : (kinds ⟨ds⟩).Nodup := (List.mergeSort_perm _ _).nodup_iff.mpr h.once
  refine (hsorted.and hnodup).imp fun {a b} hab => ?_
  exact String.not_le.mp fun hba => hab.2 (String.le_antisymm hab.1 hba)

theorem IsTable.tells (h : IsTable ds) : Tells ⟨ds⟩ ds where
  ascending := h.pairwise_kinds
  mem_kinds := fun _ => mem_kinds
  defined := by
    intro d hd
    have hfind := (find?_eq_some_iff h).mpr ⟨hd, rfl⟩
    simp [states, exactHost, hfind]
  undefined := by
    intro kind hnone
    have hfind := find?_eq_none_iff.mpr hnone
    simp [states, exactHost, hfind, askStates]
  admits := fun _ _ => List.contains_iff_mem

/-- Two registries that no question tells apart. -/
structure Agree (q r : Registry) : Prop where
  kinds : q.kinds = r.kinds
  states : ∀ kind, q.states kind = r.states kind
  exactHost : ∀ kind, q.exactHost kind = r.exactHost kind
  admits : ∀ kind state, q.admits kind state = r.admits kind state

/-- What a registry tells does not depend on the order of the definitions. -/
theorem Tells.agree (hq : Tells q es) (hr : Tells r ds) (hperm : es.Perm ds) : Agree q r := by
  have hvalues : ∀ kind, q.states kind = r.states kind ∧ q.exactHost kind = r.exactHost kind := by
    intro kind
    by_cases hdefined : ∃ d ∈ ds, d.kind = kind
    · obtain ⟨d, hd, rfl⟩ := hdefined
      obtain ⟨hqstates, hqexact⟩ := hq.defined d (hperm.mem_iff.mpr hd)
      obtain ⟨hrstates, hrexact⟩ := hr.defined d hd
      exact ⟨hqstates.trans hrstates.symm, hqexact.trans hrexact.symm⟩
    · have hnone : ∀ d ∈ ds, d.kind ≠ kind := fun d hd heq => hdefined ⟨d, hd, heq⟩
      obtain ⟨hqstates, hqexact⟩ := hq.undefined kind fun d hd => hnone d (hperm.mem_iff.mp hd)
      obtain ⟨hrstates, hrexact⟩ := hr.undefined kind hnone
      exact ⟨hqstates.trans hrstates.symm, hqexact.trans hrexact.symm⟩
  constructor
  case kinds =>
    refine hq.ascending.eq_of_mem_iff hr.ascending fun kind => ?_
    simp only [hq.mem_kinds, hr.mem_kinds, hperm.mem_iff]
  case states => exact fun kind => (hvalues kind).1
  case exactHost => exact fun kind => (hvalues kind).2
  case admits =>
    intro kind state
    rw [Bool.eq_iff_iff, hq.admits, hr.admits, (hvalues kind).1]

/-- The definitions that make a registry are those that are a table, and the registry tells their
values. Definitions in another order make a registry that answers the same. -/
theorem ofDefinitions_tells (ds : List KindDefinition) :
    ((∃ r, ofDefinitions ds = .ok r) ↔
      (∀ d ∈ ds, d.kind ≠ "" ∧ d.states ≠ [] ∧ d.states.Nodup) ∧ (ds.map (·.kind)).Nodup) ∧
    ∀ r, ofDefinitions ds = .ok r →
      Tells r ds ∧ ∀ es, es.Perm ds → ∃ q, ofDefinitions es = .ok q ∧ Agree q r := by
  refine ⟨?_, fun r hr => ?_⟩
  · simp only [ofDefinitions_eq_ok_iff, exists_and_left, exists_eq, and_true]
    refine ⟨fun h => ⟨fun d hd => ?_, h.once⟩, fun ⟨hsound, honce⟩ => ⟨fun d hd => ?_, honce⟩⟩
    · exact ⟨(h.sound d hd).named, (h.sound d hd).states_ne, (h.sound d hd).states_once⟩
    · exact ⟨(hsound d hd).1, (hsound d hd).2.1, (hsound d hd).2.2⟩
  · obtain ⟨htable, rfl⟩ := ofDefinitions_eq_ok_iff.mp hr
    refine ⟨htable.tells, fun es hperm => ?_⟩
    have hother := htable.perm hperm
    exact ⟨⟨es⟩, ofDefinitions_eq_ok_iff.mpr ⟨hother, rfl⟩, hother.tells.agree htable.tells hperm⟩

theorem ofDefinitions_tells_swapped :
    let popup : KindDefinition := ⟨"popup", binaryStates, false⟩
    let camera : KindDefinition := ⟨"camera", askStates, true⟩
    Tells ⟨[popup, camera]⟩ [popup, camera] ∧
      ∃ q, ofDefinitions [camera, popup] = .ok q ∧ Agree q ⟨[popup, camera]⟩ := by
  intro popup camera
  have hok : ofDefinitions [popup, camera] = .ok ⟨[popup, camera]⟩ := rfl
  obtain ⟨htells, hagree⟩ := (ofDefinitions_tells [popup, camera]).2 _ hok
  exact ⟨htells, hagree [camera, popup] (List.Perm.swap popup camera [])⟩

/-- The built-in kinds are a table. -/
example : ofDefinitions default.definitions = .ok default := by decide

end Registry

end Consent

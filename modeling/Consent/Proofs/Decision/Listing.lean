import Consent.Proofs.Decision.Handles
import Consent.Proofs.Decision.Isolation
import Consent.Proofs.Decision.Purge

/-! The list of an origin's decisions agrees with the lookup of each kind, and it stands in the
order in which the kinds were decided. -/

namespace Consent

open Host Log Store

namespace Trace

variable {ws : Trace} {key : String × Kind} {i : Nat} {now : Instant} {w : Write}

/-- The table that the changes make of an empty one. -/
def table (ws : Trace) : Table := ws.foldl (fun t w => w.2.onTable w.1 t) []

/-- What the changes make of a table. -/
def onto (t : Table) (ws : Trace) : Table := ws.foldl (fun t w => w.2.onTable w.1 t) t

/-- The change at a place set a decision under a key that had none, and it has had one since. -/
structure SetFirst (ws : Trace) (key : String × Kind) (i : Nat) : Prop where
  set : ∃ now r, ws[i]? = some (now, .set r) ∧ r.key = key
  absent : key ∉ (table (ws.take i)).keys
  present : ∀ n, i < n → n ≤ ws.length → key ∈ (table (ws.take n)).keys

/-- One was set before the other. -/
def SetBefore (ws : Trace) (a b : String × Kind) : Prop :=
  ∃ i j, i < j ∧ ws.SetFirst a i ∧ ws.SetFirst b j

theorem table_concat (ws : Trace) (now : Instant) (w : Write) :
    table (ws ++ [(now, w)]) = w.onTable now (table ws) := by
  simp [table]

theorem onto_concat (t : Table) (ws : Trace) (now : Instant) (w : Write) :
    onto t (ws ++ [(now, w)]) = w.onTable now (onto t ws) := by
  simp [onto]

theorem keyed_table (ws : Trace) : (table ws).Keyed := by
  induction ws using List.reverseRecOn with
  | nil => exact .nil
  | append_singleton ws w ih =>
    rw [table_concat]
    exact Table.keyed_onTable ih w.1 w.2

theorem SetFirst.lt_length (h : ws.SetFirst key i) : i < ws.length := by
  obtain ⟨now, r, hget, -⟩ := h.set
  exact (List.getElem?_eq_some_iff.mp hget).1

/-- One step: what was set first stays so as long as it is there. -/
theorem SetFirst.concat (h : ws.SetFirst key i)
    (hkey : key ∈ (table (ws ++ [(now, w)])).keys) : SetFirst (ws ++ [(now, w)]) key i where
  set := by
    rw [List.getElem?_append_left h.lt_length]
    exact h.set
  absent := by
    rw [List.take_append_of_le_length (Nat.le_of_lt h.lt_length)]
    exact h.absent
  present n hlt hle := by
    by_cases hn : n ≤ ws.length
    · rw [List.take_append_of_le_length hn]
      exact h.present n hlt hn
    · rw [List.take_of_length_le (by simp only [List.length_append, List.length_singleton]; omega)]
      exact hkey

theorem SetBefore.concat {a b : String × Kind} (h : ws.SetBefore a b)
    (ha : a ∈ (table (ws ++ [(now, w)])).keys) (hb : b ∈ (table (ws ++ [(now, w)])).keys) :
    SetBefore (ws ++ [(now, w)]) a b := by
  obtain ⟨i, j, hij, hi, hj⟩ := h
  exact ⟨i, j, hij, hi.concat ha, hj.concat hb⟩

theorem setFirst_concat_self {r : Record} (h : r.key ∉ (table ws).keys)
    (hkey : r.key ∈ (table (ws ++ [(now, .set r)])).keys) :
    SetFirst (ws ++ [(now, .set r)]) r.key ws.length where
  set := ⟨now, r, by simp, rfl⟩
  absent := by simpa using h
  present n hlt hle := by
    rw [List.take_of_length_le (by simp only [List.length_append, List.length_singleton]; omega)]
    exact hkey

end Trace

namespace Store.Table

variable {t : Table}

/-- A change takes keys out, or adds one at the end that was not there. -/
theorem keys_onTable (h : t.keys.Nodup) (now : Instant) (w : Write) :
    (keys (w.onTable now t)).Sublist t.keys ∨
      ∃ r, w = .set r ∧ r.key ∉ t.keys ∧ keys (w.onTable now t) = t.keys ++ [r.key] := by
  have hfilter : ∀ q : Row → Bool, (keys (t.filter q)).Sublist t.keys := fun q =>
    List.filter_sublist.map Row.key
  cases w with
  | set r =>
    by_cases hr : r.key ∈ t.keys
    · left
      rw [Write.onTable, upsert_of_mem h hr, keys_map fun row => Row.key_revised row]
    · refine Or.inr ⟨r, rfl, hr, ?_⟩
      rw [Write.onTable, upsert_of_not_mem hr]
      simp [keys]
  | delete origin kind => exact Or.inl (hfilter _)
  | deleteAll => exact Or.inl (List.nil_sublist _)
  | deleteExpired time => exact Or.inl (hfilter _)
  | deleteSession => exact Or.inl (hfilter _)

end Store.Table

namespace Trace

/-- The run: the keys of a table stand in the order in which they were first set. -/
theorem pairwise_setBefore (ws : Trace) :
    (table ws).keys.Pairwise ws.SetBefore ∧ ∀ key ∈ (table ws).keys, ∃ i, ws.SetFirst key i := by
  induction ws using List.reverseRecOn with
  | nil => exact ⟨.nil, fun key hkey => by cases hkey⟩
  | append_singleton ws last ih =>
    obtain ⟨now, w⟩ := last
    obtain ⟨hpairwise, hfirst⟩ := ih
    rcases Store.Table.keys_onTable (keyed_table ws).keys now w with hsub | ⟨r, rfl, hr, hkeys⟩
    · rw [← table_concat] at hsub
      constructor
      · exact (hpairwise.sublist hsub).imp_of_mem fun ha hb hab => hab.concat ha hb
      · intro key hkey
        obtain ⟨i, hi⟩ := hfirst key (hsub.subset hkey)
        exact ⟨i, hi.concat hkey⟩
    · rw [← table_concat] at hkeys
      have hold : ∀ key ∈ (table ws).keys, key ∈ (table (ws ++ [(now, .set r)])).keys := by
        intro key hkey
        rw [hkeys]
        exact List.mem_append_left _ hkey
      have hnew : SetFirst (ws ++ [(now, .set r)]) r.key ws.length :=
        setFirst_concat_self hr (by simp [hkeys])
      rw [hkeys]
      constructor
      · refine List.pairwise_append.mpr ⟨?_, List.pairwise_singleton _ _, fun a ha b hb => ?_⟩
        · exact hpairwise.imp_of_mem fun ha hb hab => hab.concat (hold _ ha) (hold _ hb)
        · obtain ⟨i, hi⟩ := hfirst a ha
          rw [List.mem_singleton.mp hb]
          exact ⟨i, ws.length, hi.lt_length, hi.concat (hold a ha), hnew⟩
      · intro key hkey
        rcases List.mem_append.mp hkey with hkey | hkey
        · obtain ⟨i, hi⟩ := hfirst key hkey
          exact ⟨i, hi.concat (hold key hkey)⟩
        · rw [List.mem_singleton.mp hkey]
          exact ⟨ws.length, hnew⟩

end Trace

namespace Store

variable [SuffixList] {now : Instant} {t₀ : Table}

theorem opens_untraced {α : Type} {before : Action Store Unit} {f : Table → α × Table}
    (hbefore : ∀ fields s, before.Gives fields s () s) (hread : ∀ t, (f t).2 = t) :
    (Repository.untraced (serve now before f)).Keeps fun c => c.1.Opens (Trace.onto t₀ c.2) := by
  intro fields c h
  obtain ⟨s', hserve, hready⟩ := h.gives_serve (hbefore fields) now f
  rw [hread] at hready
  change (serve now before f fields c.1).state.Opens (Trace.onto t₀ c.2)
  rw [hserve.state]
  exact hready.opens

theorem opens_traced {α : Type} {w : Write} {before : Action Store Unit} {f : Table → α × Table}
    (hbefore : ∀ fields s, before.Gives fields s () s) (hwrite : ∀ t, (f t).2 = w.onTable now t) :
    (Repository.traced (now, w) (serve now before f)).Keeps
      fun c => c.1.Opens (Trace.onto t₀ c.2) := by
  intro fields c h
  obtain ⟨s', hserve, hready⟩ := h.gives_serve (hbefore fields) now f
  rw [hwrite] at hready
  unfold Repository.traced
  simp only [hserve.answer, hserve.state, Trace.onto_concat]
  exact hready.opens

/-- The table of a store is what the changes made through it have made of the first one. -/
theorem opens_tracing (t₀ : Table) (now : Instant) :
    ((repository now).tracing now).Keeps fun c => c.1.Opens (Trace.onto t₀ c.2) where
  get _ _ := opens_untraced (.emit _ _ _) fun _ => rfl
  set _ := opens_traced (.emit _ _ _) fun _ => rfl
  delete _ _ := opens_traced (.emit _ _ _) fun _ => rfl
  getAll _ := opens_untraced (.emit _ _ _) fun _ => rfl
  list := opens_untraced (.pure ()) fun _ => rfl
  deleteAll := opens_traced (.emit _ _ _) fun _ => rfl
  deleteExpired _ := opens_traced (.pure ()) fun _ => rfl
  deleteSession := opens_traced (.pure ()) fun _ => rfl

end Store

namespace Decision

section Listing

variable {t : Table} {p : Policy} {o : Origin} {kind : Kind}

/-- The decisions that are listed for an origin. -/
def listed (p : Policy) (t : Table) (o : Origin) : List Record :=
  (t.recordsAt o.key).filter (isListed p)

theorem mem_listed {r : Record} :
    r ∈ listed p t o ↔ r ∈ t.records ∧ r.origin = o.key ∧ p.kinds.isRegistered r.kind = true ∧
      r.isExpired p.now = false ∧ r.state ≠ .unknown := by
  simp only [listed, Table.recordsAt, Table.records, isListed, List.mem_filter, List.mem_map,
    decide_eq_true_eq, Bool.and_eq_true, Bool.not_eq_true', and_assoc]
  constructor
  · rintro ⟨⟨row, hrow, horigin, rfl⟩, hrest⟩
    exact ⟨⟨row, hrow, rfl⟩, horigin, hrest⟩
  · rintro ⟨⟨row, hrow, rfl⟩, horigin, hrest⟩
    exact ⟨⟨row, hrow, horigin, rfl⟩, hrest⟩

/-- The keys that are listed stand in the order of the table. -/
theorem listed_sublist : ((listed p t o).map fun r => (o.key, r.kind)).Sublist t.keys := by
  have hkeys : (listed p t o).map (fun r => (o.key, r.kind)) = (listed p t o).map Record.key := by
    refine List.map_congr_left fun r hr => ?_
    rw [← (mem_listed.mp hr).2.1]
    rfl
  have hrecords : (listed p t o).Sublist t.records :=
    List.filter_sublist.trans (List.filter_sublist.map Row.record)
  have hrecordKeys : t.records.map Record.key = t.keys := by
    simp only [Table.records, List.map_map]
    rfl
  rw [hkeys, ← hrecordKeys]
  exact hrecords.map Record.key

theorem standing?_eq_some_iff (ht : t.keys.Nodup) {r : Record} :
    t.standing? p.now o.key kind = some r ↔
      (r.origin = o.key ∧ r.kind = kind) ∧ r ∈ t.records ∧ r.isExpired p.now = false := by
  rw [Table.standing?, Option.filter_eq_some_iff, Table.decision?_eq_some_iff_of_nodup ht]
  simp [and_assoc]

/-- A kind is listed exactly if a decision about it stands that is not unknown. -/
theorem mem_kinds_listed (ht : t.keys.Nodup) :
    kind ∈ (listed p t o).map Record.kind ↔ p.kinds.isRegistered kind = true ∧
      ∃ r, t.standing? p.now o.key kind = some r ∧ r.state ≠ .unknown := by
  simp only [List.mem_map, mem_listed, standing?_eq_some_iff ht]
  constructor
  · rintro ⟨r, ⟨hr, horigin, hregistered, hexpired, hstate⟩, rfl⟩
    exact ⟨hregistered, r, ⟨⟨horigin, rfl⟩, hr, hexpired⟩, hstate⟩
  · rintro ⟨hregistered, r, ⟨⟨horigin, rfl⟩, hr, hexpired⟩, hstate⟩
    exact ⟨r, ⟨hr, horigin, hregistered, hexpired, hstate⟩, rfl⟩

end Listing

section Stores

variable [SuffixList] {s s₀ : Store} {t : Table} {raw : String} {o : Origin}

/-- The run: whatever calls are made, the table of a store is what their changes come to. -/
theorem opens_runCalls (calls : List Call) (hs : s.Opens t) :
    (runCalls calls s).Opens (Trace.onto t (changes calls s)) :=
  keeps_changes (opens_tracing t) calls hs

theorem answer_get_eq_nearest (hs : s.Opens t) (hparse : Origin.parse raw = .ok o) (p : Policy)
    (now : Instant) (kind : Kind) :
    ((get p (repository now) raw kind).run s).answer =
      .ok (nearest t p.now kind (candidates p.kinds o kind)) := by
  obtain ⟨s₁, hacquire, hready⟩ := hs [] now
  exact (gives_get_nearest hparse hacquire hready).answer

/-- The list of an origin holds a kind exactly if the kind is registered and the row of the origin
and the kind has a decision that is not unknown and has not lapsed. It holds no kind twice, and each
as a lookup finds it; of a kind that binds the exact host it holds all that a lookup finds. In a
store that was empty at first, the kinds stand in the order in which they were set, counted from
when they were last absent. -/
theorem getAll_eq_get (hs : s.Opens t) (ht : t.keys.Nodup) (hparse : Origin.parse raw = .ok o)
    (p : Policy) (now : Instant) :
    let got kind := ((get p (repository now) raw kind).run s).answer
    ∃ vs, ((getAll p (repository now) raw).run s).answer = .ok vs ∧
      (∀ kind, kind ∈ vs.map Verdict.kind ↔ p.kinds.isRegistered kind = true ∧
        ∃ row ∈ t, row.origin = o.key ∧ row.kind = kind ∧ row.record.isExpired p.now = false ∧
          row.state ≠ .unknown) ∧
      (vs.map Verdict.kind).Nodup ∧
      (∀ v ∈ vs, got v.kind = .ok v) ∧
      (∀ kind, p.kinds.isRegistered kind = true → p.kinds.exactHost kind = true →
        ∃ v, got kind = .ok v ∧ (v.state ≠ .unknown ↔ kind ∈ vs.map Verdict.kind)) ∧
      ∀ s₀ calls, s₀.Opens [] → s = runCalls calls s₀ →
        (vs.map Verdict.kind).Pairwise fun a b =>
          (changes calls s₀).SetBefore (o.key, a) (o.key, b) := by
  intro got
  have hgot : ∀ kind, got kind = .ok (nearest t p.now kind (candidates p.kinds o kind)) :=
    answer_get_eq_nearest hs hparse p now
  have hkinds : ((listed p t o).map Verdict.ofRecord).map Verdict.kind =
      (listed p t o).map Record.kind := by simp [Verdict.ofRecord]
  refine ⟨(listed p t o).map .ofRecord, ?_, ?_, ?_, ?_, ?_, ?_⟩
  · have hanswer : (getAll p (repository now) raw [] s).answer = _ := answer_getAll hs
    rw [hparse] at hanswer
    exact hanswer
  · intro kind
    rw [hkinds, mem_kinds_listed ht]
    refine and_congr_right fun _ => ?_
    simp only [standing?_eq_some_iff ht, Table.records, List.mem_map]
    constructor
    · rintro ⟨_, ⟨⟨horigin, hkind⟩, ⟨row, hrow, rfl⟩, hexpired⟩, hstate⟩
      exact ⟨row, hrow, horigin, hkind, hexpired, hstate⟩
    · rintro ⟨row, hrow, horigin, hkind, hexpired, hstate⟩
      exact ⟨row.record, ⟨⟨horigin, hkind⟩, ⟨row, hrow, rfl⟩, hexpired⟩, hstate⟩
  · rw [hkinds]
    have hnodup := (listed_sublist (p := p) (o := o)).nodup ht
    refine List.Nodup.of_map (fun kind => (o.key, kind)) ?_
    rw [List.map_map]
    exact hnodup
  · intro v hv
    obtain ⟨r, hr, rfl⟩ := List.mem_map.mp hv
    obtain ⟨hmem, horigin, -, hexpired, -⟩ := mem_listed.mp hr
    have hstanding : t.standing? p.now o.key r.kind = some r :=
      (standing?_eq_some_iff ht).mpr ⟨⟨horigin, rfl⟩, hmem, hexpired⟩
    have hkind : (Verdict.ofRecord r).kind = r.kind := rfl
    rw [hgot, hkind, candidates_eq, nearest_cons_of_some hstanding]
  · intro kind hregistered hexact
    refine ⟨_, hgot kind, ?_⟩
    rw [hkinds, mem_kinds_listed ht, candidates_eq, if_pos hexact]
    cases hstanding : t.standing? p.now o.key kind with
    | some r => simp [nearest_cons_of_some hstanding, Verdict.ofRecord, hregistered]
    | none =>
      rw [nearest_cons_of_none hstanding]
      simp [nearest, Verdict.unknown]
  · rintro s₀ calls hs₀ rfl
    obtain rfl := Opens.table_unique hs (opens_runCalls calls hs₀)
    have hpairwise := (Trace.pairwise_setBefore (changes calls s₀)).1.sublist
      (listed_sublist (p := p) (o := o))
    rw [hkinds, List.pairwise_map]
    exact List.pairwise_map.mp hpairwise

end Stores

/-- Noon, and the moment at which a decision made at noon for a millisecond has lapsed. -/
def timesOfDay : Policy × Policy :=
  ({ now := .atMillis 1700000000000 }, { now := .atMillis 1700000000001 })

/-- Decisions about one origin: one is taken back and made again, one is overwritten, one lapses and
one is about a kind without a definition. -/
def listingCalls : List Call :=
  let noon := timesOfDay.1
  let change (raw kind : String) (c : Change) : Call := ⟨noon, noon.now, [], .change raw kind c⟩
  [change "https://a.example" "geo" (.set .block .persistent),
    change "https://a.example/b" "popup" (.set .allow .session),
    change "https://a.example" "alarm" (.set .allow .persistent),
    change "https://a.example" "camera" (.setUntil .allow (.atMillis 1700000000001)),
    change "https://example" "screen" (.set .allow .persistent),
    change "https://a.example" "geo" .remove,
    change "https://A.example:443" "geo" (.set .allow .persistent),
    change "https://a.example" "popup" (.set .block .persistent)]

theorem getAll_eq_get_listing :
    let later := timesOfDay.2
    let left := runCalls listingCalls newStore
    let raw := "https://a.example"
    ((getAll later (repository later.now) raw).run left).answer =
        .ok [⟨"popup", .block, .persistent⟩, ⟨"geo", .allow, .persistent⟩] ∧
      ((get later (repository later.now) raw "geo").run left).answer =
        .ok ⟨"geo", .allow, .persistent⟩ ∧
      (∃ v, ((get later (repository later.now) raw "camera").run left).answer = .ok v ∧
        v.state = .unknown) ∧
      (changes listingCalls newStore).SetBefore ("https://a.example", "popup")
        ("https://a.example", "geo") := by
  intro later left raw
  have hleft := opens_runCalls listingCalls opens_newStore
  have hparse : Origin.parse raw = .ok ⟨"https", "a.example", 0, {}⟩ := by decide +kernel
  have hkey : (Origin.mk "https" "a.example" 0 {}).key = "https://a.example" := by decide +kernel
  have hlist : ((getAll later (repository later.now) raw).run left).answer =
      .ok [⟨"popup", .block, .persistent⟩, ⟨"geo", .allow, .persistent⟩] := by decide +kernel
  obtain ⟨vs, hvs, -, -, hgot, hexact, horder⟩ :=
    getAll_eq_get hleft (Trace.keyed_table _).keys hparse later later.now
  obtain rfl := Except.ok.inj (hlist.symm.trans hvs)
  refine ⟨hlist, hgot ⟨"geo", .allow, .persistent⟩ (by decide), ?_, ?_⟩
  · obtain ⟨v, hv, hunknown⟩ := hexact "camera" (by decide) (by decide)
    refine ⟨v, hv, ?_⟩
    by_contra hstate
    exact absurd (hunknown.mp hstate) (by decide)
  · have hpairwise := horder newStore listingCalls opens_newStore rfl
    rw [hkey] at hpairwise
    exact (List.pairwise_cons.mp hpairwise).1 "geo" (by decide)

end Decision

end Consent

import Consent.Proofs.Decision.Stored

/-! The decisions of a table that have not lapsed, and the nearest of them as the outcome of a
lookup. -/

namespace Consent

open Host Store

/-- The decision that the table holds for an origin and a kind, unless it has lapsed. -/
def Store.Table.standing? (t : Table) (now : Instant) (origin : String) (kind : Kind) :
    Option Record :=
  (t.decision? origin kind).filter fun r => !r.isExpired now

namespace Decision

/-- What the first of the candidates with a standing decision is decided to. -/
def nearest (t : Table) (now : Instant) (kind : Kind) (cs : List Origin) : Verdict :=
  ((cs.findSome? fun c => t.standing? now c.key kind).map .ofRecord).getD (.unknown kind)

section Table

variable {t t' : Table} {now : Instant} {kind : Kind} {o : Origin} {r : Record}

theorem nearest_cons_of_some {rest : List Origin} (h : t.standing? now o.key kind = some r) :
    nearest t now kind (o :: rest) = .ofRecord r := by
  simp [nearest, h]

theorem nearest_cons_of_none {rest : List Origin} (h : t.standing? now o.key kind = none) :
    nearest t now kind (o :: rest) = nearest t now kind rest := by
  simp [nearest, h]

theorem nearest_congr {cs : List Origin}
    (h : ∀ c ∈ cs, t.standing? now c.key kind = t'.standing? now c.key kind) :
    nearest t now kind cs = nearest t' now kind cs := by
  induction cs with
  | nil => rfl
  | cons c rest ih =>
    have hrest := ih fun q hq => h q (List.mem_cons_of_mem c hq)
    have hc := h c List.mem_cons_self
    cases hstanding : t.standing? now c.key kind with
    | some r => rw [nearest_cons_of_some hstanding, nearest_cons_of_some (hc ▸ hstanding)]
    | none => rw [nearest_cons_of_none hstanding, nearest_cons_of_none (hc ▸ hstanding), hrest]

/-- Candidates without a standing decision are passed over. -/
theorem nearest_append_of_none {nearer : List Origin} (farther : List Origin)
    (h : ∀ c ∈ nearer, t.standing? now c.key kind = none) :
    nearest t now kind (nearer ++ farther) = nearest t now kind farther := by
  induction nearer with
  | nil => rfl
  | cons c rest ih =>
    rw [List.cons_append, nearest_cons_of_none (h c List.mem_cons_self)]
    exact ih fun q hq => h q (List.mem_cons_of_mem c hq)

/-- No candidate behind one with a standing decision bears on the outcome. -/
theorem nearest_append_of_some {nearer : List Origin} (farther : List Origin)
    (h : ∃ c ∈ nearer, (t.standing? now c.key kind).isSome) :
    nearest t now kind (nearer ++ farther) = nearest t now kind nearer := by
  induction nearer with
  | nil =>
    obtain ⟨c, hc, -⟩ := h
    cases hc
  | cons c rest ih =>
    rw [List.cons_append]
    cases hstanding : t.standing? now c.key kind with
    | some r => rw [nearest_cons_of_some hstanding, nearest_cons_of_some hstanding]
    | none =>
      rw [nearest_cons_of_none hstanding, nearest_cons_of_none hstanding]
      obtain ⟨q, hq, hsome⟩ := h
      rcases List.mem_cons.mp hq with rfl | hq
      · simp [hstanding] at hsome
      · exact ih ⟨q, hq, hsome⟩

end Table

variable [SuffixList] {fields : List Log.Field} {s s₁ : Store} {t : Table} {p : Policy}
  {now : Instant} {kind : Kind} {o : Origin}

/-- One step: a standing decision ends a lookup, otherwise the rest decides. -/
theorem gives_lookUp_cons {rest : List Origin} (hacquire : (acquire now).Gives fields s () s₁)
    (hready : s₁.Ready t)
    (hrest : (lookUp p (repository now) kind rest).Gives fields s₁ (nearest t p.now kind rest) s₁) :
    (lookUp p (repository now) kind (o :: rest)).Gives fields s
      (nearest t p.now kind (o :: rest)) s₁ := by
  have hget : ((repository now).get o.key kind).Gives fields s (t.decision? o.key kind) s₁ :=
    gives_get hacquire hready
  unfold lookUp
  refine (hget.during (.lookUp kind o.key)).bind ?_
  cases hdecision : t.decision? o.key kind with
  | none =>
    rw [nearest_cons_of_none (by simp [Table.standing?, hdecision])]
    exact hrest
  | some r =>
    dsimp only
    cases hlapsed : r.isExpired p.now with
    | true =>
      rw [nearest_cons_of_none (by simp [Table.standing?, hdecision, hlapsed]), if_pos rfl]
      exact hrest
    | false =>
      rw [nearest_cons_of_some (r := r) (by simp [Table.standing?, hdecision, hlapsed]),
        if_neg Bool.false_ne_true]
      exact .pure _ _ _

theorem gives_lookUp (hready : s.Ready t) (cs : List Origin) :
    (lookUp p (repository now) kind cs).Gives fields s (nearest t p.now kind cs) s := by
  induction cs with
  | nil => exact .pure _ _ _
  | cons o rest ih =>
    exact gives_lookUp_cons (gives_acquire_of_opened hready.opened hready.notClosed) hready ih

/-- A lookup opens the store and answers with the nearest standing decision of its table. -/
theorem gives_get_nearest {raw : String} (hparse : Origin.parse raw = .ok o)
    (hacquire : (acquire now).Gives fields s () s₁) (hready : s₁.Ready t) :
    (get p (repository now) raw kind).Gives fields s
      (nearest t p.now kind (candidates p.kinds o kind)) s₁ := by
  unfold get
  rw [hparse]
  dsimp only
  rw [candidates_eq]
  exact gives_lookUp_cons hacquire hready (gives_lookUp hready _)

end Decision

end Consent

import Consent.Proofs.Decision.Influence
import Consent.Proofs.Decision.Listing
import Consent.Proofs.Decision.Refusal

/-! A timed decision is seen up to its last moment and never after it. From that moment on lookups
answer as if it had been removed, whether or not a purge has taken it out. -/

namespace Consent

open Host Log Store

/-- The change does not write the key, and it does not purge what has not lapsed `later`. -/
def Write.Spares (key : String × Kind) (later : Instant) (w : Write) : Prop :=
  w.affects key = false ∧ ∀ time, w = .deleteExpired time → time ≤ later

namespace Store

variable {t : Table} {origin : String} {kind : Kind} {later : Instant}

/-- A row that is purged at a time has lapsed at every later one. -/
theorem Row.isExpired_of_isLapsed {row : Row} {time : Instant} (hle : time ≤ later)
    (hlater : 0 ≤ later.millis) (h : row.isLapsed time = true) :
    row.record.isExpired later = true := by
  rw [← Row.isLapsed_eq_isExpired hlater]
  unfold Row.isLapsed at h ⊢
  rw [Bool.and_eq_true, decide_eq_true_iff, decide_eq_true_iff] at h ⊢
  exact ⟨h.1, Int.le_trans h.2 (Instant.millis_le_millis hle)⟩

/-- One step: what stands under a key is left by the changes that spare it. -/
theorem Table.standing?_onTable (ht : t.Keyed) (hlater : 0 ≤ later.millis) {w : Write}
    (hw : w.Spares (origin, kind) later) (now : Instant) :
    Table.standing? (w.onTable now t) later origin kind = t.standing? later origin kind := by
  obtain ⟨haffects, hpurge⟩ := hw
  cases w with
  | set r =>
    have hne : ¬(r.origin = origin ∧ r.kind = kind) := by
      simpa [Write.affects, Record.key] using haffects
    unfold Table.standing? Write.onTable
    rw [Table.decision?_upsert, if_neg hne]
  | delete origin' kind' =>
    have hne : ¬(origin' = origin ∧ kind' = kind) := by simpa [Write.affects] using haffects
    unfold Table.standing? Write.onTable
    rw [Table.decision?_erase_of_ne t hne]
  | deleteAll => cases haffects
  | deleteExpired time =>
    refine Table.standing?_filter ht (fun row hrow => ?_) origin kind
    exact Row.isExpired_of_isLapsed (hpurge time rfl) hlater (by simpa using hrow)
  | deleteSession => cases haffects

/-- The run: so do any number of them. -/
theorem Table.standing?_onto (ht : t.Keyed) (hlater : 0 ≤ later.millis) {ws : Trace}
    (hws : ∀ w ∈ ws, w.2.Spares (origin, kind) later) :
    (Trace.onto t ws).standing? later origin kind = t.standing? later origin kind := by
  induction ws generalizing t with
  | nil => rfl
  | cons w rest ih =>
    have hstep := Table.standing?_onTable ht hlater (hws w List.mem_cons_self) w.1
    have hrest := ih (Table.keyed_onTable ht w.1 w.2) fun w' hw' =>
      hws w' (List.mem_cons_of_mem w hw')
    exact hrest.trans hstep

end Store

namespace Decision

/-- The parents of an origin that a lookup falls back to. -/
def parents [SuffixList] (kinds : Registry) (o : Origin) (kind : Kind) : List Origin :=
  if kinds.exactHost kind then []
  else (ancestors o.host.toList).map fun host => { o with host := .ofList host }

section Table

variable {now later : Instant} {r : Record}

/-- A timed decision stands where it was stored up to its last whole millisecond, and then no
more. -/
theorem standing?_upsert_timed (t : Table) (hexpiry : r.expiry = .timed) :
    (t.upsert now r).standing? later r.origin r.kind =
      if later < r.expireAt.cut then some (readBack now r) else none := by
  rw [standing?_upsert]
  by_cases hlt : later < r.expireAt.cut
  · rw [if_neg fun h => h.2 hlt, if_pos hlt]
  · rw [if_pos ⟨hexpiry, hlt⟩, if_neg hlt]

end Table

section Lapse

variable [SuffixList] {s : Store} {t : Table} {p : Policy} {kind : Kind} {raw : String}
  {o : Origin} {state : State}

/-- What the rules admit is stored in any store that can be opened. -/
theorem gives_store (hs : s.Opens t) (hlisted : state ∈ p.kinds.states kind)
    (hstate : state ≠ .unknown) (hparse : Origin.parse raw = .ok o) (expiry : Expiry)
    (expireAt : Instant) (fields : List Field) (now : Instant) :
    ∃ s', (store p (repository now) raw kind state expiry expireAt).Gives fields s () s' ∧
      s'.Ready (t.upsert now ⟨o.key, kind, state, expiry, expireAt, p.now⟩) := by
  let r : Record := ⟨o.key, kind, state, expiry, expireAt, p.now⟩
  have hadmits : p.kinds.admits kind state = true := by simpa [Registry.admits] using hlisted
  have hrefusal : refusal? p raw kind state = none := by simp [refusal?, hadmits, hparse]
  obtain ⟨s', hserve, hready⟩ := hs.gives_serve (.emit _ _ _ fields) now
    fun t => ((), t.upsert now r)
  have hset : ((repository now).set r).Gives fields s () s' := hserve
  obtain ⟨o', hparse', hanswer, hleft⟩ := store_of_not_refused hrefusal hstate (repository now)
    expiry expireAt fields s
  cases hparse.symm.trans hparse'
  rw [hset.answer] at hanswer
  rw [hset.state] at hleft
  exact ⟨s', ⟨hanswer, hleft⟩, hready⟩

/-- Where nothing stands at an origin itself, its parents decide: with the nearest decision that
stands, and without one nothing is known. A decision that was removed there would be missed by
nobody. -/
theorem answer_get_of_not_standing (hs : s.Opens t) (hparse : Origin.parse raw = .ok o)
    (hnone : t.standing? p.now o.key kind = none) (now : Instant) :
    let got := ((get p (repository now) raw kind).run s).answer
    let removed := (remove (repository now) raw kind).run s
    got = conclusion p.now kind (replies (repository now) kind s (parents p.kinds o kind)) ∧
      removed.answer = .ok () ∧
      got = ((get p (repository now) raw kind).run removed.state).answer := by
  intro got removed
  have hcs : candidates p.kinds o kind = [] ++ o :: parents p.kinds o kind :=
    candidates_eq p.kinds o kind
  have hgot : got = .ok (nearest t p.now kind (parents p.kinds o kind)) := by
    have hanswer := answer_get_eq_nearest hs hparse p now kind
    rw [hcs, List.nil_append, nearest_cons_of_none hnone] at hanswer
    exact hanswer
  obtain ⟨s₁, hacquire, hready⟩ := hs [] now
  obtain ⟨s', hserve, hready'⟩ := hs.gives_serve (.emit _ _ _ []) now
    fun t => ((), t.erase o.key kind)
  have hremoved : (remove (repository now) raw kind).Gives [] s () s' := by
    unfold remove
    rw [hparse]
    exact hserve
  refine ⟨?_, hremoved.answer, ?_⟩
  · rw [hgot, replies_repository hacquire hready, conclusion_eq_nearest]
  · have hkeys := (key_ne_of_candidates_split hparse hparse hcs).2
    have herased : nearest (Change.remove.apply p now o kind t) p.now kind
        ([] ++ o :: parents p.kinds o kind) = nearest t p.now kind (parents p.kinds o kind) :=
      Change.remove.nearest_apply nofun hkeys nofun
    have hstate : removed.state = s' := hremoved.state
    rw [hgot, hstate, answer_get_eq_nearest hready'.opens hparse, hcs]
    exact congrArg Except.ok herased.symm

/-- A decision that is made until a millisecond to come is stored, and from then on any reads, any
changes of other decisions and any purges may follow. A lookup before the time answers with the
decision; one at the time or after it answers as if the decision had been removed, with what stands
nearest above the origin. A time that is not to come is refused, and nothing changes. -/
theorem get_until_lapse (hs : s.Opens t) (ht : t.Keyed) (hnow : 0 ≤ p.now.millis)
    (hlisted : state ∈ p.kinds.states kind) (hstate : state ≠ .unknown)
    (hparse : Origin.parse raw = .ok o) (ends : Int) (now : Instant) :
    let expireAt := Instant.atMillis ends
    let made := (setUntil p (repository now) raw kind state expireAt).run s
    (p.now < expireAt → made.answer = .ok () ∧
      ∀ (calls : List Call) (later : Instant), p.now ≤ later →
        (∀ w ∈ changes calls made.state, w.2.Spares (o.key, kind) later) →
        ∀ raw' now', Origin.parse raw' = .ok o →
          let left := runCalls calls made.state
          let lookUp := get { p with now := later } (repository now') raw' kind
          let removed := (remove (repository now') raw' kind).run left
          (later < expireAt → (lookUp.run left).answer = .ok ⟨kind, state, .persistent⟩) ∧
          (expireAt ≤ later → removed.answer = .ok () ∧
            (lookUp.run left).answer = (lookUp.run removed.state).answer ∧
            (lookUp.run left).answer = conclusion later kind
              (replies (repository now') kind left (parents p.kinds o kind)))) ∧
    (expireAt ≤ p.now → made.answer = .error (.notFuture expireAt) ∧ made.state = s) := by
  intro expireAt made
  constructor
  · intro hfuture
    let r : Record := ⟨o.key, kind, state, .timed, expireAt, p.now⟩
    have hcut : r.expireAt.cut = expireAt :=
      Instant.cut_atMillis (Int.lt_of_le_of_lt hnow (Instant.lt_atMillis_iff.mp hfuture))
    obtain ⟨s', hstore, hready⟩ := gives_store hs hlisted hstate hparse .timed expireAt []
      now
    have hmade : (setUntil p (repository now) raw kind state expireAt).Gives [] s () s' := by
      unfold setUntil
      rw [if_pos hfuture]
      exact hstore
    refine ⟨hmade.answer, fun calls later hle hspared raw' now' hparse' => ?_⟩
    have hlater : 0 ≤ later.millis := Int.le_trans hnow (Instant.millis_le_millis hle)
    have hstate' : made.state = s' := hmade.state
    rw [hstate'] at hspared ⊢
    intro left lookUp removed
    -- Of the table that the calls leave, only what stands under the key matters.
    have hleft : left.Opens _ := opens_runCalls calls hready.opens
    have hstands := (Table.standing?_onto (ht.upsert now r) hlater hspared).trans
      (standing?_upsert_timed t (r := r) rfl)
    rw [hcut] at hstands
    constructor
    · intro hlt
      have hverdict : Verdict.ofRecord (readBack now r) = ⟨kind, state, .persistent⟩ := rfl
      rw [if_pos hlt] at hstands
      rw [← hverdict, ← nearest_cons_of_some hstands]
      exact (answer_get_eq_nearest hleft hparse' _ now' kind).trans
        (congrArg _ (congrArg _ (candidates_eq p.kinds o kind)))
    · intro hge
      rw [if_neg (Instant.not_lt_iff.mpr hge)] at hstands
      obtain ⟨hparents, hremoved, hsame⟩ := answer_get_of_not_standing
        (p := { p with now := later }) hleft hparse' hstands now'
      exact ⟨hremoved, hsame, hparents⟩
  · intro hpast
    have hrefused : (Change.setUntil state expireAt).refusal? p raw kind =
        some (.notFuture expireAt) := if_neg (Instant.not_lt_iff.mpr hpast)
    exact Change.make_of_refusal hrefused

end Lapse

/-- Below a blocked domain a host is allowed for two milliseconds. The block is seen again when they
are over, before any purge and after it. -/
theorem get_until_lapse_below_block :
    let noon : Policy := { now := .atMillis 1700000000000 }
    let late : Policy := { now := .atMillis 1700000000001 }
    let lapsed : Policy := { now := .atMillis 1700000000002 }
    let blocked := runCalls
      [⟨noon, noon.now, [], .change "https://example.com" "popup" (.set .block .persistent)⟩] newStore
    let made := (setUntil noon (repository noon.now) "https://a.example.com" "popup" .allow
      lapsed.now).run blocked
    let purge (q : Policy) : Call := ⟨q, q.now, [], .purgeExpired q.now⟩
    let seen (q : Policy) (calls : List Call) := ((get q (repository q.now)
      "https://a.example.com:443/x" "popup").run (runCalls calls made.state)).answer
    seen late [purge late] = .ok ⟨"popup", .allow, .persistent⟩ ∧
      seen lapsed [] = .ok ⟨"popup", .block, .persistent⟩ ∧
      seen lapsed [purge late, purge lapsed] = .ok ⟨"popup", .block, .persistent⟩ := by
  intro noon late lapsed blocked made purge seen
  have hparse : Origin.parse "https://a.example.com" = .ok ⟨"https", "a.example.com", 0, {}⟩ := by
    decide +kernel
  have hparse' : Origin.parse "https://a.example.com:443/x" =
      .ok ⟨"https", "a.example.com", 0, {}⟩ := by decide +kernel
  have hlisted : State.allow ∈ noon.kinds.states "popup" := by decide
  have hnow : 0 ≤ noon.now.millis := by decide
  have hblocked : blocked.Opens _ := opens_runCalls _ opens_newStore
  obtain ⟨-, hseen⟩ := (get_until_lapse hblocked (Trace.keyed_table _) hnow hlisted nofun hparse
    1700000000002 noon.now).1 (by decide)
  have hspares : ∀ {time later : Instant}, time ≤ later →
      Write.Spares ("https://a.example.com", "popup") later (.deleteExpired time) := by
    intro time later hle
    refine ⟨rfl, fun time' heq => ?_⟩
    cases heq
    exact hle
  have hone : changes [purge late] made.state = [(late.now, .deleteExpired late.now)] := by
    decide +kernel
  have htwo : changes [purge late, purge lapsed] made.state =
      [(late.now, .deleteExpired late.now), (lapsed.now, .deleteExpired lapsed.now)] := by
    decide +kernel
  refine ⟨?_, ?_, ?_⟩
  · refine (hseen [purge late] late.now (by decide) ?_ _ late.now hparse').1 (by decide)
    rw [hone]
    rintro w (_ | ⟨_, ⟨⟩⟩)
    exact hspares (by decide)
  · obtain ⟨-, -, hparents⟩ := (hseen [] lapsed.now (by decide) nofun _ lapsed.now hparse').2
      (by decide)
    exact hparents.trans (by decide +kernel)
  · have hspared : ∀ w ∈ changes [purge late, purge lapsed] made.state,
        w.2.Spares ("https://a.example.com", "popup") lapsed.now := by
      rw [htwo]
      rintro w (_ | ⟨_, _ | ⟨_, ⟨⟩⟩⟩)
      · exact hspares (by decide)
      · exact hspares (by decide)
    obtain ⟨-, -, hparents⟩ := (hseen [purge late, purge lapsed] lapsed.now (by decide) hspared _
      lapsed.now hparse').2 (by decide)
    exact hparents.trans (by decide +kernel)

end Decision

end Consent

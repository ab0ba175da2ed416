import Consent.Log.Rotation
import Consent.Proofs.Time.Calendar

/-! The names of files that are put aside: each millisecond that local clocks show has its own. -/

namespace Consent.Log

open Text Instant

/-- What comes before a divider is known where its length is. -/
theorem padded_append_inj {a b : Int} {width : Nat} {s u : List Char} (hwidth : 0 < width)
    (ha : 0 ≤ a ∧ a < 10 ^ width) (hb : 0 ≤ b ∧ b < 10 ^ width)
    (h : padded width a ++ s = padded width b ++ u) : a = b ∧ s = u := by
  have hlength : (padded width a).length = (padded width b).length := by
    rw [length_padded ha.1 ha.2 hwidth, length_padded hb.1 hb.2 hwidth]
  obtain ⟨hpadded, hrest⟩ := List.append_inj h hlength
  exact ⟨padded_injective width hpadded, hrest⟩

/-- The part of a stamp behind the year: of the month, the day, the seconds of the day and the
milliseconds of the second. -/
def stampTail (month day second millis : Int) : List Char :=
  '-' :: (padded 2 month ++ '-' :: (padded 2 day ++ '-' :: (padded 2 (second / 3600) ++
    '-' :: (padded 2 (second / 60 % 60) ++ '-' :: (padded 2 (second % 60) ++
      '.' :: padded 3 millis)))))

/-- The millisecond that local clocks show. -/
def shown (zone : Zone) (t : Instant) : Int := (t.inZone zone).millis

/-- Where clocks are equally far ahead they show the same millisecond only in the same one. -/
theorem shown_eq_iff {zone : Zone} {t u : Instant} (h : zone t = zone u) :
    shown zone t = shown zone u ↔ t.millis = u.millis := by
  have hshown : ∀ t : Instant, shown zone t = t.millis + zone t * 1000 := by
    intro t
    change (t.nanos + zone t * 1000000000) / 1000000 = t.nanos / 1000000 + zone t * 1000
    omega
  rw [hshown, hshown, h]
  omega

theorem toList_stamp (zone : Zone) (t : Instant) : (stamp zone t).toList =
    padded 4 (civil (shown zone t / 1000 / 86400)).1 ++
      stampTail (civil (shown zone t / 1000 / 86400)).2.1 (civil (shown zone t / 1000 / 86400)).2.2
        (shown zone t / 1000 % 86400) (shown zone t % 1000) := by
  simp [stamp, stampTail, shown, joinWith]

section Tail

variable {m m' d d' s s' k k' : Int} (hm : 1 ≤ m ∧ m ≤ 12) (hd : 1 ≤ d ∧ d ≤ 31)
  (hs : 0 ≤ s ∧ s < 86400)

include hm hd hs

theorem length_stampTail (hk : 0 ≤ k ∧ k < 1000) : (stampTail m d s k).length = 19 := by
  have htwo : ∀ {n : Int}, 0 ≤ n → n < 100 → (padded 2 n).length = 2 := fun hlow hhigh =>
    length_padded hlow hhigh (by decide)
  have hmonth := htwo (n := m) (by omega) (by omega)
  have hday := htwo (n := d) (by omega) (by omega)
  have hhour := htwo (n := s / 3600) (by omega) (by omega)
  have hminute := htwo (n := s / 60 % 60) (by omega) (by omega)
  have hsecond := htwo (n := s % 60) (by omega) (by omega)
  have hmillis : (padded 3 k).length = 3 := length_padded hk.1 hk.2 (by decide)
  simp only [stampTail, List.length_cons, List.length_append, hmonth, hday, hhour, hminute, hsecond,
    hmillis]

theorem stampTail_inj (hm' : 1 ≤ m' ∧ m' ≤ 12) (hd' : 1 ≤ d' ∧ d' ≤ 31) (hs' : 0 ≤ s' ∧ s' < 86400)
    (h : stampTail m d s k = stampTail m' d' s' k') : m = m' ∧ d = d' ∧ s = s' ∧ k = k' := by
  have htwo : ∀ {a b : Int} {u v : List Char}, 0 ≤ a ∧ a < 100 → 0 ≤ b ∧ b < 100 →
      padded 2 a ++ u = padded 2 b ++ v → a = b ∧ u = v :=
    fun ha hb h => padded_append_inj Nat.two_pos ha hb h
  obtain ⟨hmonth, h⟩ := htwo (by omega) (by omega) (List.cons.inj h).2
  obtain ⟨hday, h⟩ := htwo (by omega) (by omega) (List.cons.inj h).2
  obtain ⟨hhour, h⟩ := htwo (by omega) (by omega) (List.cons.inj h).2
  obtain ⟨hminute, h⟩ := htwo (by omega) (by omega) (List.cons.inj h).2
  obtain ⟨hsecond, h⟩ := htwo (by omega) (by omega) (List.cons.inj h).2
  have hmillis := padded_injective 3 (List.cons.inj h).2
  omega

end Tail

/-- Two instants have the same stamp exactly if local clocks show the same millisecond. -/
theorem stamp_eq_iff {zone : Zone} {t u : Instant} :
    stamp zone t = stamp zone u ↔ shown zone t = shown zone u := by
  constructor
  · intro h
    have hlist := congrArg String.toList h
    rw [toList_stamp, toList_stamp] at hlist
    generalize shown zone t = a at hlist ⊢
    generalize shown zone u = b at hlist ⊢
    obtain ⟨-, hmonth, hday⟩ := dayOf_civil (a / 1000 / 86400)
    obtain ⟨-, hmonth', hday'⟩ := dayOf_civil (b / 1000 / 86400)
    have hsecond : ∀ n : Int, 0 ≤ n / 1000 % 86400 ∧ n / 1000 % 86400 < 86400 := fun n => by omega
    have hmillis : ∀ n : Int, 0 ≤ n % 1000 ∧ n % 1000 < 1000 := fun n => by omega
    -- Only the year can have any number of digits.
    obtain ⟨hyear, htail⟩ := List.append_inj' hlist
      ((length_stampTail hmonth hday (hsecond a) (hmillis a)).trans
        (length_stampTail hmonth' hday' (hsecond b) (hmillis b)).symm)
    obtain ⟨hsameMonth, hsameDay, hsameSecond, hsameMillis⟩ :=
      stampTail_inj hmonth hday (hsecond a) hmonth' hday' (hsecond b) htail
    have hdays := civil_injective
      (Prod.ext (padded_injective 4 hyear) (Prod.ext hsameMonth hsameDay))
    omega
  · intro h
    refine String.toList_inj.mp ?_
    rw [toList_stamp, toList_stamp, h]

theorem not_mem_stamp {c : Char} (hdigit : isDigit c = false) (hminus : c ≠ '-') (hdot : c ≠ '.')
    (zone : Zone) (t : Instant) : c ∉ (stamp zone t).toList := by
  have hpadded : ∀ width n, c ∉ padded width n := by
    intro width n hmem
    unfold padded at hmem
    rcases List.mem_append.mp hmem with hmem | hmem
    · split at hmem
      · exact hminus (List.mem_singleton.mp hmem)
      · cases hmem
    · exact absurd (isDigit_of_mem_paddedDigits hmem) (by simp [hdigit])
  rw [toList_stamp]
  simp [stampTail, hpadded, hminus, hdot]

end Consent.Log

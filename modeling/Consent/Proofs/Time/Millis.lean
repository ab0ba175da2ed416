import Consent.Time.Instant

/-! Instants and the whole milliseconds that are kept of them. -/

namespace Consent.Instant

variable {t u : Instant} {n : Int}

@[simp] theorem millis_atMillis (n : Int) : (atMillis n).millis = n :=
  Int.mul_ediv_cancel n (by decide)

theorem atMillis_le_iff : atMillis n ≤ t ↔ n ≤ t.millis := by
  change n * 1000000 ≤ t.nanos ↔ n ≤ t.nanos / 1000000
  omega

theorem lt_atMillis_iff : t < atMillis n ↔ t.millis < n := by
  change t.nanos < n * 1000000 ↔ t.nanos / 1000000 < n
  omega

theorem not_lt_iff : ¬t < u ↔ u ≤ t := Int.not_lt

theorem millis_le_millis (h : t ≤ u) : t.millis ≤ u.millis :=
  Int.ediv_le_ediv (by decide) h

theorem millis_nonneg_iff : 0 ≤ t.millis ↔ 0 ≤ t.nanos := by
  unfold millis
  omega

theorem atMillis_ne_unset (h : 0 < n) : atMillis n ≠ unset := by
  intro heq
  have hnanos : n * 1000000 = -62135596800000000000 := congrArg nanos heq
  omega

/-- What is kept of an instant: the whole milliseconds, from the first one after the start of 1970
on, and before that nothing. -/
def cut (t : Instant) : Instant := if 0 < t.millis then atMillis t.millis else unset

@[simp] theorem cut_unset : unset.cut = unset := rfl

theorem cut_of_pos (h : 0 < t.millis) : t.cut = atMillis t.millis := if_pos h

theorem cut_of_nonpos (h : t.millis ≤ 0) : t.cut = unset := if_neg (Int.not_lt.mpr h)

theorem cut_atMillis (h : 0 < n) : (atMillis n).cut = atMillis n := by
  rw [cut_of_pos (by simpa using h), millis_atMillis]

end Consent.Instant

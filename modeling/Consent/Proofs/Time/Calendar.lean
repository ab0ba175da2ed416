import Mathlib.Algebra.Group.Int.Defs
import Consent.Proofs.Text.Numeral
import Consent.Time.Instant

/-! Calendar dates: a day is known by its date, and a number by its digits. -/

namespace Consent

open Text

namespace Instant

/-- The year within 400 years, and the day of that year counted from March. -/
theorem yearOfEra_bounds {doe : Int} (hlow : 0 ≤ doe) (hhigh : doe < 146097) :
    let yoe := (doe - doe / 1460 + doe / 36524 - doe / 146096) / 365
    let doy := doe - (365 * yoe + yoe / 4 - yoe / 100)
    (0 ≤ yoe ∧ yoe < 400) ∧ 0 ≤ doy ∧ doy ≤ 365 := by
  intro yoe doy
  have hyoe : 0 ≤ yoe ∧ yoe < 400 := by omega
  have hyear : yoe / 100 = 0 ∨ yoe / 100 = 1 ∨ yoe / 100 = 2 ∨ yoe / 100 = 3 := by omega
  have hday : doe / 36524 = 0 ∨ doe / 36524 = 1 ∨ doe / 36524 = 2 ∨ doe / 36524 = 3 ∨
      doe / 36524 = 4 := by omega
  have hlast : doe / 146096 = 0 ∨ doe / 146096 = 1 := by omega
  refine ⟨hyoe, ?_⟩
  -- With the centuries fixed only the years between them are left to divide.
  rcases hyear with hyear | hyear | hyear | hyear <;>
    rcases hday with hday | hday | hday | hday | hday <;>
      rcases hlast with hlast | hlast <;> omega

/-- The day with a date, counted from the start of 1970. -/
def dayOf (date : Int × Int × Int) : Int :=
  let (y, m, d) := date
  let year := if m ≤ 2 then y - 1 else y
  let yoe := year % 400
  let mp := if m ≤ 2 then m + 9 else m - 3
  let doy := (153 * mp + 2) / 5 + d - 1
  year / 400 * 146097 + (365 * yoe + yoe / 4 - yoe / 100 + doy) - 719468

/-- The date of a day names that day, with a month from 1 to 12 and a day from 1 to 31. -/
theorem dayOf_civil (day : Int) :
    dayOf (civil day) = day ∧ (1 ≤ (civil day).2.1 ∧ (civil day).2.1 ≤ 12) ∧
      1 ≤ (civil day).2.2 ∧ (civil day).2.2 ≤ 31 := by
  generalize hera : (day + 719468) / 146097 = era
  have hdoe : 0 ≤ day + 719468 - era * 146097 ∧ day + 719468 - era * 146097 < 146097 := by omega
  obtain ⟨hyoe, hdoy⟩ := yearOfEra_bounds hdoe.1 hdoe.2
  unfold civil dayOf
  simp only [hera] at hyoe hdoy ⊢
  generalize hdays : day + 719468 - era * 146097 = doe at *
  generalize (doe - doe / 1460 + doe / 36524 - doe / 146096) / 365 = yoe at *
  generalize hday : doe - (365 * yoe + yoe / 4 - yoe / 100) = doy at *
  have hmp : 0 ≤ (5 * doy + 2) / 153 ∧ (5 * doy + 2) / 153 ≤ 11 := by omega
  generalize hmonth : (5 * doy + 2) / 153 = mp at *
  have hyear : (yoe + era * 400) / 400 = era ∧ (yoe + era * 400) % 400 = yoe := by omega
  split <;> split <;>
    simp only [Int.add_zero, Int.add_sub_cancel, Int.sub_add_cancel, hyear.1, hyear.2] <;> omega

theorem civil_injective : Function.Injective civil :=
  Function.LeftInverse.injective (g := dayOf) fun day => (dayOf_civil day).1

theorem length_padded {n : Int} {width : Nat} (hlow : 0 ≤ n) (hhigh : n < 10 ^ width)
    (hwidth : 0 < width) : (padded width n).length = width := by
  have hsize : n.natAbs < 10 ^ width := by
    have hcast : ((n.natAbs : Nat) : Int) = n := Int.natAbs_of_nonneg hlow
    exact_mod_cast hcast.symm ▸ hhigh
  rw [padded, if_neg (Int.not_lt.mpr hlow), List.nil_append, length_paddedDigits hsize hwidth]

theorem padded_injective (width : Nat) : Function.Injective (padded width) := by
  have hminus : ∀ m n : Nat, paddedDigits width m ≠ '-' :: paddedDigits width n := by
    intro m n h
    have hdigit := isDigit_of_mem_paddedDigits (h ▸ List.mem_cons_self : '-' ∈ paddedDigits width m)
    exact absurd hdigit (by decide)
  have habs : ∀ {m n : Nat}, paddedDigits width m = paddedDigits width n → m = n := by
    intro m n h
    rw [← valueOf_paddedDigits width m, h, valueOf_paddedDigits]
  intro a b h
  unfold padded at h
  split at h <;> split at h
  · have := habs (List.cons.inj h).2
    omega
  · exact absurd h.symm (hminus _ _)
  · exact absurd h (hminus _ _)
  · have := habs h
    omega

end Instant

end Consent

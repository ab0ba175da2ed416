import Mathlib.Algebra.Group.Nat.Defs
import Consent.Text.Numeral

/-! Decimal numerals: their characters, and reading them back. -/

namespace Consent.Text

theorem isDigit_digitChar {d : Nat} (h : d < 10) : isDigit (digitChar d) = true := by
  have : ∀ k : Fin 10, isDigit (digitChar k) = true := by decide
  exact this ⟨d, h⟩

theorem isDigit_of_mem_digits {n : Nat} {c : Char} (h : c ∈ digits n) : isDigit c = true := by
  induction n using Nat.strongRecOn with
  | ind n ih =>
    unfold digits at h
    split at h
    · rename_i hn
      rw [List.mem_singleton.mp h]
      exact isDigit_digitChar hn
    · rcases List.mem_append.mp h with h | h
      · exact ih (n / 10) (by omega) h
      · rw [List.mem_singleton.mp h]
        exact isDigit_digitChar (by omega)

theorem not_mem_digits {c : Char} (hc : isDigit c = false) (n : Nat) : c ∉ digits n := by
  intro h
  rw [isDigit_of_mem_digits h] at hc
  cases hc

theorem digits_ne_nil (n : Nat) : digits n ≠ [] := by
  unfold digits
  split <;> simp

theorem digits_injective {m n : Nat} (h : digits m = digits n) : m = n := by
  rw [← valueOf_digits m, ← valueOf_digits n, h]

/-- No character but a digit or the minus sign stands in a numeral. -/
theorem mem_decimal {n : Int} {c : Char} (h : c ∈ (decimal n).toList) :
    isDigit c = true ∨ c = '-' := by
  cases n with
  | ofNat n => exact Or.inl (isDigit_of_mem_digits (by simpa [decimal] using h))
  | negSucc n =>
    simp only [decimal, String.toList_ofList, List.mem_cons] at h
    exact h.symm.imp isDigit_of_mem_digits id

theorem decimal_injective {m n : Int} (h : decimal m = decimal n) : m = n := by
  have hminus : ∀ k l : Nat, digits k ≠ '-' :: digits l := by
    intro k l hk
    have := isDigit_of_mem_digits (n := k) (c := '-') (by rw [hk]; exact List.mem_cons_self)
    exact absurd this (by decide)
  cases m with
  | ofNat m =>
    cases n with
    | ofNat n => rw [digits_injective (String.ofList_injective h)]
    | negSucc n => exact absurd (String.ofList_injective h) (hminus m (n + 1))
  | negSucc m =>
    cases n with
    | ofNat n => exact absurd (String.ofList_injective h).symm (hminus n (m + 1))
    | negSucc n =>
      have := digits_injective (List.cons.inj (String.ofList_injective h)).2
      rw [Nat.succ.inj this]

/-- Leading zeros add nothing to what digits spell. -/
theorem valueOf_replicate_append (zeros : Nat) (s : List Char) :
    valueOf (List.replicate zeros '0' ++ s) = valueOf s := by
  induction zeros with
  | zero => rfl
  | succ k ih => exact ih

theorem length_digits_le {n width : Nat} (hn : n < 10 ^ width) (hwidth : 0 < width) :
    (digits n).length ≤ width := by
  induction width generalizing n with
  | zero => exact absurd hwidth (Nat.lt_irrefl 0)
  | succ width ih =>
    unfold digits
    split
    · simp
    · have hpos : 0 < width := by
        refine Nat.pos_of_ne_zero fun hzero => ?_
        subst hzero
        omega
      have hrest := ih (n := n / 10) (by rw [Nat.pow_succ] at hn; omega) hpos
      simp only [List.length_append, List.length_singleton]
      omega

theorem length_paddedDigits {n width : Nat} (hn : n < 10 ^ width) (hwidth : 0 < width) :
    (paddedDigits width n).length = width := by
  have hlength := length_digits_le hn hwidth
  simp only [paddedDigits, List.length_append, List.length_replicate]
  omega

theorem valueOf_paddedDigits (width n : Nat) : valueOf (paddedDigits width n) = n :=
  (valueOf_replicate_append _ _).trans (valueOf_digits n)

theorem isDigit_of_mem_paddedDigits {width n : Nat} {c : Char} (h : c ∈ paddedDigits width n) :
    isDigit c = true := by
  rcases List.mem_append.mp h with h | h
  · rw [List.eq_of_mem_replicate h]
    rfl
  · exact isDigit_of_mem_digits h

private theorem le_foldl_digits (s : List Char) (v : Nat) :
    v ≤ s.foldl (fun n c => 10 * n + digitValue c) v := by
  induction s generalizing v with
  | nil => exact Nat.le_refl v
  | cons c r ih => exact Nat.le_trans (by omega) (ih (10 * v + digitValue c))

/-- Digits that spell a number below the bound are read as that number. -/
theorem readDigits_of_lt {bound v : Nat} {s : List Char} (hs : ∀ c ∈ s, isDigit c = true)
    (h : s.foldl (fun n c => 10 * n + digitValue c) v < bound) :
    readDigits 10 bound false v s = .ok (s.foldl (fun n c => 10 * n + digitValue c) v) := by
  induction s generalizing v with
  | nil => rfl
  | cons c r ih =>
    have hc := hs c List.mem_cons_self
    have hvalue : hexValue c = digitValue c := by simp [hexValue, hc, digitValue]
    have hlt : digitValue c < 10 := by
      simp only [isDigit, Bool.and_eq_true, decide_eq_true_eq] at hc
      have hle : c.toNat ≤ 57 := hc.2
      simp only [digitValue]
      omega
    have hbase : isDigitOf 10 c = true := by simp [isDigitOf, isHexDigit, hc, hvalue, hlt]
    have hnext : 10 * v + digitValue c < bound :=
      Nat.lt_of_le_of_lt (le_foldl_digits r _) h
    simp only [readDigits, Bool.false_and, Bool.false_eq_true, if_false, hbase, if_true, hvalue,
      hnext, List.foldl_cons]
    exact ih (fun d hd => hs d (List.mem_cons_of_mem c hd)) h

theorem readDigits_digits {bound n : Nat} (h : n < bound) :
    readDigits 10 bound false 0 (digits n) = .ok n := by
  have hvalue := valueOf_digits n
  unfold valueOf at hvalue
  rw [readDigits_of_lt (fun c hc => isDigit_of_mem_digits hc) (by rwa [hvalue]), hvalue]

end Consent.Text

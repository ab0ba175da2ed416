import Consent.Proofs.Text.Numeral
import Consent.Proofs.Text.Split
import Consent.Toml.Reader
import Consent.Toml.Writer

/-! What is written as a value at the end of a line is read back as that value. -/

namespace Consent.Toml

open Text

theorem scalar?_capitalHexDigits : ∀ n < 128,
    scalar? ['0', '0', capitalHexDigit (n / 16), capitalHexDigit (n % 16)] =
      some (Char.ofNat n) := by decide

theorem toNat_lt_of_isForbidden {c : Char} (h : isForbidden c = true) : c.toNat < 128 := by
  simp only [isForbidden, Bool.or_eq_true, Bool.and_eq_true, decide_eq_true_eq] at h
  omega

theorem readBasic_plain {c : Char} (hforbidden : isForbidden c = false) (hquote : c ≠ '"')
    (hescape : c ≠ '\\') (rest : List Char) :
    readBasic (c :: rest) = (readBasic rest).map fun read => (c :: read.1, read.2) := by
  rw [readBasic]
  all_goals simp_all

/-- An escape is read back as the character that it stands for. -/
theorem readBasic_writeBasicChar (c : Char) (rest : List Char) :
    readBasic (writeBasicChar c ++ rest) =
      (readBasic rest).map fun read => (c :: read.1, read.2) := by
  have hletter : ∀ e x, escape? e = some x → e ≠ 'u' → e ≠ 'U' →
      readBasic ('\\' :: e :: rest) = (readBasic rest).map fun read => (x :: read.1, read.2) := by
    intro e x hx hu hU
    rw [readBasic]
    · cases readBasic rest <;> simp [hx]
    all_goals simp_all
  have hsame : ∀ n, c.toNat = n → Char.ofNat n = c := by
    rintro n rfl
    exact Char.ofNat_toNat c
  unfold writeBasicChar
  split
  case h_8 n hb ht hn hf hr hq hs =>
    split
    · rename_i hforbidden
      have hscalar := scalar?_capitalHexDigits c.toNat (toNat_lt_of_isForbidden hforbidden)
      rw [Char.ofNat_toNat] at hscalar
      simp only [List.cons_append, List.nil_append]
      rw [readBasic, hscalar]
      cases readBasic rest <;> rfl
    · rename_i hforbidden
      refine readBasic_plain (Bool.eq_false_iff.mpr hforbidden) ?_ ?_ rest
      · rintro rfl
        exact hq rfl
      · rintro rfl
        exact hs rfl
  all_goals
    rename_i heq
    rw [← hsame _ heq]
    exact hletter _ _ rfl (by decide) (by decide)

theorem readBasic_flatMap (s rest : List Char) :
    readBasic (s.flatMap writeBasicChar ++ '"' :: rest) = some (s, rest) := by
  induction s with
  | nil => rw [List.flatMap_nil, List.nil_append, readBasic]
  | cons c r ih =>
    rw [List.flatMap_cons, List.append_assoc, readBasic_writeBasicChar, ih]
    rfl

theorem readLiteral_append {s : List Char} (h : ∀ c ∈ s, c ≠ '\'' ∧ isForbidden c = false)
    (rest : List Char) : readLiteral (s ++ '\'' :: rest) = some (s, rest) := by
  induction s with
  | nil => rw [List.nil_append, readLiteral]
  | cons c r ih =>
    obtain ⟨hquote, hforbidden⟩ := h c List.mem_cons_self
    have hr := ih fun d hd => h d (List.mem_cons_of_mem c hd)
    rw [List.cons_append, readLiteral]
    · simp [hforbidden, hr]
    · simpa using hquote

theorem exists_writeBasicChar (c : Char) : ∃ q more, writeBasicChar c = q :: more ∧ q ≠ '"' := by
  unfold writeBasicChar
  split
  case h_8 n hb ht hn hf hr hq hs =>
    split
    · exact ⟨_, _, rfl, by decide⟩
    · refine ⟨c, [], rfl, ?_⟩
      rintro rfl
      exact hq rfl
  all_goals exact ⟨_, _, rfl, by decide⟩

/-- A text is read back from between its quotes. -/
theorem readValue_writeText (s rest : List Char) (fuel : Nat) :
    readValue (fuel + 1) (writeText s ++ '\n' :: rest) =
      some (.text (.ofList s), '\n' :: rest) := by
  unfold writeText
  split
  · have hread := readBasic_flatMap s ('\n' :: rest)
    cases s with
    | nil => contradiction
    | cons c r =>
      -- What follows the quote is no quote, so that this is no text on several lines.
      obtain ⟨q, more, hfirst, hq⟩ := exists_writeBasicChar c
      rw [List.flatMap_cons, hfirst] at hread ⊢
      simp only [List.cons_append, List.append_assoc, List.nil_append] at hread ⊢
      rw [readValue, hread]
      · rfl
      all_goals simp_all
  · rename_i hplain
    have hchars : ∀ c ∈ s, c ≠ '\'' ∧ isForbidden c = false := by
      simpa using hplain
    have hread := readLiteral_append hchars ('\n' :: rest)
    simp only [List.cons_append, List.append_assoc, List.nil_append]
    rw [readValue, hread]
    · rfl
    all_goals cases s <;> simp_all

theorem mem_writeBasicChar {c d : Char} (hd : d ∈ writeBasicChar c) : isForbidden d = false := by
  have hdigit : ∀ k < 16, isForbidden (capitalHexDigit k) = false := by decide
  unfold writeBasicChar at hd
  split at hd
  case h_8 =>
    split at hd
    · rename_i hforbidden
      have hlt := toNat_lt_of_isForbidden hforbidden
      simp only [List.mem_cons, List.not_mem_nil, or_false] at hd
      rcases hd with rfl | rfl | rfl | rfl | rfl | rfl
      case inr.inr.inr.inr.inl => exact hdigit _ (by omega)
      case inr.inr.inr.inr.inr => exact hdigit _ (by omega)
      all_goals decide
    · rename_i hplain
      rw [List.mem_singleton.mp hd]
      exact Bool.eq_false_iff.mpr hplain
  all_goals
    simp only [List.mem_cons, List.not_mem_nil, or_false] at hd
    rcases hd with rfl | rfl <;> decide

/-- Whatever text is written, it stays on its line. -/
theorem mem_writeText {s : List Char} {d : Char} (hd : d ∈ writeText s) :
    isForbidden d = false := by
  unfold writeText at hd
  split at hd
  · simp only [List.cons_append, List.mem_cons, List.mem_append, List.mem_flatMap,
      List.not_mem_nil, or_false] at hd
    rcases hd with rfl | ⟨c, -, hc⟩ | rfl
    · decide
    · exact mem_writeBasicChar hc
    · decide
  · rename_i hplain
    simp only [List.cons_append, List.mem_cons, List.mem_append, List.not_mem_nil, or_false] at hd
    rcases hd with rfl | hd | rfl
    · decide
    · have hchars : ∀ c ∈ s, c ≠ '\'' ∧ isForbidden c = false := by simpa using hplain
      exact (hchars d hd).2
    · decide

/-- What is written without quotes is read up to the end of the line. -/
theorem readValue_scalar {c : Char} {r : List Char} (hkeep : ∀ d ∈ c :: r, (!endsScalar d) = true)
    (hstart : c ∉ ['"', '\'', '[', '\x7b']) (rest : List Char) (fuel : Nat) :
    readValue (fuel + 1) (c :: r ++ '\n' :: rest) =
      (readScalar? (c :: r)).map fun n => (n, '\n' :: rest) := by
  have hfirst : (c :: r ++ '\n' :: rest).takeWhile (!endsScalar ·) = c :: r := by
    rw [List.takeWhile_append_of_pos hkeep, List.takeWhile_cons_of_neg (by decide), List.append_nil]
  have hafter : (c :: r ++ '\n' :: rest).dropWhile (!endsScalar ·) = '\n' :: rest := by
    rw [List.dropWhile_append_of_pos hkeep, List.dropWhile_cons_of_neg (by decide)]
  have hscalar : scalarText (c :: r ++ '\n' :: rest) = c :: r := by
    rw [scalarText, hfirst, hafter]
    simp
  simp only [List.mem_cons, List.not_mem_nil, or_false, not_or] at hstart
  rw [List.cons_append] at hscalar ⊢
  rw [readValue, hscalar]
  · simp
  all_goals simp_all

theorem readValue_writeBoolean (b : Bool) (rest : List Char) (fuel : Nat) :
    readValue (fuel + 1) (writeBoolean b ++ '\n' :: rest) = some (.boolean b, '\n' :: rest) := by
  cases b with
  | false => exact readValue_scalar (List.all_eq_true.mp (by decide)) (by decide) rest fuel
  | true => exact readValue_scalar (List.all_eq_true.mp (by decide)) (by decide) rest fuel

section Digits

variable {s : List Char}

theorem stripUnderscores?_eq_some (hs : ∀ c ∈ s, isDigit c = true) :
    stripUnderscores? isDigit s = some s := by
  induction s with
  | nil => rfl
  | cons c r ih =>
    have hc := hs c List.mem_cons_self
    have hr := ih fun d hd => hs d (List.mem_cons_of_mem c hd)
    cases r with
    | nil => simp [stripUnderscores?, hc]
    | cons d more =>
      have hd : d ≠ '_' := by
        rintro rfl
        exact absurd (hs '_' (by simp)) (by decide)
      rw [stripUnderscores?]
      · simp [hc, hr]
      all_goals simp_all

/-- Only zero is written with a zero in front. -/
theorem head?_digits {n : Nat} (hn : n ≠ 0) : (digits n).head? ≠ some '0' := by
  induction n using Nat.strongRecOn with
  | ind n ih =>
    unfold digits
    split
    · rename_i hlt
      have hdigit : ∀ d < 10, d ≠ 0 → digitChar d ≠ '0' := by decide
      simpa using hdigit n hlt hn
    · rename_i hge
      have hhigh : n / 10 ≠ 0 := by omega
      have hhead := ih (n / 10) (by omega) hhigh
      cases hdigits : digits (n / 10) with
      | nil => exact absurd hdigits (digits_ne_nil _)
      | cons c r =>
        rw [hdigits] at hhead
        simpa using hhead

theorem readWhole?_digits (n : Nat) : readWhole? (digits n) = some (digits n) := by
  have hstrip := stripUnderscores?_eq_some fun c hc => isDigit_of_mem_digits (n := n) hc
  have hzero : ¬(1 < (digits n).length ∧ (digits n).head? = some '0') := by
    rintro ⟨hlength, hhead⟩
    by_cases hn : n = 0
    · simp [hn, digits] at hlength
    · exact head?_digits hn hhead
  have hne : (digits n).isEmpty = false := by simpa using digits_ne_nil n
  unfold readWhole?
  simp only [hne, hstrip, Bool.false_eq_true, if_false]
  simpa using hzero

theorem readDecimal?_digits (negative : Bool) (n : Nat) :
    readDecimal? negative (digits n) = integer? (if negative then -(n : Int) else n) := by
  have hsame : (digits n).map (fun c => if c = 'E' then 'e' else c) = digits n := by
    have hchars : ∀ c ∈ digits n, (if c = 'E' then 'e' else c) = id c := by
      intro c hc
      refine if_neg ?_
      rintro rfl
      exact not_mem_digits (by decide) n hc
    rw [List.map_congr_left hchars, List.map_id]
  have hpower : cut 'e' (digits n) = (digits n, none) :=
    cut_of_not_mem (not_mem_digits (by decide) n)
  have hpoint : cut '.' (digits n) = (digits n, none) :=
    cut_of_not_mem (not_mem_digits (by decide) n)
  unfold readDecimal?
  rw [hsame, hpower]
  simp only [hpoint, readWhole?_digits, valueOf_digits, Option.bind_eq_bind, Option.bind_some]

/-- Digits alone are no date and no time. -/
theorem isMoment_digits (hs : ∀ c ∈ s, isDigit c = true) : isMoment s = false := by
  have hdate : readDate? s = none := by
    unfold readDate?
    split
    · exact absurd (hs '-' (by simp)) (by decide)
    · rfl
  have hclock : readClock? s = none := by
    unfold readClock?
    cases htwo : readTwo? 23 s with
    | none => rfl
    | some rest =>
      have hcolon : dropFront? [':'] rest = none := by
        cases rest with
        | nil => rfl
        | cons c r =>
          have hc : c ∈ s := by
            unfold readTwo? at htwo
            split at htwo
            · split at htwo
              · rw [Option.some.inj htwo]
                simp
              · cases htwo
            · cases htwo
          have hne : ':' ≠ c := by
            rintro rfl
            exact absurd (hs ':' hc) (by decide)
          simp [dropFront?, hne]
      simp [hcolon]
  simp [isMoment, hdate, hclock]

theorem digits_ne_cons {c : Char} (hc : isDigit c = false) (n : Nat) (r : List Char) :
    digits n ≠ c :: r := by
  intro heq
  exact not_mem_digits hc n (by simp [heq])

theorem digits_ne_cons_cons {d : Char} (hd : isDigit d = false) (n : Nat) (c : Char)
    (r : List Char) : digits n ≠ c :: d :: r := by
  intro heq
  exact not_mem_digits hd n (by simp [heq])

theorem readScalar?_digits (n : Nat) : readScalar? (digits n) = integer? n := by
  have hmoment := isMoment_digits fun c hc => isDigit_of_mem_digits (n := n) hc
  have hdecimal := readDecimal?_digits false n
  unfold readScalar?
  split
  case h_14 => simpa [hmoment] using hdecimal
  all_goals
    rename_i heq
    first
    | exact absurd heq (digits_ne_cons (by decide) _ _)
    | exact absurd heq (digits_ne_cons_cons (by decide) _ _ _)

theorem readScalar?_minus_digits (n : Nat) : readScalar? ('-' :: digits n) = integer? (-n) := by
  have hdecimal := readDecimal?_digits true n
  obtain ⟨c, r, hdigits⟩ := List.exists_cons_of_ne_nil (digits_ne_nil n)
  have hi : c ≠ 'i' := by
    rintro rfl
    exact digits_ne_cons (by decide) n r hdigits
  have hn : c ≠ 'n' := by
    rintro rfl
    exact digits_ne_cons (by decide) n r hdigits
  rw [hdigits] at hdecimal ⊢
  unfold readScalar?
  split
  all_goals simp_all

end Digits

theorem endsScalar_of_isDigit {c : Char} (hc : isDigit c = true) :
    endsScalar c = false ∧ c ∉ ['"', '\'', '[', '\x7b'] := by
  constructor
  · rw [Bool.eq_false_iff]
    intro hends
    simp only [endsScalar, isGap, Bool.or_eq_true, decide_eq_true_eq] at hends
    rcases hends with ((((((rfl | rfl) | rfl) | rfl) | rfl) | rfl) | rfl) | rfl
    all_goals exact absurd hc (by decide)
  · intro hmem
    have hplain : ∀ q ∈ ['"', '\'', '[', '\x7b'], (!isDigit q) = true :=
      List.all_eq_true.mp (by decide)
    have hnot := hplain c hmem
    rw [hc] at hnot
    cases hnot

theorem endsScalar_of_mem_writeInteger {n : Int} {c : Char} (hc : c ∈ writeInteger n) :
    endsScalar c = false ∧ c ∉ ['"', '\'', '[', '\x7b'] := by
  rcases mem_decimal hc with hdigit | rfl
  · exact endsScalar_of_isDigit hdigit
  · decide

theorem writeInteger_ne_nil (n : Int) : writeInteger n ≠ [] := by
  cases n with
  | ofNat k => simpa [writeInteger, decimal] using digits_ne_nil k
  | negSucc k => simp [writeInteger, decimal]

/-- A number of 64 bits is read back from its numeral. -/
theorem readValue_writeInteger {n : Int} (hlow : -9223372036854775808 ≤ n)
    (hhigh : n ≤ 9223372036854775807) (rest : List Char) (fuel : Nat) :
    readValue (fuel + 1) (writeInteger n ++ '\n' :: rest) = some (.integer n, '\n' :: rest) := by
  have hinteger : integer? n = some (.integer n) := by
    simp [integer?, hlow, hhigh]
  have hread : readScalar? (writeInteger n) = some (.integer n) := by
    unfold writeInteger
    cases n with
    | ofNat k => simpa [decimal] using (readScalar?_digits k).trans hinteger
    | negSucc k => simpa [decimal] using (readScalar?_minus_digits (k + 1)).trans hinteger
  have hchars : ∀ c ∈ writeInteger n, endsScalar c = false ∧ c ∉ ['"', '\'', '[', '\x7b'] :=
    fun c hc => endsScalar_of_mem_writeInteger hc
  obtain ⟨c, r, hwritten⟩ := List.exists_cons_of_ne_nil (writeInteger_ne_nil n)
  rw [hwritten] at hread hchars ⊢
  have hkeep : ∀ d ∈ c :: r, (!endsScalar d) = true := by
    intro d hd
    rw [(hchars d hd).1]
    rfl
  rw [readValue_scalar hkeep (hchars c List.mem_cons_self).2, hread]
  rfl

end Consent.Toml

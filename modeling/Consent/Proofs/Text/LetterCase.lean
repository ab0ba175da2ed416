import Consent.Text.LetterCase

/-! Lower-casing is idempotent, and it neither makes nor removes a character that is no letter. -/

namespace Consent.Text

/-- The lower case of a character of the range. -/
def CaseRange.image (r : CaseRange) (n : Nat) : Nat := (n + r.offset).toNat

/-- Whether no character of the range lies among `lo`, `lo + step`, …, `hi`: the two lie apart, or
both go by twos from numbers of different parity. -/
def CaseRange.isClearOf (lo hi step : Nat) (r : CaseRange) : Bool :=
  Nat.blt hi r.first || (Nat.blt r.last lo
    || (Nat.beq r.step 2 && ((Nat.beq step 2 || Nat.beq lo hi) && Nat.beq ((lo + r.first) % 2) 1)))

/-- Whether the lower cases of the range are characters, are no capitals outside ASCII, and are
small letters if they are ASCII. -/
def CaseRange.isSettled (r : CaseRange) : Bool :=
  let lo := r.image r.first
  let hi := r.image r.last
  (Nat.blt 127 lo || (Nat.ble 97 lo && Nat.ble hi 122)) && (Nat.blt hi 0xd800
    || (Nat.blt 0xdfff lo && Nat.blt hi 0x110000)) && Nat.ble (0 - r.offset).toNat r.first
    && capitalRanges.all (CaseRange.isClearOf lo hi r.step)

-- The one check over the whole table; everything below follows from it.
private theorem isSettled_of_mem : ∀ r ∈ capitalRanges, r.isSettled = true :=
  List.all_eq_true.mp (by decide +kernel)

private theorem holds_iff {r : CaseRange} {n : Nat} :
    r.holds n = true ↔ r.first ≤ n ∧ n ≤ r.last ∧ (n - r.first) % r.step = 0 := by
  simp [CaseRange.holds, and_assoc]

/-- What the check says of one capital letter. -/
private theorem image_spec {r : CaseRange} {n : Nat} (hr : r ∈ capitalRanges)
    (hn : r.holds n = true) :
    (127 < r.image n ∨ 97 ≤ r.image n ∧ r.image n ≤ 122) ∧ (r.image n).isValidChar ∧
      ∀ q ∈ capitalRanges, q.holds (r.image n) = false := by
  have hs := isSettled_of_mem r hr
  simp only [CaseRange.isSettled, Bool.and_eq_true, Bool.or_eq_true, Nat.blt_eq, Nat.ble_eq,
    List.all_eq_true] at hs
  obtain ⟨⟨⟨hletter, hvalid⟩, hoff⟩, hclear⟩ := hs
  obtain ⟨hfirst, hlast, hstep⟩ := holds_iff.mp hn
  have himage : ∀ m, r.first ≤ m → (r.image m : Int) = m + r.offset := by
    intro m hm
    simp only [CaseRange.image]
    omega
  have h0 := himage r.first (Nat.le_refl _)
  have h1 := himage n hfirst
  have h2 := himage r.last (by omega)
  have hlo : r.image r.first ≤ r.image n := by omega
  have hhi : r.image n ≤ r.image r.last := by omega
  refine ⟨by omega, ?_, ?_⟩
  · simp only [Nat.isValidChar]
    omega
  · intro q hq
    have hc := hclear q hq
    simp only [CaseRange.isClearOf, Bool.or_eq_true, Bool.and_eq_true, Nat.blt_eq, Nat.beq_eq] at hc
    rw [Bool.eq_false_iff]
    intro hh
    obtain ⟨hq1, hq2, hq3⟩ := holds_iff.mp hh
    rcases hc with hc | hc | ⟨hq, hr, hp⟩
    · omega
    · omega
    · rw [hq] at hq3
      rcases hr with hr | hr
      · rw [hr] at hstep
        omega
      · omega

theorem toNat_ofNat_of_isValidChar {n : Nat} (h : n.isValidChar) : (Char.ofNat n).toNat = n := by
  rw [Char.ofNat, dif_pos h]
  rfl

/-- What lower-casing does to a character: nothing, or it gives an ASCII small letter, or it moves
a character outside ASCII to one that is no capital. -/
private theorem lowerChar_cases (c : Char) :
    lowerChar c = c ∨ ('a' ≤ lowerChar c ∧ lowerChar c ≤ 'z') ∨
      (127 < (lowerChar c).toNat ∧ ∀ q ∈ capitalRanges, q.holds (lowerChar c).toNat = false) := by
  unfold lowerChar
  split
  · split
    · rename_i h
      simp only [Bool.and_eq_true, decide_eq_true_eq] at h
      right; left
      have h1 : 65 ≤ c.toNat := h.1
      have h2 : c.toNat ≤ 90 := h.2
      have hv : (c.toNat + 32).isValidChar := by simp only [Nat.isValidChar]; omega
      constructor
      · change 97 ≤ (Char.ofNat (c.toNat + 32)).toNat
        rw [toNat_ofNat_of_isValidChar hv]; omega
      · change (Char.ofNat (c.toNat + 32)).toNat ≤ 122
        rw [toNat_ofNat_of_isValidChar hv]; omega
    · exact Or.inl rfl
  · split
    · rename_i r hfind
      have hholds : r.holds c.toNat = true :=
        List.find?_some (p := fun q : CaseRange => q.holds c.toNat) hfind
      obtain ⟨hletter, hvalid, hclear⟩ := image_spec (List.mem_of_find?_eq_some hfind) hholds
      right
      change ('a' ≤ Char.ofNat (r.image c.toNat) ∧ Char.ofNat (r.image c.toNat) ≤ 'z') ∨
        (127 < (Char.ofNat (r.image c.toNat)).toNat ∧
          ∀ q ∈ capitalRanges, q.holds (Char.ofNat (r.image c.toNat)).toNat = false)
      rw [toNat_ofNat_of_isValidChar hvalid]
      rcases hletter with h | ⟨h1, h2⟩
      · exact Or.inr ⟨h, hclear⟩
      · left
        constructor
        · change 97 ≤ (Char.ofNat (r.image c.toNat)).toNat
          rw [toNat_ofNat_of_isValidChar hvalid]; exact h1
        · change (Char.ofNat (r.image c.toNat)).toNat ≤ 122
          rw [toNat_ofNat_of_isValidChar hvalid]; exact h2
    · exact Or.inl rfl

/-- ASCII characters that are no capitals stay as they are. -/
theorem lowerChar_of_lt {c : Char} (hc : c.toNat < 0x80) (hu : ¬('A' ≤ c ∧ c ≤ 'Z')) :
    lowerChar c = c := by
  simp [lowerChar, hc, hu]

@[simp] theorem lowerChar_lowerChar (c : Char) : lowerChar (lowerChar c) = lowerChar c := by
  rcases lowerChar_cases c with h | ⟨h1, h2⟩ | ⟨h1, h2⟩
  · rw [h, h]
  · have h1' : 97 ≤ (lowerChar c).toNat := h1
    have h2' : (lowerChar c).toNat ≤ 122 := h2
    refine lowerChar_of_lt (by omega) ?_
    rintro ⟨-, h3⟩
    have h3' : (lowerChar c).toNat ≤ 90 := h3
    omega
  · have hfind : capitalRanges.find? (·.holds (lowerChar c).toNat) = none :=
      List.find?_eq_none.mpr fun q hq => by simp [h2 q hq]
    generalize lowerChar c = d at h1 hfind
    have hd : ¬d.toNat < 0x80 := by omega
    simp [lowerChar, hd, hfind]

@[simp] theorem lower_lower (s : List Char) : lower (lower s) = lower s := by
  simp [lower]

@[simp] theorem lowerString_lowerString (s : String) :
    lowerString (lowerString s) = lowerString s := by
  simp [lowerString]

/-- An ASCII character that is no letter is the lower case of itself only. -/
theorem lowerChar_eq_iff {c d : Char} (hd : d.toNat < 0x80)
    (hl : ¬('A' ≤ d ∧ d ≤ 'Z') ∧ ¬('a' ≤ d ∧ d ≤ 'z')) : lowerChar c = d ↔ c = d := by
  constructor
  · intro h
    rcases lowerChar_cases c with hc | hc | ⟨hc, -⟩
    · rw [← hc, h]
    · rw [h] at hc
      exact absurd hc hl.2
    · rw [h] at hc
      omega
  · rintro rfl
    exact lowerChar_of_lt hd hl.1

theorem mem_lower_iff {d : Char} (hd : d.toNat < 0x80)
    (hl : ¬('A' ≤ d ∧ d ≤ 'Z') ∧ ¬('a' ≤ d ∧ d ≤ 'z')) {s : List Char} :
    d ∈ lower s ↔ d ∈ s := by
  simp [lower, lowerChar_eq_iff hd hl]

/-- What holds of the small letters and of all that lies outside ASCII is kept by lower-casing. -/
theorem forall_mem_lower {P : Char → Prop} (hsmall : ∀ c, 'a' ≤ c → c ≤ 'z' → P c)
    (hlarge : ∀ c : Char, 0x80 ≤ c.toNat → P c) {s : List Char} (h : ∀ c ∈ s, P c) :
    ∀ c ∈ lower s, P c := by
  intro c hc
  obtain ⟨d, hd, rfl⟩ := List.mem_map.mp hc
  rcases lowerChar_cases d with heq | ⟨hlo, hhi⟩ | ⟨hout, -⟩
  · rw [heq]
    exact h d hd
  · exact hsmall _ hlo hhi
  · exact hlarge _ hout

/-- A capital is not its own lower case. -/
theorem not_capital_of_lowerChar {c : Char} (h : lowerChar c = c) : ¬('A' ≤ c ∧ c ≤ 'Z') := by
  intro hcapital
  have hlo : 65 ≤ c.toNat := hcapital.1
  have hhi : c.toNat ≤ 90 := hcapital.2
  have hvalid : (c.toNat + 32).isValidChar := by
    simp only [Nat.isValidChar]
    omega
  have hlower : lowerChar c = Char.ofNat (c.toNat + 32) := by
    simp [lowerChar, hcapital, show c.toNat < 128 by omega]
  have hcode := congrArg Char.toNat (hlower.symm.trans h)
  rw [toNat_ofNat_of_isValidChar hvalid] at hcode
  omega

theorem lower_eq_self {s : List Char} (h : ∀ c ∈ s, lowerChar c = c) : lower s = s := by
  rw [lower, List.map_congr_left h, List.map_id']

theorem lowerChar_of_mem_lower {c : Char} {s : List Char} (h : c ∈ lower s) : lowerChar c = c := by
  obtain ⟨d, -, rfl⟩ := List.mem_map.mp h
  exact lowerChar_lowerChar d

-- The second check over the table: only `i` and `k` are lower cases of characters outside ASCII.
private theorem image_ascii : ∀ r ∈ capitalRanges, 127 < r.image r.first ∨
    r.first = r.last ∧ (r.image r.first = 105 ∨ r.image r.first = 107) := by
  decide +kernel

theorem lowerChar_eq_toLower {c : Char} (h : c.toNat < 0x80) : lowerChar c = c.toLower := by
  unfold lowerChar Char.toLower
  rw [if_pos h]
  by_cases hcapital : c.val ≥ 'A'.val ∧ c.val ≤ 'Z'.val
  · have hletter : 'A' ≤ c ∧ c ≤ 'Z' := hcapital
    have hvalid : (c.toNat + 32).isValidChar := by
      simp only [Nat.isValidChar]
      omega
    rw [if_pos (by simpa using hletter), dif_pos hcapital]
    apply Char.ext
    apply UInt32.toNat_inj.mp
    have hsum : (c.val + ('a'.val - 'A'.val)).toNat = c.toNat + 32 := by
      have h32 : ('a'.val - 'A'.val).toNat = 32 := rfl
      rw [UInt32.toNat_add, h32]
      change (c.toNat + 32) % 2 ^ 32 = c.toNat + 32
      omega
    rw [hsum]
    exact toNat_ofNat_of_isValidChar hvalid
  · have hletter : ¬('A' ≤ c ∧ c ≤ 'Z') := hcapital
    rw [if_neg (by simpa using hletter), dif_neg hcapital]

theorem toLower_of_not_lt {c : Char} (h : ¬c.toNat < 0x80) : c.toLower = c := by
  have hupper : ¬(c.val ≥ 'A'.val ∧ c.val ≤ 'Z'.val) := by
    rintro ⟨-, hle⟩
    have hle' : c.toNat ≤ 90 := hle
    omega
  exact dif_neg hupper

/-- Apart from `i` and `k`, an ASCII character is the lower case of ASCII characters only. -/
theorem lowerChar_eq_iff_toLower {c d : Char} (hd : d.toNat < 0x80) (hi : d ≠ 'i') (hk : d ≠ 'k') :
    lowerChar c = d ↔ c.toLower = d := by
  by_cases hc : c.toNat < 0x80
  · rw [lowerChar_eq_toLower hc]
  · have hcd : c ≠ d := by
      rintro rfl
      exact hc hd
    rw [toLower_of_not_lt hc]
    refine iff_of_false ?_ hcd
    unfold lowerChar
    rw [if_neg hc]
    split
    · rename_i r hfind
      have hholds : r.holds c.toNat = true :=
        List.find?_some (p := fun q : CaseRange => q.holds c.toNat) hfind
      have hr := List.mem_of_find?_eq_some hfind
      obtain ⟨-, hvalid, -⟩ := image_spec hr hholds
      obtain ⟨hfirst, hlast, -⟩ := holds_iff.mp hholds
      intro heq
      have hcode : r.image c.toNat = d.toNat := by
        rw [← heq]
        exact (toNat_ofNat_of_isValidChar hvalid).symm
      rcases image_ascii r hr with hlarge | ⟨hsingle, hletter⟩
      · have hmono : r.image r.first ≤ r.image c.toNat := by
          simp only [CaseRange.image]
          omega
        omega
      · have hn : c.toNat = r.first := by omega
        rw [hn] at hcode
        rcases hletter with hletter | hletter
        · exact hi (Char.toNat_inj.mp (hcode.symm.trans hletter))
        · exact hk (Char.toNat_inj.mp (hcode.symm.trans hletter))
    · exact hcd

/-- Lower-casing gives a word without `i` and `k` exactly if ASCII lower-casing does. -/
theorem lower_eq_iff_toLower {s t : List Char} (ht : ∀ d ∈ t, d.toNat < 0x80 ∧ d ≠ 'i' ∧ d ≠ 'k') :
    lower s = t ↔ s.map Char.toLower = t := by
  induction s generalizing t with
  | nil => simp
  | cons c rest ih =>
    cases t with
    | nil => simp
    | cons d t =>
      obtain ⟨hd, hi, hk⟩ := ht d List.mem_cons_self
      have hrest := ih fun e he => ht e (List.mem_cons_of_mem d he)
      rw [lower_cons, List.map_cons, List.cons.injEq, List.cons.injEq,
        lowerChar_eq_iff_toLower hd hi hk, hrest]

/-- A class of characters that tells no ASCII capital from its small letter is one for all. -/
theorem apply_toLower {p : Char → Bool}
    (h : ∀ n : Fin 128, p (Char.ofNat n).toLower = p (Char.ofNat n)) (c : Char) :
    p c.toLower = p c := by
  by_cases hc : c.toNat < 128
  · simpa using h ⟨c.toNat, hc⟩
  · rw [toLower_of_not_lt hc]

theorem toLower_eq_iff {s t : String} :
    s.toLower = t.toLower ↔ s.toList.map Char.toLower = t.toList.map Char.toLower := by
  have hlower : ∀ r : String, r.toLower = r.map Char.toLower := fun _ => rfl
  rw [hlower, hlower, ← String.toList_inj, String.toList_map, String.toList_map]

/-- What holds of the characters of a text holds of its spellings in other letters. -/
theorem forall_mem_of_toLower_eq {p : Char → Bool} (hp : ∀ c, p c.toLower = p c) {s t : String}
    (hst : s.toLower = t.toLower) (ht : ∀ c ∈ t.toList, p c = true) :
    ∀ c ∈ s.toList, p c = true := by
  intro c hc
  have hmem : c.toLower ∈ t.toList.map Char.toLower := by
    rw [← toLower_eq_iff.mp hst]
    exact List.mem_map_of_mem hc
  obtain ⟨d, hd, heq⟩ := List.mem_map.mp hmem
  rw [← hp c, ← heq, hp d]
  exact ht d hd

theorem toList_ne_nil_of_toLower_eq {s t : String} (hst : s.toLower = t.toLower)
    (ht : t.toList ≠ []) : s.toList ≠ [] := by
  intro hs
  have hmap := toLower_eq_iff.mp hst
  rw [hs, List.map_nil] at hmap
  exact ht (List.map_eq_nil_iff.mp hmap.symm)

theorem lowerString_eq_toLower {s : String} (h : ∀ c ∈ s.toList, c.toNat < 0x80) :
    lowerString s = s.toLower := by
  have hlower : s.toLower = s.map Char.toLower := rfl
  rw [hlower, ← String.toList_inj, toList_lowerString, String.toList_map, lower]
  exact List.map_congr_left fun c hc => lowerChar_eq_toLower (h c hc)

end Consent.Text

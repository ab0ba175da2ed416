import Mathlib.Data.List.Sort

/-! The order of texts: it is the order of their bytes, and sorting by a text keeps together and in
place what has one text. -/

namespace Consent.Text

/-- The bytes of a text. -/
def utf8 (s : List Char) : List UInt8 := (String.ofList s).toUTF8.data.toList

theorem utf8_eq_flatMap (s : List Char) : utf8 s = s.flatMap String.utf8EncodeChar := by
  change (String.ofList s).toByteArray.data.toList = _
  rw [String.toByteArray_ofList, List.utf8Encode, List.toList_data_toByteArray]

theorem utf8_cons (c : Char) (s : List Char) :
    utf8 (c :: s) = String.utf8EncodeChar c ++ utf8 s := by
  rw [utf8_eq_flatMap, utf8_eq_flatMap, List.flatMap_cons]

theorem ofNat_cons_lt_iff {m n : Nat} (hm : m < 256) (hn : n < 256) {s t : List UInt8} :
    UInt8.ofNat m :: s < UInt8.ofNat n :: t ↔ m < n ∨ m = n ∧ s < t := by
  rw [List.cons_lt_cons_iff, UInt8.lt_iff_toNat_lt, ← UInt8.toNat_inj, UInt8.toNat_ofNat',
    UInt8.toNat_ofNat', Nat.mod_eq_of_lt hm, Nat.mod_eq_of_lt hn]

/-- The smaller of two characters has the smaller bytes, whatever follows the two. -/
theorem utf8EncodeChar_append_lt {c d : Char} (h : c < d) (s t : List UInt8) :
    String.utf8EncodeChar c ++ s < String.utf8EncodeChar d ++ t := by
  have hlt : c.val.toNat < d.val.toNat := h
  have hmax : d.val.toNat < 0x110000 := by
    have hd := d.valid
    simp only [UInt32.isValidChar, Nat.isValidChar] at hd
    omega
  unfold String.utf8EncodeChar
  generalize c.val.toNat = m at *
  generalize d.val.toNat = n at *
  -- the bytes after the first hold six bits each, and the first of four never loses a bit
  have hsix : ∀ k : Nat, k / 64 / 64 = k / 4096 ∧ k / 4096 / 64 = k / 262144 := fun k =>
    ⟨Nat.div_div_eq_div_mul k 64 64, Nat.div_div_eq_div_mul k 4096 64⟩
  have hm := hsix m
  have hn := hsix n
  have hmlead : m / 262144 % 8 = m / 262144 := Nat.mod_eq_of_lt (by omega)
  have hnlead : n / 262144 % 8 = n / 262144 := Nat.mod_eq_of_lt (by omega)
  dsimp only
  repeat' split
  all_goals
    simp (disch := omega) only [List.cons_append, List.nil_append, ofNat_cons_lt_iff]
    omega

theorem utf8_lt_of_lt {s t : List Char} (h : s < t) : utf8 s < utf8 t := by
  induction s generalizing t with
  | nil =>
    cases t with
    | nil => exact absurd h (List.not_lt_nil _)
    | cons d t =>
      obtain ⟨b, bytes, hbytes⟩ :=
        List.exists_cons_of_ne_nil (String.utf8EncodeChar_ne_nil (c := d))
      rw [utf8_cons, hbytes]
      exact List.nil_lt_cons b _
  | cons c s ih =>
    cases t with
    | nil => exact absurd h (List.not_lt_nil _)
    | cons d t =>
      rw [utf8_cons, utf8_cons]
      rcases List.cons_lt_cons_iff.mp h with hlt | ⟨rfl, hlt⟩
      · exact utf8EncodeChar_append_lt hlt _ _
      · exact List.append_left_lt (ih hlt)

/-- Texts are in the order of their bytes. -/
theorem utf8_lt_iff {s t : List Char} : utf8 s < utf8 t ↔ s < t := by
  refine ⟨fun h => ?_, utf8_lt_of_lt⟩
  rcases Std.lt_trichotomy s t with hlt | rfl | hgt
  · exact hlt
  · exact absurd h (List.lt_irrefl _)
  · exact absurd h (List.lt_asymm (utf8_lt_of_lt hgt))

theorem utf8_le_iff {s t : List Char} :
    utf8 s ≤ utf8 t ↔ String.ofList s ≤ String.ofList t := by
  rw [← List.not_lt, utf8_lt_iff, ← String.not_lt, String.lt_iff, String.toList_ofList,
    String.toList_ofList]

section

variable {α : Type} (text : α → String)

theorem not_lt_text_iff (a b : α) : (!decide (text b < text a)) = true ↔ text a ≤ text b := by
  rw [Bool.not_eq_true', decide_eq_false_iff_not, String.not_lt]

theorem not_lt_text_trans (a b c : α) (hab : (!decide (text b < text a)) = true)
    (hbc : (!decide (text c < text b)) = true) : (!decide (text c < text a)) = true := by
  rw [not_lt_text_iff] at hab hbc ⊢
  exact String.le_trans hab hbc

theorem not_lt_text_total (a b : α) :
    (!decide (text b < text a) || !decide (text a < text b)) = true := by
  rw [Bool.or_eq_true, not_lt_text_iff, not_lt_text_iff]
  exact String.le_total _ _

theorem pairwise_mergeSort_text (l : List α) :
    (l.mergeSort fun a b => !(text b < text a)).Pairwise fun a b => text a ≤ text b :=
  (List.pairwise_mergeSort (not_lt_text_trans text) (not_lt_text_total text) l).imp fun {a b} hab =>
    (not_lt_text_iff text a b).mp hab

variable {text} in
theorem mergeSort_text_of_pairwise {l : List α} (h : l.Pairwise fun a b => text a ≤ text b) :
    l.mergeSort (fun a b => !(text b < text a)) = l :=
  List.mergeSort_of_pairwise (h.imp fun {a b} hab => (not_lt_text_iff text a b).mpr hab)

/-- Sorting leaves what has one text in its order. -/
theorem filter_mergeSort_text (l : List α) (key : String) :
    (l.mergeSort fun a b => !(text b < text a)).filter (text · = key) =
      l.filter (text · = key) := by
  have hpairwise : (l.filter (text · = key)).Pairwise fun a b => !(text b < text a) := by
    refine List.pairwise_of_forall_mem_list fun a ha b hb => ?_
    rw [List.mem_filter, decide_eq_true_iff] at ha hb
    have hsame : text a = text b := ha.2.trans hb.2.symm
    exact (not_lt_text_iff text a b).mpr (hsame ▸ String.le_refl (text a))
  have hsublist := List.sublist_mergeSort (not_lt_text_trans text) (not_lt_text_total text)
    hpairwise List.filter_sublist
  have hfiltered := hsublist.filter (text · = key)
  rw [List.filter_filter] at hfiltered
  simp only [Bool.and_self] at hfiltered
  exact (hfiltered.eq_of_length ((List.mergeSort_perm l _).filter _).length_eq.symm).symm

end

end Consent.Text

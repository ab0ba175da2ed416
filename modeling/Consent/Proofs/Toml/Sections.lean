import Mathlib.Data.List.DropRight
import Mathlib.Data.List.Nodup
import Consent.Proofs.Text.Blank
import Consent.Proofs.Text.Order
import Consent.Proofs.Text.Split
import Consent.Toml.Sections

/-! Cutting lines into sections and bringing these in order. -/

namespace Consent.Toml

open Text

theorem isBlankLine_eq_false {line : Line} {c : Char} (hc : c ∈ line) (hblank : isBlank c = false) :
    isBlankLine line = false := by
  obtain ⟨before, after, rfl⟩ := List.append_of_mem hc
  have hkept : ∃ front, (before ++ c :: after).dropWhile isBlank = front ++ c :: after := by
    rw [List.dropWhile_append]
    split
    · exact ⟨[], List.dropWhile_cons_of_neg (by simp [hblank])⟩
    · exact ⟨_, rfl⟩
  obtain ⟨front, hfront⟩ := hkept
  rw [isBlankLine, trim, trimWhile, hfront, dropEndWhile_append_cons front hblank]
  simp

theorem dropBlankEnd_concat (lines : List Line) (line : Line) :
    dropBlankEnd (lines ++ [line]) =
      if isBlankLine line then dropBlankEnd lines else lines ++ [line] := by
  induction lines with
  | nil => rfl
  | cons first rest ih =>
    rw [List.cons_append, dropBlankEnd, ih]
    by_cases hline : isBlankLine line = true
    · rw [if_pos hline, if_pos hline, dropBlankEnd]
    · rw [if_neg hline, if_neg hline]
      cases rest <;> rfl

theorem dropBlankEnd_eq_rdropWhile (lines : List Line) :
    dropBlankEnd lines = lines.rdropWhile isBlankLine := by
  induction lines using List.reverseRecOn with
  | nil => rfl
  | append_singleton lines line ih => rw [dropBlankEnd_concat, List.rdropWhile_concat, ih]

theorem dropBlankEnd_append {lines blanks : List Line}
    (hlines : ∀ line ∈ lines, isBlankLine line = false)
    (hblanks : ∀ line ∈ blanks, isBlankLine line = true) :
    dropBlankEnd (lines ++ blanks) = lines := by
  induction blanks using List.reverseRecOn with
  | nil =>
    rw [List.append_nil, dropBlankEnd_eq_rdropWhile, List.rdropWhile_eq_self_iff]
    intro hne
    simp [hlines _ (List.getLast_mem hne)]
  | append_singleton blanks line ih =>
    have hline := hblanks line (List.mem_append_right _ (List.mem_singleton.mpr rfl))
    rw [← List.append_assoc, dropBlankEnd_concat, if_pos hline]
    exact ih fun other hother => hblanks other (List.mem_append_left _ hother)

/-- A section as it is found again in a text: what stands below its header is no header. -/
structure Section.Sound (s : Section) : Prop where
  header : headerName? s.header = some s.name
  body : ∀ line ∈ s.body, headerName? line = none
  unbroken : ∀ line ∈ s.header :: s.body, '\n' ∉ line

/-- A section of lines: its header is one, and what stands below it is none. -/
structure Section.Headed (s : Section) : Prop where
  header : headerName? s.header = some s.name
  body : ∀ line ∈ s.body, headerName? line = none

theorem Section.Sound.headed {s : Section} (h : s.Sound) : s.Headed := ⟨h.header, h.body⟩

namespace Document

theorem ofLines_cons_of_none {line : Line} (h : headerName? line = none) (lines : List Line) :
    ofLines (line :: lines) = ⟨line :: (ofLines lines).head, (ofLines lines).sections⟩ := by
  simp [ofLines, addLine, h]

theorem ofLines_append_of_none {body : List Line} (h : ∀ line ∈ body, headerName? line = none)
    (lines : List Line) :
    ofLines (body ++ lines) = ⟨body ++ (ofLines lines).head, (ofLines lines).sections⟩ := by
  induction body with
  | nil => rfl
  | cons line rest ih =>
    have hrest := ih fun other hother => h other (List.mem_cons_of_mem line hother)
    rw [List.cons_append, ofLines_cons_of_none (h line List.mem_cons_self), hrest]
    rfl

theorem ofLines_flatMap {ss : List Section} (h : ∀ s ∈ ss, s.Headed) :
    ofLines (ss.flatMap fun s => s.header :: s.body) = ⟨[], ss⟩ := by
  induction ss with
  | nil => rfl
  | cons s rest ih =>
    have hs := h s List.mem_cons_self
    have hrest := ih fun other hother => h other (List.mem_cons_of_mem s hother)
    have hbody := ofLines_append_of_none hs.body (rest.flatMap fun s => s.header :: s.body)
    rw [List.flatMap_cons, List.cons_append, ofLines, List.foldr_cons, ← ofLines, hbody, hrest]
    simp [addLine, hs.header]

/-- The sections of a text are those that it was put together from. -/
theorem ofText_joinWith {ss : List Section} (hne : ss ≠ []) (h : ∀ s ∈ ss, s.Sound) :
    ofText (joinWith '\n' (ss.flatMap fun s => s.header :: s.body)) = ⟨[], ss⟩ := by
  have hlines : (ss.flatMap fun s => s.header :: s.body) ≠ [] := by
    obtain ⟨s, rest, rfl⟩ := List.exists_cons_of_ne_nil hne
    simp
  have hunbroken : ∀ line ∈ ss.flatMap fun s => s.header :: s.body, '\n' ∉ line := by
    intro line hline
    obtain ⟨s, hs, hmem⟩ := List.mem_flatMap.mp hline
    exact (h s hs).unbroken line hmem
  rw [ofText, splitOn_joinWith hlines hunbroken, ofLines_flatMap fun s hs => (h s hs).headed]

/-- Sections of which no two have one name are put in the order of their names. -/
theorem sections_sorted {d : Document} {ss : List Section} (hperm : d.sections.Perm ss)
    (hss : ss.Pairwise fun a b => String.ofList a.name < String.ofList b.name) :
    d.sorted.sections = ss.map fun s => { s with body := dropBlankEnd s.body } := by
  let text (s : Section) : String := .ofList s.name
  have hnames : (ss.map Section.name).Nodup := by
    refine List.pairwise_map.mpr (hss.imp fun {a b} hlt heq => ?_)
    rw [heq] at hlt
    exact String.lt_irrefl _ hlt
  have horder : (d.sections.mergeSort fun a b => !(text b < text a)) = ss := by
    have hmerged := (List.mergeSort_perm d.sections fun a b => !(text b < text a)).trans hperm
    have hsorted : ss.Pairwise fun a b => text a ≤ text b := hss.imp Std.le_of_lt
    refine List.Perm.eq_of_pairwise ?_ (pairwise_mergeSort_text text _) hsorted hmerged
    intro a b ha hb hab hba
    have heq : text a = text b := String.le_antisymm hab hba
    exact List.inj_on_of_nodup_map hnames (hmerged.mem_iff.mp ha) hb (String.ofList_injective heq)
  rw [← horder]
  rfl

end Document

end Consent.Toml

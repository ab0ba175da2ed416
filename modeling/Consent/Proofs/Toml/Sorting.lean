import Mathlib.Data.List.Forall2
import Consent.Proofs.Text.Order
import Consent.Proofs.Toml.Sections

/-! Sorting a document's sections: each of them comes out whole under its own header, in the order
of the names, and sorting again changes nothing. -/

namespace Consent.Toml

open Text

/-- A line with nothing but a name in brackets, and blanks around it. -/
structure IsHeader (name : List Char) (line : Line) : Prop where
  name_ne : name ≠ []
  name_bracket : ']' ∉ name
  line_eq : ∃ before after, line = before ++ '[' :: (name ++ ']' :: after) ∧
    (∀ c ∈ before, isHeaderSpace c = true) ∧ ∀ c ∈ after, isHeaderSpace c = true

theorem headerName?_eq_some_iff {line : Line} {name : List Char} :
    headerName? line = some name ↔ IsHeader name line := by
  constructor
  · intro h
    unfold headerName? at h
    split at h
    · rename_i rest hrest
      split at h
      · rename_i name' after hcut
        split at h
        · rename_i hname
          cases h
          simp only [Bool.and_eq_true, Bool.not_eq_true', List.isEmpty_eq_false_iff,
            List.all_eq_true] at hname
          have hbracket := not_mem_cut ']' rest
          rw [hcut] at hbracket
          refine ⟨hname.1, hbracket, line.takeWhile isHeaderSpace, after, ?_, ?_, hname.2⟩
          · rw [append_of_cut hcut, ← hrest, List.takeWhile_append_dropWhile]
          · exact fun c hc => List.mem_takeWhile_imp hc
        · cases h
      · cases h
    · cases h
  · rintro ⟨hne, hbracket, before, after, rfl, hbefore, hafter⟩
    have hdrop : (before ++ '[' :: (name ++ ']' :: after)).dropWhile isHeaderSpace =
        '[' :: (name ++ ']' :: after) := by
      rw [List.dropWhile_append_of_pos hbefore, List.dropWhile_cons_of_neg (by decide)]
    rw [headerName?, hdrop]
    simp only [cut_append hbracket]
    rw [if_pos]
    simpa [hne] using hafter

theorem headerName?_eq_none_iff {line : Line} :
    headerName? line = none ↔ ∀ name, ¬ IsHeader name line := by
  simp only [← headerName?_eq_some_iff, Option.eq_none_iff_forall_ne_some]

/-- Blank lines are taken away at the end, and only there. -/
theorem exists_dropBlankEnd_append (lines : List Line) :
    ∃ blanks, lines = dropBlankEnd lines ++ blanks ∧ ∀ line ∈ blanks, isBlankLine line = true := by
  refine ⟨lines.rtakeWhile isBlankLine, ?_, fun line hline => List.mem_rtakeWhile_imp hline⟩
  rw [dropBlankEnd_eq_rdropWhile, List.rdropWhile_append_rtakeWhile]

theorem getLast?_dropBlankEnd (lines : List Line) :
    ∀ line ∈ (dropBlankEnd lines).getLast?, isBlankLine line = false := by
  intro line hline
  rw [dropBlankEnd_eq_rdropWhile] at hline
  obtain ⟨hne, hlast⟩ := List.mem_getLast?_eq_getLast hline
  have hshown := List.rdropWhile_last_not isBlankLine lines hne
  rw [← hlast] at hshown
  exact eq_false_of_ne_true hshown

theorem dropBlankEnd_closed (lines : List Line) :
    dropBlankEnd (dropBlankEnd lines ++ [[]]) = dropBlankEnd lines := by
  have hempty : isBlankLine [] = true := rfl
  rw [dropBlankEnd_concat, if_pos hempty, dropBlankEnd_eq_rdropWhile, dropBlankEnd_eq_rdropWhile,
    List.rdropWhile_idempotent]

/-- The lines that show something. -/
def shown (lines : List Line) : List Line := lines.filter fun line => !isBlankLine line

theorem shown_append (lines more : List Line) : shown (lines ++ more) = shown lines ++ shown more :=
  List.filter_append ..

theorem shown_eq_nil {lines : List Line} (h : ∀ line ∈ lines, isBlankLine line = true) :
    shown lines = [] := by
  refine List.filter_eq_nil_iff.mpr fun line hline => ?_
  simp [h line hline]

namespace Section

/-- The section with an empty line in the place of the blank lines at its end. -/
structure Closes (s t : Section) : Prop where
  name : t.name = s.name
  header : t.header = s.header
  body : ∃ kept blanks, s.body = kept ++ blanks ∧ (∀ line ∈ blanks, isBlankLine line = true) ∧
    (∀ line ∈ kept.getLast?, isBlankLine line = false) ∧ t.body = kept ++ [[]]

/-- A section as sorting leaves it. -/
def closed (s : Section) : Section := { s with body := dropBlankEnd s.body ++ [[]] }

theorem closes_closed (s : Section) : s.Closes s.closed where
  name := rfl
  header := rfl
  body := by
    obtain ⟨blanks, hbody, hblanks⟩ := exists_dropBlankEnd_append s.body
    exact ⟨_, blanks, hbody, hblanks, getLast?_dropBlankEnd s.body, rfl⟩

theorem shown_body_closed (s : Section) : shown s.closed.body = shown s.body := by
  obtain ⟨blanks, hbody, hblanks⟩ := exists_dropBlankEnd_append s.body
  have hempty : shown [[]] = [] := rfl
  conv_rhs => rw [hbody, shown_append, shown_eq_nil hblanks]
  rw [closed, shown_append, hempty]

theorem mem_of_mem_closed {s : Section} {line : Line} (h : line ∈ s.closed.body) :
    line ∈ s.body ∨ line = [] := by
  obtain ⟨blanks, hbody, -⟩ := exists_dropBlankEnd_append s.body
  rcases List.mem_append.mp h with hkept | hempty
  · exact Or.inl (hbody ▸ List.mem_append_left blanks hkept)
  · exact Or.inr (List.mem_singleton.mp hempty)

theorem Headed.closed {s : Section} (h : s.Headed) : s.closed.Headed where
  header := h.header
  body := by
    intro line hline
    rcases mem_of_mem_closed hline with hmem | rfl
    · exact h.body line hmem
    · rfl

end Section

namespace Document

/-- A document that divides some lines: all of them stand in it, and headers stand nowhere but over
the sections. -/
structure Divides (d : Document) (lines : List Line) : Prop where
  lines_eq : lines = d.head ++ d.sections.flatMap fun s => s.header :: s.body
  head : ∀ line ∈ d.head, ∀ name, ¬ IsHeader name line
  header : ∀ s ∈ d.sections, IsHeader s.name s.header
  body : ∀ s ∈ d.sections, ∀ line ∈ s.body, ∀ name, ¬ IsHeader name line

variable {d : Document} {lines : List Line}

theorem divides_iff_headed : d.Divides lines ↔
    (lines = d.head ++ d.sections.flatMap fun s => s.header :: s.body) ∧
      (∀ line ∈ d.head, headerName? line = none) ∧ ∀ s ∈ d.sections, s.Headed := by
  constructor
  · intro h
    refine ⟨h.lines_eq, fun line hline => headerName?_eq_none_iff.mpr (h.head line hline),
      fun s hs => ⟨headerName?_eq_some_iff.mpr (h.header s hs), fun line hline => ?_⟩⟩
    exact headerName?_eq_none_iff.mpr (h.body s hs line hline)
  · rintro ⟨hlines, hhead, hsections⟩
    refine ⟨hlines, fun line hline => headerName?_eq_none_iff.mp (hhead line hline),
      fun s hs => headerName?_eq_some_iff.mp (hsections s hs).header, fun s hs line hline => ?_⟩
    exact headerName?_eq_none_iff.mp ((hsections s hs).body line hline)

theorem divides_ofLines (lines : List Line) : (ofLines lines).Divides lines := by
  rw [divides_iff_headed]
  induction lines with
  | nil => simp [ofLines]
  | cons line rest ih =>
    obtain ⟨hlines, hhead, hsections⟩ := ih
    cases hname : headerName? line with
    | none =>
      rw [ofLines_cons_of_none hname]
      exact ⟨congrArg (line :: ·) hlines, List.forall_mem_cons.mpr ⟨hname, hhead⟩, hsections⟩
    | some name =>
      have hcons : ofLines (line :: rest) =
          ⟨[], ⟨name, line, (ofLines rest).head⟩ :: (ofLines rest).sections⟩ := by
        simp [ofLines, addLine, hname]
      rw [hcons]
      refine ⟨congrArg (line :: ·) hlines, by simp, List.forall_mem_cons.mpr ⟨⟨hname, hhead⟩, ?_⟩⟩
      exact hsections

/-- Lines are divided in one way only. -/
theorem divides_iff : d.Divides lines ↔ d = ofLines lines := by
  constructor
  · intro h
    obtain ⟨rfl, hhead, hsections⟩ := divides_iff_headed.mp h
    rw [ofLines_append_of_none hhead, ofLines_flatMap hsections, List.append_nil]
  · rintro rfl
    exact divides_ofLines lines

/-- The sections in the order that sorting brings them in. -/
def inOrder (d : Document) : List Section :=
  d.sections.mergeSort fun a b => !(String.ofList b.name < String.ofList a.name)

theorem inOrder_perm (d : Document) : d.inOrder.Perm d.sections := List.mergeSort_perm _ _

theorem pairwise_inOrder (d : Document) :
    d.inOrder.Pairwise fun a b => utf8 a.name ≤ utf8 b.name :=
  (pairwise_mergeSort_text (fun s : Section => String.ofList s.name) d.sections).imp utf8_le_iff.mpr

theorem filter_inOrder (d : Document) (name : List Char) :
    d.inOrder.filter (·.name = name) = d.sections.filter (·.name = name) := by
  have hstable := filter_mergeSort_text (fun s : Section => String.ofList s.name) d.sections
    (String.ofList name)
  simpa only [inOrder, String.ofList_inj] using hstable

theorem sorted_eq (d : Document) :
    d.sorted = ⟨d.head, d.inOrder.map fun s => { s with body := dropBlankEnd s.body }⟩ := rfl

/-- The document that the text of a sorted document divides into. -/
def settled (d : Document) : Document := ⟨d.head, d.inOrder.map Section.closed⟩

theorem lines_sorted (d : Document) :
    d.sorted.lines = d.head ++ d.settled.sections.flatMap fun s => s.header :: s.body := by
  simp only [lines, sorted_eq, settled, List.flatMap_map, Section.closed, List.cons_append]

theorem Divides.settled_sorted (h : d.Divides lines) : d.settled.Divides d.sorted.lines := by
  obtain ⟨-, hhead, hsections⟩ := divides_iff_headed.mp h
  refine divides_iff_headed.mpr ⟨lines_sorted d, hhead, fun t ht => ?_⟩
  obtain ⟨s, hs, rfl⟩ := List.mem_map.mp ht
  exact (hsections s (d.inOrder_perm.mem_iff.mp hs)).closed

/-- Sorting makes no lines but empty ones. -/
theorem Divides.mem_of_mem_sorted (h : d.Divides lines) {line : Line}
    (hline : line ∈ d.sorted.lines) : line ∈ lines ∨ line = [] := by
  rw [lines_sorted, List.mem_append] at hline
  rw [h.lines_eq]
  rcases hline with hhead | hsections
  · exact Or.inl (List.mem_append_left _ hhead)
  · obtain ⟨t, ht, hmem⟩ := List.mem_flatMap.mp hsections
    obtain ⟨s, hs, rfl⟩ := List.mem_map.mp ht
    have hwhole : line ∈ s.header :: s.body ∨ line = [] := by
      rcases List.mem_cons.mp hmem with rfl | hbody
      · exact Or.inl List.mem_cons_self
      · exact (Section.mem_of_mem_closed hbody).imp_left (List.mem_cons_of_mem s.header)
    refine hwhole.imp_left fun hwhole => List.mem_append_right _ ?_
    exact List.mem_flatMap.mpr ⟨s, d.inOrder_perm.mem_iff.mp hs, hwhole⟩

theorem Divides.sorted_lines_ne (h : d.Divides lines) (hne : lines ≠ []) : d.sorted.lines ≠ [] := by
  intro hnil
  rw [lines_sorted, List.append_eq_nil_iff, List.flatMap_eq_nil_iff] at hnil
  have hsections : d.sections = [] := by
    refine List.eq_nil_iff_forall_not_mem.mpr fun s hs => ?_
    have hclosed : s.closed ∈ d.settled.sections :=
      List.mem_map_of_mem (d.inOrder_perm.mem_iff.mpr hs)
    cases hnil.2 _ hclosed
  exact hne (by rw [h.lines_eq, hnil.1, hsections]; rfl)

theorem sorted_settled (d : Document) : d.settled.sorted = d.sorted := by
  have hpairwise : d.settled.sections.Pairwise fun a b =>
      String.ofList a.name ≤ String.ofList b.name := by
    refine List.pairwise_map.mpr ?_
    exact pairwise_mergeSort_text (fun s : Section => String.ofList s.name) d.sections
  have horder : d.settled.inOrder = d.settled.sections := mergeSort_text_of_pairwise hpairwise
  rw [sorted_eq, sorted_eq, horder, settled, List.map_map]
  simp only [Function.comp_def, Section.closed, dropBlankEnd_closed]

theorem closes_settled (d : Document) : List.Forall₂ Section.Closes d.inOrder d.settled.sections :=
  List.forall₂_map_right_iff.mpr (List.forall₂_same.mpr fun s _ => s.closes_closed)

/-- Every line that shows something stays under its header. -/
theorem contents_settled_perm (d : Document) :
    (d.settled.sections.map fun s => (s.header, shown s.body)).Perm
      (d.sections.map fun s => (s.header, shown s.body)) := by
  have hsame : (d.settled.sections.map fun s => (s.header, shown s.body)) =
      d.inOrder.map fun s => (s.header, shown s.body) := by
    rw [settled, List.map_map]
    exact List.map_congr_left fun s _ => Prod.ext rfl s.shown_body_closed
  rw [hsame]
  exact d.inOrder_perm.map _

/-- The lines that show something are those of the head and of the contents of the sections. -/
theorem shown_lines (d : Document) :
    shown (d.head ++ d.sections.flatMap fun s => s.header :: s.body) = shown d.head ++
      (d.sections.map fun s => (s.header, shown s.body)).flatMap fun pair =>
        shown [pair.1] ++ pair.2 := by
  have hsection : ∀ s : Section, shown (s.header :: s.body) = shown [s.header] ++ shown s.body :=
    fun s => shown_append [s.header] s.body
  rw [shown_append, List.flatMap_map]
  simp only [shown, List.filter_flatMap] at hsection ⊢
  simp only [hsection]

theorem shown_settled_perm (d : Document) :
    (shown (d.settled.head ++ d.settled.sections.flatMap fun s => s.header :: s.body)).Perm
      (shown (d.head ++ d.sections.flatMap fun s => s.header :: s.body)) := by
  rw [shown_lines, shown_lines]
  exact (List.Perm.flatMap_right _ d.contents_settled_perm).append_left _

end Document

section

variable (text : List Char)

theorem splitOn_sortSections :
    splitOn '\n' (sortSections text) = (Document.ofText text).sorted.lines := by
  have hdivides := Document.divides_ofLines (splitOn '\n' text)
  refine splitOn_joinWith (hdivides.sorted_lines_ne (splitOn_ne_nil '\n' text)) fun line hline => ?_
  rcases hdivides.mem_of_mem_sorted hline with hmem | rfl
  · exact not_mem_of_mem_splitOn hmem
  · exact List.not_mem_nil

theorem ofText_sortSections :
    Document.ofText (sortSections text) = (Document.ofText text).settled := by
  have hsettled := (Document.divides_ofLines (splitOn '\n' text)).settled_sorted
  rw [Document.ofText, splitOn_sortSections]
  exact (Document.divides_iff.mp hsettled).symm

theorem sortSections_sortSections : sortSections (sortSections text) = sortSections text := by
  rw [sortSections, ofText_sortSections, Document.sorted_settled]
  rfl

end

/-- A text divides into sections in one way, and so does the sorted text: into the same head and the
same sections in the order of the bytes of their names, those of one name in their order, each with
an empty line in the place of the blank lines at its end. What shows something is kept, under its
own header, and sorting again changes nothing. -/
theorem sortSections_rearranges (text : List Char) :
    ∃ d e : Document, (∀ x : Document, x.Divides (splitOn '\n' text) ↔ x = d) ∧
      (∀ x : Document, x.Divides (splitOn '\n' (sortSections text)) ↔ x = e) ∧
      e.head = d.head ∧
      (∃ order : List Section, order.Perm d.sections ∧
        order.Pairwise (fun a b => utf8 a.name ≤ utf8 b.name) ∧
        (∀ name, order.filter (·.name = name) = d.sections.filter (·.name = name)) ∧
        List.Forall₂ Section.Closes order e.sections) ∧
      (e.sections.map fun s => (s.header, shown s.body)).Perm
        (d.sections.map fun s => (s.header, shown s.body)) ∧
      (shown (splitOn '\n' (sortSections text))).Perm (shown (splitOn '\n' text)) ∧
      sortSections (sortSections text) = sortSections text := by
  let d := Document.ofText text
  have hdivides : d.Divides (splitOn '\n' text) := Document.divides_ofLines _
  have hsettled : d.settled.Divides (splitOn '\n' (sortSections text)) := by
    rw [splitOn_sortSections]
    exact hdivides.settled_sorted
  refine ⟨d, d.settled, fun x => Document.divides_iff, ?_, rfl, ⟨d.inOrder, d.inOrder_perm,
    d.pairwise_inOrder, d.filter_inOrder, d.closes_settled⟩, d.contents_settled_perm, ?_,
    sortSections_sortSections text⟩
  · intro x
    rw [Document.divides_iff, Document.divides_iff.mp hsettled]
  · rw [hdivides.lines_eq, hsettled.lines_eq]
    exact d.shown_settled_perm

end Consent.Toml

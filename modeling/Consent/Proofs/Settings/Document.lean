import Consent.Proofs.Toml.Reader
import Consent.Proofs.Toml.Sections
import Consent.Proofs.Toml.Value
import Consent.Settings.Document

/-! The settings as they are written, and the tables that are read from them. -/

namespace Consent.Settings

open Toml Text

namespace Value

/-- The value as it is read. -/
def node : Value → Node
  | .text s => .text s
  | .number n => .integer n
  | .flag b => .boolean b

/-- Whether a document can hold the value: its numbers have 64 bits. -/
def Fits : Value → Prop
  | .number n => -9223372036854775808 ≤ n ∧ n ≤ 9223372036854775807
  | .text _ | .flag _ => True

instance : DecidablePred Fits
  | .number n =>
    inferInstanceAs (Decidable (-9223372036854775808 ≤ n ∧ n ≤ 9223372036854775807))
  | .text _ | .flag _ => isTrue trivial

theorem readValue_written {v : Value} (hv : v.Fits) (rest : List Char) (fuel : Nat) :
    readValue (fuel + 1) (v.written ++ '\n' :: rest) = some (v.node, '\n' :: rest) := by
  cases v with
  | text s =>
    have hread := readValue_writeText s.toList rest fuel
    rwa [String.ofList_toList] at hread
  | number n => exact readValue_writeInteger hv.1 hv.2 rest fuel
  | flag b => exact readValue_writeBoolean b rest fuel

theorem not_mem_written (v : Value) : '\n' ∉ v.written := by
  intro hmem
  cases v with
  | text s => exact absurd (mem_writeText hmem) (by decide)
  | number n =>
    rcases mem_decimal hmem with hdigit | heq
    · exact absurd hdigit (by decide)
    · exact absurd heq (by decide)
  | flag b => cases b <;> exact absurd hmem (by decide)

theorem skipGaps_written (v : Value) (rest : List Char) :
    skipGaps (v.written ++ rest) = v.written ++ rest := by
  have hfirst : ∃ c r, v.written = c :: r ∧ isGap c = false := by
    cases v with
    | text s =>
      simp only [written, writeText]
      split
      · exact ⟨_, _, rfl, by decide⟩
      · exact ⟨_, _, rfl, by decide⟩
    | number n =>
      obtain ⟨c, r, hwritten⟩ := List.exists_cons_of_ne_nil (writeInteger_ne_nil n)
      have hc : endsScalar c = false :=
        (endsScalar_of_mem_writeInteger (n := n) (by simp [hwritten])).1
      simp only [endsScalar, Bool.or_eq_false_iff] at hc
      exact ⟨c, r, hwritten, by simp [hc]⟩
    | flag b => cases b <;> exact ⟨_, _, rfl, by decide⟩
  obtain ⟨c, r, hwritten, hc⟩ := hfirst
  rw [hwritten]
  exact skipGaps_cons hc (r ++ rest)

end Value

/-- The settings of a table by its path. -/
abbrev Contents := List String × List (String × Value)

/-- Names without quotes, none of which stands twice in the table. -/
structure PlainNames (path keys : List String) : Prop where
  ne_nil : path ≠ []
  isName_path : ∀ name ∈ path, IsName name.toList
  isName_key : ∀ key ∈ keys, IsName key.toList
  nodup : keys.Nodup

instance (path keys : List String) : Decidable (PlainNames path keys) :=
  decidable_of_iff (path ≠ [] ∧ (∀ name ∈ path, IsName name.toList) ∧
      (∀ key ∈ keys, IsName key.toList) ∧ keys.Nodup)
    ⟨fun h => ⟨h.1, h.2.1, h.2.2.1, h.2.2.2⟩,
      fun h => ⟨h.ne_nil, h.isName_path, h.isName_key, h.nodup⟩⟩

/-- A table whose names are plain. -/
def Contents.Plain (t : Contents) : Prop := PlainNames t.1 (t.2.map Prod.fst)

theorem Contents.Plain.isName {t : Contents} (ht : t.Plain) {e : String × Value} (he : e ∈ t.2) :
    IsName e.1.toList :=
  PlainNames.isName_key ht e.1 (List.mem_map_of_mem he)

/-- The section that the lines of a table are. -/
def sectionOf (t : Contents) : Toml.Section where
  name := joinWith '.' (t.1.map String.toList)
  header := headerLine t.1
  body := t.2.map (settingLine t.1) ++ if t.2.isEmpty then [] else [[]]

theorem dropWhile_indent (n : Nat) (s : List Char) :
    (indent n ++ s).dropWhile isHeaderSpace = s.dropWhile isHeaderSpace := by
  rw [List.dropWhile_append_of_pos]
  intro c hc
  rw [(List.mem_replicate.mp hc).2]
  decide

theorem not_mem_indent {c : Char} (hc : c ≠ ' ') (n : Nat) : c ∉ indent n := fun hmem =>
  hc (List.mem_replicate.mp hmem).2

section Sections

variable {t : Contents}

theorem not_mem_joinWith (ht : t.Plain) {c : Char} (hc : isNameChar c = false) (hdot : c ≠ '.') :
    c ∉ joinWith '.' (t.1.map String.toList) := by
  intro hmem
  rcases mem_of_mem_joinWith hmem with heq | ⟨name, hname, hmem⟩
  · exact hdot heq
  · obtain ⟨n, hn, rfl⟩ := List.mem_map.mp hname
    exact (PlainNames.isName_path ht n hn).not_mem hc hmem

theorem headerName?_headerLine (ht : t.Plain) :
    headerName? (headerLine t.1) = some (joinWith '.' (t.1.map String.toList)) := by
  have hbracket : ']' ∉ joinWith '.' (t.1.map String.toList) :=
    not_mem_joinWith ht (by decide) (by decide)
  have hcut : cut ']' (joinWith '.' (t.1.map String.toList) ++ [']']) =
      (joinWith '.' (t.1.map String.toList), some []) := cut_append hbracket []
  have hnames : ∀ name ∈ t.1.map String.toList, IsName name := by
    simpa using PlainNames.isName_path ht
  obtain ⟨c, r, hjoin, -⟩ := exists_joinWith (by simpa using PlainNames.ne_nil ht) hnames
  rw [headerName?, headerLine, List.append_assoc, dropWhile_indent, List.cons_append,
    List.dropWhile_cons_of_neg (by decide)]
  rw [hjoin] at hcut ⊢
  simp only [List.cons_append] at hcut ⊢
  rw [hcut]
  simp

/-- No value can make a header of its line, since the name stands before it. -/
theorem headerName?_settingLine {e : String × Value} (he : IsName e.1.toList)
    (path : List String) : headerName? (settingLine path e) = none := by
  obtain ⟨c, r, hname⟩ := List.exists_cons_of_ne_nil he.1
  have hc : isNameChar c = true := he.2 c (by simp [hname])
  have hspace : isHeaderSpace c = false := by
    rw [Bool.eq_false_iff]
    intro hspace
    simp only [isHeaderSpace, Bool.or_eq_true, decide_eq_true_eq] at hspace
    rcases hspace with ((rfl | rfl) | rfl) | rfl
    all_goals exact absurd hc (by decide)
  rw [headerName?, settingLine, List.append_assoc, List.append_assoc, dropWhile_indent, hname,
    List.cons_append, List.dropWhile_cons_of_neg (by simp [hspace])]
  split
  · rename_i heq
    exact absurd (List.cons.inj heq).1 (ne_of_isNameChar hc (by decide))
  · rfl

theorem not_mem_settingLine {e : String × Value} (he : IsName e.1.toList) (path : List String) :
    '\n' ∉ settingLine path e := by
  have hname : '\n' ∉ e.1.toList := he.not_mem (by decide)
  have hsign : '\n' ∉ " = ".toList := by decide
  simp only [settingLine, List.mem_append, not_or]
  exact ⟨⟨⟨not_mem_indent (by decide) _, hname⟩, hsign⟩, e.2.not_mem_written⟩

theorem mem_body_sectionOf {line : Line} (hline : line ∈ (sectionOf t).body) :
    (∃ e ∈ t.2, line = settingLine t.1 e) ∨ line = [] := by
  rcases List.mem_append.mp hline with hmem | hmem
  · obtain ⟨e, he, rfl⟩ := List.mem_map.mp hmem
    exact Or.inl ⟨e, he, rfl⟩
  · split at hmem
    · cases hmem
    · exact Or.inr (List.mem_singleton.mp hmem)

/-- The lines of a table are found again as one section. -/
theorem sound_sectionOf (ht : t.Plain) : (sectionOf t).Sound where
  header := headerName?_headerLine ht
  body := by
    intro line hline
    rcases mem_body_sectionOf hline with ⟨e, he, rfl⟩ | rfl
    · exact headerName?_settingLine (ht.isName he) t.1
    · rfl
  unbroken := by
    intro line hline
    rcases List.mem_cons.mp hline with rfl | hline
    · have hindent : '\n' ∉ indent (t.1.length - 1) := not_mem_indent (by decide) _
      have hname : '\n' ∉ joinWith '.' (t.1.map String.toList) :=
        not_mem_joinWith ht (by decide) (by decide)
      simp [sectionOf, headerLine, hindent, hname]
    · rcases mem_body_sectionOf hline with ⟨e, he, rfl⟩ | rfl
      · exact not_mem_settingLine (ht.isName he) t.1
      · exact List.not_mem_nil

theorem dropBlankEnd_sectionOf (t : Contents) :
    dropBlankEnd (sectionOf t).body = t.2.map (settingLine t.1) := by
  refine dropBlankEnd_append ?_ ?_
  · intro line hline
    obtain ⟨e, -, rfl⟩ := List.mem_map.mp hline
    have hsign : '=' ∈ settingLine t.1 e := by simp [settingLine]
    exact isBlankLine_eq_false hsign (by decide)
  · intro line hline
    split at hline
    · cases hline
    · rw [List.mem_singleton.mp hline]
      rfl

end Sections

/-- The tables in the order of their names. -/
def contentsInOrder (s : Settings) : List Contents := [
  (["appearance"], []),
  (["appearance", "palette"], s.palette.values),
  (["database"], s.database.values),
  (["logging"], s.logging.values),
  (["permissions"], [("default_scope", .text s.defaultScope)])]

theorem plain_contentsInOrder (s : Settings) : ∀ t ∈ s.contentsInOrder, Contents.Plain t := by
  have hplain : ∀ names ∈ (contentsInOrder .default).map fun t => (t.1, t.2.map Prod.fst),
      PlainNames names.1 names.2 := by decide +kernel
  -- The names are the same whatever the values are.
  have hnames : s.contentsInOrder.map (fun t => (t.1, t.2.map Prod.fst)) =
      (contentsInOrder .default).map fun t => (t.1, t.2.map Prod.fst) := rfl
  rw [← hnames] at hplain
  exact fun t ht => hplain (t.1, t.2.map Prod.fst) (List.mem_map_of_mem ht)

theorem contents_perm (s : Settings) : s.contents.Perm s.contentsInOrder := by
  have horder : s.contentsInOrder = s.contents.drop 3 ++ s.contents.take 3 := rfl
  have hboth : s.contents = s.contents.take 3 ++ s.contents.drop 3 := rfl
  rw [horder]
  exact hboth ▸ List.perm_append_comm

theorem pairwise_name_contentsInOrder (s : Settings) :
    (s.contentsInOrder.map sectionOf).Pairwise
      fun a b => String.ofList a.name < String.ofList b.name := by
  have hsorted : ((contentsInOrder .default).map fun t => (sectionOf t).name).Pairwise
      fun a b => String.ofList a < String.ofList b := by decide +kernel
  have hnames : s.contentsInOrder.map (fun t => (sectionOf t).name) =
      (contentsInOrder .default).map fun t => (sectionOf t).name := rfl
  rw [← hnames] at hsorted
  rw [List.pairwise_map] at hsorted ⊢
  exact hsorted

/-- The lines of tables, with an empty one behind each. -/
def linesOf (ts : List Contents) : List Line :=
  ts.flatMap fun t => headerLine t.1 :: t.2.map (settingLine t.1) ++ [[]]

theorem sortSections_encode (s : Settings) :
    sortSections s.encode = joinWith '\n' (linesOf s.contentsInOrder) := by
  have hsound : ∀ x ∈ s.contents.map sectionOf, x.Sound := by
    intro x hx
    obtain ⟨t, ht, rfl⟩ := List.mem_map.mp hx
    exact sound_sectionOf (plain_contentsInOrder s t ((contents_perm s).mem_iff.mp ht))
  have hencode : s.encode =
      joinWith '\n' ((s.contents.map sectionOf).flatMap fun x => x.header :: x.body) := by
    rw [encode, List.flatMap_map]
    rfl
  let d : Toml.Document := ⟨[], s.contents.map sectionOf⟩
  have hread : Document.ofText s.encode = d := by
    rw [hencode, Document.ofText_joinWith (by simp [contents]) hsound]
  have hsorted : d.sorted.sections =
      (s.contentsInOrder.map sectionOf).map fun x => { x with body := dropBlankEnd x.body } :=
    Document.sections_sorted ((contents_perm s).map sectionOf) (pairwise_name_contentsInOrder s)
  have hhead : d.sorted.head = [] := rfl
  rw [sortSections, hread, Document.text, Document.lines, hsorted, hhead]
  simp only [List.map_map, List.flatMap_map, List.nil_append, Function.comp_apply,
    dropBlankEnd_sectionOf]
  rfl

/-- The values as the entries of a table. -/
def entriesOf (settings : List (String × Value)) : Entries := settings.map fun e => (e.1, e.2.node)

section Reading

variable {path : List String} {settings : List (String × Value)} {d : Draft} {root all : Entries}
  {hole : Entries → Entries} {rest : List Line}

theorem reads_blank (h : Reads d (joinWith '\n' rest) all) :
    Reads d (joinWith '\n' ([] :: rest)) all := by
  cases rest with
  | nil => exact h
  | cons line more => exact h.blank

/-- One step: a header opens its table. -/
theorem reads_header (hne : path ≠ []) (hpath : ∀ name ∈ path, IsName name.toList)
    (hopen : d.root.openTable path = some root) (hrest : rest ≠ [])
    (h : Reads ⟨path, root⟩ (joinWith '\n' rest) all) :
    Reads d (joinWith '\n' (headerLine path :: rest)) all := by
  have hnames : ∀ name ∈ path.map String.toList, IsName name := by simpa using hpath
  have hsame : (path.map String.toList).map String.ofList = path := by
    simp [List.map_map, Function.comp_def]
  rw [← hsame] at hopen
  have hentry := readEntry_header (by simpa using hne) hnames hopen ('\n' :: joinWith '\n' rest)
  rw [hsame] at hentry
  have hline : headerLine path ++ '\n' :: joinWith '\n' rest =
      List.replicate (2 * (path.length - 1)) ' ' ++
        ('[' :: (joinWith '.' (path.map String.toList) ++ [']']) ++
          '\n' :: joinWith '\n' rest) := by
    simp [headerLine, indent]
  rw [joinWith_cons hrest, hline]
  refine Reads.entry (by decide) (by decide) ?_ h _
  rw [← hentry]
  simp

/-- One step: a setting goes into the open table. -/
theorem reads_setting (hhole : Entries.IsHole path hole) {e : String × Value}
    (he : IsName e.1.toList) (hfits : e.2.Fits) {es : Entries} (hnew : es.lookup e.1 = none)
    (hrest : rest ≠ [])
    (h : Reads ⟨path, hole (es ++ [(e.1, e.2.node)])⟩ (joinWith '\n' rest) all) :
    Reads ⟨path, hole es⟩ (joinWith '\n' (settingLine path e :: rest)) all := by
  have hentry := readEntry_setting he (e.2.skipGaps_written ('\n' :: joinWith '\n' rest))
    (fun fuel => Value.readValue_written hfits (joinWith '\n' rest) fuel)
    (d := ⟨path, hole es⟩) (by simpa using hhole.addKey hnew)
  obtain ⟨c, r, hname⟩ := List.exists_cons_of_ne_nil he.1
  have hc : isNameChar c = true := he.2 c (by simp [hname])
  have hstart : c ∉ ['\n', '\r', '#'] := by
    intro hmem
    have hother : ∀ q ∈ ['\n', '\r', '#'], (!isNameChar q) = true :=
      List.all_eq_true.mp (by decide)
    have hnot := hother c hmem
    rw [hc] at hnot
    cases hnot
  have hline : settingLine path e ++ '\n' :: joinWith '\n' rest =
      List.replicate (2 * path.length) ' ' ++
        (c :: (r ++ " = ".toList ++ e.2.written) ++ '\n' :: joinWith '\n' rest) := by
    simp [settingLine, indent, hname]
  rw [joinWith_cons hrest, hline]
  refine Reads.entry (isGap_of_isNameChar hc) hstart ?_ h _
  rw [hname] at hentry
  simpa using hentry

/-- The run: all settings of a table go into it, in their order. -/
theorem reads_settings (hhole : Entries.IsHole path hole)
    (hkeys : ∀ e ∈ settings, IsName e.1.toList) (hfits : ∀ e ∈ settings, e.2.Fits)
    (hnodup : (settings.map Prod.fst).Nodup) {es : Entries}
    (hnew : ∀ e ∈ settings, es.lookup e.1 = none) (hrest : rest ≠ [])
    (h : Reads ⟨path, hole (es ++ entriesOf settings)⟩ (joinWith '\n' rest) all) :
    Reads ⟨path, hole es⟩ (joinWith '\n' (settings.map (settingLine path) ++ rest)) all := by
  induction settings generalizing es with
  | nil => simpa [entriesOf] using h
  | cons e more ih =>
    obtain ⟨hkey, hkeys⟩ := List.forall_mem_cons.mp hkeys
    obtain ⟨hfit, hfits⟩ := List.forall_mem_cons.mp hfits
    obtain ⟨hnew, hnews⟩ := List.forall_mem_cons.mp hnew
    rw [List.map_cons, List.nodup_cons] at hnodup
    have hnext : ∀ e' ∈ more, (es ++ [(e.1, e.2.node)]).lookup e'.1 = none := by
      intro e' he'
      have hne : (e'.1 == e.1) = false := by
        rw [beq_eq_false_iff_ne]
        intro heq
        exact hnodup.1 (heq ▸ List.mem_map_of_mem he')
      rw [Entries.lookup_append_of_none (hnews e' he'), List.lookup_cons, hne]
      rfl
    refine reads_setting hhole hkey hfit hnew (by simp [hrest]) (ih hkeys hfits hnodup.2 hnext ?_)
    simpa [entriesOf] using h

/-- A whole table: its header opens it, and its settings go into it. -/
theorem reads_table {t : Contents} {ts : List Contents} (ht : t.Plain)
    (hfits : ∀ e ∈ t.2, e.2.Fits) (hhole : Entries.IsHole t.1 hole)
    (hopen : d.root.openTable t.1 = some (hole []))
    (h : Reads ⟨t.1, hole (entriesOf t.2)⟩ (joinWith '\n' (linesOf ts)) all) :
    Reads d (joinWith '\n' (linesOf (t :: ts))) all := by
  have hlines : linesOf (t :: ts) =
      headerLine t.1 :: (t.2.map (settingLine t.1) ++ [] :: linesOf ts) := by
    simp [linesOf]
  have hnames := PlainNames.isName_path ht
  rw [hlines]
  refine reads_header (PlainNames.ne_nil ht) hnames hopen (by simp) ?_
  refine reads_settings hhole (fun e he => ht.isName he) hfits (PlainNames.nodup ht)
    (fun e he => rfl) (by simp) ?_
  exact reads_blank h

end Reading

/-- The tables of the settings as they are read. -/
def entries (s : Settings) : Entries := [
  ("appearance", .table .header [("palette", .table .header (entriesOf s.palette.values))]),
  ("database", .table .header (entriesOf s.database.values)),
  ("logging", .table .header (entriesOf s.logging.values)),
  ("permissions", .table .header [("default_scope", .text s.defaultScope)])]

/-- The document that is written is read as the tables of the settings. -/
theorem read?_write {s : Settings} (hfits : ∀ t ∈ s.contents, ∀ e ∈ t.2, e.2.Fits) :
    read? s.write.toList = some s.entries := by
  have hplain := plain_contentsInOrder s
  have hfit : ∀ t ∈ s.contentsInOrder, ∀ e ∈ t.2, e.2.Fits := fun t ht =>
    hfits t ((contents_perm s).mem_iff.mpr ht)
  simp only [contentsInOrder, List.forall_mem_cons, List.not_mem_nil, false_implies,
    forall_const, and_true] at hplain
  obtain ⟨happearance, hpalette, hdatabase, hlogging, hpermissions⟩ := hplain
  let appearance (es : Entries) : Entries :=
    [("appearance", .table .header [("palette", .table .header es)])]
  let withDatabase : Entries := appearance (entriesOf s.palette.values) ++
    [("database", .table .header (entriesOf s.database.values))]
  let withLogging : Entries := withDatabase ++
    [("logging", .table .header (entriesOf s.logging.values))]
  have hdone : Reads ⟨["permissions"], s.entries⟩ (joinWith '\n' (linesOf [])) s.entries := .nil _
  rw [write, String.toList_ofList, sortSections_encode]
  refine Reads.read?_eq ?_
  refine reads_table happearance (hfit _ (by simp [contentsInOrder]))
    (.last .whole [] rfl .header) (Entries.openTable_of_none rfl) ?_
  refine reads_table hpalette (hfit _ (by simp [contentsInOrder]))
    (.last (.last .whole [] rfl .header) [] rfl .header)
    (Entries.openTable_last [] rfl (by simp) (Entries.openTable_of_none rfl)) ?_
  refine reads_table hdatabase (hfit _ (by simp [contentsInOrder]))
    (.last .whole (appearance (entriesOf s.palette.values)) rfl .header)
    (Entries.openTable_of_none rfl) ?_
  refine reads_table hlogging (hfit _ (by simp [contentsInOrder]))
    (.last .whole withDatabase rfl .header) (Entries.openTable_of_none rfl) ?_
  refine reads_table hpermissions (hfit _ (by simp [contentsInOrder]))
    (.last .whole withLogging rfl .header) (Entries.openTable_of_none rfl) ?_
  exact hdone

end Consent.Settings

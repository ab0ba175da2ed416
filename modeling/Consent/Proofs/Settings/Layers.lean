import Consent.Proofs.Settings.Document
import Consent.Settings.Layers

/-! Settings from a document alone: where no variable holds a setting, what was written is found
again. -/

namespace Consent

open Text Toml

/-- No variable holds a setting. -/
def Environment.Silent (env : Environment) : Prop :=
  ∀ name, env.get ("PERMSTORE_" ++ name) = ""

theorem Environment.silent_of_names {env : Environment}
    (h : ∀ v ∈ env.values, ¬"PERMSTORE_".toList <+: v.1.toList) : env.Silent := by
  intro name
  have hnone : env.values.reverse.lookup ("PERMSTORE_" ++ name) = none := by
    rw [List.lookup_eq_none_iff]
    intro v hv
    rw [bne_iff_ne]
    intro heq
    refine h v (List.mem_reverse.mp hv) ?_
    rw [← heq, String.toList_append]
    exact List.prefix_append _ _
  rw [Environment.get, hnone]
  rfl

namespace Settings

section Search

variable {es inner : Entries} {k : String} {mode : Mode}

/-- Names in lower case without dots. -/
def PlainKeys (es : Entries) : Prop :=
  ∀ e ∈ es, lowerString e.1 = e.1 ∧ '.' ∉ e.1.toList

theorem entry_eq_lookup (hes : PlainKeys es) (name : String) : entry? es name = es.lookup name := by
  unfold entry?
  induction es with
  | nil => rfl
  | cons e rest ih =>
    obtain ⟨he, hrest⟩ := List.forall_mem_cons.mp hes
    rw [List.find?_cons, he.1, List.lookup_cons]
    by_cases hname : e.1 = name
    · simp [hname]
    · have hne : (name == e.1) = false := by
        rw [beq_eq_false_iff_ne]
        exact fun heq => hname heq.symm
      simp only [hname, decide_false, hne]
      exact ih hrest

theorem entry_eq_none_of_dotted (hes : PlainKeys es) {name : String} (hname : '.' ∈ name.toList) :
    entry? es name = none := by
  unfold entry?
  rw [Option.map_eq_none_iff, List.find?_eq_none]
  intro e he heq
  obtain ⟨hlower, hdot⟩ := hes e he
  rw [hlower, decide_eq_true_eq] at heq
  rw [heq] at hdot
  exact hdot hname

/-- The search goes through tables name by name, since no name of the document has a dot. -/
theorem search_cons (hes : PlainKeys es) (hk : es.lookup k = some (.table mode inner)) {rest : Key}
    (hrest : rest ≠ []) (depth : Nat) :
    search (depth + 1) es (k :: rest) = search depth inner rest := by
  obtain ⟨next, more, rfl⟩ := List.exists_cons_of_ne_nil hrest
  have hlonger : ∀ n, entry? es (".".intercalate ((k :: next :: more).take (n + 2))) = none := by
    intro n
    refine entry_eq_none_of_dotted hes ?_
    simp [String.toList_intercalate]
  have hshort : entry? es (".".intercalate ((k :: next :: more).take 1)) =
      some (.table mode inner) := by
    rw [entry_eq_lookup hes, ← hk]
    rfl
  have hrange : (List.range (k :: next :: more).length).reverse =
      ((List.range (next :: more).length).map Nat.succ).reverse ++ [0] := by
    rw [List.length_cons, List.range_succ_eq_map, List.reverse_cons]
  rw [search, hrange, List.findSome?_append, List.findSome?_eq_none_iff.mpr]
  · simp only [List.findSome?_cons, Nat.zero_add, hshort, List.drop_succ_cons, List.drop_zero]
    cases search depth inner (next :: more) <;> rfl
  · intro n hn
    obtain ⟨m, -, rfl⟩ := List.mem_map.mp (List.mem_reverse.mp hn)
    simp only [Nat.succ_eq_add_one, hlonger]

theorem search_singleton (hes : PlainKeys es) (k : String) (depth : Nat) :
    search (depth + 1) es [k] = es.lookup k := by
  have hshort : entry? es (".".intercalate ([k].take 1)) = es.lookup k := by
    rw [entry_eq_lookup hes]
    rfl
  have hrange : (List.range [k].length).reverse = [0] := rfl
  rw [search, hrange]
  simp only [List.findSome?_cons, List.findSome?_nil, Nat.zero_add, hshort, List.drop_succ_cons,
    List.drop_zero]
  cases es.lookup k <;> rfl

end Search

theorem keys_entriesOf (settings : List (String × Value)) :
    (entriesOf settings).map Prod.fst = settings.map Prod.fst := by
  simp [entriesOf]

theorem lookup_entriesOf {settings : List (String × Value)} (h : (settings.map Prod.fst).Nodup)
    {e : String × Value} (he : e ∈ settings) :
    (entriesOf settings).lookup e.1 = some e.2.node := by
  induction settings with
  | nil => cases he
  | cons first rest ih =>
    rw [List.map_cons, List.nodup_cons] at h
    rw [entriesOf, List.map_cons, List.lookup_cons]
    rcases List.mem_cons.mp he with rfl | he
    · simp
    · have hne : (e.1 == first.1) = false := by
        rw [beq_eq_false_iff_ne]
        intro heq
        exact h.1 (heq ▸ List.mem_map_of_mem he)
      simp only [hne]
      exact ih h.2 he

/-- No name of the settings hides another from a search. -/
theorem plainKeys_of_names {es : Entries}
    (h : ∀ name ∈ es.map Prod.fst, lowerString name = name ∧ '.' ∉ name.toList) : PlainKeys es :=
  fun _ he => h _ (List.mem_map_of_mem he)

section Entries

variable (s : Settings)

theorem plainKeys_entries : PlainKeys s.entries := by
  have hnames : ∀ name ∈ ["appearance", "database", "logging", "permissions"],
      lowerString name = name ∧ '.' ∉ name.toList := by decide +kernel
  exact plainKeys_of_names hnames

theorem plainKeys_entriesOf {t : Contents} (ht : t ∈ s.contents) : PlainKeys (entriesOf t.2) := by
  have hnames : ∀ keys ∈ (contents .default).map fun t => t.2.map Prod.fst,
      ∀ name ∈ keys, lowerString name = name ∧ '.' ∉ name.toList := by decide +kernel
  have hsame : s.contents.map (fun t => t.2.map Prod.fst) =
      (contents .default).map fun t => t.2.map Prod.fst := rfl
  rw [← hsame] at hnames
  refine plainKeys_of_names ?_
  rw [keys_entriesOf]
  exact hnames (t.2.map Prod.fst) (List.mem_map_of_mem ht)

theorem plainKeys_palette (n : Node) : PlainKeys [("palette", n)] := by
  have hname : ∀ name ∈ ["palette"], lowerString name = name ∧ '.' ∉ name.toList := by
    decide +kernel
  exact plainKeys_of_names hname

/-- Every setting is found where it was written. -/
theorem find?_setting {t : Contents} (ht : t ∈ s.contents) {e : String × Value} (he : e ∈ t.2) :
    find? s.entries (t.1 ++ [e.1]) = some e.2.node := by
  have hnames := plain_contentsInOrder s t ((contents_perm s).mem_iff.mp ht)
  have hinner := plainKeys_entriesOf s ht
  have hlookup := lookup_entriesOf (PlainNames.nodup hnames) he
  have hlast : search 1 (entriesOf t.2) [e.1] = some e.2.node := by
    rw [search_singleton hinner, hlookup]
  have hroot := plainKeys_entries s
  simp only [contents, List.mem_cons, List.not_mem_nil, or_false] at ht
  rcases ht with rfl | rfl | rfl | rfl | rfl
  · rw [← hlast]
    exact search_cons hroot rfl (by simp) 1
  · rw [← hlast]
    exact search_cons hroot rfl (by simp) 1
  · rw [← hlast]
    exact search_cons hroot rfl (by simp) 1
  · cases he
  · rw [← hlast]
    have hpalette : search 2 [("palette", .table .header (entriesOf s.palette.values))]
        ["palette", e.1] = search 1 (entriesOf s.palette.values) [e.1] :=
      search_cons (plainKeys_palette _) rfl (by simp) 1
    rw [← hpalette]
    exact search_cons hroot rfl (by simp) 2

/-- What stands where a table belongs is a table. -/
theorem find?_table : ∀ table ∈ tables, ∃ mode inner,
    find? s.entries table = some (.table mode inner) := by
  have hroot := plainKeys_entries s
  simp only [tables, List.forall_mem_cons, List.not_mem_nil, false_implies, forall_const, and_true]
  refine ⟨?_, ?_, ?_, ?_, ?_⟩
  · exact ⟨_, _, search_singleton hroot "database" 0⟩
  · exact ⟨_, _, search_singleton hroot "logging" 0⟩
  · exact ⟨_, _, search_singleton hroot "permissions" 0⟩
  · exact ⟨_, _, search_singleton hroot "appearance" 0⟩
  · exact ⟨_, _, (search_cons hroot rfl (by simp) 1).trans
      (search_singleton (plainKeys_palette _) "palette" 0)⟩

end Entries

section Layers

variable {env : Environment} {es : Entries}

theorem variableOf_eq (key : Key) : ∃ name, variableOf key = "PERMSTORE_" ++ name := ⟨_, rfl⟩

theorem hides_of_silent (henv : env.Silent) (key : Key) : Layers.hides ⟨env, es⟩ key = false := by
  simp only [Layers.hides, List.any_eq_false, decide_eq_true_eq]
  intro table _
  obtain ⟨name, hname⟩ := variableOf_eq table
  simp [hname, henv name]

theorem inVariable_of_silent (henv : env.Silent) (name : String) :
    Layers.inVariable ⟨env, es⟩ ("PERMSTORE_" ++ name) = none := by
  simp [Layers.inVariable, henv name]

theorem shortVariable_of_silent (henv : env.Silent) (key : Key) :
    (shortVariable? key).bind (Layers.inVariable ⟨env, es⟩) = none := by
  unfold shortVariable?
  split
  · exact inVariable_of_silent henv "LOG_LEVEL"
  · exact inVariable_of_silent henv "LOG_FORMAT"
  · rfl

/-- Without variables, the value of a setting is the one that the document holds. -/
theorem value?_of_find? (henv : env.Silent) {key : Key} {n : Node} (h : find? es key = some n)
    (preset : Value) : Layers.value? ⟨env, es⟩ key preset = some n := by
  obtain ⟨name, hname⟩ := variableOf_eq key
  simp only [Layers.value?, hname, inVariable_of_silent henv, hides_of_silent henv,
    shortVariable_of_silent henv, h, Bool.false_eq_true, if_false]

theorem isMisplaced_of_table {table : Key} {mode : Mode} {inner : Entries}
    (h : find? es table = some (.table mode inner)) :
    Layers.isMisplaced ⟨env, es⟩ table = false := by
  simp only [Layers.isMisplaced, h]

/-- All settings are taken from the document as they were written. -/
theorem ofLayers?_entries (henv : env.Silent) (s : Settings) :
    ofLayers? ⟨env, s.entries⟩ = some s := by
  have hvalue : ∀ t ∈ s.contents, ∀ e ∈ t.2, ∀ preset,
      Layers.value? ⟨env, s.entries⟩ (t.1 ++ [e.1]) preset = some e.2.node := fun t ht e he =>
    value?_of_find? henv (find?_setting s ht he)
  have htables : tables.any (Layers.isMisplaced ⟨env, s.entries⟩) = false := by
    rw [List.any_eq_false]
    intro table htable
    obtain ⟨mode, inner, hfound⟩ := find?_table s table htable
    simp [isMisplaced_of_table hfound]
  simp only [contents, Database.values, Logging.values, Palette.values, List.forall_mem_cons,
    List.not_mem_nil, false_implies, forall_const, and_true, List.cons_append, List.nil_append,
    Value.node] at hvalue
  unfold ofLayers?
  simp only [htables, hvalue, textOf?, numberOf?, flagOf?]
  rfl

end Layers

end Settings

end Consent

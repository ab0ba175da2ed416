import Consent.Proofs.Text.Split
import Consent.Toml.Reader

/-! Reading a document line by line: what a header and what a named value make of the tables so
far. -/

namespace Consent.Toml

open Text

/-- A name that needs no quotes. -/
def IsName (name : List Char) : Prop := name ≠ [] ∧ ∀ c ∈ name, isNameChar c = true

instance (name : List Char) : Decidable (IsName name) :=
  decidable_of_iff (name ≠ [] ∧ name.all isNameChar = true) (by rw [List.all_eq_true, IsName])

theorem ne_of_isNameChar {c d : Char} (hc : isNameChar c = true) (hd : isNameChar d = false) :
    c ≠ d := by
  rintro rfl
  rw [hc] at hd
  cases hd

theorem IsName.not_mem {name : List Char} (h : IsName name) {c : Char} (hc : isNameChar c = false) :
    c ∉ name := by
  intro hmem
  exact ne_of_isNameChar (h.2 c hmem) hc rfl

theorem skipGaps_cons {c : Char} (hc : isGap c = false) (s : List Char) :
    skipGaps (c :: s) = c :: s :=
  List.dropWhile_cons_of_neg (by simp [hc])

theorem skipGaps_replicate (n : Nat) (s : List Char) :
    skipGaps (List.replicate n ' ' ++ s) = skipGaps s := by
  induction n with
  | zero => rfl
  | succ n ih => exact ih

theorem isGap_of_isNameChar {c : Char} (hc : isNameChar c = true) : isGap c = false := by
  rw [Bool.eq_false_iff]
  intro hgap
  simp only [isGap, Bool.or_eq_true, decide_eq_true_eq] at hgap
  rcases hgap with rfl | rfl
  all_goals exact absurd hc (by decide)

theorem readName_append {name after : List Char} (hname : IsName name)
    (hafter : ∀ c ∈ after.head?, isNameChar c = false) :
    readName (name ++ after) = some (.ofList name, after) := by
  obtain ⟨hne, hchars⟩ := hname
  have htake : (name ++ after).takeWhile isNameChar = name := by
    rw [List.takeWhile_append_of_pos hchars]
    cases after with
    | nil => simp
    | cons c r => simp [hafter c (by simp)]
  have hdrop : (name ++ after).dropWhile isNameChar = after := by
    rw [List.dropWhile_append_of_pos hchars]
    cases after with
    | nil => simp
    | cons c r => simp [hafter c (by simp)]
  obtain ⟨c, r, rfl⟩ := List.exists_cons_of_ne_nil hne
  have hc := hchars c List.mem_cons_self
  rw [List.cons_append] at htake hdrop ⊢
  rw [readName]
  · simp [htake, hdrop]
  · intro rest heq
    exact ne_of_isNameChar hc (by decide) (List.cons.inj heq).1
  · intro rest heq
    exact ne_of_isNameChar hc (by decide) (List.cons.inj heq).1

/-- Names with dots between them are read up to what can be no part of a name. -/
theorem readKey_joinWith {names : List (List Char)} (hne : names ≠ [])
    (hnames : ∀ name ∈ names, IsName name) {after : List Char}
    (hafter : ∀ c ∈ after.head?, isNameChar c = false) (hend : (skipGaps after).head? ≠ some '.')
    (fuel : Nat) (hfuel : names.length ≤ fuel) :
    readKey fuel (joinWith '.' names ++ after) =
      some (names.map String.ofList, skipGaps after) := by
  induction names generalizing fuel with
  | nil => exact absurd rfl hne
  | cons name rest ih =>
    have hname := hnames name List.mem_cons_self
    have hskip : ∀ s, skipGaps (name ++ s) = name ++ s := by
      intro s
      obtain ⟨c, r, rfl⟩ := List.exists_cons_of_ne_nil hname.1
      exact skipGaps_cons (isGap_of_isNameChar (hname.2 c List.mem_cons_self)) (r ++ s)
    cases fuel with
    | zero => simp at hfuel
    | succ fuel =>
      cases rest with
      | nil =>
        rw [joinWith, readKey, hskip, readName_append hname hafter]
        simp only [Option.bind_eq_bind, Option.bind_some]
        split
        · rename_i heq
          simp [heq] at hend
        · simp
      | cons other more =>
        have hrest := ih (List.cons_ne_nil other more)
          (fun n hn => hnames n (List.mem_cons_of_mem name hn)) fuel (by simpa using hfuel)
        have hdot : skipGaps ('.' :: (joinWith '.' (other :: more) ++ after)) =
            '.' :: (joinWith '.' (other :: more) ++ after) := skipGaps_cons (by decide) _
        rw [joinWith, List.append_assoc, List.cons_append, readKey, hskip,
          readName_append hname (by simp; decide)]
        · simp only [Option.bind_eq_bind, Option.bind_some, hdot, hrest]
          rfl
        · simp

theorem length_le_joinWith {names : List (List Char)} (hnames : ∀ name ∈ names, IsName name) :
    names.length ≤ (joinWith '.' names).length := by
  induction names with
  | nil => simp
  | cons name rest ih =>
    have hname : 0 < name.length := List.length_pos_iff.mpr (hnames name List.mem_cons_self).1
    have hrest := ih fun n hn => hnames n (List.mem_cons_of_mem name hn)
    cases rest with
    | nil => exact hname
    | cons other more =>
      simp only [joinWith, List.length_append, List.length_cons] at hrest ⊢
      omega

theorem exists_joinWith {names : List (List Char)} (hne : names ≠ [])
    (hnames : ∀ name ∈ names, IsName name) :
    ∃ c r, joinWith '.' names = c :: r ∧ isNameChar c = true := by
  obtain ⟨name, rest, rfl⟩ := List.exists_cons_of_ne_nil hne
  obtain ⟨hname, hchars⟩ := hnames name List.mem_cons_self
  obtain ⟨c, r, rfl⟩ := List.exists_cons_of_ne_nil hname
  have hc := hchars c List.mem_cons_self
  cases rest with
  | nil => exact ⟨c, r, rfl, hc⟩
  | cons other more => exact ⟨c, _, rfl, hc⟩

/-- The key of a header ends at the bracket. -/
theorem readKey_header {names : List (List Char)} (hne : names ≠ [])
    (hnames : ∀ name ∈ names, IsName name) (rest : List Char) :
    let s := joinWith '.' names ++ ']' :: rest
    readKey s.length s = some (names.map String.ofList, ']' :: rest) := by
  intro s
  have hbracket : skipGaps (']' :: rest) = ']' :: rest := skipGaps_cons (by decide) rest
  have hlength : names.length ≤ s.length := by
    have hle := length_le_joinWith hnames
    rw [List.length_append]
    omega
  have hafter : ∀ c ∈ (']' :: rest).head?, isNameChar c = false := by
    simp only [List.head?_cons, Option.mem_some_iff, forall_eq']
    decide
  have hread := readKey_joinWith hne hnames hafter (by simp [hbracket]) s.length hlength
  rwa [hbracket] at hread

/-- The key of a named value ends at the equals sign. -/
theorem readKey_setting {name : List Char} (hname : IsName name) (rest : List Char) :
    let s := name ++ ' ' :: '=' :: rest
    readKey s.length s = some ([.ofList name], '=' :: rest) := by
  intro s
  have hsign : skipGaps (' ' :: '=' :: rest) = '=' :: rest := by simp [skipGaps, isGap]
  have hlength : [name].length ≤ s.length := by
    have hpos := List.length_pos_iff.mpr hname.1
    rw [List.length_append, List.length_singleton]
    omega
  have hafter : ∀ c ∈ (' ' :: '=' :: rest).head?, isNameChar c = false := by
    simp only [List.head?_cons, Option.mem_some_iff, forall_eq']
    decide
  have hread := readKey_joinWith (List.cons_ne_nil name []) (by simpa using hname) hafter
    (by simp [hsign]) s.length hlength
  rwa [hsign] at hread

/-- A header opens its table. -/
theorem readEntry_header {names : List (List Char)} (hne : names ≠ [])
    (hnames : ∀ name ∈ names, IsName name) {d : Draft} {root : Entries}
    (hopen : d.root.openTable (names.map String.ofList) = some root) (rest : List Char) :
    readEntry d ('[' :: (joinWith '.' names ++ ']' :: rest)) =
      some (⟨names.map String.ofList, root⟩, rest) := by
  have hkey := readKey_header hne hnames rest
  obtain ⟨c, r, hjoin, hc⟩ := exists_joinWith hne hnames
  rw [hjoin, List.cons_append] at hkey ⊢
  rw [readEntry]
  · simp only [Option.bind_eq_bind, hkey, Option.bind_some, dropFront?, if_true, hopen]
  · intro tail heq
    exact ne_of_isNameChar hc (by decide) (List.cons.inj heq).1

/-- A named value goes into the open table. -/
theorem readEntry_setting {name written : List Char} (hname : IsName name) {n : Node}
    {rest : List Char} (hgaps : skipGaps written = written)
    (hvalue : ∀ fuel, readValue (fuel + 1) written = some (n, rest))
    {d : Draft} {root : Entries}
    (hadd : d.root.atSection (Entries.addKey n [.ofList name]) d.path = some root) :
    readEntry d (name ++ ' ' :: '=' :: ' ' :: written) = some (⟨d.path, root⟩, rest) := by
  have hkey := readKey_setting hname (' ' :: written)
  have hspace : skipGaps (' ' :: written) = written := by
    rw [skipGaps, List.dropWhile_cons_of_pos (by decide)]
    exact hgaps
  obtain ⟨c, r, rfl⟩ := List.exists_cons_of_ne_nil hname.1
  have hc := hname.2 c List.mem_cons_self
  rw [List.cons_append] at hkey ⊢
  rw [readEntry]
  · simp only [Option.bind_eq_bind, hkey, Option.bind_some, dropFront?, if_true, hspace, hvalue,
      hadd]
  · intro tail heq
    exact ne_of_isNameChar hc (by decide) (List.cons.inj heq).1
  · intro tail heq
    exact ne_of_isNameChar hc (by decide) (List.cons.inj heq).1

/-- Reading goes on from a draft, and ends with these tables. -/
def Reads (d : Draft) (s : List Char) (es : Entries) : Prop :=
  ∀ fuel, s.length < fuel → readLines fuel d s = some es

namespace Reads

variable {d d' : Draft} {rest : List Char} {es : Entries}

theorem nil (d : Draft) : Reads d [] d.root := by
  intro fuel hfuel
  cases fuel with
  | zero => simp at hfuel
  | succ fuel => rfl

theorem blank (h : Reads d rest es) : Reads d ('\n' :: rest) es := by
  intro fuel hfuel
  cases fuel with
  | zero => simp at hfuel
  | succ fuel => exact h fuel (by simpa using hfuel)

/-- One step: an entry takes a line, which may be indented. -/
theorem entry {c : Char} {line : List Char} (hgap : isGap c = false) (hc : c ∉ ['\n', '\r', '#'])
    (hentry : readEntry d (c :: line ++ '\n' :: rest) = some (d', '\n' :: rest))
    (h : Reads d' rest es) (n : Nat) :
    Reads d (List.replicate n ' ' ++ (c :: line ++ '\n' :: rest)) es := by
  intro fuel hfuel
  have hskip : skipGaps (List.replicate n ' ' ++ (c :: line ++ '\n' :: rest)) =
      c :: (line ++ '\n' :: rest) := by
    rw [skipGaps_replicate, List.cons_append, skipGaps_cons hgap]
  have hend : endLine ('\n' :: rest) = some rest := by
    simp [endLine, skipGaps, isGap]
  cases fuel with
  | zero => simp at hfuel
  | succ fuel =>
    have hrest : rest.length < fuel := by
      simp only [List.length_append, List.length_cons] at hfuel
      omega
    rw [List.cons_append] at hentry
    rw [readLines, hskip]
    split
    case h_5 => simp only [Option.bind_eq_bind, hentry, Option.bind_some, hend, h fuel hrest]
    all_goals simp_all

/-- The whole document. -/
theorem read?_eq {s : List Char} (h : Reads ⟨[], []⟩ s es) : read? s = some es :=
  h (s.length + 1) (Nat.lt_succ_self s.length)

end Reads

namespace Entries

variable {root es inner inner' : Entries} {k : String} {n : Node} {path : List String}
  {hole : Entries → Entries}

theorem lookup_append_of_none (hk : root.lookup k = none) (es : Entries) :
    (root ++ es).lookup k = es.lookup k := by
  rw [List.lookup_append, hk, Option.none_or]

theorem put_append_of_none (hk : root.lookup k = none) (old : Node) :
    put k n (root ++ [(k, old)]) = root ++ [(k, n)] := by
  induction root with
  | nil => simp [put]
  | cons e rest ih =>
    obtain ⟨name, value⟩ := e
    rw [List.lookup_cons] at hk
    split at hk
    · cases hk
    · rename_i hne
      have hname : name ≠ k := fun heq => by simp [heq] at hne
      simp [put, hname, ih hk]

/-- Whatever entries `hole` is given are those of the table at the path. -/
def IsHole (path : List String) (hole : Entries → Entries) : Prop :=
  ∀ f es, atSection f path (hole es) = (f es).map hole

theorem IsHole.whole : IsHole [] fun es => es := by
  intro f es
  rw [atSection]
  exact Option.map_id'.symm

theorem IsHole.last (h : IsHole path hole) (root : Entries) (hk : root.lookup k = none)
    (mode : Mode) :
    IsHole (k :: path) fun es => root ++ [(k, .table mode (hole es))] := by
  intro f es
  have hlookup : (root ++ [(k, Node.table mode (hole es))]).lookup k =
      some (.table mode (hole es)) := by simp [lookup_append_of_none hk]
  rw [atSection, hlookup]
  simp only [h f es, Option.map_map]
  congr 1
  funext inner
  exact put_append_of_none hk _

/-- A name that the table does not hold yet is added at its end. -/
theorem IsHole.addKey (h : IsHole path hole) (hk : es.lookup k = none) :
    (hole es).atSection (Entries.addKey n [k]) path = some (hole (es ++ [(k, n)])) := by
  rw [h]
  simp [Entries.addKey, hk]

theorem openTable_of_none (hk : root.lookup k = none) :
    openTable [k] root = some (root ++ [(k, .table .header [])]) := by
  simp [openTable, atHeader, hk]

/-- A header opens its table within the one that was opened before. -/
theorem openTable_last (root : Entries) (hk : root.lookup k = none) (hpath : path ≠ [])
    (hopen : openTable path inner = some inner') :
    openTable (k :: path) (root ++ [(k, .table .header inner)]) =
      some (root ++ [(k, .table .header inner')]) := by
  have hlookup : (root ++ [(k, Node.table .header inner)]).lookup k =
      some (.table .header inner) := by simp [lookup_append_of_none hk]
  unfold openTable at hopen ⊢
  obtain ⟨k', rest, rfl⟩ := List.exists_cons_of_ne_nil hpath
  rw [atHeader, hlookup]
  · simp [hopen, put_append_of_none hk]
  · simp

end Entries

end Consent.Toml

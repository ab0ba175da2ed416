import Consent.Proofs.Settings.RoundTrip

/-! Written settings that are read back with variables over them. A variable takes the place of one
setting, or empties a table, whatever was written: so whether the variables spoil accepted settings
does not depend on the settings. -/

namespace Consent.Settings

open Text Toml

/-- Settings that are put together from others, one by one under their keys. -/
def assemble (text : Key → String → Option String) (number : Key → Int → Option Int)
    (flag : Key → Bool → Option Bool) (s : Settings) : Option Settings := do
  let color (name preset : String) : Option String := text ["appearance", "palette", name] preset
  some {
    database := {
      path := ← text ["database", "path"] s.database.path
      placesPath := ← text ["database", "places_path"] s.database.placesPath
      busyTimeoutMs := ← number ["database", "busy_timeout_ms"] s.database.busyTimeoutMs }
    logging := {
      level := ← text ["logging", "level"] s.logging.level
      format := ← text ["logging", "format"] s.logging.format
      toFile := ← flag ["logging", "enable_file_log"] s.logging.toFile
      directory := ← text ["logging", "log_dir"] s.logging.directory
      maxSizeMb := ← number ["logging", "max_size_mb"] s.logging.maxSizeMb
      maxBackups := ← number ["logging", "max_backups"] s.logging.maxBackups
      maxAgeDays := ← number ["logging", "max_age_days"] s.logging.maxAgeDays }
    defaultScope := ← text ["permissions", "default_scope"] s.defaultScope
    palette := {
      background := ← color "background" s.palette.background
      surface := ← color "surface" s.palette.surface
      surfaceVariant := ← color "surface_variant" s.palette.surfaceVariant
      text := ← color "text" s.palette.text
      muted := ← color "muted" s.palette.muted
      accent := ← color "accent" s.palette.accent
      border := ← color "border" s.palette.border } }

/-- The value of a setting as one of a type; nothing is left of a hidden setting. -/
def Layers.take {α : Type} (l : Layers) (read : Node → Option α) (nothing : α) (wrap : α → Value)
    (key : Key) (preset : α) : Option α :=
  match l.value? key (wrap preset) with
  | some n => read n
  | none => some nothing

theorem ofLayers?_eq_assemble (l : Layers) :
    ofLayers? l = if tables.any l.isMisplaced then none
      else assemble (l.take textOf? "" .text) (l.take numberOf? 0 .number)
        (l.take flagOf? false .flag) .default := rfl

/-- What stands in the place of a setting: the value of its variable, or nothing if a variable hides
its table. -/
def replacement? (env : Environment) (key : Key) : Option String :=
  if env.get (variableOf key) ≠ "" then some (env.get (variableOf key))
  else if Layers.hides ⟨env, []⟩ key then some ""
  else (shortVariable? key).bind fun name => if env.get name ≠ "" then some (env.get name) else none

/-- A value with the variables over it. -/
def valueUnder {α : Type} (read : Node → Option α) (env : Environment) (key : Key) (x : α) :
    Option α :=
  match replacement? env key with
  | some value => read (.text value)
  | none => some x

/-- The settings with the variables over them, if these can be used where they stand. -/
def under (env : Environment) (s : Settings) : Option Settings :=
  assemble (valueUnder textOf? env) (valueUnder numberOf? env) (valueUnder flagOf? env) s

section Found

variable {env : Environment} {es : Entries} {key : Key} {n : Node}

theorem value?_eq_replacement (h : find? es key = some n) (preset : Value) :
    Layers.value? ⟨env, es⟩ key preset = match replacement? env key with
      | some value => if value = "" then none else some (.text value)
      | none => some n := by
  have hhides : Layers.hides ⟨env, es⟩ key = Layers.hides ⟨env, []⟩ key := rfl
  unfold Layers.value? replacement? Layers.inVariable
  rw [hhides]
  by_cases hvalue : env.get (variableOf key) = ""
  · cases Layers.hides ⟨env, []⟩ key with
    | true => simp [hvalue]
    | false =>
      cases shortVariable? key with
      | none => simp [hvalue, h]
      | some name => by_cases hname : env.get name = "" <;> simp [hvalue, hname, h]
  · simp [hvalue]

theorem take_of_find? {α : Type} {read : Node → Option α} {nothing x : α} {wrap : α → Value}
    (h : find? es key = some n) (hread : read n = some x)
    (hnothing : read (.text "") = some nothing) (preset : α) :
    Layers.take ⟨env, es⟩ read nothing wrap key preset = valueUnder read env key x := by
  rw [Layers.take, value?_eq_replacement h, valueUnder]
  cases replacement? env key with
  | none => exact hread
  | some value => by_cases hvalue : value = "" <;> simp [hvalue, hnothing]

theorem text_of_find? {s : String} (h : find? es key = some (.text s)) (preset : String) :
    Layers.take ⟨env, es⟩ textOf? "" .text key preset = valueUnder textOf? env key s :=
  take_of_find? h (by rfl) (by rfl) preset

theorem number_of_find? {i : Int} (h : find? es key = some (.integer i)) (preset : Int) :
    Layers.take ⟨env, es⟩ numberOf? 0 .number key preset = valueUnder numberOf? env key i :=
  take_of_find? h (by rfl) (by rfl) preset

theorem flag_of_find? {b : Bool} (h : find? es key = some (.boolean b)) (preset : Bool) :
    Layers.take ⟨env, es⟩ flagOf? false .flag key preset = valueUnder flagOf? env key b :=
  take_of_find? h (by rfl) (by rfl) preset

end Found

/-- Settings that were written are read back with the variables over them. -/
theorem ofLayers?_entries_eq_under (env : Environment) (s : Settings) :
    ofLayers? ⟨env, s.entries⟩ = s.under env := by
  have htables : tables.any (Layers.isMisplaced ⟨env, s.entries⟩) = false := by
    rw [List.any_eq_false]
    intro table htable
    obtain ⟨mode, inner, hfound⟩ := find?_table s table htable
    simp [isMisplaced_of_table hfound]
  have hfind : ∀ t ∈ s.contents, ∀ e ∈ t.2, find? s.entries (t.1 ++ [e.1]) = some e.2.node :=
    fun t ht e he => find?_setting s ht he
  simp only [contents, Database.values, Logging.values, Palette.values, List.forall_mem_cons,
    List.not_mem_nil, false_implies, forall_const, and_true, and_assoc, List.cons_append,
    List.nil_append, Value.node] at hfind
  obtain ⟨path, places, busy, -, level, format, file, directory, size, backups, age, -, scope, -, -,
    background, surface, variant, ink, muted, accent, border, -⟩ := hfind
  rw [ofLayers?_eq_assemble, htables]
  simp only [Bool.false_eq_true, if_false, under, assemble, text_of_find? path,
    text_of_find? places, number_of_find? busy, text_of_find? level, text_of_find? format,
    flag_of_find? file, text_of_find? directory, number_of_find? size, number_of_find? backups,
    number_of_find? age, text_of_find? scope, text_of_find? background, text_of_find? surface,
    text_of_find? variant, text_of_find? ink, text_of_find? muted, text_of_find? accent,
    text_of_find? border]

/-- Where the first gives a value, the second gives one too, and they are related. -/
def Matched {α : Type} (R : α → α → Prop) (x x' : Option α) : Prop :=
  ∀ y, x = some y → ∃ y', x' = some y' ∧ R y y'

theorem Matched.bind {α β : Type} {R : α → α → Prop} {Q : β → β → Prop} {x x' : Option α}
    {f f' : α → Option β} (hx : Matched R x x') (hf : ∀ y y', R y y' → Matched Q (f y) (f' y')) :
    Matched Q (x >>= f) (x' >>= f') := by
  intro z hz
  obtain ⟨y, hy, hfy⟩ := Option.bind_eq_some_iff.mp hz
  obtain ⟨y', hy', hR⟩ := hx y hy
  obtain ⟨z', hz', hQ⟩ := hf y y' hR z hfy
  exact ⟨z', Option.bind_eq_some_iff.mpr ⟨y', hy', hz'⟩, hQ⟩

/-- Values that are taken from elsewhere, whatever they were, or left as they are. -/
def Indifferent {α : Type} (take : Key → α → Option α) : Prop :=
  ∀ key x x', Matched (fun y y' => y' = y ∨ y' = x') (take key x) (take key x')

theorem indifferent_valueUnder {α : Type} (read : Node → Option α) (env : Environment) :
    Indifferent (valueUnder read env) := by
  intro key x x' y h
  unfold valueUnder at h ⊢
  cases hvalue : replacement? env key with
  | none => exact ⟨x', rfl, Or.inr rfl⟩
  | some value =>
    rw [hvalue] at h
    exact ⟨y, h, Or.inl rfl⟩

theorem check_of_either {α : Type} (check : α → List Fault) {a b c : α} (h : c = a ∨ c = b)
    (ha : check a = []) (hb : check b = []) : check c = [] := by
  rcases h with rfl | rfl
  · exact ha
  · exact hb

/-- Every setting is checked by itself, so that settings which are mixed from accepted ones are
accepted. -/
theorem matched_assemble {text : Key → String → Option String} {number : Key → Int → Option Int}
    {flag : Key → Bool → Option Bool} (htext : Indifferent text) (hnumber : Indifferent number)
    (hflag : Indifferent flag) (s : Settings) {s' : Settings}
    (hs' : s'.normalize.isValid = true) :
    Matched (fun u u' => u.normalize.isValid = true → u'.normalize.isValid = true)
      (assemble text number flag s) (assemble text number flag s') := by
  refine (htext _ _ _).bind fun _ _ _ => (htext _ _ _).bind fun _ _ _ => ?_
  refine (hnumber _ _ _).bind fun _ _ busy => ?_
  refine (htext _ _ _).bind fun _ _ level => (htext _ _ _).bind fun _ _ format => ?_
  refine (hflag _ _ _).bind fun _ _ _ => (htext _ _ _).bind fun _ _ _ => ?_
  refine (hnumber _ _ _).bind fun _ _ size => (hnumber _ _ _).bind fun _ _ backups => ?_
  refine (hnumber _ _ _).bind fun _ _ age => (htext _ _ _).bind fun _ _ scope => ?_
  refine (htext _ _ _).bind fun _ _ background => (htext _ _ _).bind fun _ _ surface => ?_
  refine (htext _ _ _).bind fun _ _ variant => (htext _ _ _).bind fun _ _ ink => ?_
  refine (htext _ _ _).bind fun _ _ muted => (htext _ _ _).bind fun _ _ accent => ?_
  refine (htext _ _ _).bind fun _ _ border => ?_
  rintro u ⟨⟩
  refine ⟨_, rfl, fun hu => ?_⟩
  have word : ∀ {words : List String} {key : String} (normal : String → String) {a b c : String},
      c = a ∨ c = b → checkWord words key (normal a) = [] → checkWord words key (normal b) = [] →
      checkWord words key (normal c) = [] := fun normal =>
    check_of_either fun found => checkWord _ _ (normal found)
  have color : ∀ {key : String} {a b c : String}, c = a ∨ c = b → checkColor key a = [] →
      checkColor key b = [] → checkColor key c = [] := check_of_either (checkColor _)
  simp only [isValid, List.isEmpty_iff, faults, normalize, List.append_eq_nil_iff, and_assoc]
    at hu hs' ⊢
  obtain ⟨u1, u2, u3, u4, u5, u6, u7, u8, u9, u10, u11, u12, u13, u14, u15⟩ := hu
  obtain ⟨v1, v2, v3, v4, v5, v6, v7, v8, v9, v10, v11, v12, v13, v14, v15⟩ := hs'
  exact ⟨check_of_either (checkLeast 0 _) busy u1 v1, check_of_either (checkMost 600000 _) busy u2 v2,
    word normalWord level u3 v3, word normalWord format u4 v4,
    check_of_either (checkLeast 1 _) size u5 v5, check_of_either (checkLeast 0 _) backups u6 v6,
    check_of_either (checkLeast 0 _) age u7 v7, word normalScope scope u8 v8,
    color background u9 v9, color surface u10 v10, color variant u11 v11, color ink u12 v12,
    color muted u13 v13, color accent u14 v14, color border u15 v15⟩

namespace Profile

variable {env : Environment} {s s' : Settings}

theorem interpret_write_eq (env : Environment) (hfits : s.Fits) (path : String) :
    interpret env path s.write = match s.under env with
      | none => .error (.unusableSettings path)
      | some u =>
        if u.normalize.isValid then .ok (u.resolvePaths env).normalize
        else .error (.invalidSettings u.normalize.faults) := by
  simp only [interpret, read?_write hfits, ofLayers?_entries_eq_under]
  cases s.under env <;> rfl

/-- Where the variables spoil some accepted settings, they spoil all. -/
theorem refused_of_refused (hfits : s.Fits) (hvalid : s.isValid = true) (hfits' : s'.Fits)
    {path path' : String} {e : Failure} (h : interpret env path s.write = .error e) :
    ∃ e', interpret env path' s'.write = .error e' := by
  rw [interpret_write_eq env hfits] at h
  rw [interpret_write_eq env hfits']
  cases hunder' : s'.under env with
  | none => exact ⟨_, rfl⟩
  | some u' =>
    cases hvalid' : u'.normalize.isValid with
    | false => exact ⟨.invalidSettings u'.normalize.faults, by simp [hvalid']⟩
    | true =>
      have hnormal : s.normalize.isValid = true := by
        rw [normalize_of_isValid hvalid]
        exact hvalid
      have hmatched := matched_assemble (indifferent_valueUnder textOf? env)
        (indifferent_valueUnder numberOf? env) (indifferent_valueUnder flagOf? env) s' hnormal
      obtain ⟨u, hunder, hu⟩ := hmatched u' hunder'
      have hunder : s.under env = some u := hunder
      simp [hunder, hu hvalid'] at h

end Profile

end Consent.Settings

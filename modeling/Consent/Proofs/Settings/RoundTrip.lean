import Consent.Proofs.Action
import Consent.Proofs.Settings.Layers
import Consent.Settings.Profile

/-! Settings that are accepted come back from the file that they are written to. -/

namespace Consent.Settings

open Text Log

/-- Whether a document can hold the settings: their numbers have 64 bits. -/
def Fits (s : Settings) : Prop := ∀ t ∈ s.contents, ∀ e ∈ t.2, e.2.Fits

instance (s : Settings) : Decidable s.Fits :=
  inferInstanceAs (Decidable (∀ t ∈ s.contents, ∀ e ∈ t.2, e.2.Fits))

theorem mem_of_checkWord {words : List String} {key found : String}
    (h : checkWord words key found = []) : found ∈ words := by
  unfold checkWord at h
  split at h
  · rename_i hmem
    simpa using hmem
  · cases h

/-- The words of accepted settings are in normal form. -/
theorem normalize_of_isValid {s : Settings} (h : s.isValid = true) : s.normalize = s := by
  have hfaults : s.faults = [] := by simpa [isValid] using h
  simp only [faults, List.append_eq_nil_iff, and_assoc] at hfaults
  obtain ⟨-, -, hlevel, hformat, -, -, -, hscope, -⟩ := hfaults
  have hlevels : ∀ word ∈ levelWords, normalWord word = word := by decide +kernel
  have hformats : ∀ word ∈ formatWords, normalWord word = word := by decide +kernel
  have hscopes : ∀ word ∈ scopeWords, normalScope word = word := by decide +kernel
  simp only [normalize, hlevels _ (mem_of_checkWord hlevel), hformats _ (mem_of_checkWord hformat),
    hscopes _ (mem_of_checkWord hscope)]

/-- Paths are not checked, so that resolving them does not bear on what is accepted. -/
theorem isValid_resolvePaths (env : Environment) (s : Settings) :
    (s.resolvePaths env).isValid = s.isValid := rfl

theorem expandHome_of_head?_ne {env : Environment} {path : String}
    (h : path.toList.head? ≠ some '~') : env.expandHome path = path := by
  unfold Environment.expandHome
  dsimp only
  split
  · rename_i heq
    simp [heq] at h
  · rfl

namespace Profile

variable {env : Environment} {s : Settings} {p : Profile} {fields : List Field}

/-- The text of accepted settings is understood as these settings. -/
theorem interpret_write (henv : env.Silent) (hfits : s.Fits) (hvalid : s.isValid = true)
    (path : String) : interpret env path s.write = .ok (s.resolvePaths env) := by
  have hsame : (s.resolvePaths env).normalize = s.resolvePaths env :=
    normalize_of_isValid ((isValid_resolvePaths env s).trans hvalid)
  simp only [interpret, read?_write hfits, ofLayers?_entries henv, hsame, isValid_resolvePaths,
    hvalid, if_true]

theorem gives_fetch {text : String} (h : p.text? env = some text) (fields : List Field) :
    (fetch env).Gives fields p text { p with found := true } := by
  refine (Action.Gives.get fields p).bind ?_
  rw [h]
  exact ⟨rfl, rfl⟩

theorem gives_load_of_interpret {text : String} (h : p.text? env = some text)
    (hread : interpret env (path env { p with found := true }) text = .ok s)
    (fields : List Field) :
    (load env).Gives fields p () { p with found := true, loaded := some s } := by
  refine (gives_fetch h fields).bind ((Action.Gives.get fields _).bind ?_)
  rw [hread]
  exact ⟨rfl, rfl⟩

theorem gives_load (henv : env.Silent) (hfits : s.Fits) (hvalid : s.isValid = true)
    (htext : p.text? env = some s.write) :
    (load env).Gives fields p () { p with found := true, loaded := some (s.resolvePaths env) } :=
  gives_load_of_interpret htext (interpret_write henv hfits hvalid _) fields

theorem gives_writeFile (s : Settings)
    (hplace : p.files.obstacle? (.ofList (Path.parent (p.path env).toList)) = none) :
    (writeFile env s).Gives fields p ()
      { p with files := p.files.write (env.absolute (p.path env)) s.write } := by
  refine (Action.Gives.get fields p).bind ?_
  have hmake : (makeDirectory p.files
      (.ofList (Path.parent (p.path env).toList))).Gives fields p () p := by
    rw [makeDirectory, hplace]
    exact ⟨rfl, rfl⟩
  exact (hmake.during .createSettingsDirectory).bind ⟨rfl, rfl⟩

theorem text?_of_write (s : Settings) :
    text? env { p with files := p.files.write (env.absolute (p.path env)) s.write } =
      some s.write :=
  Files.read?_write p.files _ _

/-- Accepted settings that are written to the file are loaded from it, whatever characters stand in
their texts. All are as before but for the paths: an empty one is the usual place, and the home
directory stands for a tilde at the front. -/
theorem gives_load_written (henv : env.Silent) (hfits : s.Fits) (hvalid : s.isValid = true)
    (fields : List Field) :
    let loaded := s.resolvePaths env
    let dirs := Directories.ofEnvironment env
    (∀ p : Profile, p.text? env = some s.write →
      (load env).Gives fields p () { p with found := true, loaded := some loaded }) ∧
    (∀ p : Profile, p.files.obstacle? (.ofList (Path.parent (p.path env).toList)) = none →
      ∃ written, (writeFile env s).Gives fields p () written ∧ written.text? env = some s.write ∧
        (load env).Gives fields written ()
          { written with found := true, loaded := some loaded }) ∧
    loaded = { s with
      database := { s.database with
        path := loaded.database.path
        placesPath := loaded.database.placesPath }
      logging := { s.logging with directory := loaded.logging.directory } } ∧
    ∀ place ∈ [(s.database.path, dirs.permissionsFile, loaded.database.path),
        (s.database.placesPath, dirs.placesFile, loaded.database.placesPath),
        (s.logging.directory, dirs.logDirectory, loaded.logging.directory)],
      place.2.2 = env.expandHome (if place.1 = "" then place.2.1 else place.1) ∧
        (place.1 ≠ "" → place.1.toList.head? ≠ some '~' → place.2.2 = place.1) := by
  intro loaded dirs
  have hload : ∀ p : Profile, p.text? env = some s.write →
      (load env).Gives fields p () { p with found := true, loaded := some loaded } :=
    fun p htext => gives_load henv hfits hvalid htext
  have hexpand : ∀ path usual,
      env.expandHome (orElse path usual) = env.expandHome (if path = "" then usual else path) ∧
        (path ≠ "" → path.toList.head? ≠ some '~' → env.expandHome (orElse path usual) = path) := by
    intro path usual
    refine ⟨rfl, fun hne hhead => ?_⟩
    rw [orElse, if_neg hne, expandHome_of_head?_ne hhead]
  refine ⟨hload, ?_, rfl, ?_⟩
  · intro p hplace
    exact ⟨_, gives_writeFile s hplace, text?_of_write s, hload _ (text?_of_write s)⟩
  · simp only [List.forall_mem_cons, List.not_mem_nil, false_implies, forall_const, and_true]
    exact ⟨hexpand _ _, hexpand _ _, hexpand _ _⟩

/-- Paths with quotes, line ends and what looks like a header, one at home and one left empty. -/
theorem gives_load_written_odd :
    let env : Environment := { values := [("HOME", "/home/me"), ("XDG_DATA_HOME", "/data")] }
    let path := "/a'b\"\n[logging]\nlevel = \\u0041\r"
    let s : Settings := {
      database := { path := path, placesPath := "~/[database]" }
      logging := { maxAgeDays := 9223372036854775807 } }
    let p : Profile := { directory := "/etc/permstore", files := {} }
    env.Silent ∧ s.Fits ∧ s.isValid = true ∧ ∃ written loaded,
      (writeFile env s).Gives [] p () written ∧
      (load env).Gives [] written () { written with found := true, loaded := some loaded } ∧
      loaded.database.path = path ∧ loaded.database.placesPath = "/home/me/[database]" ∧
      loaded.logging.directory = "/home/me/.local/state/permstore/logs" ∧
      loaded.logging.maxAgeDays = 9223372036854775807 := by
  intro env path s p
  have henv : env.Silent := Environment.silent_of_names (by decide)
  have hfits : s.Fits := by decide +kernel
  have hvalid : s.isValid = true := by decide +kernel
  obtain ⟨-, hwrite, -⟩ := gives_load_written henv hfits hvalid []
  obtain ⟨written, hwritten, -, hload⟩ := hwrite p (by decide +kernel)
  exact ⟨henv, hfits, hvalid, written, s.resolvePaths env, hwritten, hload, by decide +kernel,
    by decide +kernel, by decide +kernel, rfl⟩

end Profile

end Consent.Settings

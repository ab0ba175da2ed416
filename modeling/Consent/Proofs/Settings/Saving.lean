import Consent.Proofs.Settings.Variables

/-! What a failed save leaves behind. Settings are checked before they are written, but the check
that counts is made with the variables over them when the file is loaded again: by then the file has
been replaced. -/

namespace Consent.Settings.Profile

open Log

variable {env : Environment} {p : Profile} {fields : List Field}

/-- The profiles that loading and saving lead to, in environments that may change. The file may be
given any text from outside. -/
inductive Reached : Profile → Prop where
  | new (directory : String) (files : Files) : Reached ⟨directory, files, false, none⟩
  | load (env : Environment) (fields : List Field) {p : Profile} : Reached p →
      Reached (load env fields p).state
  | save (env : Environment) (s : Option Settings) (fields : List Field) {p : Profile} :
      Reached p → Reached (save env s fields p).state
  | edit (env : Environment) (text : String) {p : Profile} : Reached p →
      Reached { p with files := p.files.write (env.absolute (p.path env)) text }

theorem isValid_of_interpret {path text : String} {s : Settings}
    (h : interpret env path text = .ok s) : s.isValid = true := by
  unfold interpret at h
  split at h
  · cases h
  · split at h
    · cases h
    · dsimp only at h
      split at h
      · rename_i hvalid
        rw [← Except.ok.inj h]
        exact hvalid
      · cases h

section Loaded

theorem keeps_makeDirectory {I : Profile → Prop} (files : Files) (dir : String) :
    (makeDirectory files dir).Keeps I := by
  unfold makeDirectory
  cases files.obstacle? dir with
  | some file => exact .fail _
  | none => exact .pure ()

theorem keeps_writeFile (env : Environment) (s : Settings) (old : Option Settings) :
    (writeFile env s).Keeps fun p => p.loaded = old := by
  intro fields p h
  unfold writeFile
  rw [Action.state_bind, Action.answer_get, Action.state_get]
  dsimp only
  have hmake : (makeDirectory p.files (.ofList (Path.parent (p.path env).toList))).Keeps
      fun p : Profile => p.loaded = old := keeps_makeDirectory _ _
  rw [Action.state_bind]
  split
  · exact h
  · exact (hmake.during .createSettingsDirectory) fields p h

theorem keeps_fetch (env : Environment) (old : Option Settings) :
    (fetch env).Keeps fun p => p.loaded = old := by
  intro fields p h
  unfold fetch
  rw [Action.state_bind, Action.answer_get, Action.state_get]
  dsimp only
  cases p.text? env with
  | some text => exact h
  | none =>
    have hcreate := ((keeps_makeDirectory p.files p.directory).bind fun _ =>
      keeps_writeFile env .default old).during (.createDefaultSettings p.directory)
    have hmark : (Action.modify fun p : Profile => { p with found := true }).Keeps
        fun p => p.loaded = old := .modify fun _ h => h
    exact (hcreate.bind fun _ => hmark.bind fun _ => .pure _) fields p h

/-- Loading puts accepted settings in force, or fails and leaves those that are. -/
theorem load_cases (env : Environment) (fields : List Field) (p : Profile) :
    ((load env fields p).answer = .ok () ∧
      ∃ s, (load env fields p).state.loaded = some s ∧ s.isValid = true) ∨
    (∃ e, (load env fields p).answer = .error e) ∧
      (load env fields p).state.loaded = p.loaded := by
  have hkept := keeps_fetch env p.loaded fields p rfl
  unfold load
  rw [Action.answer_bind, Action.state_bind]
  cases hfetch : (fetch env fields p).answer with
  | error e => exact Or.inr ⟨⟨e, rfl⟩, hkept⟩
  | ok text =>
    generalize (fetch env fields p).state = p' at hkept ⊢
    dsimp only
    rw [Action.answer_bind, Action.state_bind, Action.answer_get, Action.state_get]
    dsimp only
    rw [Action.answer_bind, Action.state_bind, Action.answer_ofExcept, Action.state_ofExcept]
    cases hread : interpret env (p'.path env) text with
    | error e => exact Or.inr ⟨⟨e, rfl⟩, hkept⟩
    | ok s => exact Or.inl ⟨rfl, s, rfl, isValid_of_interpret hread⟩

end Loaded

theorem load_of_interpret_error {text : String} (h : p.text? env = some text) {e : Failure}
    (hread : interpret env (path env { p with found := true }) text = .error e)
    (fields : List Field) :
    (load env fields p).answer = .error e ∧
      (load env fields p).state = { p with found := true } := by
  have hfetch := gives_fetch h fields
  unfold load
  rw [Action.answer_bind, Action.state_bind, hfetch.answer, hfetch.state]
  dsimp only
  rw [Action.answer_bind, Action.state_bind, Action.answer_get, Action.state_get]
  dsimp only
  rw [hread]
  exact ⟨rfl, rfl⟩

theorem writeFile_of_obstacle? {file : String} (s : Settings)
    (h : p.files.obstacle? (.ofList (Path.parent (p.path env).toList)) = some file)
    (fields : List Field) :
    (writeFile env s fields p).answer =
        .error (.during .createSettingsDirectory (.notDirectory file)) ∧
      (writeFile env s fields p).state = p := by
  unfold writeFile makeDirectory
  rw [Action.answer_bind, Action.state_bind, Action.answer_get, Action.state_get]
  dsimp only
  rw [h]
  exact ⟨rfl, rfl⟩

/-- The profile with settings in its file. -/
def written (env : Environment) (s : Settings) (p : Profile) : Profile :=
  { p with files := p.files.write (env.absolute (p.path env)) s.write }

theorem save_eq_bind (env : Environment) {s : Settings} (hvalid : s.isValid = true) :
    save env (some s) = (writeFile env s >>= fun _ => load env) := by
  unfold save
  simp only [hvalid, if_true]

/-- Settings that were written and then refused with the variables over them stay in the file. -/
theorem save_of_refused {s : Settings} (hvalid : s.isValid = true)
    (hplace : p.files.obstacle? (.ofList (Path.parent (p.path env).toList)) = none) {e : Failure}
    (hread : interpret env (path env { p.written env s with found := true }) s.write = .error e)
    (fields : List Field) :
    (save env (some s) fields p).answer = .error e ∧
      (save env (some s) fields p).state = { p.written env s with found := true } := by
  have hsave := save_eq_bind env hvalid
  have hwrite : (writeFile env s).Gives fields p () (p.written env s) := gives_writeFile s hplace
  have htext : (p.written env s).text? env = some s.write := text?_of_write s
  rw [hsave, Action.answer_bind, Action.state_bind, hwrite.answer, hwrite.state]
  exact load_of_interpret_error htext hread fields

/-- Accepted settings are not written where a file is in the way. Otherwise the file holds them from
then on, whether or not it can be loaded. -/
theorem save_of_isValid (env : Environment) {s : Settings} (hvalid : s.isValid = true)
    (fields : List Field) (p : Profile) :
    (∃ file, (save env (some s) fields p).answer =
        .error (.during .createSettingsDirectory (.notDirectory file)) ∧
      (save env (some s) fields p).state = p) ∨
    (∃ u, (save env (some s)).Gives fields p ()
      { p.written env s with found := true, loaded := some u } ∧ u.isValid = true) ∨
    ∃ path e, interpret env path s.write = .error e ∧
      (save env (some s) fields p).answer = .error e ∧
      (save env (some s) fields p).state = { p.written env s with found := true } := by
  have hsave := save_eq_bind env hvalid
  cases hplace : p.files.obstacle? (.ofList (Path.parent (p.path env).toList)) with
  | some file =>
    obtain ⟨hanswer, hstate⟩ := writeFile_of_obstacle? s hplace fields
    rw [hsave, Action.answer_bind, Action.state_bind, hanswer, hstate]
    exact Or.inl ⟨file, rfl, rfl⟩
  | none =>
    cases hread : interpret env (path env { p.written env s with found := true }) s.write with
    | ok u =>
      have hwrite : (writeFile env s).Gives fields p () (p.written env s) :=
        gives_writeFile s hplace
      have hload := gives_load_of_interpret (text?_of_write s) hread fields
      rw [hsave]
      exact Or.inr (Or.inl ⟨u, hwrite.bind hload, isValid_of_interpret hread⟩)
    | error e => exact Or.inr (Or.inr ⟨_, e, hread, save_of_refused hvalid hplace hread fields⟩)

/-- What a save can come to. -/
theorem save_cases (env : Environment) (s : Option Settings) (fields : List Field) (p : Profile) :
    ((∀ t, s = some t → t.isValid = false) ∧ (∃ e, (save env s fields p).answer = .error e) ∧
      (save env s fields p).state = p) ∨
    ∃ t, s = some t ∧ t.isValid = true ∧
      ((∃ file, (save env s fields p).answer =
          .error (.during .createSettingsDirectory (.notDirectory file)) ∧
        (save env s fields p).state = p) ∨
      (∃ u, (save env s).Gives fields p ()
        { p.written env t with found := true, loaded := some u } ∧ u.isValid = true) ∨
      ∃ path e, interpret env path t.write = .error e ∧
        (save env s fields p).answer = .error e ∧
        (save env s fields p).state = { p.written env t with found := true }) := by
  cases s with
  | none => exact Or.inl ⟨fun t ht => (by cases ht), ⟨_, rfl⟩, rfl⟩
  | some t =>
    cases hvalid : t.isValid with
    | true => exact Or.inr ⟨t, rfl, hvalid, save_of_isValid env hvalid fields p⟩
    | false =>
      have hsave : save env (some t) = .fail (.invalidSettings t.faults) := by
        unfold save
        simp only [hvalid, Bool.false_eq_true, if_false]
      rw [hsave]
      refine Or.inl ⟨fun t' ht' => ?_, ⟨_, rfl⟩, rfl⟩
      rw [← Option.some.inj ht']
      exact hvalid

/-- Whatever was loaded and saved before, the settings in force are accepted ones. -/
theorem Reached.isValid_current (h : Reached p) : p.current.isValid = true := by
  have hdefault : Settings.default.isValid = true := by decide +kernel
  suffices hloaded : ∀ s, p.loaded = some s → s.isValid = true by
    unfold current
    cases hsome : p.loaded with
    | none => exact hdefault
    | some s => exact hloaded s hsome
  induction h with
  | new directory files => exact fun s hs => by cases hs
  | @load env fields p _ ih =>
    obtain ⟨-, u, hu, hvalid⟩ | ⟨-, hkept⟩ := load_cases env fields p
    · rw [hu]
      rintro _ ⟨⟩
      exact hvalid
    · rw [hkept]
      exact ih
  | @save env s fields p _ ih =>
    obtain ⟨-, -, hstate⟩ | ⟨t, -, -, ⟨file, -, hstate⟩ | ⟨u, hgives, hvalid⟩ |
        ⟨_, _, -, -, hstate⟩⟩ := save_cases env s fields p
    · rw [hstate]
      exact ih
    · rw [hstate]
      exact ih
    · rw [hgives.state]
      rintro _ ⟨⟩
      exact hvalid
    · rw [hstate]
      exact ih
  | edit env text _ ih => exact ih

/-- A save that fails leaves the settings in force, which are accepted ones whatever was loaded and
saved before. What is refused before it is written leaves the file too, and so does every failure
where no variable holds a setting. But accepted settings are in the file by the time that the
variables over them are refused; in such an environment all settings are refused. -/
theorem save_of_error (hp : Reached p) (env : Environment) (s : Option Settings)
    (fields : List Field) :
    p.current.isValid = true ∧ ∀ e, (save env s fields p).answer = .error e →
      let saved := (save env s fields p).state
      saved.current = p.current ∧
      ((∀ t, s = some t → t.isValid = false) → saved = p) ∧
      (∀ t, s = some t → t.isValid = true → (∀ file, e.root ≠ .notDirectory file) →
        saved = { p with
          files := p.files.write (env.absolute (p.path env)) t.write
          found := true } ∧
        (t.Fits → ∀ other : Settings, other.Fits → ∀ path,
          ∃ e', interpret env path other.write = .error e')) ∧
      (env.Silent → (∀ t, s = some t → t.Fits) → saved = p) := by
  refine ⟨hp.isValid_current, fun e hfails => ?_⟩
  dsimp only
  obtain ⟨hnot, -, hstate⟩ | ⟨t, rfl, hvalid, ⟨file, hanswer, hstate⟩ | ⟨u, hgives, -⟩ |
      ⟨path, e', hread, -, hstate⟩⟩ := save_cases env s fields p
  · refine ⟨by rw [hstate], fun _ => hstate, fun t ht hvalid => ?_, fun _ _ => hstate⟩
    rw [hnot t ht] at hvalid
    cases hvalid
  · refine ⟨by rw [hstate], fun _ => hstate, fun _ _ _ hroot => ?_, fun _ _ => hstate⟩
    cases hfails.symm.trans hanswer
    exact absurd rfl (hroot file)
  · cases hfails.symm.trans hgives.answer
  · rw [hstate]
    refine ⟨rfl, fun hnot => ?_, ?_, fun henv hfits => ?_⟩
    · rw [hnot t rfl] at hvalid
      cases hvalid
    · rintro _ ⟨⟩ - -
      exact ⟨rfl, fun hfits other hother path' => refused_of_refused hfits hvalid hother hread⟩
    · rw [interpret_write henv (hfits t rfl) hvalid] at hread
      cases hread

/-- An environment with nothing but a home. -/
def plain : Environment := { values := [("HOME", "/home/me")] }

/-- The same with a log level that is none. -/
def chatty : Environment := plain.set [("PERMSTORE_LOG_LEVEL", "chatty")]

def emptyFile : Profile :=
  ⟨"/etc/permstore", { texts := [("/etc/permstore/config.toml", "")] }, false, none⟩

def sessionScope : Settings := { defaultScope := "session" }

theorem fits_sessionScope : sessionScope.Fits := by decide +kernel

theorem save_chatty :
    (save chatty (some sessionScope) [] emptyFile).answer =
        .error (.invalidSettings [⟨"logging.level", .oneOf levelWords, "chatty"⟩]) ∧
      (save chatty (some sessionScope) [] emptyFile).state =
        { emptyFile.written chatty sessionScope with found := true } := by
  have hunder : sessionScope.under chatty =
      some { sessionScope with logging := { level := "chatty" } } := by decide +kernel
  have hplace : emptyFile.files.obstacle? (.ofList (Path.parent (emptyFile.path chatty).toList)) =
      none := by decide +kernel
  refine save_of_refused (by decide +kernel) hplace ?_ []
  rw [interpret_write_eq _ fits_sessionScope, hunder]
  decide +kernel

/-- Settings that a variable spoils, and settings that are refused before they are written. -/
theorem save_of_error_chatty :
    let saved := (save chatty (some sessionScope) [] emptyFile).state
    let yaml : Settings := { logging := { format := "yaml" } }
    (saved.files = emptyFile.files.write "/etc/permstore/config.toml" sessionScope.write ∧
      ∃ e, interpret chatty "" Settings.default.write = .error e) ∧
      (save plain (some yaml) [] emptyFile).state = emptyFile ∧
      plain.Silent ∧ emptyFile.current.isValid = true := by
  intro saved yaml
  have hreached : Reached emptyFile := .new _ _
  have hsilent : plain.Silent := Environment.silent_of_names (by decide)
  obtain ⟨hcurrent, hspoiled⟩ := save_of_error hreached chatty (some sessionScope) []
  obtain ⟨-, -, hwritten, -⟩ := hspoiled _ save_chatty.1
  obtain ⟨hsaved, hall⟩ := hwritten sessionScope rfl (by decide +kernel) (fun file h => by cases h)
  have hpath : chatty.absolute (emptyFile.path chatty) = "/etc/permstore/config.toml" := by
    decide +kernel
  have hyaml : yaml.isValid = false := by decide +kernel
  have hrefused : (save plain (some yaml) [] emptyFile).answer =
      .error (.invalidSettings yaml.faults) := by
    unfold save
    simp only [hyaml, Bool.false_eq_true, if_false]
    rfl
  obtain ⟨-, hkept⟩ := save_of_error hreached plain (some yaml) []
  refine ⟨⟨?_, hall fits_sessionScope .default (by decide +kernel) ""⟩, ?_, hsilent, hcurrent⟩
  · rw [← hpath]
    exact congrArg Profile.files hsaved
  · refine (hkept _ hrefused).2.1 ?_
    rintro _ ⟨⟩
    exact hyaml

/-- The save fails and the settings in force stay, but the file was empty and is so no more. -/
theorem refusedSave_replaces_file :
    let saved := save chatty (some sessionScope) [] emptyFile
    let file := "/etc/permstore/config.toml"
    Reached emptyFile ∧
      saved.answer = .error (.invalidSettings [⟨"logging.level", .oneOf levelWords, "chatty"⟩]) ∧
      saved.state.current = emptyFile.current ∧ emptyFile.files.read? file = some "" ∧
      saved.state.files.read? file = some sessionScope.write ∧ sessionScope.write ≠ "" := by
  intro saved file
  obtain ⟨hanswer, hstate⟩ := save_chatty
  have hpath : chatty.absolute (emptyFile.path chatty) = file := by decide +kernel
  have hwritten : saved.state.files = emptyFile.files.write file sessionScope.write := by
    rw [← hpath]
    exact congrArg Profile.files hstate
  refine ⟨.new _ _, hanswer, ?_, by decide, ?_, fun hempty => ?_⟩
  · have hkept : saved.state.loaded = emptyFile.loaded :=
      (congrArg Profile.loaded hstate).trans rfl
    rw [current, current, hkept]
  · rw [hwritten]
    exact Files.read?_write _ _ _
  · have hread := read?_write fits_sessionScope
    rw [hempty] at hread
    have hnone : Toml.read? "".toList = some [] := rfl
    cases hnone.symm.trans hread

end Consent.Settings.Profile

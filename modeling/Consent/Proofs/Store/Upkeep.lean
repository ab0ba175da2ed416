import Consent.Proofs.Store.Handle
import Consent.Proofs.Store.Keyed

/-! No operation of a store, opening it included, brings its table of decisions out of order. -/

namespace Consent

open Host Legacy

section Repository

variable {σ τ : Type} {I : σ → Prop} {repo : Repository σ}

/-- All operations of a repository keep a property of its state. -/
structure Repository.Keeps (I : σ → Prop) (repo : Repository σ) : Prop where
  get : ∀ origin kind, (repo.get origin kind).Keeps I
  set : ∀ r, (repo.set r).Keeps I
  delete : ∀ origin kind, (repo.delete origin kind).Keeps I
  getAll : ∀ origin, (repo.getAll origin).Keeps I
  list : repo.list.Keeps I
  deleteAll : repo.deleteAll.Keeps I
  deleteExpired : ∀ time, (repo.deleteExpired time).Keeps I
  deleteSession : repo.deleteSession.Keeps I

/-- The operations of two repositories agree one by one. -/
structure Repository.Simulates (R : σ → τ → Prop) (repo : Repository σ) (other : Repository τ) :
    Prop where
  get : ∀ origin kind, (repo.get origin kind).Simulates R (other.get origin kind)
  set : ∀ r, (repo.set r).Simulates R (other.set r)
  delete : ∀ origin kind, (repo.delete origin kind).Simulates R (other.delete origin kind)
  getAll : ∀ origin, (repo.getAll origin).Simulates R (other.getAll origin)
  list : repo.list.Simulates R other.list
  deleteAll : repo.deleteAll.Simulates R other.deleteAll
  deleteExpired : ∀ time, (repo.deleteExpired time).Simulates R (other.deleteExpired time)
  deleteSession : repo.deleteSession.Simulates R other.deleteSession

theorem Repository.Keeps.simulates (h : repo.Keeps I) :
    repo.Simulates (fun s u => s = u ∧ I s) repo where
  get origin kind := (h.get origin kind).simulates
  set r := (h.set r).simulates
  delete origin kind := (h.delete origin kind).simulates
  getAll origin := (h.getAll origin).simulates
  list := h.list.simulates
  deleteAll := h.deleteAll.simulates
  deleteExpired time := (h.deleteExpired time).simulates
  deleteSession := h.deleteSession.simulates

end Repository

namespace Store

namespace Database

/-- The table of decisions, if there is one, is as a store keeps it. -/
def Keyed (d : Database) : Prop := ∀ t, d.perms = some t → t.Keyed

theorem keeps_withPerms {α : Type} {f : Table → α × Table}
    (hf : ∀ t : Table, t.Keyed → (f t).2.Keyed) : (withPerms f).Keeps Keyed := by
  intro fields d h
  unfold withPerms
  rw [Action.state_bind]
  cases hperms : d.perms with
  | none =>
    simp only [Action.answer_get, Action.state_get, hperms]
    exact h
  | some t =>
    simp only [Action.answer_get, Action.state_get, hperms]
    rintro _ ⟨⟩
    exact hf t (h t hperms)

theorem keeps_readHosts {I : Database → Prop} (table : HostTable) (rows : List (Int × List Cell)) :
    (readHosts table rows).Keeps I := by
  induction rows with
  | nil => exact .pure _
  | cons row rest ih =>
    unfold readHosts
    split
    · exact ih.bind fun _ => .pure _
    · exact .logged ih

section Schema

variable {I : Database → Prop} {schema : Schema}

theorem keeps_upgrade {v : Int} (hversions : ∀ d vs, I d → I { d with versions := vs })
    (happly : (schema.apply v).Keeps I) : (upgrade schema v).Keeps I :=
  .transact (happly.bind fun _ => .modify fun d h => hversions d _ h)

theorem keeps_applyDue (hupgrade : ∀ v, (upgrade schema v).Keeps I) :
    (applyDue schema).Keeps I := by
  unfold applyDue
  refine Action.Keeps.get.bind fun d => ?_
  split
  · exact .fail _
  · exact Action.Keeps.bind (.ofExcept _) fun due => .forM hupgrade due

theorem keeps_noteUnversioned (schema : Schema) (d : Database) :
    (noteUnversioned schema d).Keeps I := by
  unfold noteUnversioned
  split
  · exact .emit _ _ _
  · exact .pure _

theorem keeps_noteApplied (schema : Schema) (before after : Database) :
    (noteApplied schema before after).Keeps I := by
  unfold noteApplied
  dsimp only
  split
  · exact .emit _ _ _
  · exact .emit _ _ _

/-- A migration keeps what its versions keep. -/
theorem keeps_migrate_of (hversions : ∀ d vs, I d → I { d with versions := vs })
    (happly : ∀ v, (schema.apply v).Keeps I) : (migrate schema).Keeps I := by
  unfold migrate
  refine Action.Keeps.bind (.modify fun d h => hversions d _ h) fun _ =>
    Action.Keeps.get.bind fun before => (keeps_noteUnversioned schema before).bind fun _ => ?_
  have happlied := keeps_applyDue fun v => keeps_upgrade hversions (happly v)
  exact (happlied.during _).bind fun _ =>
    Action.Keeps.get.bind fun after => keeps_noteApplied schema before after

end Schema

section Migration

variable [SuffixList] {ι : Type} (ask : AskIndex ι) (now : Instant)

theorem keeps_carryRow (tally : Tally) (row : Legacy.Row) :
    (carryRow ask now tally row).Keeps fun c => c.database.Keyed := by
  have hexpand : ((expand ask now (some row)).on Carrying.resolver
      fun r c => { c with resolver := r }).Keeps fun c => c.database.Keyed :=
    Action.Keeps.on (I := fun _ => True) (fun _ _ _ => trivial) (fun _ _ => trivial)
      fun _ _ _ h => h
  have hstore : ∀ tally r,
      (storeRecord now tally r).Keeps fun c : Carrying ι => c.database.Keyed := by
    intro tally r
    have hperms := keeps_withPerms (f := fun t => ((), t.upsert now r)) fun t h => h.upsert now r
    exact (hperms.on (fun _ h => h) fun _ _ h _ => h).bind fun _ => .pure _
  unfold carryRow
  refine hexpand.attempt.bind fun reply => ?_
  cases reply with
  | error e => exact .logged (.pure _)
  | ok records => exact .foldlM hstore tally records

theorem keeps_carryHosts (index : ι) : (carryHosts ask index now).Keeps Keyed := by
  unfold carryHosts
  refine Action.Keeps.get.bind fun d => ?_
  split
  · exact .fail _
  · split
    · exact .fail _
    · refine (keeps_readHosts _ _).bind fun rows => ?_
      have hcarry := Action.Keeps.foldlM (keeps_carryRow ask now) {} rows
      refine Action.Keeps.bind (.on hcarry (fun _ h => h) fun _ _ h _ => h) fun tally => ?_
      exact Action.Keeps.bind (.modify fun _ h => h) fun _ => .emit _ _ _

theorem keeps_migrate (index : ι) :
    (migrate (permissionSchema ask index now)).Keeps Keyed := by
  refine keeps_migrate_of (fun _ _ h => h) fun v => ?_
  unfold permissionSchema
  dsimp only
  split
  · exact .modify fun _ h => h
  · split
    · refine .modify fun d h => ?_
      rintro _ ⟨⟩
      cases hperms : d.perms with
      | none => exact .nil
      | some t => exact h t hperms
    · exact keeps_carryHosts ask now index

end Migration

end Database

/-- A database behind the handle has its table of decisions in order. -/
def Keyed (s : Store) : Prop := ∀ d, s.file = .database d → d.Keyed

theorem keeps_onDatabase {α : Type} {a : Action Database α} (ha : a.Keeps Database.Keyed) :
    (onDatabase a).Keeps Keyed := by
  intro fields s h
  unfold onDatabase
  cases hfile : s.file with
  | foreign => exact h
  | database d =>
    rintro _ ⟨⟩
    exact ha fields d (h d hfile)

theorem keeps_establish {I : Store → Prop} : establish.Keeps I := by
  refine Action.Keeps.get.bind fun s => ?_
  split
  · exact .fail _
  · split
    · exact .fail _
    · split
      · exact .fail _
      · exact .emit _ _ _

theorem keeps_connect {I : Store → Prop} (hI : ∀ s c, I s → I { s with connection := c }) :
    connect.Keeps I := by
  refine Action.Keeps.get.bind fun s => ?_
  split
  · exact .fail _
  · split
    · exact .pure _
    · exact .fail _
    · refine .logged (keeps_establish.attempt.bind fun reply => ?_)
      split
      · exact .modify fun s => hI s _
      · refine Action.Keeps.bind (.modify fun s => hI s _) fun _ => ?_
        exact .logged (.fail _)

section Open

variable [SuffixList] (now : Instant)

section

variable {now} {I : Store → Prop}

/-- Opening a store keeps what its steps keep. -/
theorem keeps_acquire_of (hconnect : connect.Keeps I)
    (hmigrate : ∀ history, (onDatabase (Database.migrate (Database.permissionSchema
      (Database.askHistory history) (history.getD {}) now))).Keeps I)
    (hdrop : (onDatabase (Database.deleteWhere Row.isSession)).Keeps I)
    (hopened : ∀ s, I s → I { s with opened := true }) : (acquire now).Keeps I := by
  have hopen : (ensureOpen now).Keeps I := by
    refine Action.Keeps.get.bind fun s => ?_
    split
    · exact .pure _
    · refine hconnect.bind fun _ => (hmigrate s.history).bind fun _ => ?_
      refine (Action.Keeps.during _ hdrop).bind fun dropped => ?_
      split
      · exact .logged (.modify hopened)
      · exact .modify hopened
  refine hopen.bind fun _ => Action.Keeps.get.bind fun s => ?_
  split
  · exact .fail _
  · exact .pure _

theorem keeps_serve_of {α : Type} {before : Action Store Unit} {f : Table → α × Table}
    (hacquire : (acquire now).Keeps I) (hbefore : before.Keeps I)
    (hf : (onDatabase (Database.withPerms f)).Keeps I) : (serve now before f).Keeps I :=
  hacquire.bind fun _ => hbefore.bind fun _ => hf

end

theorem keeps_acquire : (acquire now).Keeps Keyed := by
  have hdrop : (Database.deleteWhere Row.isSession).Keeps Database.Keyed :=
    Database.keeps_withPerms fun t h => h.filter _
  refine keeps_acquire_of ?_ (fun history => ?_) (keeps_onDatabase hdrop) fun _ h => h
  · exact keeps_connect fun _ _ h => h
  · exact keeps_onDatabase (Database.keeps_migrate _ now _)

theorem keeps_serve {α : Type} {before : Action Store Unit} {f : Table → α × Table}
    (hbefore : before.Keeps Keyed) (hf : ∀ t : Table, t.Keyed → (f t).2.Keyed) :
    (serve now before f).Keeps Keyed :=
  keeps_serve_of (keeps_acquire now) hbefore (keeps_onDatabase (Database.keeps_withPerms hf))

/-- No operation of a store brings the table of decisions out of order. -/
theorem keeps_repository : (repository now).Keeps Keyed where
  get _ _ := keeps_serve now (.emit _ _ _) fun _ h => h
  set r := keeps_serve now (.emit _ _ _) fun _ h => h.upsert now r
  delete _ _ := keeps_serve now (.emit _ _ _) fun _ h => h.filter _
  getAll _ := keeps_serve now (.emit _ _ _) fun _ h => h
  list := keeps_serve now (.pure _) fun _ h => h
  deleteAll := keeps_serve now (.emit _ _ _) fun _ _ => .nil
  deleteExpired _ := keeps_serve now (.pure _) fun _ h => h.filter _
  deleteSession := keeps_serve now (.pure _) fun _ h => h.filter _

end Open

end Store

end Consent

import Mathlib.Data.List.Induction
import Mathlib.Data.Nat.ModEq
import Consent.Dialog.Confirm
import Consent.Dialog.Prompt

/-! What keys do to the result of a dialog that has already ended. Neither dialog looks whether it
is done: a late key moves the selection as before, and a late confirmation answers a question that
was put off. -/

namespace Consent.Dialog

open Screen

/-- What a key means to a dialog with answers in a row. -/
inductive Stroke where
  /-- Moves the selection to the right, around the end. -/
  | move (steps : Nat)
  | select (position : Nat)
  /-- Selects an answer and gives it. -/
  | give (position : Nat)
  /-- Gives the selected answer. -/
  | confirm
  | dismiss
  | ignored
  deriving DecidableEq, Repr

namespace Stroke

/-- The position that a key sets the selection to. -/
def target? : Stroke → Option Nat
  | .select position | .give position => some position
  | _ => none

/-- How far a key moves the selection. -/
def shift : Stroke → Nat
  | .move steps => steps
  | _ => 0

/-- Whether a key gives an answer. -/
def answers : Stroke → Bool
  | .give _ | .confirm => true
  | _ => false

/-- Whether a key ends the dialog. -/
def ends (k : Stroke) : Bool := k.answers || k = .dismiss

end Stroke

/-- How far a dialog has come. -/
structure Progress where
  selected : Nat
  answered : Bool
  dismissed : Bool
  deriving DecidableEq, Repr

namespace Progress

/-- What a key does among `n` answers; whether the dialog has ended makes no difference. -/
def act (n : Nat) (p : Progress) : Stroke → Progress
  | .move steps => { p with selected := (p.selected + steps) % n }
  | .select position => { p with selected := position }
  | .give position => { p with selected := position, answered := true }
  | .confirm => { p with answered := true }
  | .dismiss => { p with dismissed := true }
  | .ignored => p

/-- What keys do one after another. -/
def after (n : Nat) (p : Progress) (ks : List Stroke) : Progress := ks.foldl (act n) p

/-- The position of the answer, if one was given. -/
def outcome (p : Progress) : Option Nat := if p.answered then some p.selected else none

end Progress

/-- The position that keys lead to: the one that the last key sets that sets any, or else the start,
moved on by the keys after it. -/
def landing (start : Nat) (ks : List Stroke) : Nat :=
  (ks.reverse.findSome? Stroke.target?).getD start +
    ((ks.reverse.takeWhile fun k => k.target? = none).map Stroke.shift).sum

theorem landing_concat (start : Nat) (ks : List Stroke) (k : Stroke) :
    landing start (ks ++ [k]) = k.target?.getD (landing start ks + k.shift) := by
  unfold landing
  rw [List.reverse_append, List.reverse_singleton, List.singleton_append, List.findSome?_cons,
    List.takeWhile_cons]
  cases htarget : k.target? with
  | some position => simp
  | none =>
    simp only [decide_true, if_true, List.map_cons, List.sum_cons, Option.getD_none]
    omega

namespace Progress

variable {n : Nat} {p : Progress} {ks : List Stroke}

theorem after_append (p : Progress) (ks late : List Stroke) :
    p.after n (ks ++ late) = (p.after n ks).after n late :=
  List.foldl_append

theorem after_concat (p : Progress) (ks : List Stroke) (k : Stroke) :
    p.after n (ks ++ [k]) = (p.after n ks).act n k := by
  rw [after_append]
  rfl

/-- Every key sets the selection or moves it on. -/
theorem selected_act (p : Progress) (k : Stroke) :
    (p.act n k).selected ≡ k.target?.getD (p.selected + k.shift) [MOD n] := by
  cases k with
  | move steps => exact Nat.mod_modEq _ n
  | _ => rfl

theorem selected_after (p : Progress) (ks : List Stroke) :
    (p.after n ks).selected ≡ landing p.selected ks [MOD n] := by
  induction ks using List.reverseRecOn with
  | nil => rfl
  | append_singleton ks k ih =>
    rw [after_concat, landing_concat]
    refine (selected_act _ k).trans ?_
    cases k.target? with
    | some position => rfl
    | none => exact ih.add_right k.shift

/-- The selection stays among the answers if the keys set it to no other position. -/
theorem selected_after_lt (hn : 0 < n) (hks : ∀ k ∈ ks, ∀ i, k.target? = some i → i < n)
    (h : p.selected < n) : (p.after n ks).selected < n := by
  induction ks using List.reverseRecOn with
  | nil => exact h
  | append_singleton ks k ih =>
    have hbefore := ih fun k' hk' => hks k' (List.mem_append_left _ hk')
    have hk := hks k (by simp)
    rw [after_concat]
    cases k with
    | move steps => exact Nat.mod_lt _ hn
    | select position => exact hk position rfl
    | give position => exact hk position rfl
    | _ => exact hbefore

/-- An answer is never taken back, and it is given by any key that answers. -/
theorem answered_after (p : Progress) (ks : List Stroke) :
    (p.after n ks).answered = (p.answered || ks.any Stroke.answers) := by
  induction ks using List.reverseRecOn with
  | nil => simp [after]
  | append_singleton ks k ih =>
    have hact : ∀ q : Progress, (q.act n k).answered = (q.answered || k.answers) := by
      intro q
      cases k <;> simp [act, Stroke.answers]
    rw [after_concat, hact, ih, List.any_append, Bool.or_assoc]
    simp

/-- What keys leave of the outcome: some answer once any of them answers, at the position that they
lead to. -/
theorem outcome_after (hn : 0 < n) (hks : ∀ k ∈ ks, ∀ i, k.target? = some i → i < n)
    (h : p.selected < n) : (p.after n ks).outcome =
      if p.answered || ks.any Stroke.answers then some (landing p.selected ks % n) else none := by
  have hselected : (p.after n ks).selected = landing p.selected ks % n := by
    rw [← Nat.mod_eq_of_lt (selected_after_lt hn hks h)]
    exact selected_after p ks
  rw [outcome, answered_after, hselected]

end Progress

section Feed

variable {σ : Type} {update : σ → Message → σ × Bool} {progress : σ → Progress} {n : Nat}
  {stroke : Message → Stroke} {m : σ} {before late : List Message} {last : Message}

theorem any_answers_eq_false (events : List Message) :
    (events.map stroke).any Stroke.answers = false ↔ ∀ e ∈ events, (stroke e).answers = false := by
  simp

/-- What events make of a dialog, also those behind its end. -/
def feed (update : σ → Message → σ × Bool) (m : σ) (events : List Message) : σ :=
  events.foldl (fun m e => (update m e).1) m

/-- The dialog ends with the event after the earlier ones, and not before. -/
structure FirstEnd (update : σ → Message → σ × Bool) (m : σ) (before : List Message)
    (last : Message) : Prop where
  goesOn : ∀ earlier e, earlier ++ [e] <+: before → (update (feed update m earlier) e).2 = false
  ends : (update (feed update m before) last).2 = true

/-- The dialog does what its keys mean among `n` answers, and ends with the keys that end it. -/
structure Follows (update : σ → Message → σ × Bool) (progress : σ → Progress) (n : Nat)
    (stroke : Message → Stroke) : Prop where
  step : ∀ m e, progress (update m e).1 = (progress m).act n (stroke e) ∧
    (update m e).2 = (stroke e).ends
  pos : 0 < n
  target_lt : ∀ e i, (stroke e).target? = some i → i < n

namespace Follows

theorem feed_eq (h : Follows update progress n stroke) (m : σ) (events : List Message) :
    progress (feed update m events) = (progress m).after n (events.map stroke) := by
  induction events generalizing m with
  | nil => rfl
  | cons e rest ih =>
    have hrest := ih (update m e).1
    rw [(h.step m e).1] at hrest
    exact hrest

theorem mem_target_lt (h : Follows update progress n stroke) (events : List Message) :
    ∀ k ∈ events.map stroke, ∀ i, k.target? = some i → i < n := by
  intro k hk i hi
  obtain ⟨e, -, rfl⟩ := List.mem_map.mp hk
  exact h.target_lt e i hi

/-- What is selected after any events, and the outcome after any more. -/
theorem outcome_append (h : Follows update progress n stroke) (hm : (progress m).selected < n)
    (early late : List Message) :
    let p := progress (feed update m early)
    p.selected < n ∧ (progress (feed update m (early ++ late))).outcome =
      if p.answered || (late.map stroke).any Stroke.answers then
        some (landing p.selected (late.map stroke) % n)
      else none := by
  have hlt : (progress (feed update m early)).selected < n := by
    rw [h.feed_eq]
    exact Progress.selected_after_lt h.pos (h.mem_target_lt early) hm
  have hsplit : feed update m (early ++ late) = feed update (feed update m early) late :=
    List.foldl_append
  refine ⟨hlt, ?_⟩
  rw [hsplit, h.feed_eq (feed update m early)]
  exact Progress.outcome_after h.pos (h.mem_target_lt late) hlt

/-- The keys alone tell when a dialog ends. -/
theorem firstEnd_iff (h : Follows update progress n stroke) :
    FirstEnd update m before last ↔
      (∀ e ∈ before, (stroke e).ends = false) ∧ (stroke last).ends = true := by
  constructor
  · intro hend
    refine ⟨fun e he => ?_, (h.step _ last).2.symm.trans hend.ends⟩
    obtain ⟨earlier, rest, rfl⟩ := List.append_of_mem he
    exact (h.step _ e).2.symm.trans (hend.goesOn earlier e ⟨rest, by simp⟩)
  · rintro ⟨hbefore, hlast⟩
    refine ⟨fun earlier e hpre => ?_, (h.step _ last).2.trans hlast⟩
    have he : e ∈ before := hpre.subset (by simp)
    exact (h.step _ e).2.trans (hbefore e he)

/-- At its first end a dialog is answered exactly if the last key answers. -/
theorem answered_of_firstEnd (h : Follows update progress n stroke)
    (hm : (progress m).answered = false) (hend : FirstEnd update m before last) :
    (progress (feed update m (before ++ [last]))).answered = (stroke last).answers := by
  have hbefore : (before.map stroke).any Stroke.answers = false := by
    refine (any_answers_eq_false before).mpr fun e he => ?_
    have hgoes := (h.firstEnd_iff.mp hend).1 e he
    rw [Stroke.ends, Bool.or_eq_false_iff] at hgoes
    exact hgoes.1
  rw [h.feed_eq, Progress.answered_after, hm, List.map_append, List.any_append, hbefore]
  simp

end Follows

end Feed

/-- The meaning of an event, from the meanings of some keys. -/
def strokeOf (table : List (String × Stroke)) : Message → Stroke
  | .key name => (table.lookup name).getD .ignored
  | .resize _ _ => .ignored

section Table

variable {table : List (String × Stroke)} {name : String}

theorem strokeOf_of_notMem (h : name ∉ table.map (·.1)) :
    strokeOf table (.key name) = .ignored := by
  have hnone : table.lookup name = none := by
    refine List.lookup_eq_none_iff.mpr fun entry hentry => ?_
    simpa using fun heq : name = entry.1 => h (heq ▸ List.mem_map_of_mem hentry)
  rw [strokeOf, hnone]
  rfl

theorem strokeOf_mem (table : List (String × Stroke)) (e : Message) :
    strokeOf table e ∈ .ignored :: table.map (·.2) := by
  match e with
  | .resize width height => exact List.mem_cons_self
  | .key name =>
    rw [strokeOf]
    cases hlookup : table.lookup name with
    | none => exact List.mem_cons_self
    | some k =>
      obtain ⟨before, after, rfl, -⟩ := List.lookup_eq_some_iff.mp hlookup
      simp

/-- A dialog follows a table of keys if it does so for the keys in it, and nothing else moves it. -/
theorem Follows.of_table {σ : Type} {update : σ → Message → σ × Bool} {progress : σ → Progress}
    {n : Nat} (hknown : ∀ m, ∀ name ∈ table.map (·.1),
      progress (update m (.key name)).1 = (progress m).act n (strokeOf table (.key name)) ∧
        (update m (.key name)).2 = (strokeOf table (.key name)).ends)
    (hother : ∀ m, ∀ name ∉ table.map (·.1), update m (.key name) = (m, false))
    (hresize : ∀ m width height, update m (.resize width height) = (m, false)) (hn : 0 < n)
    (htargets : ∀ k ∈ table.map (·.2), ∀ i ∈ k.target?, i < n) :
    Follows update progress n (strokeOf table) where
  step m e := by
    match e with
    | .resize width height =>
      rw [hresize]
      exact ⟨rfl, rfl⟩
    | .key name =>
      by_cases hname : name ∈ table.map (·.1)
      · exact hknown m name hname
      · rw [hother m name hname, strokeOf_of_notMem hname]
        exact ⟨rfl, rfl⟩
  pos := hn
  target_lt e i hi := by
    rcases List.mem_cons.mp (strokeOf_mem table e) with hignored | hmem
    · rw [hignored] at hi
      cases hi
    · exact htargets _ hmem i hi

end Table

namespace Prompt

variable {m : Prompt}

/-- What the keys of the question mean; one to the left is three to the right. -/
def strokes : List (String × Stroke) := [
  ("left", .move 3), ("h", .move 3), ("shift+tab", .move 3),
  ("right", .move 1), ("l", .move 1), ("tab", .move 1),
  ("a", .give 0), ("A", .give 1), ("b", .give 2), ("B", .give 3), ("n", .give 3),
  ("enter", .confirm), ("esc", .dismiss), ("q", .dismiss), ("ctrl+c", .dismiss)]

def stroke : Message → Stroke := strokeOf strokes

def progress (m : Prompt) : Progress := ⟨m.selected, m.answered, m.dismissed⟩

theorem follows : Follows update progress 4 stroke := by
  refine .of_table (fun m name hname => ?_) (fun m name hname => ?_) (fun _ _ _ => rfl) (by decide)
    (by decide)
  · simp only [strokes, List.map_cons, List.map_nil, List.mem_cons, List.not_mem_nil,
      or_false] at hname
    rcases hname with rfl | rfl | rfl | rfl | rfl | rfl | rfl | rfl | rfl | rfl | rfl | rfl | rfl |
      rfl | rfl <;> exact ⟨rfl, rfl⟩
  · simp only [strokes, List.map_cons, List.map_nil, List.mem_cons, List.not_mem_nil, or_false,
      not_or] at hname
    simp [update, hname]

theorem result?_eq (m : Prompt) :
    m.result? = m.progress.outcome.bind fun i => (choices[i]?).map (·.2) := by
  unfold result? Progress.outcome progress
  cases m.answered <;> rfl

/-- The answers offered differ. -/
theorem choice_injective {i j : Nat} (hi : i < 4)
    (h : (choices[i]?).map (·.2) = (choices[j]?).map (·.2)) : i = j := by
  have hanswers : (choices.map (·.2)).Nodup := by decide
  rw [← List.getElem?_map, ← List.getElem?_map] at h
  exact (List.getElem?_inj hi hanswers).mp h

/-- Late keys keep the result of an answered question if they lead back to its position, and that of
an open one if none of them answers. -/
theorem result?_append_iff (hm : m.selected < 4) (early late : List Message) :
    let ended := feed update m early
    (feed update m (early ++ late)).result? = ended.result? ↔
      if ended.answered then landing ended.selected (late.map stroke) % 4 = ended.selected
      else ∀ e ∈ late, (stroke e).answers = false := by
  intro ended
  obtain ⟨hlt, houtcome⟩ := follows.outcome_append (m := m) hm early late
  have hlt : ended.selected < 4 := hlt
  have hoffered : ∀ i < 4, (choices[i]?).map (·.2) ≠ none := by decide
  rw [result?_eq, result?_eq, houtcome]
  change Option.bind (if ended.answered || _ then some (landing ended.selected _ % 4) else none) _ =
    Option.bind (if ended.answered then some ended.selected else none) _ ↔ _
  cases ended.answered with
  | true =>
    simp only [Bool.true_or, if_true, Option.bind_some]
    exact ⟨fun h => choice_injective (Nat.mod_lt _ (by decide)) h, fun h => by rw [h]⟩
  | false =>
    rw [Bool.false_or, if_neg Bool.false_ne_true, if_neg Bool.false_ne_true,
      ← any_answers_eq_false]
    cases (late.map stroke).any Stroke.answers with
    | true => simpa using hoffered _ (Nat.mod_lt _ (by decide))
    | false => simp

end Prompt

namespace Confirm

variable {m : Confirm}

/-- What the keys of the question mean; No is at position 0 and Yes at 1. -/
def strokes : List (String × Stroke) := [
  ("tab", .move 1), ("y", .select 1), ("right", .select 1), ("l", .select 1),
  ("n", .select 0), ("left", .select 0), ("h", .select 0),
  ("enter", .confirm), ("esc", .dismiss), ("q", .dismiss), ("ctrl+c", .dismiss)]

def stroke : Message → Stroke := strokeOf strokes

def progress (m : Confirm) : Progress := ⟨m.yes.toNat, m.confirmed, m.canceled⟩

theorem follows : Follows update progress 2 stroke := by
  refine .of_table (fun m name hname => ?_) (fun m name hname => ?_) (fun _ _ _ => rfl) (by decide)
    (by decide)
  · have htab : (!m.yes).toNat = (m.yes.toNat + 1) % 2 := by cases m.yes <;> rfl
    simp only [strokes, List.map_cons, List.map_nil, List.mem_cons, List.not_mem_nil,
      or_false] at hname
    rcases hname with rfl | hname
    · exact ⟨congrArg (Progress.mk · m.confirmed m.canceled) htab, rfl⟩
    · rcases hname with rfl | rfl | rfl | rfl | rfl | rfl | rfl | rfl | rfl | rfl <;>
        exact ⟨rfl, rfl⟩
  · simp only [strokes, List.map_cons, List.map_nil, List.mem_cons, List.not_mem_nil, or_false,
      not_or] at hname
    simp [update, hname]

theorem result_eq (m : Confirm) : m.result = decide (m.progress.outcome = some 1) := by
  unfold result Progress.outcome progress
  cases m.confirmed <;> cases m.yes <;> rfl

/-- Late keys keep the result of an answered question if they lead back to its answer, and that of
an open one if none of them answers or they lead to No. -/
theorem result_append_iff (early late : List Message) :
    let ended := feed update m early
    let landed := landing ended.yes.toNat (late.map stroke) % 2
    (feed update m (early ++ late)).result = ended.result ↔
      if ended.confirmed then landed = ended.yes.toNat
      else (∀ e ∈ late, (stroke e).answers = false) ∨ landed = 0 := by
  intro ended landed
  obtain ⟨hlt, houtcome⟩ := follows.outcome_append (m := m) (Bool.toNat_lt m.yes) early late
  have hlanded : landed < 2 := Nat.mod_lt _ (by decide)
  rw [result_eq, result_eq, houtcome]
  change decide ((if ended.confirmed || _ then some landed else none) = some 1) =
    decide ((if ended.confirmed then some ended.yes.toNat else none) = some 1) ↔ _
  rw [← any_answers_eq_false]
  have hcases : landed = 0 ∨ landed = 1 := by omega
  cases ended.confirmed <;> cases ended.yes <;> cases (late.map stroke).any Stroke.answers <;>
    rcases hcases with h | h <;> simp [h]

end Confirm

/-- When a dialog keeps the result it ended with, whatever events still come. After an answer they
have to lead back to its position, by a key that sets it or by moves around the row. A question that
was put off stays open as long as none of them answers; that of Yes and No also stays denied if one
does and they lead to No. -/
theorem result_kept_iff (origin : String) (kind : Kind) (message : String)
    (before late : List Message) (last : Message) :
    (FirstEnd Prompt.update { origin, kind } before last →
      let ended := feed Prompt.update { origin, kind } (before ++ [last])
      let final := feed Prompt.update { origin, kind } (before ++ last :: late)
      (final.result? = ended.result? ↔
        if (Prompt.stroke last).answers then
          landing ended.selected (late.map Prompt.stroke) % 4 = ended.selected
        else ∀ e ∈ late, (Prompt.stroke e).answers = false)) ∧
    (FirstEnd Confirm.update { message } before last →
      let ended := feed Confirm.update { message } (before ++ [last])
      let final := feed Confirm.update { message } (before ++ last :: late)
      let landed := landing ended.yes.toNat (late.map Confirm.stroke) % 2
      (final.result = ended.result ↔
        if (Confirm.stroke last).answers then landed = ended.yes.toNat
        else (∀ e ∈ late, (Confirm.stroke e).answers = false) ∨ landed = 0)) := by
  have hsplit : before ++ last :: late = before ++ [last] ++ late := by simp
  rw [hsplit]
  constructor
  · intro hend ended final
    have hanswered : ended.answered = (Prompt.stroke last).answers :=
      Prompt.follows.answered_of_firstEnd rfl hend
    rw [← hanswered]
    exact Prompt.result?_append_iff (Nat.zero_lt_succ 3) (before ++ [last]) late
  · intro hend ended final landed
    have hconfirmed : ended.confirmed = (Confirm.stroke last).answers :=
      Confirm.follows.answered_of_firstEnd rfl hend
    rw [← hconfirmed]
    exact Confirm.result_append_iff (before ++ [last]) late

/-- An answer stands after a move there and back. A question that was put off with Yes selected
stays denied though it is confirmed late, because No is selected in the end. -/
theorem result_kept_iff_back :
    let keys : List String → List Message := List.map .key
    let prompt : Prompt := { origin := "https://example.com", kind := "camera" }
    let confirm : Confirm := { message := "Remove every stored permission?" }
    FirstEnd Prompt.update prompt (keys ["right"]) (.key "enter") ∧
      (feed Prompt.update prompt (keys ["right", "enter", "left", "tab"])).result? =
        (feed Prompt.update prompt (keys ["right", "enter"])).result? ∧
      FirstEnd Confirm.update confirm (keys ["y"]) (.key "esc") ∧
      (feed Confirm.update confirm (keys ["y", "esc", "enter", "tab"])).result =
        (feed Confirm.update confirm (keys ["y", "esc"])).result := by
  intro keys prompt confirm
  have hprompt : FirstEnd Prompt.update prompt (keys ["right"]) (.key "enter") :=
    Prompt.follows.firstEnd_iff.mpr (by decide)
  have hconfirm : FirstEnd Confirm.update confirm (keys ["y"]) (.key "esc") :=
    Confirm.follows.firstEnd_iff.mpr (by decide)
  obtain ⟨hasked, -⟩ := result_kept_iff prompt.origin prompt.kind confirm.message
    (keys ["right"]) (keys ["left", "tab"]) (.key "enter")
  obtain ⟨-, hdenied⟩ := result_kept_iff prompt.origin prompt.kind confirm.message
    (keys ["y"]) (keys ["enter", "tab"]) (.key "esc")
  exact ⟨hprompt, (hasked hprompt).mpr (by decide), hconfirm, (hdenied hconfirm).mpr (by decide)⟩

/-- Late keys make an answer of a dismissal, a lasting answer of a one-off one, and Yes of No. -/
theorem lateKey_changes_result :
    let prompt : Prompt := { origin := "https://example.com", kind := "camera" }
    let confirm : Confirm := { message := "Remove every stored permission?" }
    let asked (keys : List String) := (feed Prompt.update prompt (keys.map .key)).result?
    let confirmed (keys : List String) := (feed Confirm.update confirm (keys.map .key)).result
    FirstEnd Prompt.update prompt [] (.key "q") ∧ asked ["q"] = none ∧
      asked ["q", "a"] = some ⟨true, false⟩ ∧
      FirstEnd Prompt.update prompt [] (.key "a") ∧ asked ["a"] = some ⟨true, false⟩ ∧
      asked ["a", "right"] = some ⟨true, true⟩ ∧
      FirstEnd Confirm.update confirm [] (.key "enter") ∧ confirmed ["enter"] = false ∧
      confirmed ["enter", "y"] = true := by
  intro prompt confirm asked confirmed
  have hprompt : ∀ key ∈ ["q", "a"], FirstEnd Prompt.update prompt [] (.key key) :=
    fun key hkey => Prompt.follows.firstEnd_iff.mpr ⟨nofun, by revert key; decide⟩
  have hconfirm : FirstEnd Confirm.update confirm [] (.key "enter") :=
    Confirm.follows.firstEnd_iff.mpr (by decide)
  exact ⟨hprompt "q" (by decide), by decide, by decide, hprompt "a" (by decide), by decide,
    by decide, hconfirm, by decide, by decide⟩

end Consent.Dialog

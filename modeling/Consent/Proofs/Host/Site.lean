import Mathlib.Data.List.Basic
import Consent.Host.Registrable
import Consent.Proofs.Text.LetterCase
import Consent.Proofs.Text.Split

/-! The parents of a host belong to its site. The public suffix of a name depends on its last labels
only, so dropping labels in front of the site leaves it as it is. -/

namespace Consent.Host

open Text

section Suffix

variable {ls ls' : List (List Char)}

theorem covers_iff {rule : List String} :
    covers rule ls = true ↔ rule.map String.toList <+: ls := by
  simp [covers]

theorem covers_of_isPrefix {rule : List String} (h : ls' <+: ls) (hc : covers rule ls' = true) :
    covers rule ls = true :=
  covers_iff.mpr ((covers_iff.mp hc).trans h)

theorem covers_of_length_le {rule : List String} (h : ls' <+: ls) (hc : covers rule ls = true)
    (hl : rule.length ≤ ls'.length) : covers rule ls' = true :=
  covers_iff.mpr (List.prefix_of_prefix_length_le (covers_iff.mp hc) h (by simpa using hl))

theorem SuffixRule.length?_of_isPrefix {r : SuffixRule} {n : Nat} (h : ls' <+: ls)
    (hr : r.length? ls' = some n) : r.length? ls = some n := by
  have hlength := h.length_le
  cases r with
  | exactly rule =>
    simp only [SuffixRule.length?, Option.ite_none_right_eq_some] at hr ⊢
    exact ⟨covers_of_isPrefix h hr.1, hr.2⟩
  | below rule =>
    simp only [SuffixRule.length?, Option.ite_none_right_eq_some, Bool.and_eq_true,
      decide_eq_true_eq] at hr ⊢
    exact ⟨⟨covers_of_isPrefix h hr.1.1, by omega⟩, hr.2⟩
  | except rule => cases hr

theorem SuffixRule.length?_of_lt {r : SuffixRule} {n : Nat} (h : ls' <+: ls)
    (hr : r.length? ls = some n) (hn : n < ls'.length) : r.length? ls' = some n := by
  cases r with
  | exactly rule =>
    simp only [SuffixRule.length?, Option.ite_none_right_eq_some, Option.some.injEq] at hr ⊢
    exact ⟨covers_of_length_le h hr.1 (by omega), hr.2⟩
  | below rule =>
    simp only [SuffixRule.length?, Option.ite_none_right_eq_some, Bool.and_eq_true,
      decide_eq_true_eq, Option.some.injEq] at hr ⊢
    exact ⟨⟨covers_of_length_le h hr.1.1 (by omega), by omega⟩, hr.2⟩
  | except rule => cases hr

theorem SuffixRule.exception?_of_isPrefix {r : SuffixRule} {n : Nat} (h : ls' <+: ls)
    (hr : r.exception? ls' = some n) : r.exception? ls = some n := by
  cases r with
  | except rule =>
    simp only [SuffixRule.exception?, Option.ite_none_right_eq_some] at hr ⊢
    exact ⟨covers_of_isPrefix h hr.1, hr.2⟩
  | exactly rule => cases hr
  | below rule => cases hr

theorem SuffixRule.exception?_of_lt {r : SuffixRule} {n : Nat} (h : ls' <+: ls)
    (hr : r.exception? ls = some n) (hn : n < ls'.length) : r.exception? ls' = some n := by
  cases r with
  | except rule =>
    simp only [SuffixRule.exception?, Option.ite_none_right_eq_some, Option.some.injEq] at hr ⊢
    exact ⟨covers_of_length_le h hr.1 (by omega), hr.2⟩
  | exactly rule => cases hr
  | below rule => cases hr

private theorem le_foldl_max (ns : List Nat) (m : Nat) :
    m ≤ ns.foldl max m ∧ ∀ n ∈ ns, n ≤ ns.foldl max m := by
  induction ns generalizing m with
  | nil => simp
  | cons k rest ih =>
    obtain ⟨hmax, hrest⟩ := ih (max m k)
    rw [List.foldl_cons]
    refine ⟨by omega, fun n hn => ?_⟩
    rcases List.mem_cons.mp hn with rfl | hn
    · omega
    · exact hrest n hn

/-- Labels in front of the public suffix and one label more do not bear on it. -/
theorem suffixLength_of_isPrefix [SuffixList] (h : ls' <+: ls)
    (hlt : suffixLength ls < ls'.length) : suffixLength ls' = suffixLength ls := by
  unfold suffixLength at hlt ⊢
  cases hexc : SuffixList.rules.findSome? (SuffixRule.exception? ls) with
  | some n =>
    rw [hexc] at hlt
    obtain ⟨before, r, after, hrules, hr, hbefore⟩ := List.findSome?_eq_some_iff.mp hexc
    have hexc' : SuffixList.rules.findSome? (SuffixRule.exception? ls') = some n := by
      refine List.findSome?_eq_some_iff.mpr
        ⟨before, r, after, hrules, r.exception?_of_lt h hr hlt, ?_⟩
      intro q hq
      refine Option.eq_none_iff_forall_ne_some.mpr fun m hm => ?_
      simpa [hbefore q hq] using q.exception?_of_isPrefix h hm
    rw [hexc']
  | none =>
    rw [hexc] at hlt
    dsimp only at hlt
    have hexc' : SuffixList.rules.findSome? (SuffixRule.exception? ls') = none := by
      refine List.findSome?_eq_none_iff.mpr fun q hq => ?_
      refine Option.eq_none_iff_forall_ne_some.mpr fun m hm => ?_
      simpa [List.findSome?_eq_none_iff.mp hexc q hq] using q.exception?_of_isPrefix h hm
    have hlengths : SuffixList.rules.filterMap (SuffixRule.length? ls') =
        SuffixList.rules.filterMap (SuffixRule.length? ls) := by
      refine List.filterMap_congr fun q hq => ?_
      cases hlen : q.length? ls with
      | none =>
        refine Option.eq_none_iff_forall_ne_some.mpr fun m hm => ?_
        simpa [hlen] using q.length?_of_isPrefix h hm
      | some n =>
        have hle := (le_foldl_max (SuffixList.rules.filterMap (SuffixRule.length? ls)) 1).2 n
          (List.mem_filterMap.mpr ⟨q, hq, hlen⟩)
        exact q.length?_of_lt h hlen (by omega)
    rw [hexc', hlengths]

end Suffix

section Labels

theorem joinWith_drop_isSuffix (ls : List (List Char)) (k : Nat) :
    joinWith '.' (ls.drop k) <:+ joinWith '.' ls := by
  induction ls generalizing k with
  | nil => simp
  | cons l rest ih =>
    cases k with
    | zero => exact List.suffix_refl _
    | succ k =>
      rw [List.drop_succ_cons]
      refine (ih k).trans ?_
      cases rest with
      | nil => exact List.nil_suffix
      | cons m more => exact ⟨l ++ ['.'], by simp [joinWith]⟩

theorem joinWith_drop_isSuffix_drop (ls : List (List Char)) {i k : Nat} (hik : i ≤ k) :
    joinWith '.' (ls.drop k) <:+ joinWith '.' (ls.drop i) := by
  have hdrop := joinWith_drop_isSuffix (ls.drop i) (k - i)
  rwa [List.drop_drop, Nat.add_sub_cancel' hik] at hdrop

/-- Dropping labels shortens a name, as the dot behind them goes too. -/
theorem length_joinWith_drop_lt {ls : List (List Char)} {i k : Nat} (hik : i < k)
    (hk : k < ls.length) :
    (joinWith '.' (ls.drop k)).length < (joinWith '.' (ls.drop i)).length := by
  have hcons : ls.drop i = ls[i] :: ls.drop (i + 1) := List.drop_eq_getElem_cons (by omega)
  have hrest : ls.drop (i + 1) ≠ [] := by
    rw [Ne, List.drop_eq_nil_iff]
    omega
  have hle := (joinWith_drop_isSuffix_drop ls (by omega : i + 1 ≤ k)).length_le
  rw [hcons, joinWith_cons hrest, List.length_append, List.length_cons]
  omega

/-- Climbing to the name that is left after `k` labels meets every name on the way. -/
theorem climb_drop {ls : List (List Char)} {k : Nat} (hdot : ∀ l ∈ ls, '.' ∉ l) (hk : 0 < k)
    (hlt : k < ls.length) :
    climb (joinWith '.' (ls.drop k)) ls =
      (List.range k).map fun i => joinWith '.' (ls.drop (i + 1)) := by
  induction ls generalizing k with
  | nil => simp at hlt
  | cons l rest ih =>
    obtain ⟨k, rfl⟩ := Nat.exists_eq_add_of_lt hk
    simp only [Nat.zero_add, List.length_cons, Nat.add_lt_add_iff_right] at hlt ⊢
    have hrest : rest ≠ [] := List.length_pos_iff.mp (by omega)
    have hdot' : ∀ l ∈ rest, '.' ∉ l := fun x hx => hdot x (List.mem_cons_of_mem l hx)
    rw [climb, List.drop_succ_cons]
    simp only [List.isEmpty_iff, hrest, if_false]
    by_cases hk0 : k = 0
    · simp [hk0, List.range_succ]
    · have hne : joinWith '.' rest ≠ joinWith '.' (rest.drop k) := by
        intro heq
        have hshorter := length_joinWith_drop_lt (Nat.pos_of_ne_zero hk0) hlt
        rw [List.drop_zero, ← heq] at hshorter
        omega
      rw [if_neg hne, ih hdot' (by omega) hlt, List.range_succ_eq_map]
      simp [Function.comp_def]

theorem not_mem_of_mem_labels {host l : List Char} (h : l ∈ labels host) : '.' ∉ l :=
  not_mem_of_mem_splitOn h

theorem labels_joinWith_drop {host : List Char} {k : Nat} (hk : k < (labels host).length) :
    labels (joinWith '.' ((labels host).drop k)) = (labels host).drop k := by
  refine splitOn_joinWith ?_ fun l hl => not_mem_of_mem_labels (List.mem_of_mem_drop hl)
  rw [Ne, List.drop_eq_nil_iff]
  omega

/-- A name of labels that are not empty ends in a character of its last label. -/
theorem getLast?_joinWith {ls : List (List Char)} (hne : ls ≠ []) (h : [] ∉ ls)
    (hdot : ∀ l ∈ ls, '.' ∉ l) : ∃ c, (joinWith '.' ls).getLast? = some c ∧ c ≠ '.' := by
  induction ls with
  | nil => exact absurd rfl hne
  | cons l rest ih =>
    cases rest with
    | nil =>
      have hl : l ≠ [] := by simpa [eq_comm] using h
      refine ⟨l.getLast hl, by simp [joinWith, List.getLast?_eq_some_getLast hl], ?_⟩
      intro heq
      exact hdot l List.mem_cons_self (heq ▸ List.getLast_mem hl)
    | cons m more =>
      obtain ⟨c, hc, hcdot⟩ := ih (List.cons_ne_nil m more)
        (fun hx => h (List.mem_cons_of_mem l hx))
        (fun x hx => hdot x (List.mem_cons_of_mem l hx))
      refine ⟨c, ?_, hcdot⟩
      simp [joinWith, List.getLast?_append, List.getLast?_cons, hc]

/-- What is left of a host after dropping labels does not end in a dot. -/
theorem getLast?_drop_labels {host : List Char} {k : Nat} (h : [] ∉ labels host)
    (hk : k < (labels host).length) :
    ∃ c, (joinWith '.' ((labels host).drop k)).getLast? = some c ∧ c ≠ '.' := by
  refine getLast?_joinWith ?_ (fun hmem => h (List.mem_of_mem_drop hmem))
    fun l hl => not_mem_of_mem_labels (List.mem_of_mem_drop hl)
  rw [Ne, List.drop_eq_nil_iff]
  omega

/-- The last labels of a host are all of it, or a point stands before them. -/
theorem joinWith_drop_cases (ls : List (List Char)) {k : Nat} (hk : k < ls.length) :
    joinWith '.' ls = joinWith '.' (ls.drop k) ∨
      '.' :: joinWith '.' (ls.drop k) <:+ joinWith '.' ls := by
  induction ls generalizing k with
  | nil => simp at hk
  | cons l rest ih =>
    cases k with
    | zero => exact Or.inl rfl
    | succ k =>
      have hk' : k < rest.length := by simpa using hk
      have hjoin : joinWith '.' (l :: rest) = l ++ '.' :: joinWith '.' rest := by
        cases rest with
        | nil => simp at hk'
        | cons m more => rfl
      rw [hjoin, List.drop_succ_cons]
      right
      rcases ih hk' with heq | hsuffix
      · rw [← heq]
        exact List.suffix_append l _
      · exact hsuffix.trans ((List.suffix_cons '.' _).trans (List.suffix_append l _))

end Labels

section Site

variable {host : List Char}

theorem normal_eq_self (hlower : lower host = host) (hlast : host.getLast? ≠ some '.') :
    normal host = host := by
  simp [normal, dropLastIf, hlower, hlast]

theorem lower_normal (host : List Char) : lower (normal host) = normal host := by
  refine lower_eq_self fun c hc => ?_
  unfold normal dropLastIf at hc
  split at hc
  · exact lowerChar_of_mem_lower (List.dropLast_subset _ hc)
  · exact lowerChar_of_mem_lower hc

theorem lower_of_isSuffix_normal {s : List Char} (h : s <:+ normal host) : lower s = s := by
  refine lower_eq_self fun c hc => ?_
  refine lowerChar_of_mem_lower (s := normal host) ?_
  rw [lower_normal]
  exact h.subset hc

theorem lastLabels_isSuffix (n : Nat) (host : List Char) : lastLabels n host <:+ host := by
  have := joinWith_drop_isSuffix (labels host) ((labels host).length - n)
  rwa [labels, joinWith_splitOn] at this

theorem isOk_parseIp_of_isIpLiteral (h : isIpLiteral host = true) :
    (parseIp host).isOk = true := by
  unfold isIpLiteral at h
  cases hp : parseIp host with
  | error e => simp [hp] at h
  | ok form => rfl

variable [SuffixList]

theorem siteName?_eq_some {domain : List Char} :
    siteName? host = some domain ↔
      [] ∉ labels host ∧ (parseIp host).isOk = false ∧
        suffixLength (labels host).reverse < (labels host).length ∧
        lastLabels (suffixLength (labels host).reverse + 1) host = domain := by
  simp [siteName?, and_assoc]

/-- Only hosts with a site name have a registrable domain. -/
theorem registrable_eq (host : List Char) :
    registrable host = match siteName? (normal host) with
      | some domain => ⟨domain, true⟩
      | none => ⟨normal host, false⟩ := by
  unfold registrable
  dsimp only
  split
  · rename_i h
    have hnone : siteName? (normal host) = none := by
      refine Option.eq_none_iff_forall_ne_some.mpr fun d hd => ?_
      obtain ⟨hlabels, hip, -, -⟩ := siteName?_eq_some.mp hd
      rcases Bool.or_eq_true_iff.mp h with h | h
      · rw [List.isEmpty_iff.mp h] at hlabels
        exact hlabels (by simp [labels, splitOn])
      · rw [isOk_parseIp_of_isIpLiteral h] at hip
        cases hip
    rw [hnone]
  · rfl

theorem lower_domain (host : List Char) :
    lower (registrable host).domain = (registrable host).domain := by
  rw [registrable_eq]
  split
  · rename_i domain hsite
    obtain ⟨-, -, -, rfl⟩ := siteName?_eq_some.mp hsite
    exact lower_of_isSuffix_normal (lastLabels_isSuffix _ _)
  · exact lower_normal host

theorem registrable_lower (host : List Char) : registrable (lower host) = registrable host := by
  simp [registrable, normal]

/-- A site name does not end in a dot. -/
theorem getLast?_siteName? {domain : List Char} (h : siteName? host = some domain) :
    ∃ c, domain.getLast? = some c ∧ c ≠ '.' := by
  obtain ⟨hempty, -, hlt, rfl⟩ := siteName?_eq_some.mp h
  exact getLast?_drop_labels hempty (by omega)

/-- The parents of a host with a site are the names left after dropping labels in front of the site;
other hosts have none. -/
theorem ancestors_eq (host : List Char) :
    ancestors host = match siteName? (normal host) with
      | some _ =>
        let ls := labels (normal host)
        (List.range (ls.length - (suffixLength ls.reverse + 1))).map fun i =>
          joinWith '.' (ls.drop (i + 1))
      | none => [] := by
  -- A host that ends as a site does has lost all its points at the end.
  have hnormal : ∀ domain, siteName? (normal (normal host)) = some domain →
      domain <:+ normal host → normal (normal host) = normal host := by
    intro domain hsite hsuffix
    obtain ⟨c, hc, hdot⟩ := getLast?_siteName? hsite
    obtain ⟨front, hfront⟩ := hsuffix
    refine normal_eq_self (lower_normal host) ?_
    rw [← hfront]
    simpa [List.getLast?_append, hc] using hdot
  unfold ancestors
  dsimp only
  rw [registrable_eq]
  cases hsite : siteName? (normal host) with
  | none =>
    refine if_pos ?_
    cases hagain : siteName? (normal (normal host)) with
    | none => simp
    | some domain =>
      have hno : ¬('.' :: domain <:+ normal host) := by
        intro hsuffix
        have hends : domain <:+ normal host := (List.suffix_cons '.' domain).trans hsuffix
        rw [hnormal domain hagain hends, hsite] at hagain
        cases hagain
      rw [← List.isSuffixOf_iff_suffix, Bool.not_eq_true] at hno
      simp [hno]
  | some domain =>
    obtain ⟨hempty, -, hlt, hdomain⟩ := siteName?_eq_some.mp hsite
    have hjoin : joinWith '.' (labels (normal host)) = normal host := joinWith_splitOn '.' _
    have hsame : normal (normal host) = normal host := by
      obtain ⟨c, hc, hdot⟩ := getLast?_drop_labels hempty (k := 0) (by omega)
      rw [List.drop_zero, hjoin] at hc
      exact normal_eq_self (lower_normal host) (by simpa [hc] using hdot)
    generalize hls : labels (normal host) = ls at *
    generalize hk : ls.length - (suffixLength ls.reverse + 1) = k at *
    have hdrop : domain = joinWith '.' (ls.drop k) := by rw [← hdomain, lastLabels, hls, hk]
    have hdot : ∀ l ∈ ls, '.' ∉ l := fun l hl => not_mem_of_mem_labels (hls ▸ hl)
    simp only [hsame, hsite]
    by_cases hzero : k = 0
    · have hself : normal host = domain := by rw [hdrop, hzero, List.drop_zero, hjoin]
      simp [hself, hzero]
    · have hne : normal host ≠ domain := by
        intro heq
        have hshorter :=
          length_joinWith_drop_lt (Nat.pos_of_ne_zero hzero) (by omega : k < ls.length)
        rw [List.drop_zero, hjoin, ← hdrop, heq] at hshorter
        omega
      have hsuffix : '.' :: domain <:+ normal host := by
        have hcut := joinWith_drop_cases ls (k := k) (by omega)
        rw [hjoin, ← hdrop] at hcut
        exact hcut.resolve_left hne
      rw [← List.isSuffixOf_iff_suffix] at hsuffix
      simp only [hne, hsuffix, decide_false, Bool.not_true, Bool.or_self, Bool.false_eq_true,
        if_false]
      rw [hdrop]
      exact climb_drop hdot (by omega) (by omega)

/-- What the parents of a host are: names left after dropping labels in front of its site. -/
theorem mem_ancestors {a : List Char} (h : a ∈ ancestors host) :
    ∃ domain k, siteName? (normal host) = some domain ∧ 0 < k ∧
      k + suffixLength (labels (normal host)).reverse < (labels (normal host)).length ∧
      a = joinWith '.' ((labels (normal host)).drop k) := by
  rw [ancestors_eq] at h
  split at h
  · rename_i domain hsite
    obtain ⟨i, hi, rfl⟩ := List.mem_map.mp h
    rw [List.mem_range] at hi
    exact ⟨domain, i + 1, hsite, by omega, by omega, rfl⟩
  · cases h

/-- A parent is the end of the host in lower case. -/
theorem ancestor_isSuffix {a : List Char} (h : a ∈ ancestors host) : a <:+ normal host := by
  obtain ⟨_, k, -, -, -, rfl⟩ := mem_ancestors h
  have := joinWith_drop_isSuffix (labels (normal host)) k
  rwa [labels, joinWith_splitOn] at this

theorem lower_ancestor {a : List Char} (h : a ∈ ancestors host) : lower a = a :=
  lower_of_isSuffix_normal (ancestor_isSuffix h)

theorem getLast?_ancestor {a : List Char} (h : a ∈ ancestors host) :
    ∃ c, a.getLast? = some c ∧ c ≠ '.' := by
  obtain ⟨domain, k, hsite, -, hk, rfl⟩ := mem_ancestors h
  obtain ⟨hempty, -, -, -⟩ := siteName?_eq_some.mp hsite
  exact getLast?_drop_labels hempty (by omega)

theorem normal_ancestor {a : List Char} (h : a ∈ ancestors host) : normal a = a := by
  obtain ⟨c, hc, hdot⟩ := getLast?_ancestor h
  refine normal_eq_self (lower_ancestor h) ?_
  rw [hc]
  simpa using hdot

theorem mem_of_mem_ancestor {a : List Char} {c : Char} (h : a ∈ ancestors host) (hc : c ∈ a) :
    c ∈ lower host := by
  have hmem := (ancestor_isSuffix h).subset hc
  unfold normal dropLastIf at hmem
  split at hmem
  · exact List.dropLast_subset _ hmem
  · exact hmem

omit [SuffixList] in
/-- Every name on the way up is shorter than the one before it. -/
theorem pairwise_climb (domain : List Char) (ls : List (List Char)) :
    (joinWith '.' ls :: climb domain ls).Pairwise fun a b => b.length < a.length := by
  induction ls with
  | nil => exact List.pairwise_singleton _ _
  | cons l rest ih =>
    cases rest with
    | nil => exact List.pairwise_singleton _ _
    | cons m more =>
      have hlt : (joinWith '.' (m :: more)).length < (joinWith '.' (l :: m :: more)).length := by
        simp [joinWith]
        omega
      have hparents : (joinWith '.' (m :: more) :: climb domain (m :: more)).Pairwise
          fun a b => b.length < a.length := ih
      obtain ⟨hfirst, -⟩ := List.pairwise_cons.mp hparents
      unfold climb
      simp only [List.isEmpty_cons, Bool.false_eq_true, if_false]
      split
      · simpa using hlt
      · refine List.pairwise_cons.mpr ⟨fun a ha => ?_, hparents⟩
        rcases List.mem_cons.mp ha with rfl | ha
        · exact hlt
        · have := hfirst a ha
          omega

/-- The host and its parents are distinct, as each of them is shorter than those before it. -/
theorem pairwise_ancestors (host : List Char) :
    (host :: ancestors host).Pairwise fun a b => b.length < a.length := by
  have hle : (normal host).length ≤ host.length := by
    have hlower : (lower host).length = host.length := by simp [lower]
    unfold normal dropLastIf
    split
    · rw [List.length_dropLast]
      omega
    · omega
  unfold ancestors
  dsimp only
  split
  · exact List.pairwise_singleton _ _
  · have hclimb := pairwise_climb (registrable (normal host)).domain (labels (normal host))
    rw [show joinWith '.' (labels (normal host)) = normal host from joinWith_splitOn _ _] at hclimb
    obtain ⟨hfirst, hparents⟩ := List.pairwise_cons.mp hclimb
    refine List.pairwise_cons.mpr ⟨fun a ha => ?_, hparents⟩
    have := hfirst a ha
    omega

/-- Dropping labels in front of a site keeps the public suffix. -/
theorem suffixLength_drop {k : Nat}
    (hk : k + suffixLength (labels host).reverse < (labels host).length) :
    suffixLength ((labels host).drop k).reverse = suffixLength (labels host).reverse := by
  have hlt : suffixLength (labels host).reverse < ((labels host).drop k).reverse.length := by
    rw [List.length_reverse, List.length_drop]
    omega
  refine suffixLength_of_isPrefix ?_ hlt
  rw [List.reverse_prefix]
  exact List.drop_suffix k (labels host)

/-- Dropping labels in front of a site keeps the site, if no numeric address is left. -/
theorem siteName?_joinWith_drop {domain : List Char} {k : Nat} (h : siteName? host = some domain)
    (hk : k + suffixLength (labels host).reverse < (labels host).length) :
    siteName? (joinWith '.' ((labels host).drop k)) =
      if (parseIp (joinWith '.' ((labels host).drop k))).isOk then none else some domain := by
  obtain ⟨hempty, -, -, hdomain⟩ := siteName?_eq_some.mp h
  have hinside : k < (labels host).length := by omega
  have hlabels := labels_joinWith_drop hinside
  have hsuffix := suffixLength_drop hk
  have hempty' : [] ∉ (labels host).drop k := fun hmem => hempty (List.mem_of_mem_drop hmem)
  have hlt : suffixLength (labels host).reverse < ((labels host).drop k).length := by
    rw [List.length_drop]
    omega
  split
  · rename_i hip
    simp [siteName?, hip]
  · rename_i hip
    refine siteName?_eq_some.mpr ?_
    rw [hlabels, hsuffix]
    refine ⟨hempty', by simpa using hip, hlt, ?_⟩
    rw [← hdomain]
    simp only [lastLabels, hlabels, List.drop_drop, List.length_drop]
    congr 2
    omega

/-- A parent of a host has the site of the host, unless it reads as a numeric address: then it is
a site of its own. -/
theorem registrable_ancestor {a : List Char} (h : a ∈ ancestors host) :
    (registrable host).found = true ∧
      registrable a = if (parseIp a).isOk then ⟨a, false⟩ else registrable host := by
  obtain ⟨domain, k, hsite, -, hk, ha⟩ := mem_ancestors h
  have hsite' := siteName?_joinWith_drop hsite hk
  rw [← ha] at hsite'
  rw [registrable_eq host, registrable_eq a, normal_ancestor h, hsite, hsite']
  refine ⟨rfl, ?_⟩
  cases (parseIp a).isOk <;> rfl

end Site

end Consent.Host

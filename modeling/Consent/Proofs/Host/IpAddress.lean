import Consent.Proofs.Except
import Consent.Proofs.Host.Site

/-! What the characters of a numeric address are. Its letter case says nothing, and it does not end
in a dot, so it has no parents. -/

namespace Consent.Host

open Text

private theorem getLast?_append_cons (s : List Char) (c : Char) {t : List Char} (ht : t ≠ []) :
    (s ++ c :: t).getLast? = t.getLast? := by
  obtain ⟨d, r, rfl⟩ := List.exists_cons_of_ne_nil ht
  simp [List.getLast?_append, List.getLast?_cons]

/-- Octets are digits, and dots that more octets follow. -/
theorem readOctets_cons_eq_ok {done value width : Nat} {c : Char} {rest : List Char}
    (h : readOctets done value width (c :: rest) = .ok ()) :
    (isDigit c = true ∨ c = '.' ∧ rest ≠ []) ∧
      ∃ done' value' width', readOctets done' value' width' rest = .ok () := by
  unfold readOctets at h
  split at h
  · rename_i hdigit
    split at h
    · cases h
    · dsimp only at h
      split at h
      · cases h
      · exact ⟨Or.inl hdigit, _, _, _, h⟩
  · split at h
    · rename_i hdot
      split at h
      · cases h
      · rename_i hcond
        split at h
        · cases h
        · have hne : rest ≠ [] := by
            rintro rfl
            simp at hcond
          exact ⟨Or.inr ⟨hdot, hne⟩, _, _, _, h⟩
    · cases h

theorem readOctets_getLast? {done value width : Nat} {s : List Char}
    (h : readOctets done value width s = .ok ()) : s.getLast? ≠ some '.' := by
  induction s generalizing done value width with
  | nil => simp
  | cons c rest ih =>
    obtain ⟨hc, _, _, _, hmore⟩ := readOctets_cons_eq_ok h
    cases rest with
    | nil =>
      rcases hc with hdigit | ⟨-, hne⟩
      · intro hlast
        obtain rfl := Option.some.inj hlast
        exact absurd hdigit (by decide)
      · exact absurd rfl hne
    | cons d more =>
      rw [List.getLast?_cons_cons]
      exact ih hmore

theorem isDigit_of_readOctets {done value width : Nat} {s : List Char}
    (h : readOctets done value width s = .ok ()) : ∀ c ∈ s, isDigit c = true ∨ c = '.' := by
  induction s generalizing done value width with
  | nil => simp
  | cons c rest ih =>
    obtain ⟨hc, _, _, _, hmore⟩ := readOctets_cons_eq_ok h
    simp only [List.mem_cons, forall_eq_or_imp]
    exact ⟨hc.imp_right And.left, ih hmore⟩

/-- What one group of an address is followed by: nothing, the octets it belongs to, a gap at the end,
or a colon or gap and more groups. -/
theorem readGroups_eq_ok {room seen : Nat} {gap : Bool} {s : List Char} {g : Groups}
    (h : readGroups (room + 1) seen gap s = .ok g) :
    ∃ group rest, s = group ++ rest ∧ (∀ c ∈ group, isHexDigit c = true) ∧
      (rest = [] ∨ readOctets 0 0 0 s = .ok () ∨ rest = [':', ':'] ∨
        ∃ more seen' gap', (rest = ':' :: more ∨ rest = ':' :: ':' :: more) ∧ more ≠ [] ∧
          readGroups room seen' gap' more = .ok g) := by
  have hs : s = s.takeWhile isHexDigit ++ s.dropWhile isHexDigit :=
    List.takeWhile_append_dropWhile.symm
  have hhex : ∀ c ∈ s.takeWhile isHexDigit, isHexDigit c = true :=
    List.all_eq_true.mp List.all_takeWhile
  refine ⟨_, _, hs, hhex, ?_⟩
  unfold readGroups at h
  dsimp only at h
  split at h
  · cases h
  split at h
  · cases h
  split at h
  · rename_i hrest
    exact Or.inl hrest
  · split at h
    · cases h
    split at h
    · cases h
    obtain ⟨_, hoctets, -⟩ := Except.map_eq_ok.mp h
    exact Or.inr (Or.inl hoctets)
  · rename_i more hrest
    split at h
    · cases h
    split at h
    · rename_i hnil
      rw [hrest, List.isEmpty_iff.mp hnil]
      exact Or.inr (Or.inr (Or.inl rfl))
    · rename_i hne
      rw [List.isEmpty_iff] at hne
      exact Or.inr (Or.inr (Or.inr ⟨more, _, _, Or.inr hrest, hne, h⟩))
  · rename_i more _ hrest
    split at h
    · cases h
    · rename_i hne
      rw [List.isEmpty_iff] at hne
      exact Or.inr (Or.inr (Or.inr ⟨more, _, _, Or.inl hrest, hne, h⟩))
  · cases h

theorem readGroups_getLast? {room seen : Nat} {gap : Bool} {s : List Char} {g : Groups}
    (h : readGroups room seen gap s = .ok g) : s.getLast? ≠ some '.' := by
  induction room generalizing seen gap s with
  | zero =>
    unfold readGroups at h
    split at h
    · simp_all
    · cases h
  | succ room ih =>
    obtain ⟨group, rest, hs, hhex, hrest⟩ := readGroups_eq_ok h
    rcases hrest with rfl | hoctets | rfl | ⟨more, seen', gap', hmarks, hne, hmore⟩
    · rw [hs, List.append_nil]
      intro hlast
      exact absurd (hhex '.' (List.mem_of_getLast? hlast)) (by decide)
    · exact readOctets_getLast? hoctets
    · rw [hs]
      simp
    · rcases hmarks with rfl | rfl
      · rw [hs, getLast?_append_cons _ _ hne]
        exact ih hmore
      · rw [hs, getLast?_append_cons _ _ (List.cons_ne_nil _ _), List.getLast?_cons_of_ne_nil hne]
        exact ih hmore

/-- The characters of a numeric address without a zone. -/
def isIpChar (c : Char) : Bool := isHexDigit c || c = ':' || c = '.'

theorem isIpChar_of_readOctets {done value width : Nat} {s : List Char}
    (h : readOctets done value width s = .ok ()) : ∀ c ∈ s, isIpChar c = true := by
  intro c hc
  rcases isDigit_of_readOctets h c hc with hdigit | hdot
  · simp [isIpChar, isHexDigit, hdigit]
  · simp [isIpChar, hdot]

theorem isIpChar_of_readGroups {room seen : Nat} {gap : Bool} {s : List Char} {g : Groups}
    (h : readGroups room seen gap s = .ok g) : ∀ c ∈ s, isIpChar c = true := by
  induction room generalizing seen gap s with
  | zero =>
    unfold readGroups at h
    split at h
    · simp_all
    · cases h
  | succ room ih =>
    obtain ⟨group, rest, hs, hhex, hrest⟩ := readGroups_eq_ok h
    have hgroup : ∀ c ∈ group, isIpChar c = true := fun c hc => by simp [isIpChar, hhex c hc]
    have hcolon : isIpChar ':' = true := by decide
    rcases hrest with rfl | hoctets | rfl | ⟨more, seen', gap', hmarks, -, hmore⟩
    · simpa [hs] using hgroup
    · exact isIpChar_of_readOctets hoctets
    · simpa [hs, hcolon, or_imp, forall_and] using hgroup
    · have hchars := ih hmore
      rcases hmarks with rfl | rfl <;>
      · simp only [hs, List.mem_append, List.mem_cons]
        grind

theorem isIpChar_of_readV6 {s : List Char} (h : readV6 s = .ok ()) : ∀ c ∈ s, isIpChar c = true := by
  have hcolon : isIpChar ':' = true := by decide
  unfold readV6 at h
  split at h
  · simp [hcolon]
  · obtain ⟨g, hgroups, -⟩ := Except.bind_eq_ok.mp h
    have hchars := isIpChar_of_readGroups hgroups
    simpa [hcolon] using hchars
  · obtain ⟨g, hgroups, -⟩ := Except.bind_eq_ok.mp h
    exact isIpChar_of_readGroups hgroups

theorem readV6_getLast? {s : List Char} (h : readV6 s = .ok ()) : s.getLast? ≠ some '.' := by
  unfold readV6 at h
  split at h
  · simp
  · rename_i rest hne
    obtain ⟨g, hgroups, -⟩ := Except.bind_eq_ok.mp h
    have hrest : rest ≠ [] := by
      rintro rfl
      exact hne rfl
    rw [List.getLast?_cons_cons, List.getLast?_cons_of_ne_nil hrest]
    exact readGroups_getLast? hgroups
  · obtain ⟨g, hgroups, -⟩ := Except.bind_eq_ok.mp h
    exact readGroups_getLast? hgroups

/-- What is read of an address: octets, or groups with a colon among them and perhaps a zone. -/
theorem parseIp_eq_ok {s : List Char} {form : IpForm} (h : parseIp s = .ok form) :
    form = .v4 ∧ readOctets 0 0 0 s = .ok () ∨
      ∃ zone, form = .v6 zone ∧ ':' ∈ s ∧ ('%' ∉ s → zone = []) ∧
        (zone = [] → readV6 s = .ok ()) := by
  unfold parseIp at h
  split at h
  · obtain ⟨_, hoctets, hform⟩ := Except.map_eq_ok.mp h
    exact Or.inl ⟨hform.symm, hoctets⟩
  · rename_i hfind
    have hcolon : ':' ∈ s := List.mem_of_find?_eq_some hfind
    have hspec := cut_spec '%' s
    split at h
    · cases h
    · rename_i address zone hempty hcut
      obtain ⟨_, hgroups, hform⟩ := Except.map_eq_ok.mp h
      rw [hcut] at hspec
      refine Or.inr ⟨zone.getD [], hform.symm, hcolon, ?_, ?_⟩
      · intro hpercent
        rw [cut_of_not_mem hpercent] at hcut
        rw [← (Prod.mk.inj hcut).2]
        rfl
      · intro hzone
        cases zone with
        | none =>
          rw [hspec]
          exact hgroups
        | some z =>
          have hz : z = [] := hzone
          exact absurd (congrArg some hz) hempty
  · cases h
  · cases h

theorem isIpChar_of_parseIp {s : List Char} (h : parseIp s = .ok (.v6 [])) :
    ∀ c ∈ s, isIpChar c = true := by
  rcases parseIp_eq_ok h with ⟨hform, -⟩ | ⟨zone, hform, -, -, hgroups⟩
  · cases hform
  · cases hform
    exact isIpChar_of_readV6 (hgroups rfl)

theorem colon_mem_of_parseIp {s zone : List Char} (h : parseIp s = .ok (.v6 zone)) : ':' ∈ s := by
  rcases parseIp_eq_ok h with ⟨hform, -⟩ | ⟨_, -, hcolon, -, -⟩
  · cases hform
  · exact hcolon

theorem isHexDigit_lowerChar {c : Char} (h : isIpChar c = true) :
    isHexDigit (lowerChar c) = isHexDigit c := by
  have hall : ∀ n < 128, isHexDigit (lowerChar (Char.ofNat n)) = isHexDigit (Char.ofNat n) := by
    decide +kernel
  have hlt : c.toNat < 128 := by
    simp only [isIpChar, isHexDigit, isDigit, Bool.or_eq_true, Bool.and_eq_true,
      decide_eq_true_eq] at h
    rcases h with (((⟨-, hhi⟩ | ⟨-, hhi⟩) | ⟨-, hhi⟩) | rfl) | rfl
    · exact Nat.lt_of_le_of_lt (show c.toNat ≤ 57 from hhi) (by decide)
    · exact Nat.lt_of_le_of_lt (show c.toNat ≤ 102 from hhi) (by decide)
    · exact Nat.lt_of_le_of_lt (show c.toNat ≤ 70 from hhi) (by decide)
    · decide
    · decide
  have hc := hall c.toNat hlt
  rwa [Char.ofNat_toNat] at hc

theorem group_lower {s : List Char} (h : ∀ c ∈ s, isIpChar c = true) :
    (lower s).takeWhile isHexDigit = lower (s.takeWhile isHexDigit) ∧
      (lower s).dropWhile isHexDigit = lower (s.dropWhile isHexDigit) := by
  induction s with
  | nil => exact ⟨rfl, rfl⟩
  | cons c rest ih =>
    have hc := isHexDigit_lowerChar (h c List.mem_cons_self)
    have hrest := ih fun d hd => h d (List.mem_cons_of_mem c hd)
    rw [lower_cons, List.takeWhile_cons, List.dropWhile_cons, List.takeWhile_cons,
      List.dropWhile_cons, hc]
    cases isHexDigit c with
    | true => simp [hrest]
    | false => simp

theorem lower_of_readOctets {done value width : Nat} {s : List Char}
    (h : readOctets done value width s = .ok ()) : lower s = s := by
  refine lower_eq_self fun c hc => ?_
  rcases isDigit_of_readOctets h c hc with hdigit | rfl
  · simp only [isDigit, Bool.and_eq_true, decide_eq_true_eq] at hdigit
    have hhi : c.toNat ≤ 57 := hdigit.2
    refine lowerChar_of_lt (by omega) ?_
    rintro ⟨hcapital, -⟩
    have hlo : 65 ≤ c.toNat := hcapital
    omega
  · decide

theorem lower_colon (s : List Char) : lower (':' :: s) = ':' :: lower s := by
  rw [lower_cons]
  rfl

/-- Hexadecimal groups are read in either letter case. -/
theorem readGroups_lower {room seen : Nat} {gap : Bool} {s : List Char} {g : Groups}
    (h : readGroups room seen gap s = .ok g) : readGroups room seen gap (lower s) = .ok g := by
  induction room generalizing seen gap s with
  | zero =>
    unfold readGroups at h ⊢
    split at h
    · rename_i hnil
      simp_all
    · cases h
  | succ room ih =>
    obtain ⟨htake, hdrop⟩ := group_lower (isIpChar_of_readGroups h)
    have hempty : ∀ t : List Char, (lower t).isEmpty = t.isEmpty := fun t => by simp [lower]
    unfold readGroups at h ⊢
    simp only [htake, hdrop, length_lower, hempty] at h ⊢
    split at h
    · cases h
    split at h
    · cases h
    rename_i hlong hnone
    rw [if_neg hlong, if_neg hnone]
    split at h
    · rename_i hrest
      rw [hrest]
      exact h
    · rename_i hrest
      have hdot : lowerChar '.' = '.' := by decide
      rw [hrest, lower_cons, hdot]
      split at h
      · cases h
      split at h
      · cases h
      rename_i hplace hroom
      obtain ⟨_, hoctets, -⟩ := Except.map_eq_ok.mp h
      rw [if_neg hplace, if_neg hroom, lower_of_readOctets hoctets]
      exact h
    · rename_i more hrest
      rw [hrest, lower_colon, lower_colon]
      split at h
      · cases h
      split at h
      · rename_i hgap hnil
        simpa [hgap, hempty, hnil] using h
      · rename_i hgap hne
        have hmore := ih h
        simpa [hgap, hempty, hne] using hmore
    · rename_i more hgap hrest
      rw [hrest, lower_colon]
      split at h
      · cases h
      · rename_i hne
        have hmore := ih h
        obtain ⟨d, r, rfl⟩ := List.exists_cons_of_ne_nil (mt List.isEmpty_iff.mpr hne)
        have hd : lowerChar d ≠ ':' := by
          rw [Ne, lowerChar_eq_iff (by decide) (by decide)]
          rintro rfl
          exact hgap _ rfl
        rw [lower_cons] at hmore ⊢
        simpa [hd] using hmore
    · cases h

theorem readV6_lower {s : List Char} (h : readV6 s = .ok ()) : readV6 (lower s) = .ok () := by
  unfold readV6 at h
  split at h
  · decide
  · rename_i rest hne
    obtain ⟨g, hgroups, hcheck⟩ := Except.bind_eq_ok.mp h
    obtain ⟨c, more, rfl⟩ := List.exists_cons_of_ne_nil (l := rest) (by rintro rfl; exact hne rfl)
    have hlower := readGroups_lower hgroups
    rw [lower_colon, lower_colon, lower_cons]
    rw [lower_cons] at hlower
    simp [readV6, hlower, bind, Except.bind, hcheck]
  · rename_i hpair hgap
    obtain ⟨g, hgroups, hcheck⟩ := Except.bind_eq_ok.mp h
    have hlower := readGroups_lower hgroups
    unfold readV6
    split
    · rfl
    · rename_i rest _ heq
      obtain ⟨c, t, rfl, hc, ht⟩ := List.map_eq_cons_iff.mp heq
      obtain ⟨d, r, rfl, hd, -⟩ := List.map_eq_cons_iff.mp ht
      rw [lowerChar_eq_iff (by decide) (by decide)] at hc hd
      exact absurd (by rw [hc, hd]) (hgap r)
    · simp [hlower, bind, Except.bind, hcheck]

/-- The letter case of an address says nothing. -/
theorem parseIp_lower {s : List Char} (h : parseIp s = .ok (.v6 [])) :
    parseIp (lower s) = .ok (.v6 []) := by
  have hpercent : '%' ∉ s := fun hmem => absurd (isIpChar_of_parseIp h '%' hmem) (by decide)
  have hpercent' : '%' ∉ lower s := by rwa [mem_lower_iff (by decide) (by decide)]
  have hread : readV6 s = .ok () := by
    rcases parseIp_eq_ok h with ⟨hform, -⟩ | ⟨zone, hform, -, -, hgroups⟩
    · cases hform
    · exact hgroups (IpForm.v6.inj hform).symm
  have hfind : s.find? (fun c => c = '.' || c = ':' || c = '%') = some ':' := by
    unfold parseIp at h
    split at h
    · obtain ⟨_, -, hform⟩ := Except.map_eq_ok.mp h
      cases hform
    · assumption
    · cases h
    · cases h
  have hfind' : (lower s).find? (fun c => c = '.' || c = ':' || c = '%') = some ':' := by
    have hmark : ∀ c, (lowerChar c = '.' ↔ c = '.') ∧ (lowerChar c = ':' ↔ c = ':') ∧
        (lowerChar c = '%' ↔ c = '%') := fun c =>
      ⟨lowerChar_eq_iff (by decide) (by decide), lowerChar_eq_iff (by decide) (by decide),
        lowerChar_eq_iff (by decide) (by decide)⟩
    simp only [lower, List.find?_map, Function.comp_def, hmark, hfind]
    rfl
  unfold parseIp
  rw [hfind', cut_of_not_mem hpercent']
  simp [readV6_lower hread, Except.map]

/-- A colon tells the two forms of a literal apart. -/
theorem parseIp_of_isIpLiteral {s : List Char} (h : isIpLiteral s = true) (hcolon : ':' ∈ s) :
    parseIp s = .ok (.v6 []) := by
  unfold isIpLiteral at h
  split at h
  · rename_i hparse
    rcases parseIp_eq_ok hparse with ⟨-, hoctets⟩ | ⟨_, hform, -⟩
    · rcases isDigit_of_readOctets hoctets ':' hcolon with hdigit | hdot
      · exact absurd hdigit (by decide)
      · exact absurd hdot (by decide)
    · cases hform
  · assumption
  · cases h

theorem isIpLiteral_of_parseIp {s zone : List Char} (h : parseIp s = .ok (.v6 zone))
    (hpercent : '%' ∉ s) : isIpLiteral s = true := by
  rcases parseIp_eq_ok h with ⟨hform, -⟩ | ⟨_, hform, -, hzone, -⟩
  · cases hform
  · cases hform
    rw [isIpLiteral, h, hzone hpercent]

/-- Only a zone can end an address in a dot. -/
theorem isIpLiteral_getLast? {s : List Char} (h : isIpLiteral s = true) :
    s.getLast? ≠ some '.' := by
  unfold isIpLiteral at h
  split at h
  · rename_i hparse
    rcases parseIp_eq_ok hparse with ⟨-, hoctets⟩ | ⟨_, hform, -⟩
    · exact readOctets_getLast? hoctets
    · cases hform
  · rename_i hparse
    rcases parseIp_eq_ok hparse with ⟨hform, -⟩ | ⟨zone, hform, -, -, hgroups⟩
    · cases hform
    · cases hform
      exact readV6_getLast? (hgroups rfl)
  · cases h

theorem ancestors_of_isIpLiteral [SuffixList] {host : List Char} (hlower : lower host = host)
    (h : isIpLiteral host = true) : ancestors host = [] := by
  refine List.eq_nil_iff_forall_not_mem.mpr fun a ha => ?_
  obtain ⟨_, _, hsite, -⟩ := mem_ancestors ha
  rw [normal_eq_self hlower (isIpLiteral_getLast? h)] at hsite
  have hip := (siteName?_eq_some.mp hsite).2.1
  rw [isOk_parseIp_of_isIpLiteral h] at hip
  cases hip

end Consent.Host

import Consent.Proofs.Host.Site

/-! The walk from a host up to its registrable domain: it ends there, it meets every name in
between, and from the parent on it is the walk of the parent. -/

namespace Consent.Host

open Text

/-- What stands behind the first dot of a host; nothing if there is no dot. -/
def parentOf (host : List Char) : List Char := (cut '.' host).2.getD []

/-- A walk from parent to parent that ends at `domain`, with the hosts it comes to. A walk that
misses the domain would go on without end, and has no derivation. -/
inductive WalksTo (domain : List Char) : List Char → List (List Char) → Prop where
  | arrived : WalksTo domain domain []
  | up {host : List Char} {hosts : List (List Char)} (hne : host ≠ domain) :
      WalksTo domain (parentOf host) hosts → WalksTo domain host (parentOf host :: hosts)

section Walk

variable {domain host : List Char}

theorem WalksTo.unique {hosts hosts' : List (List Char)} (h : WalksTo domain host hosts)
    (h' : WalksTo domain host hosts') : hosts = hosts' := by
  induction h generalizing hosts' with
  | arrived =>
    cases h' with
    | arrived => rfl
    | up hne => exact absurd rfl hne
  | up hne _ ih =>
    cases h' with
    | arrived => exact absurd rfl hne
    | up _ h' => rw [ih h']

theorem WalksTo.getLast? {hosts : List (List Char)} (h : WalksTo domain host hosts) :
    (host :: hosts).getLast? = some domain := by
  induction h with
  | arrived => rfl
  | up _ _ ih => rwa [List.getLast?_cons_cons]

theorem WalksTo.tail {next : List Char} {hosts : List (List Char)}
    (h : WalksTo domain host (next :: hosts)) : WalksTo domain next hosts := by
  cases h with
  | up _ h => exact h

theorem WalksTo.eq_of_nil (h : WalksTo domain host []) : host = domain := by
  cases h
  rfl

/-- Behind its first dot a host has all its other dots. -/
theorem suffix_parentOf {s : List Char} (h : '.' :: s <:+ host) :
    s = parentOf host ∨ '.' :: s <:+ parentOf host := by
  have hhost := cut_spec '.' host
  have hfirst := not_mem_cut '.' host
  unfold parentOf
  rcases hcut : cut '.' host with ⟨before, _ | after⟩
  · rw [hcut] at hhost hfirst
    dsimp only at hhost hfirst
    rw [← hhost] at hfirst
    exact absurd (h.subset List.mem_cons_self) hfirst
  · rw [hcut] at hhost hfirst
    dsimp only [Option.getD_some] at hhost hfirst ⊢
    have hafter : '.' :: after <:+ host := by
      rw [hhost]
      exact List.suffix_append before _
    rcases List.suffix_or_suffix_of_suffix h hafter with hs | ⟨more, hmore⟩
    · rcases List.suffix_cons_iff.mp hs with heq | hs
      · exact Or.inl (List.cons.inj heq).2
      · exact Or.inr hs
    · cases more with
      | nil => exact Or.inl (List.cons.inj hmore).2.symm
      | cons c more =>
        -- Otherwise a dot would stand before the first one.
        obtain ⟨front, hfront⟩ := h
        rw [← hmore, hhost, ← List.append_assoc] at hfront
        have hbefore := List.append_cancel_right hfront
        rw [List.cons_append, List.cons.injEq] at hmore
        rw [← hbefore, hmore.1] at hfirst
        simp at hfirst

/-- No name that follows a dot is left out on the way to the domain. -/
theorem WalksTo.mem_of_suffix {hosts : List (List Char)} (h : WalksTo domain host hosts)
    {s : List Char} (hs : '.' :: s <:+ host) (hlength : domain.length ≤ s.length) : s ∈ hosts := by
  induction h with
  | arrived =>
    have hle := hs.length_le
    rw [List.length_cons] at hle
    omega
  | up _ _ ih =>
    rcases suffix_parentOf hs with rfl | hs
    · exact List.mem_cons_self
    · exact List.mem_cons_of_mem _ (ih hs)

/-- Walking up from a name drops one label after another. -/
theorem walksTo_drop {ls : List (List Char)} {k : Nat} (hdot : ∀ l ∈ ls, '.' ∉ l)
    (hk : k < ls.length) :
    WalksTo (joinWith '.' (ls.drop k)) (joinWith '.' ls)
      ((List.range k).map fun i => joinWith '.' (ls.drop (i + 1))) := by
  induction ls generalizing k with
  | nil => simp at hk
  | cons l rest ih =>
    cases k with
    | zero => exact .arrived
    | succ k =>
      have hrest : rest ≠ [] := List.length_pos_iff.mp (by rw [List.length_cons] at hk; omega)
      obtain ⟨hl, hmore⟩ := List.forall_mem_cons.mp hdot
      have hparent : parentOf (joinWith '.' (l :: rest)) = joinWith '.' rest := by
        rw [parentOf, joinWith_cons hrest, cut_append hl]
        rfl
      have hne : joinWith '.' (l :: rest) ≠ joinWith '.' ((l :: rest).drop (k + 1)) := by
        intro heq
        have hlt := length_joinWith_drop_lt (Nat.succ_pos k) hk
        rw [List.drop_zero, ← heq] at hlt
        omega
      have hwalk := WalksTo.up hne (hparent ▸ ih hmore (by simpa using hk))
      rw [hparent] at hwalk
      simpa [List.range_succ_eq_map, Function.comp_def] using hwalk

end Walk

section Parents

variable [SuffixList] {host : List Char}

/-- A registrable domain that was found, with the labels that it leaves out. -/
theorem exists_labels_of_found (h : (registrable host).found = true) :
    let ls := labels (normal host)
    let k := ls.length - (suffixLength ls.reverse + 1)
    [] ∉ ls ∧ suffixLength ls.reverse < ls.length ∧
      (registrable host).domain = joinWith '.' (ls.drop k) ∧
      ancestors host = (List.range k).map fun i => joinWith '.' (ls.drop (i + 1)) := by
  intro ls k
  rw [registrable_eq] at h ⊢
  rw [ancestors_eq]
  cases hsite : siteName? (normal host) with
  | none => simp [hsite] at h
  | some domain =>
    obtain ⟨hempty, -, hlt, hdomain⟩ := siteName?_eq_some.mp hsite
    exact ⟨hempty, hlt, hdomain.symm, rfl⟩

theorem ancestors_of_not_found (h : (registrable host).found = false) : ancestors host = [] := by
  rw [registrable_eq] at h
  rw [ancestors_eq]
  cases hsite : siteName? (normal host) with
  | none => rfl
  | some domain => simp [hsite] at h

theorem walksTo_domain (h : (registrable host).found = true) :
    WalksTo (registrable host).domain (normal host) (ancestors host) := by
  obtain ⟨-, hlt, hdomain, hparents⟩ := exists_labels_of_found h
  have hjoin : joinWith '.' (labels (normal host)) = normal host := joinWith_splitOn '.' _
  have hdot : ∀ l ∈ labels (normal host), '.' ∉ l := fun l hl => not_mem_of_mem_labels hl
  have hlast : (labels (normal host)).length - (suffixLength (labels (normal host)).reverse + 1) <
      (labels (normal host)).length := by omega
  have hwalk := walksTo_drop hdot hlast
  rwa [hjoin, ← hdomain, ← hparents] at hwalk

theorem domain_iff_ancestors_eq_nil (h : (registrable host).found = true) :
    (registrable host).domain = normal host ↔ ancestors host = [] := by
  have hwalk := walksTo_domain h
  constructor
  · intro hself
    rw [hself] at hwalk
    exact hwalk.unique .arrived
  · intro hnil
    rw [hnil] at hwalk
    exact hwalk.eq_of_nil.symm

/-- The parents are the ends of a host that follow a dot and are no shorter than its domain. -/
theorem mem_ancestors_iff (h : (registrable host).found = true) {s : List Char} :
    s ∈ ancestors host ↔
      '.' :: s <:+ normal host ∧ (registrable host).domain.length ≤ s.length := by
  constructor
  · intro hs
    obtain ⟨-, -, hdomain, hparents⟩ := exists_labels_of_found h
    have hjoin : joinWith '.' (labels (normal host)) = normal host := joinWith_splitOn '.' _
    rw [hparents] at hs
    obtain ⟨i, hi, rfl⟩ := List.mem_map.mp hs
    rw [List.mem_range] at hi
    have hlt : i + 1 < (labels (normal host)).length := by omega
    have hshorter := length_joinWith_drop_lt (Nat.succ_pos i) hlt
    have hcut := joinWith_drop_cases (labels (normal host)) hlt
    rw [hjoin] at hcut
    rw [List.drop_zero, hjoin] at hshorter
    constructor
    · refine hcut.resolve_left fun heq => ?_
      rw [← heq] at hshorter
      omega
    · rw [hdomain]
      exact (joinWith_drop_isSuffix_drop _ (by omega)).length_le
  · rintro ⟨hsuffix, hlength⟩
    exact (walksTo_domain h).mem_of_suffix hsuffix hlength

theorem length_ancestors (h : (registrable host).found = true) :
    (ancestors host).length + (labels (registrable host).domain).length =
      (labels (normal host)).length := by
  obtain ⟨-, hlt, hdomain, hparents⟩ := exists_labels_of_found h
  rw [hdomain, hparents, labels_joinWith_drop (by omega), List.length_map, List.length_range,
    List.length_drop]
  omega

/-- A parent is longer than its public suffix. -/
theorem publicSuffix_ne_self {a : List Char} (h : a ∈ ancestors host) : publicSuffix a ≠ a := by
  obtain ⟨domain, k, hsite, -, hk, rfl⟩ := mem_ancestors h
  obtain ⟨hempty, -, -, -⟩ := siteName?_eq_some.mp hsite
  have hinside : k < (labels (normal host)).length := by omega
  have hlabels := labels_joinWith_drop hinside
  intro heq
  rw [publicSuffix, lastLabels, hlabels, suffixLength_drop hk] at heq
  have hlength : ((labels (normal host)).drop k).length = (labels (normal host)).length - k :=
    List.length_drop
  by_cases hzero : suffixLength (labels (normal host)).reverse = 0
  · -- Only an exception can leave no label to the suffix.
    obtain ⟨c, hc, -⟩ := getLast?_drop_labels hempty (by omega : k < _)
    rw [← heq, hzero, Nat.sub_zero, List.drop_length] at hc
    cases hc
  · have hstart : 0 < ((labels (normal host)).drop k).length -
        suffixLength (labels (normal host)).reverse := by omega
    have hend : ((labels (normal host)).drop k).length -
        suffixLength (labels (normal host)).reverse < ((labels (normal host)).drop k).length := by
      omega
    have hshorter := length_joinWith_drop_lt hstart hend
    rw [heq, List.drop_zero] at hshorter
    omega

/-- From its parent on, the walk of a host is the walk of the parent. -/
theorem registrable_and_ancestors_parent {parent : List Char} {rest : List (List Char)}
    (h : ancestors host = parent :: rest) (hfound : (registrable parent).found = true) :
    registrable parent = registrable host ∧ ancestors parent = rest := by
  have hmem : parent ∈ ancestors host := h ▸ List.mem_cons_self
  obtain ⟨hhost, hsite⟩ := registrable_ancestor hmem
  have hsame : registrable parent = registrable host := by
    rw [hsite] at hfound ⊢
    split at hfound
    · cases hfound
    · rename_i hip
      rw [if_neg hip]
  have hwalk := walksTo_domain hfound
  rw [hsame, normal_ancestor hmem] at hwalk
  have hup := walksTo_domain hhost
  rw [h] at hup
  exact ⟨hsame, hwalk.unique hup.tail⟩

/-- The parents of a host, in full. Hosts without a registrable domain and registrable domains have
none. For any other host the walk from parent to parent ends at the registrable domain, and it comes
to every end of the host that follows a dot and is no shorter than the domain, longest first. No
parent is a public suffix. -/
theorem ancestors_exact (host : List Char) :
    let n := normal host
    let r := registrable host
    (r.found = false ∨ r.domain = n → ancestors host = []) ∧
    (r.found = true → r.domain ≠ n →
      WalksTo r.domain n (ancestors host) ∧
      (∀ s, s ∈ ancestors host ↔ '.' :: s <:+ n ∧ r.domain.length ≤ s.length) ∧
      (ancestors host).Pairwise (fun a b => b.length < a.length) ∧
      (ancestors host).getLast? = some r.domain ∧
      (ancestors host).length + (labels r.domain).length = (labels n).length) ∧
    ∀ a ∈ ancestors host, publicSuffix a ≠ a := by
  intro n r
  refine ⟨?_, ?_, fun a ha => publicSuffix_ne_self ha⟩
  · rintro (hlost | hself)
    · exact ancestors_of_not_found hlost
    · cases hfound : r.found with
      | false => exact ancestors_of_not_found hfound
      | true => exact (domain_iff_ancestors_eq_nil hfound).mp hself
  · intro hfound hne
    have hwalk := walksTo_domain hfound
    have hnonempty : ancestors host ≠ [] := mt (domain_iff_ancestors_eq_nil hfound).mpr hne
    have hlast : (ancestors host).getLast? = some r.domain := by
      obtain ⟨parent, rest, hparents⟩ := List.exists_cons_of_ne_nil hnonempty
      have hlast := hwalk.getLast?
      rwa [hparents, List.getLast?_cons_cons, ← hparents] at hlast
    exact ⟨hwalk, fun s => mem_ancestors_iff hfound,
      (List.pairwise_cons.mp (pairwise_ancestors host)).2, hlast, length_ancestors hfound⟩

end Parents

/-- Below an exception to a wildcard rule, in capitals and with a dot at the end. -/
theorem ancestors_exact_exception :
    let host := "A.b.City.Kawasaki.JP.".toList
    let domain := "city.kawasaki.jp".toList
    registrable host = ⟨domain, true⟩ ∧ domain ≠ normal host ∧
      WalksTo domain (normal host) (ancestors host) ∧
      "b.city.kawasaki.jp".toList ∈ ancestors host ∧ "kawasaki.jp".toList ∉ ancestors host ∧
      (ancestors host).getLast? = some domain ∧ (ancestors host).length + 3 = 5 := by
  intro host domain
  have hsite : registrable host = ⟨domain, true⟩ := by decide +kernel
  have hne : domain ≠ normal host := by decide +kernel
  obtain ⟨-, hparents, -⟩ := ancestors_exact host
  rw [hsite] at hparents
  obtain ⟨hwalk, hmem, -, hlast, hlength⟩ := hparents rfl hne
  refine ⟨hsite, hne, hwalk, (hmem _).mpr (by decide +kernel), ?_, hlast, hlength⟩
  rw [hmem]
  decide +kernel

end Consent.Host

import Consent.Proofs.Decision.Influence
import Consent.Proofs.Host.Ancestors
import Consent.Proofs.Origin.RoundTrip

/-! A host without a decision of its own is decided as its parent is. -/

namespace Consent

open Text Host Store Uri

/-- An origin that is built with a host of small letters is an ordinary one, as its default port is
folded. -/
theorem Origin.ordinary_make_of_isLabelChar {scheme : String} {host : List Char} {port : Int}
    (hscheme : canCarry scheme = true) (hne : host ≠ []) (hhost : ∀ c ∈ host, isLabelChar c = true)
    (hport : 0 ≤ port ∧ port ≤ 65535) (attributes : Attributes) :
    (make scheme (.ofList host) port attributes).Ordinary := by
  have hlower : lower host = host := lower_of_isLabelChar hhost
  have hzero := defaultPort_ne_zero hscheme
  refine ⟨lowerString_of_canCarry hscheme, ?_, ?_, ?_, ?_⟩
  · rw [make, toList_lowerString, String.toList_ofList, hlower]
    exact isPlainHost_of_isLabelChar hne hhost
  · simp [make]
  · dsimp only [make]
    split
    · omega
    · exact hport
  · dsimp only [make]
    rw [defaultPort_lowerString]
    split
    · exact hzero.symm
    · assumption

namespace Decision

section Inherited

variable [SuffixList] {host parent : List Char} {rest : List (List Char)}

/-- Behind an origin, the candidates are those of the origin at its parent. -/
theorem candidates_eq_cons_parent (hparents : ancestors host = parent :: rest)
    (hfound : (registrable parent).found = true) {kinds : Registry} {kind : Kind}
    (hkind : kinds.exactHost kind = false) {o : Origin} (ho : o.host.toList = host) :
    candidates kinds o kind = o :: candidates kinds { o with host := .ofList parent } kind := by
  obtain ⟨-, hrest⟩ := registrable_and_ancestors_parent hparents hfound
  rw [candidates_eq, candidates_eq, ho, hparents, String.toList_ofList, hrest]
  simp [hkind]

/-- A lookup passes over an origin of which the store holds no decision, or a lapsed one. -/
theorem answer_get_of_passed {p : Policy} {now : Instant} {s : Store} {kind : Kind}
    {raw raw' : String} {o o' : Origin} (hparse : Origin.parse raw = .ok o)
    (hparse' : Origin.parse raw' = .ok o')
    (hcandidates : candidates p.kinds o kind = o :: candidates p.kinds o' kind)
    {found : Option Record}
    (hfound : (((repository now).get o.key kind).run s).answer = .ok found)
    (hpassed : ∀ r, found = some r → r.isExpired p.now = true) :
    ∃ v, ((get p (repository now) raw kind).run s).answer = .ok v ∧
      ((get p (repository now) raw' kind).run s).answer = .ok v := by
  have hget : ((repository now).get o.key kind).Gives [] s found _ := ⟨hfound, rfl⟩
  obtain ⟨s₁, t, hacquire, hready, hdecision, -⟩ := table_of_serve (.emit _ _ _ []) hget
  have hnone : t.standing? p.now o.key kind = none := by
    have hstored : t.decision? o.key kind = found := hdecision.symm
    rw [Table.standing?, hstored, Option.filter_eq_none_iff]
    intro r hr
    simp [hpassed r hr]
  have hanswer : ((get p (repository now) raw kind).run s).answer = _ :=
    (gives_get_nearest hparse hacquire hready).answer
  rw [hcandidates, nearest_cons_of_none hnone] at hanswer
  exact ⟨_, hanswer, (gives_get_nearest hparse' hacquire hready).answer⟩

/-- Where the store fails at one origin it fails at every other, and lookups say so. -/
theorem answer_get_of_failure {p : Policy} {now : Instant} {s : Store} {kind : Kind} {raw : String}
    {o : Origin} (hparse : Origin.parse raw = .ok o) {origin : String} {e : Failure}
    (h : (((repository now).get origin kind).run s).answer = .error e) :
    ((get p (repository now) raw kind).run s).answer = .error (.during (.lookUp kind o.key) e) := by
  have hfails : (((repository now).get o.key kind).run s).answer = .error e :=
    answer_serve_of_error (fun s => .emit _ _ _ [] s) (fun s => .emit _ _ _ [] s) h _
  unfold get
  rw [hparse]
  dsimp only
  rw [candidates_eq, (lookUp_cons p (repository now) kind o _ s).1, hfails]
  rfl

/-- Decisions are inherited from parent to parent. If the nearest parent of a host has a registrable
domain, it has that of the host, and its own parents are the others of the host. So where a store
holds no decision at a host, or a lapsed one, a lookup at the host answers as one at the parent, for
every kind that does not bind the exact host. Where the store fails, both lookups do. -/
theorem get_eq_get_parent (hparents : ancestors host = parent :: rest)
    (hfound : (registrable parent).found = true) :
    (registrable parent = registrable host ∧ ancestors parent = rest) ∧
    ∀ scheme port attributes, Origin.canCarry scheme = true → 0 ≤ port ∧ port ≤ 65535 →
      (∀ c ∈ host, Origin.isLabelChar c = true) →
      let o := Origin.make scheme (.ofList host) port attributes
      let o' := Origin.make scheme (.ofList parent) port attributes
      (Origin.parse o.key = .ok o ∧ Origin.parse o'.key = .ok o') ∧
      ∀ (p : Policy) (now : Instant) (s : Store) (kind : Kind) (raw raw' : String),
        p.kinds.exactHost kind = false → Origin.parse raw = .ok o → Origin.parse raw' = .ok o' →
        let reply := (((repository now).get o.key kind).run s).answer
        let answer := ((get p (repository now) raw kind).run s).answer
        let answer' := ((get p (repository now) raw' kind).run s).answer
        (∀ stored, reply = .ok stored → (∀ r, stored = some r → r.isExpired p.now = true) →
          ∃ v, answer = .ok v ∧ answer' = .ok v) ∧
        ∀ e, reply = .error e → answer = .error (.during (.lookUp kind o.key) e) ∧
          answer' = .error (.during (.lookUp kind o'.key) e) := by
  refine ⟨registrable_and_ancestors_parent hparents hfound, ?_⟩
  intro scheme port attributes hscheme hport hlabel o o'
  have hmem : parent ∈ ancestors host := hparents ▸ List.mem_cons_self
  have hlower : lower host = host := Origin.lower_of_isLabelChar hlabel
  have hlower' : lower parent = parent := lower_ancestor hmem
  have hlabel' : ∀ c ∈ parent, Origin.isLabelChar c = true := by
    intro c hc
    have hinside := mem_of_mem_ancestor hmem hc
    rw [hlower] at hinside
    exact hlabel c hinside
  have hne : host ≠ [] := by
    rintro rfl
    cases hparents
  have hne' : parent ≠ [] := by
    rintro rfl
    obtain ⟨c, hc, -⟩ := getLast?_ancestor hmem
    cases hc
  have ho : o.Ordinary := Origin.ordinary_make_of_isLabelChar hscheme hne hlabel hport attributes
  have ho' : o'.Ordinary :=
    Origin.ordinary_make_of_isLabelChar hscheme hne' hlabel' hport attributes
  refine ⟨⟨ho.parse_key, ho'.parse_key⟩, ?_⟩
  intro p now s kind raw raw' hkind hparse hparse' reply answer answer'
  have hat : o' = { o with host := .ofList parent } := by
    simp [o, o', Origin.make, lowerString, hlower']
  have hcandidates : candidates p.kinds o kind = o :: candidates p.kinds o' kind := by
    rw [hat]
    refine candidates_eq_cons_parent hparents hfound hkind ?_
    simp [o, Origin.make, hlower]
  constructor
  · intro stored hstored hpassed
    exact answer_get_of_passed hparse hparse' hcandidates hstored hpassed
  · intro e hfails
    exact ⟨answer_get_of_failure hparse hfails, answer_get_of_failure hparse' hfails⟩

end Inherited

/-- At a host whose own decision has lapsed, the decision of its site is found as it is at the
parent. -/
theorem get_eq_get_parent_lapsed :
    let timed := (Change.setUntil .allow (.atMillis 1700000000001)).make
      { now := .atMillis 1700000000000 }
      (repository (.atMillis 1700000000000)) "https://b.a.example.com" "popup"
    let s := (timed.run blockedStore).state
    let later : Policy := { now := .atMillis 1700000000001 }
    ancestors "b.a.example.com".toList = ["a.example.com".toList, "example.com".toList] ∧
      ∃ v, ((get later (repository later.now) "https://b.a.example.com" "popup").run s).answer =
          .ok v ∧
        ((get later (repository later.now) "https://a.example.com" "popup").run s).answer = .ok v ∧
        v = ⟨"popup", .block, .persistent⟩ := by
  intro timed s later
  have hparents : ancestors "b.a.example.com".toList =
      ["a.example.com".toList, "example.com".toList] := by decide +kernel
  obtain ⟨-, hget⟩ := get_eq_get_parent hparents (by decide +kernel)
  have hlabel : ∀ c ∈ "b.a.example.com".toList, Origin.isLabelChar c = true :=
    List.all_eq_true.mp (by decide)
  obtain ⟨-, hget⟩ := hget "https" 443 {} (by decide) (by decide) hlabel
  obtain ⟨hsame, -⟩ := hget later later.now s "popup" "https://b.a.example.com"
    "https://a.example.com" (by decide) (by decide +kernel) (by decide +kernel)
  let lapsed : Record := ⟨"https://b.a.example.com", "popup", .allow, .timed,
    .atMillis 1700000000001, .atMillis 1700000000000⟩
  obtain ⟨v, hanswer, hanswer'⟩ := hsame (some lapsed) (by decide +kernel) (by decide)
  refine ⟨hparents, v, hanswer, hanswer', ?_⟩
  have hblocked : ((get later (repository later.now) "https://a.example.com" "popup").run
      s).answer = .ok ⟨"popup", .block, .persistent⟩ := by decide +kernel
  exact Except.ok.inj (hanswer'.symm.trans hblocked)

end Decision

end Consent

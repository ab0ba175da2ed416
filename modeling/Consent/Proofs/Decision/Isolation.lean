import Consent.Proofs.Decision.Stored
import Consent.Proofs.Host.IpAddress

/-! Which origins share decisions: a change at one origin reaches only origins of its site, except
where a numeric address is the parent of a longer name. -/

namespace Consent.Decision

open Host Store Text

section

variable [SuffixList] {kinds : Registry} {kind : Kind} {o c : Origin}

/-- A candidate differs from the origin in its host only. -/
theorem eq_or_ancestor_of_mem_candidates (h : c ∈ candidates kinds o kind) :
    c.scheme = o.scheme ∧ c.port = o.port ∧ c.attributes = o.attributes ∧
      (c = o ∨ c.host.toList ∈ ancestors o.host.toList) := by
  rw [candidates_eq, List.mem_cons] at h
  rcases h with rfl | h
  · exact ⟨rfl, rfl, rfl, Or.inl rfl⟩
  · split at h
    · cases h
    · obtain ⟨host, hhost, rfl⟩ := List.mem_map.mp h
      refine ⟨rfl, rfl, rfl, Or.inr ?_⟩
      rw [String.toList_ofList]
      exact hhost

theorem storable_of_mem_candidates (ho : o.Storable) (h : c ∈ candidates kinds o kind) :
    c.Storable := by
  obtain ⟨hscheme, -, -, rfl | hhost⟩ := eq_or_ancestor_of_mem_candidates h
  · exact ho
  · refine ⟨hscheme ▸ ho.scheme, fun hmem => ho.host ?_⟩
    rw [← mem_lower_iff (by decide) (by decide)]
    exact mem_of_mem_ancestor hhost hmem

/-- A change is seen by a lookup only if it is made at one of the candidates. -/
theorem mem_candidates_of_answer_ne {p : Policy} {now : Instant} {s s' : Store} {raw : String}
    {o' : Origin} (hparse : Origin.parse raw = .ok o) (ho' : o'.Storable)
    (hchanged : ChangedAt now o'.key kind s s')
    (hne : ((get p (repository now) raw kind).run s').answer ≠
      ((get p (repository now) raw kind).run s).answer) : o' ∈ candidates p.kinds o kind := by
  obtain ⟨s₁, t, t', hacquire, hready, rfl, hsame⟩ := hchanged
  have hready' := hready.withTable t'
  have hacquire' : (acquire now).Gives [] (s₁.withTable t') () (s₁.withTable t') :=
    gives_acquire_of_opened hready'.opened hready'.notClosed
  rw [get_answer hparse hacquire hready, get_answer hparse hacquire' hready'] at hne
  by_contra hmem
  refine hne (congrArg (conclusion p.now kind) (List.map_congr_left fun c hc => ?_))
  have hkey : o'.key ≠ c.key := by
    intro heq
    have hstorable := storable_of_mem_candidates (Origin.parse_storable hparse) hc
    exact hmem (Origin.key_injective ho' hstorable heq ▸ hc)
  rw [hsame c.key kind fun h => hkey h.1]

/-- If a change at `o'` changes what a lookup at `o` answers, the two agree in scheme, port and
attributes, and they belong to one site exactly if they are the same or `o'` is no numeric address.
A numeric address takes over no decision of another host. -/
theorem site_of_answer_ne {p : Policy} {now : Instant} {s : Store} {raw raw' : String}
    {o' : Origin} {change : Change} (hparse : Origin.parse raw = .ok o)
    (hparse' : Origin.parse raw' = .ok o')
    (hchange : ((change.make p (repository now) raw' kind).run s).answer = .ok ())
    (hne : ((get p (repository now) raw kind).run
        ((change.make p (repository now) raw' kind).run s).state).answer ≠
      ((get p (repository now) raw kind).run s).answer) :
    o'.scheme = o.scheme ∧ o'.port = o.port ∧ o'.attributes = o.attributes ∧
      (registrable o'.host.toList = registrable o.host.toList ↔
        o' = o ∨ (parseIp o'.host.toList).isOk = false) ∧
      (isIpLiteral o.host.toList = true → o' = o) := by
  have hchanged := change.changedAt hparse' ⟨hchange, rfl⟩
  have hmem := mem_candidates_of_answer_ne hparse (Origin.parse_storable hparse') hchanged hne
  obtain ⟨hscheme, hport, hattributes, hhost⟩ := eq_or_ancestor_of_mem_candidates hmem
  refine ⟨hscheme, hport, hattributes, ?_, fun hip => ?_⟩
  · rcases hhost with rfl | hhost
    · simp
    · obtain ⟨hfound, hsite⟩ := registrable_ancestor hhost
      cases hip : (parseIp o'.host.toList).isOk with
      | false => simp [hsite, hip]
      | true =>
        have hlost : registrable o'.host.toList ≠ registrable o.host.toList := by
          intro heq
          rw [← heq, hsite, hip] at hfound
          cases hfound
        have hother : o' ≠ o := by
          rintro rfl
          exact hlost rfl
        simp [hlost, hother]
  · rcases hhost with rfl | hhost
    · rfl
    · rw [ancestors_of_isIpLiteral (Origin.lower_host hparse) hip] at hhost
      cases hhost

end

/-- A store that was never used. -/
def newStore : Store := { path := "permissions.db", file := .database {} }

theorem opens_newStore : newStore.Opens [] := by
  intro fields now
  exact ⟨(acquire now fields newStore).state, ⟨rfl, rfl⟩, ⟨rfl, rfl, _, rfl, rfl⟩⟩

/-- A decision for a registrable domain is seen from below it. -/
theorem site_of_answer_ne_parent :
    let o : Origin := ⟨"https", "a.example.com", 0, {}⟩
    let o' : Origin := ⟨"https", "example.com", 0, {}⟩
    o'.scheme = o.scheme ∧ o'.port = o.port ∧ o'.attributes = o.attributes ∧
      (registrable o'.host.toList = registrable o.host.toList ↔
        o' = o ∨ (parseIp o'.host.toList).isOk = false) ∧
      (isIpLiteral o.host.toList = true → o' = o) :=
  site_of_answer_ne (p := { now := .atMillis 1700000000000 }) (s := newStore)
    (show Origin.parse "https://a.example.com" = .ok ⟨"https", "a.example.com", 0, {}⟩ by
      decide +kernel)
    (show Origin.parse "https://example.com" = .ok ⟨"https", "example.com", 0, {}⟩ by
      decide +kernel)
    (show (((Change.set .allow .persistent).make { now := .atMillis 1700000000000 }
      (repository (.atMillis 1700000000000)) "https://example.com" "popup").run newStore).answer =
        .ok () by
      decide +kernel)
    (by decide +kernel)

/-- A numeric address is the parent of a longer name of another site, which takes its decisions
over. -/
theorem numericParent_answer_ne :
    let p : Policy := { now := .atMillis 1700000000000 }
    let allowed :=
      (set p (repository p.now) "http://1.2.3.4" "popup" .allow .persistent).run newStore
    Origin.parse "http://5.1.2.3.4" = .ok ⟨"http", "5.1.2.3.4", 0, {}⟩ ∧
      Origin.parse "http://1.2.3.4" = .ok ⟨"http", "1.2.3.4", 0, {}⟩ ∧ allowed.answer = .ok () ∧
      ((get p (repository p.now) "http://5.1.2.3.4" "popup").run newStore).answer =
        .ok ⟨"popup", .unknown, .persistent⟩ ∧
      ((get p (repository p.now) "http://5.1.2.3.4" "popup").run allowed.state).answer =
        .ok ⟨"popup", .allow, .persistent⟩ ∧
      registrable "5.1.2.3.4".toList = ⟨"3.4".toList, true⟩ ∧
      registrable "1.2.3.4".toList = ⟨"1.2.3.4".toList, false⟩ := by
  decide +kernel

end Consent.Decision

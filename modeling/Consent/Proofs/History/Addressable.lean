import Consent.Proofs.History.Visit
import Consent.Proofs.Text.Blank

/-! Which visits name an origin that can hold permissions. History and permissions read a URL alike,
but for its port: a visit keeps any number of 64 bits, an origin has a port from 1 to 65535. -/

namespace Consent

open Text

theorem Visit.parse_eq_ok_iff {url : String} {millis : Int} {v : Visit} :
    Visit.parse url millis = .ok v ↔ ∃ u : Uri, Uri.parse (trim url.toList) = .ok u ∧
      u.scheme ≠ [] ∧ u.host ≠ [] ∧ valueOf u.port < limit63 ∧
      v = {
        url, atMillis := millis, scheme := lowerString (.ofList u.scheme)
        host := .ofList (lower u.host)
        port := if valueOf u.port = Origin.defaultPort (lowerString (.ofList u.scheme)) then 0
          else valueOf u.port } := by
  unfold Visit.parse Visit.readPort
  constructor
  · intro h
    split at h
    · cases h
    · rename_i u hu
      split at h
      · cases h
      · rename_i hparts
        have hparts : ¬(u.scheme = [] ∨ u.host = []) := by simpa using hparts
        by_cases hport : valueOf u.port < limit63
        · rw [if_pos hport] at h
          cases h
          exact ⟨u, hu, fun hs => hparts (.inl hs), fun hh => hparts (.inr hh), hport, rfl⟩
        · rw [if_neg hport] at h
          cases h
  · rintro ⟨u, hu, hscheme, hhost, hport, rfl⟩
    simp [hu, hscheme, hhost, hport]

namespace History

variable {h : History} {raw : String}

/-- Of a URL without a caret whose scheme can carry permissions, an origin is read exactly if the
history records a visit to it and its port is absent or from 1 to 65535. Visit and origin then have
the same scheme, host and port, and the origin has no attributes. -/
theorem origin_iff_visit (hcaret : '^' ∉ raw.toList)
    (hscheme : ∀ u, Uri.parse (trim raw.toList) = .ok u →
      String.ofList u.scheme ∈ ["http", "https", "ftp"])
    (hopen : h.closed = false) (now time : Instant) :
    let added := (addVisit now raw time).run h
    ((∃ o, Origin.parse raw = .ok o) ↔ added.answer = .ok () ∧
      ∀ u, Uri.parse (trim raw.toList) = .ok u → Origin.IsPortText u.port) ∧
    ∀ o, Origin.parse raw = .ok o → ∃ v, added.state = h.record v ∧ v.url = raw ∧
      v.scheme = o.scheme ∧ v.host = o.host ∧ v.port = o.port ∧ o.attributes = {} := by
  intro added
  have hrun := addVisit_run now raw time h
  generalize (if time = .unset then now.millis else time.millis) = millis at hrun
  have hrefused : ∀ e, Visit.parse raw millis = .error e → added.answer = .error (.visit e) := by
    intro e hv
    rw [hv] at hrun
    exact hrun.1
  have hrecorded : ∀ v, Visit.parse raw millis = .ok v →
      added.answer = .ok () ∧ added.state = h.record v := by
    intro v hv
    rw [hv, hopen] at hrun
    exact hrun
  have hcarry : ∀ u, Uri.parse (trim raw.toList) = .ok u →
      Origin.canCarry (.ofList u.scheme) = true ∧ u.scheme ≠ [] := by
    intro u hu
    have hmem := hscheme u hu
    have hsome : ∀ name ∈ ["http", "https", "ftp"], Origin.canCarry name = true ∧ name ≠ "" := by
      decide
    exact ⟨(hsome _ hmem).1, fun hnil => (hsome _ hmem).2 (by rw [hnil])⟩
  -- A port that an origin can have fits 64 bits.
  have hvisit : ∀ o, Origin.parse raw = .ok o → ∃ v, Visit.parse raw millis = .ok v ∧
      v.url = raw ∧ v.scheme = o.scheme ∧ v.host = o.host ∧ v.port = o.port ∧
      o.attributes = {} := by
    intro o ho
    obtain ⟨u, hu, -, hhost, hport, rfl⟩ := (Origin.parse_eq_ok_iff_of_not_mem hcaret).mp ho
    have hlimit : valueOf u.port < limit63 := by
      rcases hport with hnone | ⟨-, hle⟩
      · rw [hnone]
        decide
      · exact Nat.lt_of_le_of_lt hle (by decide)
    refine ⟨_, Visit.parse_eq_ok_iff.mpr ⟨u, hu, (hcarry u hu).2, hhost, hlimit, rfl⟩, rfl, rfl, ?_,
      ?_, rfl⟩
    · simp [Origin.make, lowerString]
    · simp [Origin.make, Origin.defaultPort_lowerString]
  refine ⟨⟨?_, ?_⟩, ?_⟩
  · rintro ⟨o, ho⟩
    obtain ⟨v, hv, -⟩ := hvisit o ho
    obtain ⟨u, hu, -, -, hport, -⟩ := (Origin.parse_eq_ok_iff_of_not_mem hcaret).mp ho
    refine ⟨(hrecorded v hv).1, fun u' hu' => ?_⟩
    cases hu.symm.trans hu'
    exact hport
  · rintro ⟨hanswer, hport⟩
    cases hv : Visit.parse raw millis with
    | error e => cases hanswer.symm.trans (hrefused e hv)
    | ok v =>
      obtain ⟨u, hu, -, hhost, -, -⟩ := Visit.parse_eq_ok_iff.mp hv
      exact ⟨_, (Origin.parse_eq_ok_iff_of_not_mem hcaret).mpr
        ⟨u, hu, (hcarry u hu).1, hhost, hport u hu, rfl⟩⟩
  · intro o ho
    obtain ⟨v, hv, hsame⟩ := hvisit o ho
    exact ⟨v, (hrecorded v hv).2, hsame⟩

/-- A URL in an odd spelling, and the visit and the origin that are read from it. -/
theorem origin_iff_visit_spelled :
    let raw := " HTTPS://me@Example.com:0443/a?b#c"
    let added := (addVisit (.atMillis 1700000000000) raw .unset).run {}
    Origin.parse raw = .ok ⟨"https", "example.com", 0, {}⟩ ∧ added.answer = .ok () ∧
      ∃ v, added.state = record {} v ∧ v.url = raw ∧ v.scheme = "https" ∧ v.host = "example.com" ∧
        v.port = 0 := by
  intro raw added
  have hparse : Origin.parse raw = .ok ⟨"https", "example.com", 0, {}⟩ := by decide +kernel
  have hcaret : '^' ∉ raw.toList := by decide
  have hscheme : ∀ u, Uri.parse (trim raw.toList) = .ok u →
      String.ofList u.scheme ∈ ["http", "https", "ftp"] := by
    intro u hu
    have hread : (Uri.parse (trim raw.toList)).map Uri.scheme = .ok "https".toList := by
      decide +kernel
    rw [hu] at hread
    rw [Except.ok.inj hread]
    decide
  obtain ⟨hiff, hsame⟩ :=
    origin_iff_visit (h := {}) hcaret hscheme rfl (.atMillis 1700000000000) .unset
  obtain ⟨v, hstate, hurl, hv, hhost, hport, -⟩ := hsame _ hparse
  exact ⟨hparse, (hiff.mp ⟨_, hparse⟩).1, v, hstate, hurl, hv, hhost, hport⟩

/-- A port beyond all ports, and the port 0, are recorded; no origin has them. -/
theorem farPort_visited_without_origin :
    let far := (addVisit (.atMillis 1700000000000) "http://foo.com:70000" .unset).run {}
    let zero := (addVisit (.atMillis 1700000000000) "http://foo.com:0" .unset).run {}
    (far.answer = .ok () ∧ far.state.visits.map Visit.host = ["foo.com"] ∧
      (Origin.parse "http://foo.com:70000").isOk = false) ∧
    zero.answer = .ok () ∧ zero.state.visits.map Visit.host = ["foo.com"] ∧
      (Origin.parse "http://foo.com:0").isOk = false := by
  decide +kernel

end History

end Consent

import Mathlib.Data.List.Basic
import Consent.Host.TypedAddress
import Consent.Proofs.Origin.Key
import Consent.Proofs.Text.Blank
import Consent.Proofs.Text.Split
import Consent.Proofs.Uri.HostText

/-! Completing a typed address: the rough test for a scheme holds of every text that names an
origin, so that only texts that name none get a scheme put in front. -/

namespace Consent

open Text

namespace Uri

theorem append_of_cutScheme {s scheme rest : List Char} (h : cutScheme s = .ok (scheme, rest))
    (hne : scheme ≠ []) : scheme ++ ':' :: rest = s := by
  unfold cutScheme at h
  split at h
  · cases h
  · split at h
    · split at h
      · rename_i hrest
        cases h
        rw [← hrest, List.takeWhile_append_dropWhile]
      · cases h
        exact absurd rfl hne
    · cases h
      exact absurd rfl hne
  · cases h
    exact absurd rfl hne

/-- Between scheme and authority stands what the rough test looks for. -/
theorem isInfix_of_parse {s : List Char} {u : Uri} (h : Uri.parse s = .ok u)
    (hscheme : u.scheme ≠ []) (hauthority : u.authority ≠ none) : [':', '/', '/'] <:+: s := by
  obtain ⟨v, hbody, hvscheme, hvauthority⟩ := readBody_of_parse h
  obtain ⟨scheme, rest, path, hcut, hlower, hread⟩ := readHierarchy_of_readBody hbody
  have hne : scheme ≠ [] := by
    rintro rfl
    exact hscheme (hvscheme.trans hlower)
  obtain ⟨a, ha⟩ := Option.ne_none_iff_exists'.mp hauthority
  rw [← hvauthority, ha] at hread
  obtain ⟨text, htext, -⟩ := authority_of_readHierarchy hread
  have hslashes : '/' :: '/' :: text <+: rest := htext ▸ isPrefix_cut '?' rest
  obtain ⟨more, hmore⟩ := hslashes
  have hmark : [':', '/', '/'] <:+: (cut '#' s).1 :=
    ⟨scheme, text ++ more, by simp [← append_of_cutScheme hcut hne, ← hmore]⟩
  exact hmark.trans (isPrefix_cut '#' s).isInfix

end Uri

namespace Origin

theorem isPrefix_of_cutAttributes {s base : List Char} {attributes : Attributes}
    (h : cutAttributes s = .ok (base, attributes)) : base <+: s := by
  unfold cutAttributes at h
  split at h
  · cases h
    exact List.prefix_rfl
  · rename_i text suffix hcut
    split at h
    · split at h
      · cases h
        exact ⟨'^' :: suffix, append_of_cut hcut⟩
      · cases h
    · cases h
      exact List.prefix_rfl

/-- Text that names an origin shows where its scheme ends. -/
theorem isInfix_of_parseTrimmed {s : List Char} {o : Origin} (h : parseTrimmed s = .ok o) :
    [':', '/', '/'] <:+: s := by
  obtain ⟨-, base, attributes, u, port, hcut, hu, hcarry, hhost, -⟩ := parseTrimmed_eq_ok_iff.mp h
  have hscheme : u.scheme ≠ [] := by
    intro hnil
    rw [hnil] at hcarry
    exact absurd hcarry (by decide)
  have hauthority : u.authority ≠ none := by
    intro hnone
    exact hhost (by rw [Uri.host, hnone]; rfl)
  exact (Uri.isInfix_of_parse hu hscheme hauthority).trans (isPrefix_of_cutAttributes hcut).isInfix

end Origin

namespace Host

theorem completeAddress_of_mark {s : List Char} (h : [':', '/', '/'] <:+: trim s) :
    completeAddress s = trim s := by
  have hscheme : hasScheme (trim s) = true := by
    rw [hasScheme, occursIn_iff_isInfix.mpr h, Bool.true_or]
  simp [completeAddress, hscheme]

/-- A scheme is put in front of nothing but a text that shows none. -/
theorem completeAddress_cases (s : List Char) :
    completeAddress s = trim s ∨
      trim s ≠ [] ∧ ¬ [':', '/', '/'] <:+: trim s ∧
        completeAddress s = "https://".toList ++ trim s := by
  unfold completeAddress
  dsimp only
  split
  · exact Or.inl rfl
  · rename_i hkept
    split
    · simp only [Bool.or_eq_true, not_or] at hkept
      refine Or.inr ⟨by simpa using hkept.1, fun hmark => hkept.2 ?_, rfl⟩
      rw [hasScheme, occursIn_iff_isInfix.mpr hmark, Bool.true_or]
    · exact Or.inl rfl

theorem completeAddress_trim (s : List Char) : completeAddress (trim s) = completeAddress s := by
  rw [completeAddress, completeAddress, trim_trim]

theorem trim_https_append {s : List Char} (h : trim s ≠ []) :
    trim ("https://".toList ++ trim s) = "https://".toList ++ trim s := by
  refine trimWhile_eq_self (fun c hc => ?_) fun c hc => ?_
  · cases hc
    decide
  · have hlast : (trim s).getLast? = some c := by
      rwa [List.getLast?_append_of_ne_nil _ h] at hc
    exact getLast?_dropEndWhile hlast

theorem completeAddress_completeAddress (s : List Char) :
    completeAddress (completeAddress s) = completeAddress s := by
  rcases completeAddress_cases s with htrim | ⟨hne, -, hadded⟩
  · rw [htrim, completeAddress_trim, htrim]
  · have htrim := trim_https_append hne
    have hmark : [':', '/', '/'] <:+: "https://".toList ++ trim s :=
      ⟨"https".toList, trim s, by simp⟩
    rw [← htrim] at hmark
    rw [hadded, completeAddress_of_mark hmark, htrim]

/-- Completing never changes the origin that a text names, does nothing when done again, and puts a
scheme only in front of texts that show none and name no origin. -/
theorem completeAddress_keeps_origin (x : String) :
    (∀ o, Origin.parse x = .ok o → Origin.parse (.ofList (completeAddress x.toList)) = .ok o) ∧
      completeAddress (completeAddress x.toList) = completeAddress x.toList ∧
      (completeAddress x.toList ≠ trim x.toList →
        completeAddress x.toList = "https://".toList ++ trim x.toList ∧
          ¬ "://".toList <:+: trim x.toList ∧ ∃ e, Origin.parse x = .error e) := by
  refine ⟨fun o ho => ?_, completeAddress_completeAddress x.toList, fun hchanged => ?_⟩
  · have hmark : [':', '/', '/'] <:+: trim x.toList := Origin.isInfix_of_parseTrimmed ho
    rw [completeAddress_of_mark hmark, Origin.parse, String.toList_ofList, trim_trim]
    exact ho
  · rcases completeAddress_cases x.toList with hsame | ⟨-, hmark, hadded⟩
    · exact absurd hsame hchanged
    · refine ⟨hadded, hmark, ?_⟩
      cases hparse : Origin.parse x with
      | error e => exact ⟨e, rfl⟩
      | ok o => exact absurd (Origin.isInfix_of_parseTrimmed hparse) hmark

example : completeAddress " example.com:8443/a ".toList = "https://example.com:8443/a".toList := by
  decide

end Host

end Consent

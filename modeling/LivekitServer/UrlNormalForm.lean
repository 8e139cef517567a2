import LivekitServer.ClientUrl

/-!
# Normalised URLs

A URL that the constructor accepts is normalised to one that it would leave as it is, with a scheme
and something behind it. The loop over the slashes at the end does not know of the scheme, so this
fails exactly for a scheme with nothing but slashes behind it.
-/

namespace LivekitServer.ClientContext

/-- The shape of a normalised URL: an HTTP scheme in some case and something behind it, no slash at
the end, the URL itself up to the rewritten scheme and the slashes, and nothing left to
normalise. -/
structure NormalForm (url result : Bytes) : Prop where
  scheme : ∃ kept rest, result = kept ++ rest ∧ rest ≠ [] ∧
    (kept.map toLower = ascii "http://" ∨ kept.map toLower = ascii "https://")
  last : result.getLast? ≠ some 0x2f
  spelled : ∃ scheme rest kept slashes, url = scheme ++ rest ∧ rewriteScheme scheme = some kept ∧
    kept ++ rest = result ++ slashes ∧ ∀ b ∈ slashes, b = 0x2f
  fixed : normalizeUrl result = .ok result

/-- One of the four schemes, with nothing but slashes behind it. -/
def OnlyScheme (url : Bytes) : Prop :=
  ∃ scheme rest, url = scheme ++ rest ∧ (∀ b ∈ rest, b = 0x2f) ∧
    scheme.map toLower ∈ [ascii "ws://", ascii "wss://", ascii "http://", ascii "https://"]

theorem rewriteScheme_isSome_iff {scheme : Bytes} :
    (∃ kept, rewriteScheme scheme = some kept) ↔
      scheme.map toLower ∈ [ascii "ws://", ascii "wss://", ascii "http://", ascii "https://"] := by
  simp only [List.mem_cons, List.not_mem_nil, or_false]
  constructor
  · rintro ⟨kept, h⟩
    rcases rewriteScheme_some.mp h with ⟨h, -⟩ | ⟨h, -⟩ | ⟨h, -⟩ | ⟨h, -⟩
    · exact Or.inl h
    · exact Or.inr (Or.inl h)
    · exact Or.inr (Or.inr (Or.inl h))
    · exact Or.inr (Or.inr (Or.inr h))
  · rintro (h | h | h | h)
    · exact ⟨_, rewriteScheme_some.mpr (Or.inl ⟨h, rfl⟩)⟩
    · exact ⟨_, rewriteScheme_some.mpr (Or.inr (Or.inl ⟨h, rfl⟩))⟩
    · exact ⟨_, rewriteScheme_some.mpr (Or.inr (Or.inr (Or.inl ⟨h, rfl⟩)))⟩
    · exact ⟨_, rewriteScheme_some.mpr (Or.inr (Or.inr (Or.inr ⟨h, rfl⟩)))⟩

/-- The scheme of a normalised URL is not rewritten again. -/
theorem rewriteScheme_idempotent {scheme kept : Bytes} (h : rewriteScheme scheme = some kept) :
    rewriteScheme kept = some kept := by
  apply rewriteScheme_some.mpr
  rcases lower_of_rewriteScheme h with hlower | hlower
  · exact Or.inr (Or.inr (Or.inl ⟨hlower, rfl⟩))
  · exact Or.inr (Or.inr (Or.inr ⟨hlower, rfl⟩))

theorem getLast?_stripSlashes (url : Bytes) : (stripSlashes url).getLast? ≠ some 0x2f := by
  intro h
  have hne : stripSlashes url ≠ [] := by
    intro hnil
    rw [hnil] at h
    cases h
  rw [List.getLast?_eq_some_getLast hne] at h
  have hlast := List.rdropWhile_last_not (fun b : UInt8 => decide (b = 0x2f)) url hne
  exact hlast (decide_eq_true (Option.some.inj h))

theorem stripSlashes_append_slashes (url : Bytes) :
    ∃ slashes, url = stripSlashes url ++ slashes ∧ ∀ b ∈ slashes, b = 0x2f := by
  refine ⟨url.rtakeWhile fun b => decide (b = 0x2f), ?_, fun b hb => ?_⟩
  · exact (List.rdropWhile_append_rtakeWhile ..).symm
  · have htrue := List.mem_rtakeWhile_imp hb
    simpa using htrue

theorem normalForm_of_exists {scheme rest kept : Bytes} (hkept : rewriteScheme scheme = some kept)
    (hrest : ∃ b ∈ rest, b ≠ 0x2f) :
    NormalForm (scheme ++ rest) (stripSlashes (kept ++ rest)) := by
  have hstrip : stripSlashes (kept ++ rest) = kept ++ stripSlashes rest :=
    stripSlashes_append_of_exists hrest
  obtain ⟨b, hb, hne⟩ := hrest
  have hmem : b ∈ stripSlashes rest := (mem_stripSlashes hne rest).mpr hb
  obtain ⟨slashes, hslashes, hall⟩ := stripSlashes_append_slashes (kept ++ rest)
  refine ⟨⟨kept, stripSlashes rest, hstrip, List.ne_nil_of_mem hmem,
    lower_of_rewriteScheme hkept⟩, getLast?_stripSlashes _,
    ⟨scheme, rest, kept, slashes, rfl, hkept, hslashes, hall⟩, ?_⟩
  rw [hstrip, normalizeUrl_scheme _ (rewriteScheme_idempotent hkept),
    stripSlashes_append_of_exists ⟨b, hmem, hne⟩]
  have hidempotent : stripSlashes (stripSlashes rest) = stripSlashes rest :=
    List.rdropWhile_idempotent _ _
  rw [hidempotent]

theorem normalizeUrl_cases (url : Bytes) :
    (∃ result, normalizeUrl url = .ok result) ∨
      normalizeUrl url =
        raise .invalidArgument (ascii "LiveKit URL must use http, https, ws, or wss") := by
  rw [normalizeUrl]
  generalize (if startsWithCaseInsensitive url (ascii "ws://") = true then _ else _ : Bytes) = kept
  by_cases hrefused : (!startsWithCaseInsensitive kept (ascii "http://") &&
      !startsWithCaseInsensitive kept (ascii "https://")) = true
  · right
    exact if_pos hrefused
  · left
    exact ⟨_, if_neg hrefused⟩

/-- What is left of a scheme and slashes is too short for a normalised URL. -/
theorem not_normalForm_of_onlyScheme {url result : Bytes} (h : OnlyScheme url)
    (hresult : normalizeUrl url = .ok result) : ¬NormalForm url result := by
  intro hform
  obtain ⟨scheme, rest, rfl, hall, hscheme⟩ := h
  obtain ⟨kept, hkept⟩ := rewriteScheme_isSome_iff.mpr hscheme
  rw [normalizeUrl_scheme rest hkept, stripSlashes_append_of_all hall] at hresult
  obtain rfl := Except.ok.inj hresult
  obtain ⟨name, hname, hlower⟩ := stripSlashes_scheme (lower_of_rewriteScheme hkept)
  obtain ⟨front, back, hsplit, hback, hfront⟩ := hform.scheme
  rw [hname] at hsplit
  have hpositive := List.length_pos_of_ne_nil hback
  have hlength := congrArg List.length hsplit
  rw [List.length_append] at hlength
  have hshort : name.length ≤ 6 := by
    rcases hlower with h | h
    · exact (List.length_map toLower ▸ congrArg List.length h).trans_le (by decide)
    · exact (List.length_map toLower ▸ congrArg List.length h).trans_le (by decide)
  have hlong : 7 ≤ front.length := by
    rcases hfront with h | h
    · exact (List.length_map toLower ▸ congrArg List.length h).ge.trans' (by decide)
    · exact (List.length_map toLower ▸ congrArg List.length h).ge.trans' (by decide)
  omega

/-- A URL is normalised to a normal form or refused, exactly when it is not a scheme with nothing
but slashes behind it. -/
theorem normalizeUrl_normalForm_iff (url : Bytes) :
    ((∃ result, normalizeUrl url = .ok result ∧ NormalForm url result) ∨
      normalizeUrl url =
        raise .invalidArgument (ascii "LiveKit URL must use http, https, ws, or wss")) ↔
    ¬OnlyScheme url := by
  constructor
  · rintro (⟨result, hresult, hform⟩ | hrefused) honly
    · exact not_normalForm_of_onlyScheme honly hresult hform
    · obtain ⟨scheme, rest, rfl, -, hscheme⟩ := honly
      obtain ⟨kept, hkept⟩ := rewriteScheme_isSome_iff.mpr hscheme
      rw [normalizeUrl_scheme rest hkept] at hrefused
      cases hrefused
  · intro honly
    rcases normalizeUrl_cases url with ⟨result, hresult⟩ | hrefused
    · left
      obtain ⟨scheme, rest, kept, rfl, hkept, rfl⟩ := normalizeUrl_ok.mp hresult
      refine ⟨_, hresult, normalForm_of_exists hkept ?_⟩
      by_contra hnone
      push Not at hnone
      exact honly ⟨scheme, rest, rfl, hnone, rewriteScheme_isSome_iff.mp ⟨kept, hkept⟩⟩
    · exact Or.inr hrefused

/-- An accepted URL of a scheme alone loses its slashes, and the result would be refused. -/
theorem normalizeUrl_onlyScheme :
    normalizeUrl (ascii "http://") = .ok (ascii "http:") ∧
      normalizeUrl (ascii "http:") =
        raise .invalidArgument (ascii "LiveKit URL must use http, https, ws, or wss") ∧
      ¬∃ result, normalizeUrl (ascii "http://") = .ok result ∧
        NormalForm (ascii "http://") result := by
  have honly : OnlyScheme (ascii "http://") :=
    ⟨ascii "http://", [], rfl, nofun, by decide⟩
  refine ⟨rfl, rfl, ?_⟩
  rintro ⟨result, hresult, hform⟩
  exact not_normalForm_of_onlyScheme honly hresult hform

end LivekitServer.ClientContext

import LivekitServer.ClientContext

/-!
# The URLs of a client and the portable transport

The constructor compares the scheme of a URL without regard to case, rewrites `ws` and `wss`, and
strips slashes from the end. `CurlTransport::Send` then compares the scheme of the request
literally. They agree on a URL that `KeepsScheme`.
-/

namespace LivekitServer

namespace CurlTransport

/-- `url.starts_with("http://") || url.starts_with("https://")`. -/
def schemeAdmitted (url : Bytes) : Bool :=
  (ascii "http://").isPrefixOf url || (ascii "https://").isPrefixOf url

def token (value : Bytes) : Bool :=
  value ≠ [] && value.all fun ch =>
    (0x61 ≤ ch ∧ ch ≤ 0x7a) || (0x41 ≤ ch ∧ ch ≤ 0x5a) || (0x30 ≤ ch ∧ ch ≤ 0x39) ||
      ch ∈ ascii "!#$%&'*+-.^_" ++ [0x60] ++ ascii "|~"

/-- The first check of `Send`. -/
def checkRequest (request : HttpRequest) : Outcome Unit :=
  if 0 ∈ request.url ∨ schemeAdmitted request.url = false ∨ token request.method = false ∨
      request.timeout ≤ 0 ∨ request.body.length > 2 ^ 63 - 1 then
    raise .invalidArgument (ascii "invalid HTTP request URL, method, timeout or body size")
  else .ok ()

end CurlTransport

namespace ClientContext

section Schemes

theorem toLower_eq_of_not_letter {b c : UInt8} (hc : ¬(0x61 ≤ c ∧ c ≤ 0x7a)) (h : toLower b = c) :
    b = c := by
  unfold toLower at h
  split at h
  · rename_i hb
    subst h
    refine absurd ?_ hc
    have h1 := byte_le_iff.mp hb.1
    have h2 := byte_le_iff.mp hb.2
    rw [byte_le_iff, byte_le_iff, UInt8.toNat_add]
    simp only [UInt8.reduceToNat] at h1 h2 ⊢
    omega
  · exact h

theorem startsWithCaseInsensitive_iff {value front : Bytes} :
    startsWithCaseInsensitive value front = true ↔
      front.map toLower <+: value.map toLower := by
  rw [List.prefix_iff_eq_take, List.length_map, ← List.map_take, startsWithCaseInsensitive,
    Bool.and_eq_true, decide_eq_true_iff, decide_eq_true_iff]
  constructor
  · exact fun h => h.2.symm
  · intro h
    have hlength := congrArg List.length h
    rw [List.length_map, List.length_map, List.length_take] at hlength
    exact ⟨by omega, h.symm⟩

/-- The scheme that stands in a normalised URL, none where the scheme is refused. -/
def rewriteScheme (scheme : Bytes) : Option Bytes :=
  if scheme.map toLower = ascii "ws://" then some (ascii "http://")
  else if scheme.map toLower = ascii "wss://" then some (ascii "https://")
  else if scheme.map toLower = ascii "http://" ∨ scheme.map toLower = ascii "https://" then
    some scheme
  else none

theorem startsWith_append {scheme front : Bytes} (rest : Bytes)
    (h : scheme.map toLower = front.map toLower) :
    startsWithCaseInsensitive (scheme ++ rest) front = true := by
  rw [startsWithCaseInsensitive_iff, List.map_append, h]
  exact List.prefix_append _ _

/-- Of two scheme texts of which neither begins the other, a URL starts with at most one. -/
theorem startsWith_append_false {scheme front : Bytes} (rest : Bytes)
    (h : ¬ front.map toLower <+: scheme.map toLower)
    (h' : ¬ scheme.map toLower <+: front.map toLower) :
    startsWithCaseInsensitive (scheme ++ rest) front = false := by
  by_contra hne
  have hstarts := startsWithCaseInsensitive_iff.mp (Bool.not_eq_false _ ▸ hne)
  rw [List.map_append] at hstarts
  rcases List.prefix_or_prefix_of_prefix hstarts (List.prefix_append _ _) with hp | hp
  · exact h hp
  · exact h' hp

theorem exists_scheme {url front : Bytes} (h : startsWithCaseInsensitive url front = true) :
    ∃ scheme, scheme.map toLower = front.map toLower ∧ url = scheme ++ url.drop front.length := by
  refine ⟨url.take front.length, ?_, (List.take_append_drop _ _).symm⟩
  have htake := List.prefix_iff_eq_take.mp (startsWithCaseInsensitive_iff.mp h)
  rw [List.length_map, ← List.map_take] at htake
  exact htake.symm

/-- What becomes of a scheme, in lower case: `ws` and `wss` are rewritten, the others stay. -/
theorem rewriteScheme_some {scheme kept : Bytes} :
    rewriteScheme scheme = some kept ↔
      (scheme.map toLower = ascii "ws://" ∧ kept = ascii "http://") ∨
        (scheme.map toLower = ascii "wss://" ∧ kept = ascii "https://") ∨
        (scheme.map toLower = ascii "http://" ∧ kept = scheme) ∨
        (scheme.map toLower = ascii "https://" ∧ kept = scheme) := by
  constructor
  · intro h
    unfold rewriteScheme at h
    split at h
    · rename_i hws
      exact Or.inl ⟨hws, (Option.some.inj h).symm⟩
    · split at h
      · rename_i hwss
        exact Or.inr (Or.inl ⟨hwss, (Option.some.inj h).symm⟩)
      · split at h
        · rename_i hhttp
          have hkept := (Option.some.inj h).symm
          rcases hhttp with hhttp | hhttps
          · exact Or.inr (Or.inr (Or.inl ⟨hhttp, hkept⟩))
          · exact Or.inr (Or.inr (Or.inr ⟨hhttps, hkept⟩))
        · cases h
  · rintro (⟨h, rfl⟩ | ⟨h, rfl⟩ | ⟨h, rfl⟩ | ⟨h, rfl⟩)
    · exact if_pos h
    · rw [rewriteScheme, h]
      rfl
    · rw [rewriteScheme, h]
      rfl
    · rw [rewriteScheme, h]
      rfl

theorem normalizeUrl_scheme {scheme kept : Bytes} (rest : Bytes)
    (h : rewriteScheme scheme = some kept) :
    normalizeUrl (scheme ++ rest) = .ok (stripSlashes (kept ++ rest)) := by
  have hdrop {front : Bytes} (hlower : scheme.map toLower = front) :
      (scheme ++ rest).drop front.length = rest := by
    rw [← hlower, List.length_map]
    exact List.drop_left
  have hother (front : Bytes) (h : ¬ front.map toLower <+: scheme.map toLower)
      (h' : ¬ scheme.map toLower <+: front.map toLower) :
      startsWithCaseInsensitive (scheme ++ rest) front = false := startsWith_append_false rest h h'
  rcases rewriteScheme_some.mp h with ⟨hlower, rfl⟩ | ⟨hlower, rfl⟩ | ⟨hlower, rfl⟩ | ⟨hlower, rfl⟩
  · have hws : startsWithCaseInsensitive (scheme ++ rest) (ascii "ws://") = true :=
      startsWith_append rest (hlower.trans (by decide))
    have hhttp : startsWithCaseInsensitive (ascii "http://" ++ rest) (ascii "http://") = true :=
      startsWith_append rest rfl
    have hrest : (scheme ++ rest).drop 5 = rest := hdrop hlower
    simp only [normalizeUrl, hws, if_true, hrest, hhttp, Bool.not_true, Bool.false_and,
      Bool.false_eq_true, if_false]
  · have hws := hother (ascii "ws://") (by rw [hlower]; decide) (by rw [hlower]; decide)
    have hwss : startsWithCaseInsensitive (scheme ++ rest) (ascii "wss://") = true :=
      startsWith_append rest (hlower.trans (by decide))
    have hhttps : startsWithCaseInsensitive (ascii "https://" ++ rest) (ascii "https://") = true :=
      startsWith_append rest rfl
    have hrest : (scheme ++ rest).drop 6 = rest := hdrop hlower
    simp only [normalizeUrl, hws, hwss, if_true, hrest, hhttps, Bool.not_true, Bool.and_false,
      Bool.false_eq_true, if_false]
  · have hws := hother (ascii "ws://") (by rw [hlower]; decide) (by rw [hlower]; decide)
    have hwss := hother (ascii "wss://") (by rw [hlower]; decide) (by rw [hlower]; decide)
    have hhttp : startsWithCaseInsensitive (kept ++ rest) (ascii "http://") = true :=
      startsWith_append rest (hlower.trans (by decide))
    simp only [normalizeUrl, hws, hwss, hhttp, Bool.not_true, Bool.false_and, Bool.false_eq_true,
      if_false]
  · have hws := hother (ascii "ws://") (by rw [hlower]; decide) (by rw [hlower]; decide)
    have hwss := hother (ascii "wss://") (by rw [hlower]; decide) (by rw [hlower]; decide)
    have hhttps : startsWithCaseInsensitive (kept ++ rest) (ascii "https://") = true :=
      startsWith_append rest (hlower.trans (by decide))
    simp only [normalizeUrl, hws, hwss, hhttps, Bool.not_true, Bool.and_false, Bool.false_eq_true,
      if_false]

/-- A URL is accepted when it starts with one of the four schemes. -/
theorem normalizeUrl_ok {url result : Bytes} :
    normalizeUrl url = .ok result ↔ ∃ scheme rest kept, url = scheme ++ rest ∧
      rewriteScheme scheme = some kept ∧ result = stripSlashes (kept ++ rest) := by
  constructor
  · intro h
    have hsplit : ∃ scheme rest kept, url = scheme ++ rest ∧ rewriteScheme scheme = some kept := by
      by_cases hws : startsWithCaseInsensitive url (ascii "ws://") = true
      · obtain ⟨scheme, hlower, hurl⟩ := exists_scheme hws
        exact ⟨scheme, _, _, hurl, rewriteScheme_some.mpr (Or.inl ⟨hlower, rfl⟩)⟩
      · by_cases hwss : startsWithCaseInsensitive url (ascii "wss://") = true
        · obtain ⟨scheme, hlower, hurl⟩ := exists_scheme hwss
          exact ⟨scheme, _, _, hurl, rewriteScheme_some.mpr (Or.inr (Or.inl ⟨hlower, rfl⟩))⟩
        · by_cases hhttp : startsWithCaseInsensitive url (ascii "http://") = true
          · obtain ⟨scheme, hlower, hurl⟩ := exists_scheme hhttp
            exact ⟨scheme, _, _, hurl,
              rewriteScheme_some.mpr (Or.inr (Or.inr (Or.inl ⟨hlower, rfl⟩)))⟩
          · by_cases hhttps : startsWithCaseInsensitive url (ascii "https://") = true
            · obtain ⟨scheme, hlower, hurl⟩ := exists_scheme hhttps
              exact ⟨scheme, _, _, hurl,
                rewriteScheme_some.mpr (Or.inr (Or.inr (Or.inr ⟨hlower, rfl⟩)))⟩
            · simp [normalizeUrl, hws, hwss, hhttp, hhttps, raise] at h
    obtain ⟨scheme, rest, kept, rfl, hkept⟩ := hsplit
    rw [normalizeUrl_scheme rest hkept] at h
    exact ⟨scheme, rest, kept, rfl, hkept, (Except.ok.inj h).symm⟩
  · rintro ⟨scheme, rest, kept, rfl, hkept, rfl⟩
    exact normalizeUrl_scheme rest hkept

end Schemes

section Stripping

theorem stripSlashes_append_of_all {front rest : Bytes} (h : ∀ b ∈ rest, b = 0x2f) :
    stripSlashes (front ++ rest) = stripSlashes front := by
  induction rest using List.reverseRecOn with
  | nil => rw [List.append_nil]
  | append_singleton rest b ih =>
      have hb : b = 0x2f := h b (by simp)
      rw [stripSlashes, ← List.append_assoc,
        List.rdropWhile_concat_pos _ _ _ (by simpa using hb)]
      exact ih fun c hc => h c (List.mem_append_left _ hc)

/-- Slashes are stripped from what follows the last byte that is none. -/
theorem stripSlashes_append_of_exists {front rest : Bytes} (h : ∃ b ∈ rest, b ≠ 0x2f) :
    stripSlashes (front ++ rest) = front ++ stripSlashes rest := by
  induction rest using List.reverseRecOn with
  | nil =>
      obtain ⟨_, hb, _⟩ := h
      cases hb
  | append_singleton rest b ih =>
      by_cases hb : b = 0x2f
      · have hrest : ∃ b ∈ rest, b ≠ 0x2f := by
          obtain ⟨c, hc, hne⟩ := h
          rcases List.mem_append.mp hc with hc | hc
          · exact ⟨c, hc, hne⟩
          · exact absurd ((List.mem_singleton.mp hc).trans hb) hne
        simp only [stripSlashes] at ih ⊢
        rw [← List.append_assoc, List.rdropWhile_concat_pos _ _ _ (by simpa using hb),
          List.rdropWhile_concat_pos _ _ _ (by simpa using hb), ih hrest]
      · simp only [stripSlashes]
        rw [← List.append_assoc, List.rdropWhile_concat_neg _ _ _ (by simpa using hb),
          List.rdropWhile_concat_neg _ _ _ (by simpa using hb), List.append_assoc]

theorem mem_stripSlashes {b : UInt8} (hb : b ≠ 0x2f) (url : Bytes) :
    b ∈ stripSlashes url ↔ b ∈ url := by
  constructor
  · exact fun h => (List.rdropWhile_prefix _ url).mem h
  · intro h
    rw [← List.rdropWhile_append_rtakeWhile (p := (· = 0x2f)) (l := url)] at h
    rcases List.mem_append.mp h with h | h
    · exact h
    · exact absurd (by simpa using List.mem_rtakeWhile_imp h) hb

/-- The scheme of a normalised URL is `http` or `https`, in some case. -/
theorem lower_of_rewriteScheme {scheme kept : Bytes} (h : rewriteScheme scheme = some kept) :
    kept.map toLower = ascii "http://" ∨ kept.map toLower = ascii "https://" := by
  rcases rewriteScheme_some.mp h with ⟨-, rfl⟩ | ⟨-, rfl⟩ | ⟨hlower, rfl⟩ | ⟨hlower, rfl⟩
  · exact Or.inl (by decide)
  · exact Or.inr (by decide)
  · exact Or.inl hlower
  · exact Or.inr hlower

/-- A scheme without its two slashes ends in a colon, so no more is stripped from it. -/
theorem stripSlashes_scheme {kept : Bytes}
    (h : kept.map toLower = ascii "http://" ∨ kept.map toLower = ascii "https://") :
    ∃ name, stripSlashes kept = name ∧
      (name.map toLower = ascii "http:" ∨ name.map toLower = ascii "https:") := by
  have hkeep {b c : UInt8} (hc : ¬(0x61 ≤ c ∧ c ≤ 0x7a)) (hb : toLower b = c) : b = c :=
    toLower_eq_of_not_letter hc hb
  have hsplit (letters : Bytes) (hlower : kept.map toLower = letters ++ [0x3a, 0x2f, 0x2f]) :
      (stripSlashes kept).map toLower = letters ++ [0x3a] := by
    obtain ⟨front, back, rfl, hfront, hback⟩ := List.map_eq_append_iff.mp hlower
    obtain ⟨colon, back, rfl, hcolon, hback⟩ := List.map_eq_cons_iff.mp hback
    have hslashes : ∀ b ∈ back, b = 0x2f := by
      intro b hb
      have hmem : toLower b ∈ back.map toLower := List.mem_map_of_mem hb
      rw [hback] at hmem
      exact hkeep (by decide) (by simpa using hmem)
    have hstrip : stripSlashes (front ++ colon :: back) = front ++ [colon] := by
      rw [show front ++ colon :: back = (front ++ [colon]) ++ back by simp,
        stripSlashes_append_of_all hslashes, stripSlashes,
        List.rdropWhile_concat_neg _ _ _ (by rw [hkeep (by decide) hcolon]; decide)]
    rw [hstrip, List.map_append, hfront, List.map_singleton, hcolon]
  rcases h with h | h
  · exact ⟨_, rfl, Or.inl (hsplit (ascii "http") h)⟩
  · exact ⟨_, rfl, Or.inr (hsplit (ascii "https") h)⟩

end Stripping

section Guard

open CurlTransport

theorem schemeAdmitted_iff {url : Bytes} :
    schemeAdmitted url = true ↔ ascii "http://" <+: url ∨ ascii "https://" <+: url := by
  rw [schemeAdmitted, Bool.or_eq_true, List.isPrefixOf_iff_prefix, List.isPrefixOf_iff_prefix]

/-- The transport takes a URL with a scheme when the scheme is in lower case. -/
theorem schemeAdmitted_append {kept : Bytes} (tail : Bytes)
    (h : kept.map toLower = ascii "http://" ∨ kept.map toLower = ascii "https://") :
    schemeAdmitted (kept ++ tail) = true ↔ kept = ascii "http://" ∨ kept = ascii "https://" := by
  rw [schemeAdmitted_iff]
  constructor
  · have hcompare {front : Bytes} (hfront : front <+: kept ++ tail) :
        front <+: kept ∨ kept <+: front :=
      List.prefix_or_prefix_of_prefix hfront (List.prefix_append kept tail)
    have hlength {front : Bytes} (hlower : kept.map toLower = front) :
        kept.length = front.length := by
      rw [← hlower, List.length_map]
    rintro (hp | hp)
    · rcases h with h | h
      · rcases hcompare hp with hp | hp
        · exact Or.inl (hp.eq_of_length (hlength h).symm).symm
        · exact Or.inl (hp.eq_of_length (hlength h))
      · rcases hcompare hp with hp | hp
        · exact absurd (h ▸ hp.map toLower) (by decide)
        · exact absurd (h ▸ hp.map toLower) (by decide)
    · rcases h with h | h
      · rcases hcompare hp with hp | hp
        · exact absurd (h ▸ hp.map toLower) (by decide)
        · exact absurd (h ▸ hp.map toLower) (by decide)
      · rcases hcompare hp with hp | hp
        · exact Or.inr (hp.eq_of_length (hlength h).symm).symm
        · exact Or.inr (hp.eq_of_length (hlength h))
  · rintro (rfl | rfl)
    · exact Or.inl (List.prefix_append _ _)
    · exact Or.inr (List.prefix_append _ _)

/-- Where the slashes of the scheme are stripped, the path follows the colon. -/
theorem schemeAdmitted_stripped {name : Bytes} (tail : Bytes)
    (h : name.map toLower = ascii "http:" ∨ name.map toLower = ascii "https:") :
    schemeAdmitted (name ++ (ascii "/twirp" ++ tail)) = false := by
  by_contra hne
  have hlower {front : Bytes} (hp : front <+: name ++ (ascii "/twirp" ++ tail)) :
      front.map toLower <+: name.map toLower ++ (ascii "/twirp" ++ tail.map toLower) := by
    have hmap := hp.map toLower
    rw [List.map_append, List.map_append] at hmap
    exact hmap
  rcases schemeAdmitted_iff.mp (Bool.not_eq_false _ ▸ hne) with hp | hp
  · have hp := hlower hp
    rcases h with h | h
    · rw [h] at hp
      simp [ascii, toLower] at hp
    · rw [h] at hp
      simp [ascii, toLower] at hp
  · have hp := hlower hp
    rcases h with h | h
    · rw [h] at hp
      simp [ascii, toLower] at hp
    · rw [h] at hp
      simp [ascii, toLower] at hp

/-- The scheme is `ws` or `wss` in any case, or `http` or `https` in lower case, and more than
slashes follows it. -/
def KeepsScheme (url : Bytes) : Prop :=
  ∃ scheme rest, url = scheme ++ rest ∧
    (scheme.map toLower = ascii "ws://" ∨ scheme.map toLower = ascii "wss://" ∨
      scheme = ascii "http://" ∨ scheme = ascii "https://") ∧ ∃ b ∈ rest, b ≠ 0x2f

theorem rewriteScheme_lower_iff {scheme kept : Bytes} (h : rewriteScheme scheme = some kept) :
    (kept = ascii "http://" ∨ kept = ascii "https://") ↔
      scheme.map toLower = ascii "ws://" ∨ scheme.map toLower = ascii "wss://" ∨
        scheme = ascii "http://" ∨ scheme = ascii "https://" := by
  rcases rewriteScheme_some.mp h with ⟨hlower, rfl⟩ | ⟨hlower, rfl⟩ | ⟨hlower, rfl⟩ | ⟨hlower, rfl⟩
  · exact iff_of_true (Or.inl rfl) (Or.inl hlower)
  · exact iff_of_true (Or.inr rfl) (Or.inr (Or.inl hlower))
  · rw [hlower]
    simp [ascii]
  · rw [hlower]
    simp [ascii]

theorem rewriteScheme_of_keepsScheme {scheme : Bytes}
    (h : scheme.map toLower = ascii "ws://" ∨ scheme.map toLower = ascii "wss://" ∨
      scheme = ascii "http://" ∨ scheme = ascii "https://") :
    ∃ kept, rewriteScheme scheme = some kept := by
  rcases h with h | h | rfl | rfl
  · exact ⟨_, rewriteScheme_some.mpr (Or.inl ⟨h, rfl⟩)⟩
  · exact ⟨_, rewriteScheme_some.mpr (Or.inr (Or.inl ⟨h, rfl⟩))⟩
  · exact ⟨_, rfl⟩
  · exact ⟨_, rfl⟩

theorem schemeAdmitted_stripSlashes {scheme kept rest : Bytes} (tail : Bytes)
    (h : rewriteScheme scheme = some kept) :
    schemeAdmitted (stripSlashes (kept ++ rest) ++ (ascii "/twirp" ++ tail)) = true ↔
      (kept = ascii "http://" ∨ kept = ascii "https://") ∧ ∃ b ∈ rest, b ≠ 0x2f := by
  by_cases hrest : ∃ b ∈ rest, b ≠ 0x2f
  · rw [stripSlashes_append_of_exists hrest, List.append_assoc,
      schemeAdmitted_append _ (lower_of_rewriteScheme h), and_iff_left hrest]
  · have hall : ∀ b ∈ rest, b = 0x2f := fun b hb => by_contra fun hne => hrest ⟨b, hb, hne⟩
    obtain ⟨name, hname, hlower⟩ := stripSlashes_scheme (lower_of_rewriteScheme h)
    rw [stripSlashes_append_of_all hall, hname, schemeAdmitted_stripped tail hlower]
    exact iff_of_false Bool.false_ne_true fun h => hrest h.2

theorem schemeAdmitted_normalized {url result : Bytes} (tail : Bytes)
    (h : normalizeUrl url = .ok result) :
    schemeAdmitted (result ++ (ascii "/twirp" ++ tail)) = true ↔ KeepsScheme url := by
  constructor
  · intro hadmitted
    obtain ⟨scheme, rest, kept, rfl, hkept, rfl⟩ := normalizeUrl_ok.mp h
    obtain ⟨hlower, hrest⟩ := (schemeAdmitted_stripSlashes tail hkept).mp hadmitted
    exact ⟨scheme, rest, rfl, (rewriteScheme_lower_iff hkept).mp hlower, hrest⟩
  · rintro ⟨scheme, rest, rfl, hscheme, hrest⟩
    obtain ⟨kept, hkept⟩ := rewriteScheme_of_keepsScheme hscheme
    obtain rfl := Except.ok.inj (h.symm.trans (normalizeUrl_scheme rest hkept))
    exact (schemeAdmitted_stripSlashes tail hkept).mpr
      ⟨(rewriteScheme_lower_iff hkept).mpr hscheme, hrest⟩

/-- Normalising neither adds nor removes a NUL. -/
theorem nul_mem_normalized {url result : Bytes} (h : normalizeUrl url = .ok result) :
    0 ∈ result ↔ 0 ∈ url := by
  obtain ⟨scheme, rest, kept, rfl, hkept, rfl⟩ := normalizeUrl_ok.mp h
  have hnul {text lower : Bytes} (hlower : text.map toLower = lower) (hnone : 0 ∉ lower) :
      0 ∉ text := by
    intro hmem
    apply hnone
    rw [← hlower]
    exact List.mem_map_of_mem (f := toLower) hmem
  have hkept' : 0 ∉ kept := by
    rcases lower_of_rewriteScheme hkept with hlower | hlower
    · exact hnul hlower (by decide)
    · exact hnul hlower (by decide)
  have hscheme : 0 ∉ scheme := by
    rcases rewriteScheme_some.mp hkept with ⟨hlower, -⟩ | ⟨hlower, -⟩ | ⟨hlower, -⟩ | ⟨hlower, -⟩
    · exact hnul hlower (by decide)
    · exact hnul hlower (by decide)
    · exact hnul hlower (by decide)
    · exact hnul hlower (by decide)
  rw [mem_stripSlashes (by decide), List.mem_append, List.mem_append, or_iff_right hkept',
    or_iff_right hscheme]

end Guard

section Calls

open CurlTransport

variable {τ : Type} {env : Environment} {create : Outcome τ} {options : ApiOptions τ}
  {context : ClientContext τ}

theorem callUrl_admitted_iff (hnew : new env create options = .ok context)
    (service method : String) :
    (schemeAdmitted (callUrl context service method) = true ↔
        KeepsScheme (resolveUrl env options.url)) ∧
      (0 ∈ callUrl context service method ↔
        0 ∈ resolveUrl env options.url ∨ 0 ∈ ascii service ∨ 0 ∈ ascii method) := by
  obtain ⟨-, hnormal, -⟩ := new_ok.mp hnew
  constructor
  · have hurl : callUrl context service method = context.url ++ (ascii "/twirp" ++
        (ascii "/livekit." ++ ascii service ++ [0x2f] ++ ascii method)) := by
      simp only [callUrl, List.append_assoc, List.append_cancel_left_eq]
      rfl
    rw [hurl, schemeAdmitted_normalized _ hnormal]
  · have hpath : 0 ∉ ascii "/twirp/livekit." := by decide
    have hslash : (0 : UInt8) ∉ [0x2f] := by decide
    simp only [callUrl, List.mem_append, nul_mem_normalized hnormal, hpath, hslash, or_false,
      or_assoc]

def sampleEnvironment : Environment := ⟨[], [], [], []⟩

def sampleOptions (url : String) : ApiOptions Unit :=
  ⟨ascii url, ascii "key", ascii "secret", [], 10000, none⟩

theorem callUrl_admitted_sample :
    schemeAdmitted (callUrl (sampleContext "http://localhost:7880") "Egress" "ListEgress") =
      true := by
  have hnew : new sampleEnvironment (.ok ()) (sampleOptions "ws://localhost:7880/") =
      .ok (sampleContext "http://localhost:7880") := by decide +kernel
  exact (callUrl_admitted_iff hnew "Egress" "ListEgress").1.mpr
    ⟨ascii "ws://", ascii "localhost:7880/", by decide, Or.inl (by decide), 0x6c, by decide,
      by decide⟩

/-- A scheme in upper case stays as it is, and a URL of a scheme and slashes loses them. -/
theorem acceptedUrl_refused :
    (new sampleEnvironment (.ok ()) (sampleOptions "HTTP://localhost:7880") =
        .ok (sampleContext "HTTP://localhost:7880") ∧
      schemeAdmitted (callUrl (sampleContext "HTTP://localhost:7880") "Egress" "ListEgress") =
        false) ∧
      new sampleEnvironment (.ok ()) (sampleOptions "wss:///") = .ok (sampleContext "https:") ∧
      schemeAdmitted (callUrl (sampleContext "https:") "Egress" "ListEgress") = false := by
  decide +kernel

end Calls

end ClientContext
end LivekitServer

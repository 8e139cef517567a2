import LivekitServer.TokenRoundTrip

/-!
# Tokens and the locale

The same claims written in two locales agree exactly when each of their strings and numbers does:
a locale never shortens a number or an escape, so equal texts are equal piece by piece.
`toJwt_locale_iff` says which numbers and which control characters a locale leaves alone.
-/

namespace LivekitServer

/-- Texts put together from pieces of which one family is never the longer are equal only piece
by piece. -/
theorem flatMap_eq_iff {α β : Type} {f g : α → List β} (pieces : List α)
    (hle : ∀ x ∈ pieces, (g x).length ≤ (f x).length) :
    pieces.flatMap f = pieces.flatMap g ↔ ∀ x ∈ pieces, f x = g x := by
  have hlength : ∀ xs ⊆ pieces, (xs.flatMap g).length ≤ (xs.flatMap f).length := by
    intro xs hxs
    induction xs with
    | nil => exact le_rfl
    | cons x xs ih =>
        have hx := hle x (hxs List.mem_cons_self)
        have hi := ih fun y hy => hxs (List.mem_cons_of_mem x hy)
        simp only [List.flatMap_cons, List.length_append]
        omega
  constructor
  · intro h
    induction pieces with
    | nil => exact fun _ hx => absurd hx List.not_mem_nil
    | cons x xs ih =>
        have hx := hle x List.mem_cons_self
        have hxs := hlength xs (List.subset_cons_self x xs)
        rw [List.flatMap_cons, List.flatMap_cons] at h
        have hl := congrArg List.length h
        simp only [List.length_append] at hl
        obtain ⟨hhead, htail⟩ := List.append_inj h (by omega)
        exact List.forall_mem_cons.mpr ⟨hhead, ih (fun y hy => hle y (List.mem_cons_of_mem x hy))
          (fun ys hys => hlength ys fun y hy => List.mem_cons_of_mem x (hys hy)) htail⟩
  · exact fun h => List.flatMap_congr h

namespace Locale
open Decimal

variable (loc : Locale)

theorem insertInteger_eq_iff (n : ℤ) :
    loc.insertInteger n = classic.insertInteger n ↔
      loc.separates (decimal n.natAbs).length = false := by
  have hgroup : loc.group (decimal n.natAbs) = decimal n.natAbs ↔
      loc.separates (decimal n.natAbs).length = false := by
    constructor
    · intro h
      by_contra hs
      have hlt := loc.length_lt_group (Bool.not_eq_false _ ▸ hs)
      rw [h] at hlt
      exact absurd hlt (lt_irrefl _)
    · exact loc.group_eq
  unfold insertInteger
  split_ifs <;> simp [hgroup]

theorem length_insertInteger_le (n : ℤ) :
    (classic.insertInteger n).length ≤ (loc.insertInteger n).length := by
  have h := loc.length_le_group (decimal n.natAbs)
  unfold insertInteger
  split_ifs <;> simpa using h

theorem addGrouping_singleton (sep : UInt8) (fuel : ℕ) (sizes : List ℤ) (a : UInt8) :
    addGrouping sep fuel sizes [a] = [a] := by
  cases fuel with
  | zero => rfl
  | succ fuel =>
      cases sizes with
      | nil => rfl
      | cons size sizes =>
          have hsize : (limited size && decide (size < 1)) = false := by
            by_contra h
            simp only [limited, Bool.not_eq_false, Bool.and_eq_true, decide_eq_true_eq] at h
            omega
          simp [addGrouping, hsize]

theorem group_singleton (a : UInt8) : loc.group [a] = [a] := addGrouping_singleton _ _ _ _

/-- Two digits are separated by a first group of one digit. -/
theorem group_pair (h : loc.separates 2 = true) (a b : UInt8) :
    loc.group [a, b] = [a, loc.thousandsSep, b] := by
  unfold separates at h
  unfold group
  cases hg : loc.grouping with
  | nil => rw [hg] at h; cases h
  | cons size sizes =>
      rw [hg] at h
      simp only [limited, Bool.and_eq_true, decide_eq_true_eq] at h
      obtain rfl : size = 1 := by omega
      simp [addGrouping, limited, addGrouping_singleton]

/-- A control character of two hexadecimal digits is kept when two digits stay together. -/
theorem insertHex_eq_iff {n : ℕ} (h : n < 32) :
    loc.insertHex 4 0x30 n = classic.insertHex 4 0x30 n ↔
      (loc.separates 2 = true → ¬ 16 ≤ n) := by
  have hone : ∀ n : Fin 16, hex n = [hexChar n] := by decide
  have htwo : ∀ n : Fin 16, hex (16 + n) = [0x31, hexChar n] := by decide
  by_cases hn : 16 ≤ n
  · obtain ⟨d, rfl⟩ := Nat.exists_eq_add_of_le hn
    have hhex : hex (16 + d) = [0x31, hexChar d] := htwo ⟨d, by omega⟩
    unfold insertHex
    rw [hhex, classic_group]
    by_cases hs : loc.separates 2 = true
    · rw [loc.group_pair hs]
      simp [hs]
    · rw [loc.group_eq (by simpa using hs)]
      simp [hs]
  · have hhex : hex n = [hexChar n] := hone ⟨n, by omega⟩
    unfold insertHex
    rw [hhex, group_singleton, group_singleton]
    simp [hn]

theorem length_insertHex_le (n : ℕ) :
    (classic.insertHex 4 0x30 n).length ≤ (loc.insertHex 4 0x30 n).length := by
  have h := loc.length_le_group (hex n)
  simp only [insertHex, List.length_append, List.length_replicate, classic_group]
  omega

end Locale

namespace AccessToken
open Json

variable (loc : Locale)

section Strings

/-- The characters that `EscapeJson` writes with two significant hexadecimal digits. -/
def WideControl (b : UInt8) : Prop := 0x10 ≤ b ∧ b ≤ 0x1f

instance (b : UInt8) : Decidable (WideControl b) := inferInstanceAs (Decidable (_ ∧ _))

theorem escapeByte_eq_iff (b : UInt8) :
    escapeByte loc b = escapeByte Locale.classic b ↔
      (loc.separates 2 = true → ¬ WideControl b) := by
  have hwide : ∀ b : UInt8, b < 0x20 → (WideControl b ↔ 16 ≤ b.toNat) :=
    forall_byte (by decide +kernel)
  unfold escapeByte
  split_ifs with h1 h2 h3 h4 h5 h6 h7 hlow
  · simp [h1, WideControl]
  · simp [h2, WideControl]
  · simp [h3, WideControl]
  · simp [h4, WideControl]
  · simp [h5, WideControl]
  · simp [h6, WideControl]
  · simp [h7, WideControl]
  · rw [List.append_cancel_left_eq, loc.insertHex_eq_iff (byte_lt_iff.mp hlow), hwide b hlow]
  · have hnot : ∀ b : UInt8, ¬ b < 0x20 → ¬ WideControl b := forall_byte (by decide +kernel)
    simp [hnot b hlow]

theorem length_escapeByte_le (b : UInt8) :
    (escapeByte Locale.classic b).length ≤ (escapeByte loc b).length := by
  unfold escapeByte
  split_ifs
  all_goals first
    | exact le_rfl
    | simpa using loc.length_insertHex_le b.toNat

theorem escapeJson_eq_iff (s : Bytes) :
    escapeJson loc s = escapeJson Locale.classic s ↔
      (loc.separates 2 = true → ∀ b ∈ s, ¬ WideControl b) := by
  have hpieces := flatMap_eq_iff s fun b _ => length_escapeByte_le loc b
  unfold escapeJson
  simp only [hpieces, escapeByte_eq_iff]
  exact ⟨fun h hs b hb => h b hb hs, fun h b hb hs => h hs b hb⟩

theorem length_escapeJson_le (s : Bytes) :
    (escapeJson Locale.classic s).length ≤ (escapeJson loc s).length := by
  unfold escapeJson
  induction s with
  | nil => exact le_rfl
  | cons b s ih =>
      have hb := length_escapeByte_le loc b
      simp only [List.flatMap_cons, List.length_append]
      omega

end Strings

section Claims

/-- The locale leaves every number and every string of the claims alone. -/
def LocaleNeutral (token : AccessToken) (issuedAt expiresAt : ℤ) : Prop :=
  loc.separates (Decimal.decimal issuedAt.natAbs).length = false ∧
  loc.separates (Decimal.decimal expiresAt.natAbs).length = false ∧
  (loc.separates 2 = true → ∀ s ∈ token.strings, ∀ b ∈ s, ¬ WideControl b)

theorem token_string_eq_iff (s : Bytes) :
    (writer loc).token (.string s) = (writer Locale.classic).token (.string s) ↔
      escapeJson loc s = escapeJson Locale.classic s := by
  rw [token_string, token_string, List.cons_inj_right, List.append_cancel_right_eq]

theorem length_token_le (t : Token) :
    ((writer Locale.classic).token t).length ≤ ((writer loc).token t).length := by
  cases t with
  | punct text => exact le_rfl
  | number n => exact loc.length_insertInteger_le _
  | string s =>
      have h := length_escapeJson_le loc s
      simp only [token_string, List.length_cons, List.length_append, List.length_nil]
      omega

theorem claimsText_eq_iff (token : AccessToken) (issuedAt expiresAt : ℤ) :
    claimsText loc token issuedAt expiresAt = claimsText Locale.classic token issuedAt expiresAt ↔
      LocaleNeutral loc token issuedAt expiresAt := by
  have hpieces := flatMap_eq_iff (f := (writer loc).token) (g := (writer Locale.classic).token)
    (tokens (.object (token.claims issuedAt expiresAt))) fun t _ => length_token_le loc t
  have htokens := forall_tokens
    (P := fun t => (writer loc).token t = (writer Locale.classic).token t) (fun _ _ => rfl)
    (.object (token.claims issuedAt expiresAt))
  have hplain : ∀ s, Plain s →
      (writer loc).token (.string s) = (writer Locale.classic).token (.string s) := fun s hs => by
    rw [token_string_eq_iff, escapeJson_plain loc hs, escapeJson_plain Locale.classic hs]
  have hnumber : ∀ n : ℤ, (writer loc).token (.number (.ofInt n)) =
      (writer Locale.classic).token (.number (.ofInt n)) ↔
        loc.separates (Decimal.decimal n.natAbs).length = false := fun n => by
    rw [← loc.insertInteger_eq_iff]
    change (writer loc).number (.ofInt n) = (writer Locale.classic).number (.ofInt n) ↔ _
    rw [writer_number_ofInt, writer_number_ofInt]
  rw [claimsText_eq_write, claimsText_eq_write]
  unfold Writer.write LocaleNeutral
  rw [hpieces, htokens, all_claims hplain, hnumber, hnumber]
  simp only [token_string_eq_iff, escapeJson_eq_iff]
  constructor
  · rintro ⟨hstrings, hissued, hexpires⟩
    exact ⟨hissued, hexpires, fun hs s hm => hstrings s hm hs⟩
  · rintro ⟨hissued, hexpires, hstrings⟩
    exact ⟨fun s hm hs => hstrings hs s hm, hissued, hexpires⟩

/-- Tokens over different claims differ before the second dot. -/
theorem jwtOver_injective {backend : Crypto.Backend} {secret claims others : Bytes}
    (hmac : ∀ value, ∃ mac, Crypto.hmacSha256 backend secret value = .ok mac)
    (h : jwtOver backend secret claims = jwtOver backend secret others) : claims = others := by
  obtain ⟨mac, hm⟩ := hmac (signedPart claims)
  obtain ⟨mac', hm'⟩ := hmac (signedPart others)
  simp only [jwtOver, hm, hm', Except.map, Except.ok.injEq] at h
  have hdot : ∀ data, (0x2e : UInt8) ∉ Crypto.base64UrlEncode data := fun data hd =>
    absurd (Crypto.mem_urlAlphabet hd) (by decide)
  have hrest : Crypto.base64UrlEncode claims ++ 0x2e :: Crypto.base64UrlEncode mac =
      Crypto.base64UrlEncode others ++ 0x2e :: Crypto.base64UrlEncode mac' := by
    simpa [signedPart] using h
  have hindex := congrArg (List.idxOf? 0x2e) hrest
  rw [Bytes.idxOf?_append_cons (hdot claims), Bytes.idxOf?_append_cons (hdot others)] at hindex
  have hsecond := (List.append_inj hrest (Option.some.inj hindex)).1
  have hdecode := congrArg Crypto.base64UrlDecode hsecond
  rw [Crypto.decode_base64UrlEncode, Crypto.decode_base64UrlEncode] at hdecode
  exact Except.ok.inj hdecode

end Claims

section Tokens

variable (clock : SystemClock) (backend : Crypto.Backend) (token : AccessToken) (now : TimePoint)

/-- The token is the one of the classic locale exactly when none is signed or the locale leaves
the numbers and the control characters of its claims alone. -/
theorem toJwt_locale_iff
    (hmac : ∀ value, ∃ mac, Crypto.hmacSha256 backend token.apiSecret value = .ok mac) :
    token.toJwt clock backend loc now = token.toJwt clock backend Locale.classic now ↔
      token.apiKey = [] ∨ token.apiSecret = [] ∨
        LocaleNeutral loc token (clock.secondsSinceEpoch now)
          (wrapInt64 (clock.secondsSinceEpoch now + token.validFor)) := by
  by_cases hkey : token.apiKey = []
  · simp [toJwt, hkey]
  by_cases hsecret : token.apiSecret = []
  · simp [toJwt, hsecret]
  rw [toJwt_eq clock token backend loc now hkey hsecret,
    toJwt_eq clock token backend Locale.classic now hkey hsecret]
  have hclaims := claimsText_eq_iff loc token (clock.secondsSinceEpoch now)
    (wrapInt64 (clock.secondsSinceEpoch now + token.validFor))
  simp only [hkey, hsecret, false_or]
  rw [← hclaims]
  constructor
  · exact fun h => jwtOver_injective hmac h
  · exact fun h => congrArg (jwtOver backend token.apiSecret) h

def plainToken : AccessToken := new (ascii "key") (ascii "secret")

/-- The locale of an application that groups digits by three. -/
def groupedLocale : Locale := ⟨[3], 0x2c⟩

/-- The digests that sign `plainToken` at second 1700000000, in the classic locale and in
`groupedLocale`. -/
def plainBackend : Crypto.Backend where
  evpDigest _ := none
  evpMac _ value :=
    if value = plainToken.unsignedToken .nanoseconds Locale.classic
      sampleNow then
      some
        [216, 173, 21, 114, 181, 49, 141, 101, 173, 200, 30, 100, 252, 127, 89, 159, 151, 7, 89,
          253, 140, 21, 197, 156, 49, 174, 27, 61, 82, 57, 153, 9]
    else
      some
        [178, 107, 9, 95, 24, 147, 52, 164, 252, 63, 137, 82, 13, 240, 32, 27, 34, 115, 46, 203,
          172, 27, 102, 61, 128, 229, 37, 255, 152, 245, 191, 242]

theorem plainBackend_signs (value : Bytes) :
    ∃ mac, Crypto.hmacSha256 plainBackend plainToken.apiSecret value = .ok mac := by
  unfold Crypto.hmacSha256 plainBackend
  dsimp only
  split_ifs
  · exact ⟨_, rfl⟩
  · exact ⟨_, rfl⟩

theorem toJwt_wide_groups :
    plainToken.toJwt .nanoseconds plainBackend ⟨[10], 0x2c⟩ sampleNow =
      plainToken.toJwt .nanoseconds plainBackend Locale.classic
        sampleNow :=
  (toJwt_locale_iff ⟨[10], 0x2c⟩ .nanoseconds plainBackend plainToken
    sampleNow plainBackend_signs).mpr
    (Or.inr (Or.inr ⟨by decide, by decide, by decide⟩))

theorem toJwt_groupedLocale :
    plainToken.toJwt .nanoseconds plainBackend groupedLocale sampleNow ≠
      plainToken.toJwt .nanoseconds plainBackend Locale.classic
        sampleNow := by
  decide +kernel

end Tokens

end AccessToken
end LivekitServer

import LivekitServer.TokenClaims

/-!
# String escaping in the classic locale

Inside a JSON string a reader takes back each escaped byte on its own: a short escape, a
four-digit escape of a control character, or the byte itself. So `EscapeJson` is lossless on
every byte string, and it keeps valid UTF-8 valid.
-/

namespace LivekitServer.AccessToken
open Json JsonText

theorem hexValue_hexChar {d : ℕ} (h : d < 16) : hexValue (Decimal.hexChar d) = some d := by
  have hall : ∀ d : Fin 16, hexValue (Decimal.hexChar d) = some (d : ℕ) := by decide
  exact hall ⟨d, h⟩

theorem insertHex_control {n : ℕ} (h : n < 32) :
    Locale.classic.insertHex 4 0x30 n =
      [0x30, 0x30, Decimal.hexChar (n / 16), Decimal.hexChar (n % 16)] := by
  have hall : ∀ n : Fin 32, Locale.classic.insertHex 4 0x30 n =
      [0x30, 0x30, Decimal.hexChar (n / 16), Decimal.hexChar (n % 16)] := by decide +kernel
  exact hall ⟨n, h⟩

/-- The escape of a control character is read back as that character. -/
theorem unicodeEscape_control {b : UInt8} (h : b < 0x20) (rest : Bytes) :
    unicodeEscape (Locale.classic.insertHex 4 0x30 b.toNat ++ rest) = some ([b], rest) := by
  have hn : b.toNat < 32 := byte_lt_iff.mp h
  have hzero : hexValue 0x30 = some 0 := by decide
  have hunit : codeUnit (Locale.classic.insertHex 4 0x30 b.toNat ++ rest) =
      some (b.toNat, rest) := by
    rw [insertHex_control hn]
    simp only [List.cons_append, List.nil_append, codeUnit, hzero,
      hexValue_hexChar (by omega : b.toNat / 16 < 16), hexValue_hexChar (by omega : b.toNat % 16 < 16)]
    have hsum : ((0 * 16 + 0) * 16 + b.toNat / 16) * 16 + b.toNat % 16 = b.toNat := by omega
    rw [hsum]
  have hencode : Utf8.encode b.toNat = [b] := by
    simp [Utf8.encode, show b.toNat < 0x80 by omega]
  simp only [unicodeEscape, hunit, hencode]
  rw [if_neg (by omega), if_neg (by omega)]

theorem escapeByte_short {b c : UInt8} (hshort : escapeByte Locale.classic b = [0x5c, c])
    (hread : ∀ rest, escapeSequence (c :: rest) = some ([b], rest)) (fuel : ℕ) (rest : Bytes) :
    stringBody (fuel + 1) (escapeByte Locale.classic b ++ rest) =
      (stringBody fuel rest).map fun r => (b :: r.1, r.2) := by
  rw [hshort]
  simp only [List.cons_append, List.nil_append, stringBody, hread]
  rfl

theorem escapeByte_control {b : UInt8} (h : b < 0x20)
    (hcontrol : escapeByte Locale.classic b =
      0x5c :: 0x75 :: Locale.classic.insertHex 4 0x30 b.toNat) (fuel : ℕ) (rest : Bytes) :
    stringBody (fuel + 1) (escapeByte Locale.classic b ++ rest) =
      (stringBody fuel rest).map fun r => (b :: r.1, r.2) := by
  have hread : escapeSequence (0x75 :: (Locale.classic.insertHex 4 0x30 b.toNat ++ rest)) =
      some ([b], rest) := by
    rw [← unicodeEscape_control h rest]
    rfl
  rw [hcontrol]
  simp only [List.cons_append, stringBody, hread]
  rfl

theorem byteEscape_escapeByte : ByteEscape (escapeByte Locale.classic) where
  read b fuel rest := by
    by_cases hquote : b = 0x22
    · subst hquote
      exact escapeByte_short rfl (fun _ => rfl) fuel rest
    by_cases hback : b = 0x5c
    · subst hback
      exact escapeByte_short rfl (fun _ => rfl) fuel rest
    by_cases hlow : b < 0x20
    · by_cases hb : b = 0x08
      · subst hb
        exact escapeByte_short rfl (fun _ => rfl) fuel rest
      by_cases hf : b = 0x0c
      · subst hf
        exact escapeByte_short rfl (fun _ => rfl) fuel rest
      by_cases hn : b = 0x0a
      · subst hn
        exact escapeByte_short rfl (fun _ => rfl) fuel rest
      by_cases hr : b = 0x0d
      · subst hr
        exact escapeByte_short rfl (fun _ => rfl) fuel rest
      by_cases ht : b = 0x09
      · subst ht
        exact escapeByte_short rfl (fun _ => rfl) fuel rest
      refine escapeByte_control hlow ?_ fuel rest
      simp only [escapeByte, if_neg hquote, if_neg hback, if_neg hb, if_neg hf, if_neg hn,
        if_neg hr, if_neg ht, if_pos hlow]
      rfl
    · rw [escapeByte_plain Locale.classic ⟨hlow, hquote, hback⟩]
      simp only [List.singleton_append, stringBody, if_neg hquote, if_neg hback, if_neg hlow]
  ne_nil b := by
    unfold escapeByte
    split_ifs <;> simp [ascii]

theorem writer_lossless : Writer.Lossless (writer Locale.classic) :=
  fun s rest => byteEscape_escapeByte.string_reads s rest

theorem readsNumber_ofInt (n : ℤ) : Writer.ReadsNumber (writer Locale.classic) (.ofInt n) := by
  intro rest hrest
  rw [writer_number_ofInt, Locale.classic_insertInteger]
  exact number_signed n hrest

theorem asciiRewriting_escapeByte : Utf8.AsciiRewriting (escapeByte Locale.classic) where
  keeps b hb := by
    rw [byte_lt_iff] at hb
    have hne : ∀ c : UInt8, c < 0x80 → b ≠ c := by
      intro c hc he
      rw [he] at hb
      exact hb (byte_lt_iff.mp hc)
    refine escapeByte_plain Locale.classic ⟨?_, hne 0x22 (by decide), hne 0x5c (by decide)⟩
    rw [byte_lt_iff]
    have h20 : (0x20 : UInt8).toNat = 32 := rfl
    have h80 : (0x80 : UInt8).toNat = 128 := rfl
    omega
  ascii b hb := by
    revert hb
    exact forall_byte (P := fun b => b < 0x80 → ∀ c ∈ escapeByte Locale.classic b, c < 0x80)
      (by decide +kernel) b

theorem valid_escapeJson {s : Bytes} (h : Utf8.Valid s) :
    Utf8.Valid (escapeJson Locale.classic s) := asciiRewriting_escapeByte.valid h

theorem valid_quoted {s : Bytes} (h : Utf8.Valid s) :
    Utf8.Valid ((writer Locale.classic).token (.string s)) := by
  have hquote : Utf8.Valid [0x22] := by decide
  exact hquote.append ((valid_escapeJson h).append hquote)

/-- The bytes of a numeral. -/
theorem signed_bytes (n : ℤ) {b : UInt8} (h : b ∈ Decimal.signed n) :
    b = 0x2d ∨ Decimal.isDigit b = true := by
  unfold Decimal.signed at h
  split_ifs at h
  · rcases List.mem_cons.mp h with rfl | h
    · exact Or.inl rfl
    · exact Or.inr (Decimal.isDigit_of_mem_decimal h)
  · exact Or.inr (Decimal.isDigit_of_mem_decimal h)

theorem valid_signed (n : ℤ) : Utf8.Valid (Decimal.signed n) := by
  have hdigit : ∀ b : UInt8, Decimal.isDigit b = true → b < 0x80 :=
    forall_byte (by decide +kernel)
  refine Utf8.valid_of_ascii fun b hb => ?_
  rcases signed_bytes n hb with rfl | hb
  · decide
  · exact hdigit b hb

theorem valid_number (n : ℤ) : Utf8.Valid ((writer Locale.classic).number (.ofInt n)) := by
  rw [writer_number_ofInt, Locale.classic_insertInteger]
  exact valid_signed n

end LivekitServer.AccessToken

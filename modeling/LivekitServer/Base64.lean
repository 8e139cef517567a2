import LivekitServer.Crypto

/-!
# What base64 texts look like

Lengths of the encoded texts, and the texts that the decoder accepts. The decoder stops at the
first `=` and tests the length of the whole text, so what stands behind that `=` is skipped:
`decodes_iff` is the rule of the code and `IsBase64` the grammar.
-/

namespace LivekitServer.Crypto

section Encoding

theorem length_base64_unpadded (alphabet : Bytes) (data : Bytes) :
    (base64 alphabet false data).length = (4 * data.length + 2) / 3 := by
  induction data using base64.induct with
  | case1 => rfl
  | case2 a => simp [base64, base64Group]
  | case3 a b => simp [base64, base64Group]
  | case4 a b c rest ih =>
      have hgroup : (base64Group alphabet false a (some b) (some c)).length = 4 := rfl
      rw [base64, List.length_append, hgroup, ih]
      simp only [List.length_cons]
      omega

theorem length_base64_padded (alphabet : Bytes) (data : Bytes) :
    (base64 alphabet true data).length = 4 * ((data.length + 2) / 3) := by
  induction data using base64.induct with
  | case1 => rfl
  | case2 a => simp [base64, base64Group]
  | case3 a b => simp [base64, base64Group]
  | case4 a b c rest ih =>
      have hgroup : (base64Group alphabet true a (some b) (some c)).length = 4 := rfl
      rw [base64, List.length_append, hgroup, ih]
      simp only [List.length_cons]
      omega

theorem base64_injective {alphabet : Bytes} (h : Readable alphabet) (padding : Bool) :
    Function.Injective (base64 alphabet padding) := by
  intro data other heq
  have hdata := base64UrlDecode_base64 h padding data
  rw [heq, base64UrlDecode_base64 h padding other] at hdata
  exact (Except.ok.inj hdata).symm

/-- Both encoders are undone by the one decoder. The lengths are `⌈4 n / 3⌉` and `4 ⌈n / 3⌉`. -/
theorem base64_roundTrip :
    (∀ x, base64UrlDecode (base64UrlEncode x) = .ok x ∧
      base64UrlDecode (base64Encode x) = .ok x ∧
      (base64UrlEncode x).length = (4 * x.length + 2) / 3 ∧
      (∀ b ∈ base64UrlEncode x, b ∈ urlAlphabet) ∧
      (base64Encode x).length = 4 * ((x.length + 2) / 3)) ∧
    Function.Injective base64UrlEncode ∧ Function.Injective base64Encode := by
  refine ⟨fun x => ?_, base64_injective readable_urlAlphabet false,
    base64_injective readable_standardAlphabet true⟩
  exact ⟨decode_base64UrlEncode x, base64UrlDecode_base64 readable_standardAlphabet true x,
    length_base64_unpadded urlAlphabet x, fun b hb => mem_urlAlphabet hb,
    length_base64_padded standardAlphabet x⟩

end Encoding

section Decoding

def IsLetter (b : UInt8) : Prop := b ∈ standardAlphabet ∨ b ∈ urlAlphabet

instance (b : UInt8) : Decidable (IsLetter b) := inferInstanceAs (Decidable (_ ∨ _))

/-- What stands before the first `=`. -/
def letters (s : Bytes) : Bytes := s.takeWhile (· ≠ 0x3d)

/-- The first `=` and all that follows it. -/
def padding (s : Bytes) : Bytes := s.dropWhile (· ≠ 0x3d)

theorem letters_append_padding (s : Bytes) : letters s ++ padding s = s :=
  List.takeWhile_append_dropWhile

theorem isLetter_iff (b : UInt8) : IsLetter b ↔ 0 ≤ base64UrlValue b := by
  have hstandard : ∀ b ∈ standardAlphabet, 0 ≤ base64UrlValue b := by decide +kernel
  have hurl : ∀ b ∈ urlAlphabet, 0 ≤ base64UrlValue b := by decide +kernel
  have hvalue : ∀ b : UInt8, 0 ≤ base64UrlValue b → IsLetter b := forall_byte (by decide +kernel)
  constructor
  · rintro (h | h)
    · exact hstandard b h
    · exact hurl b h
  · exact hvalue b

theorem not_isLetter_padding : ¬ IsLetter 0x3d := by decide

/-- The loop reads the letters before the first `=` and is left with the bits that fill no byte. -/
theorem decodeLoop_letters {s : Bytes} (buffer : UInt32) {bits : ℕ} (hbits : bits < 8)
    (h : ∀ b ∈ letters s, IsLetter b) :
    ∃ output, decodeLoop s buffer bits = .ok (output, (bits + 6 * (letters s).length) % 8) := by
  induction s generalizing buffer bits with
  | nil => exact ⟨[], by simp [decodeLoop, letters, Nat.mod_eq_of_lt hbits]⟩
  | cons ch rest ih =>
      by_cases hpad : ch = 0x3d
      · subst hpad
        exact ⟨[], by simp [decodeLoop, letters, Nat.mod_eq_of_lt hbits]⟩
      · have hletters : letters (ch :: rest) = ch :: letters rest :=
          List.takeWhile_cons_of_pos (by simpa using hpad)
        rw [hletters] at h ⊢
        have hvalue : ¬ base64UrlValue ch < 0 :=
          not_lt.mpr ((isLetter_iff ch).mp (h ch List.mem_cons_self))
        have hrest : ∀ b ∈ letters rest, IsLetter b := fun b hb => h b (List.mem_cons_of_mem ch hb)
        rw [decodeLoop, if_neg hpad, if_neg hvalue]
        by_cases hfull : bits + 6 ≥ 8
        · have hleft : (bits + 6 - 8 + 6 * (letters rest).length) % 8 =
              (bits + 6 * (ch :: letters rest).length) % 8 := by
            simp only [List.length_cons]
            omega
          obtain ⟨output, hloop⟩ := ih ((buffer <<< 6) ||| UInt32.ofNat (base64UrlValue ch).toNat)
            (show bits + 6 - 8 < 8 by omega) hrest
          simp only [if_pos hfull, hloop, hleft]
          exact ⟨_, rfl⟩
        · have hleft : (bits + 6 + 6 * (letters rest).length) % 8 =
              (bits + 6 * (ch :: letters rest).length) % 8 := by
            simp only [List.length_cons]
            omega
          obtain ⟨output, hloop⟩ := ih ((buffer <<< 6) ||| UInt32.ofNat (base64UrlValue ch).toNat)
            (show bits + 6 < 8 by omega) hrest
          simp only [if_neg hfull, hloop, hleft]
          exact ⟨output, rfl⟩

/-- Any other byte before the first `=` is an error. -/
theorem decodeLoop_invalid {s : Bytes} {buffer : UInt32} {bits : ℕ}
    (h : ∃ b ∈ letters s, ¬ IsLetter b) :
    decodeLoop s buffer bits = raise .authentication (ascii "JWT contains invalid base64url") := by
  induction s generalizing buffer bits with
  | nil => simp [letters] at h
  | cons ch rest ih =>
      by_cases hpad : ch = 0x3d
      · simp [letters, hpad] at h
      · have hletters : letters (ch :: rest) = ch :: letters rest :=
          List.takeWhile_cons_of_pos (by simpa using hpad)
        rw [decodeLoop, if_neg hpad]
        by_cases hvalue : base64UrlValue ch < 0
        · rw [if_pos hvalue]
        · rw [if_neg hvalue]
          obtain ⟨b, hb, hnot⟩ := h
          rw [hletters] at hb
          have hrest : ∃ b ∈ letters rest, ¬ IsLetter b := by
            rcases List.mem_cons.mp hb with rfl | hb
            · exact absurd ((isLetter_iff b).mpr (not_lt.mp hvalue)) hnot
            · exact ⟨b, hb, hnot⟩
          simp only [ih hrest]
          split_ifs <;> rfl

/-- The decoder returns, or throws one of two errors. -/
theorem base64UrlDecode_cases (s : Bytes) :
    (∃ output, base64UrlDecode s = .ok output) ∨
      ∃ message ∈ [ascii "JWT contains invalid base64url", ascii "JWT contains malformed base64url"],
        base64UrlDecode s = raise .authentication message := by
  by_cases h : ∀ b ∈ letters s, IsLetter b
  · obtain ⟨output, hloop⟩ := decodeLoop_letters 0 (by omega : 0 < 8) h
    rw [base64UrlDecode, hloop]
    by_cases hleft : (0 + 6 * (letters s).length) % 8 ≥ 6 ∨ s.length % 4 = 1
    · exact Or.inr ⟨_, by simp, if_pos hleft⟩
    · exact Or.inl ⟨output, if_neg hleft⟩
  · push Not at h
    refine Or.inr ⟨_, List.mem_cons_self, ?_⟩
    rw [base64UrlDecode, decodeLoop_invalid h]
    rfl

/-- The rule of the code: letters up to the first `=`, and two tests on lengths. -/
theorem decodes_iff (s : Bytes) :
    (∃ x, base64UrlDecode s = .ok x) ↔
      (∀ b ∈ letters s, IsLetter b) ∧ (letters s).length % 4 ≠ 1 ∧ s.length % 4 ≠ 1 := by
  by_cases h : ∀ b ∈ letters s, IsLetter b
  · obtain ⟨output, hloop⟩ := decodeLoop_letters 0 (show 0 < 8 by norm_num) h
    have hbits : (0 + 6 * (letters s).length) % 8 ≥ 6 ↔ (letters s).length % 4 = 1 := by omega
    simp only [base64UrlDecode, hloop, hbits]
    by_cases hlength : (letters s).length % 4 = 1 ∨ s.length % 4 = 1
    · rw [if_pos hlength]
      refine iff_of_false ?_ (by tauto)
      rintro ⟨x, hx⟩
      cases hx
    · rw [if_neg hlength]
      exact iff_of_true ⟨output, rfl⟩ ⟨h, by tauto⟩
  · have hinvalid : ∃ b ∈ letters s, ¬ IsLetter b := by simpa using h
    simp only [base64UrlDecode, decodeLoop_invalid hinvalid]
    refine iff_of_false ?_ fun hletters => h hletters.1
    rintro ⟨x, hx⟩
    cases hx

/-- The grammar: letters, not one more than a multiple of four, then nothing or the one or two `=`
that complete them to a multiple of four. -/
def IsBase64 (s : Bytes) : Prop :=
  ∃ front back, s = front ++ back ∧ (∀ b ∈ front, IsLetter b) ∧ front.length % 4 ≠ 1 ∧
    (back = [] ∨ (back = [0x3d] ∨ back = [0x3d, 0x3d]) ∧ (front ++ back).length % 4 = 0)

/-- Nothing is skipped: the first `=` begins the completing padding or comes too late to matter. -/
def NothingSkipped (s : Bytes) : Prop :=
  padding s = [] ∨ (padding s = [0x3d] ∨ padding s = [0x3d, 0x3d]) ∧ s.length % 4 = 0 ∨
    (∃ b ∈ letters s, ¬ IsLetter b) ∨ (letters s).length % 4 = 1 ∨ s.length % 4 = 1

theorem letters_append {front back : Bytes} (hfront : ∀ b ∈ front, IsLetter b)
    (hback : back = [] ∨ back.head? = some 0x3d) :
    letters (front ++ back) = front ∧ padding (front ++ back) = back := by
  have hne : ∀ b ∈ front, decide (b ≠ 0x3d) = true := by
    intro b hb
    apply decide_eq_true
    rintro rfl
    exact not_isLetter_padding (hfront _ hb)
  unfold letters padding
  rw [List.takeWhile_append_of_pos hne, List.dropWhile_append_of_pos hne]
  rcases hback with rfl | hhead
  · simp
  · obtain ⟨rest, rfl⟩ : ∃ rest, back = 0x3d :: rest := by
      cases back with
      | nil => cases hhead
      | cons b rest => exact ⟨rest, by rw [Option.some.inj hhead]⟩
    simp

theorem isBase64_iff (s : Bytes) :
    IsBase64 s ↔ (∀ b ∈ letters s, IsLetter b) ∧ (letters s).length % 4 ≠ 1 ∧
      (padding s = [] ∨ (padding s = [0x3d] ∨ padding s = [0x3d, 0x3d]) ∧ s.length % 4 = 0) := by
  constructor
  · rintro ⟨front, back, rfl, hfront, hlength, hback⟩
    have hhead : back = [] ∨ back.head? = some 0x3d := by
      rcases hback with h | ⟨rfl | rfl, -⟩
      · exact Or.inl h
      · exact Or.inr rfl
      · exact Or.inr rfl
    obtain ⟨hl, hp⟩ := letters_append hfront hhead
    rw [hl, hp]
    exact ⟨hfront, hlength, hback⟩
  · rintro ⟨hletters, hlength, hpadding⟩
    refine ⟨letters s, padding s, (letters_append_padding s).symm, hletters, hlength, ?_⟩
    rwa [letters_append_padding]

/-- The decoder accepts the grammar and nothing else exactly on the texts of which it skips
nothing. -/
theorem base64UrlDecode_grammar_iff (s : Bytes) :
    ((∃ x, base64UrlDecode s = .ok x) ↔ IsBase64 s) ↔ NothingSkipped s := by
  have hlength := congrArg List.length (letters_append_padding s)
  rw [List.length_append] at hlength
  rw [decodes_iff, isBase64_iff]
  unfold NothingSkipped
  by_cases hletters : ∀ b ∈ letters s, IsLetter b
  · have hvalid : ¬ ∃ b ∈ letters s, ¬ IsLetter b := by simpa using hletters
    by_cases hpadding : padding s = []
    · rw [hpadding, List.length_nil, Nat.add_zero] at hlength
      rw [hlength]
      exact iff_of_true (by tauto) (Or.inl hpadding)
    · by_cases hcomplete : (padding s = [0x3d] ∨ padding s = [0x3d, 0x3d]) ∧ s.length % 4 = 0
      · have hlong : s.length % 4 ≠ 1 := by omega
        exact iff_of_true (by tauto) (Or.inr (Or.inl hcomplete))
      · tauto
  · have hinvalid : ∃ b ∈ letters s, ¬ IsLetter b := by simpa using hletters
    simp only [hletters, hinvalid, false_and, true_or, or_true]

/-- Text behind a `=` is skipped. -/
theorem base64UrlDecode_skips :
    base64UrlDecode (ascii "QQ==QQ==") = .ok [0x41] ∧ ¬ IsBase64 (ascii "QQ==QQ==") := by
  rw [isBase64_iff]
  decide +kernel

end Decoding
end LivekitServer.Crypto

import LivekitServer.Error
import Mathlib.Tactic.IntervalCases

/-!
# Base64, digests and byte comparison

The encoder works on groups of three bytes, the decoder on a stream of six-bit letters in a
32-bit accumulator that is never masked. `base64UrlDecode_base64` relates the two: between
groups the decoder owes no bits, and inside a group only the low bits of the accumulator matter.
-/

namespace LivekitServer.Crypto

/-- The digests of the cryptographic library, `none` where a call reports failure. -/
structure Backend where
  evpDigest : Bytes → Option Bytes
  evpMac : Bytes → Bytes → Option Bytes

/-- A backend that gives the same digests whatever it is asked. -/
def Backend.constant (digest mac : Bytes) : Backend := ⟨fun _ => some digest, fun _ _ => some mac⟩

def sha256 (backend : Backend) (value : Bytes) : Outcome Bytes :=
  match backend.evpDigest value with
  | none => raise .authentication (ascii "SHA-256 operation failed")
  | some digest =>
    if digest.length = 32 then .ok digest
    else raise .authentication (ascii "SHA-256 operation failed")

def hmacSha256 (backend : Backend) (secret value : Bytes) : Outcome Bytes :=
  match backend.evpMac secret value with
  | none => raise .authentication (ascii "HS256 operation failed")
  | some digest =>
    if digest.length = 32 then .ok digest
    else raise .authentication (ascii "HS256 operation failed")

def letter (alphabet : Bytes) (value : UInt32) : UInt8 :=
  alphabet.getD (value &&& 0x3f).toNat 0

/-- One pass of the loop of `Base64`: a group whose later bytes may lie past the end. -/
def base64Group (alphabet : Bytes) (padding : Bool) (first : UInt8) (second third : Option UInt8) :
    Bytes :=
  let value : UInt32 := (first.toUInt32 <<< 16) ||| ((second.getD 0).toUInt32 <<< 8) |||
    (third.getD 0).toUInt32
  [letter alphabet (value >>> 18), letter alphabet (value >>> 12)] ++
    (if second.isSome then [letter alphabet (value >>> 6)] else if padding then [0x3d] else []) ++
    (if third.isSome then [letter alphabet value] else if padding then [0x3d] else [])

def base64 (alphabet : Bytes) (padding : Bool) : Bytes → Bytes
  | [] => []
  | [first] => base64Group alphabet padding first none none
  | [first, second] => base64Group alphabet padding first (some second) none
  | first :: second :: third :: rest =>
    base64Group alphabet padding first (some second) (some third) ++ base64 alphabet padding rest

def standardAlphabet : Bytes :=
  ascii "ABCDEFGHIJKLMNOPQRSTUVWXYZabcdefghijklmnopqrstuvwxyz0123456789+/"

def urlAlphabet : Bytes :=
  ascii "ABCDEFGHIJKLMNOPQRSTUVWXYZabcdefghijklmnopqrstuvwxyz0123456789-_"

def base64Encode (value : Bytes) : Bytes := base64 standardAlphabet true value

def base64UrlEncode (value : Bytes) : Bytes := base64 urlAlphabet false value

def base64UrlValue (ch : UInt8) : ℤ :=
  if 0x41 ≤ ch ∧ ch ≤ 0x5a then ch.toNat - 0x41
  else if 0x61 ≤ ch ∧ ch ≤ 0x7a then ch.toNat - 0x61 + 26
  else if 0x30 ≤ ch ∧ ch ≤ 0x39 then ch.toNat - 0x30 + 52
  else if ch = 0x2d ∨ ch = 0x2b then 62
  else if ch = 0x5f ∨ ch = 0x2f then 63
  else -1

/-- The loop of `Base64UrlDecode`: the bytes it appends and the bits it is left with. -/
def decodeLoop : Bytes → UInt32 → ℕ → Outcome (Bytes × ℕ)
  | [], _, bits => .ok ([], bits)
  | ch :: rest, buffer, bits =>
    if ch = 0x3d then .ok ([], bits)
    else if base64UrlValue ch < 0 then
      raise .authentication (ascii "JWT contains invalid base64url")
    else
      let buffer := (buffer <<< 6) ||| UInt32.ofNat (base64UrlValue ch).toNat
      if bits + 6 ≥ 8 then
        (decodeLoop rest buffer (bits + 6 - 8)).map fun r =>
          (((buffer >>> UInt32.ofNat (bits + 6 - 8)) &&& 0xff).toUInt8 :: r.1, r.2)
      else decodeLoop rest buffer (bits + 6)

def base64UrlDecode (value : Bytes) : Outcome Bytes :=
  match decodeLoop value 0 0 with
  | .error e => .error e
  | .ok (output, bits) =>
    if bits ≥ 6 ∨ value.length % 4 = 1 then
      raise .authentication (ascii "JWT contains malformed base64url")
    else .ok output

/-- The loop of `ConstantTimeEqual` over two texts of one length. -/
def difference : Bytes → Bytes → UInt8 → UInt8
  | l :: left, r :: right, acc => difference left right (acc ||| (l ^^^ r))
  | _, _, acc => acc

def constantTimeEqual (left right : Bytes) : Bool :=
  if left.length ≠ right.length then false else difference left right 0 = 0

section Letters

theorem letter_mem {alphabet : Bytes} (h : alphabet.length = 64) (value : UInt32) :
    letter alphabet value ∈ alphabet := by
  have hlt : (value &&& 0x3f).toNat < alphabet.length := by
    have hand : (value &&& 0x3f).toNat ≤ 63 := by
      rw [UInt32.toNat_and]
      exact Nat.and_le_right
    omega
  unfold letter
  rw [List.getD_eq_getElem?_getD, List.getElem?_eq_getElem hlt, Option.getD_some]
  exact List.getElem_mem hlt

/-- Without padding only letters of the alphabet are written. -/
theorem mem_of_mem_base64 {alphabet : Bytes} (h : alphabet.length = 64) (data : Bytes) :
    ∀ b ∈ base64 alphabet false data, b ∈ alphabet := by
  have hgroup : ∀ first second third, ∀ b ∈ base64Group alphabet false first second third,
      b ∈ alphabet := by
    intro first second third b hb
    cases second <;> cases third <;> simp [base64Group] at hb <;>
      rcases hb with rfl | rfl | rfl | rfl <;> exact letter_mem h _
  induction data using base64.induct with
  | case1 => exact fun b hb => absurd hb List.not_mem_nil
  | case2 first => exact hgroup first none none
  | case3 first second => exact hgroup first (some second) none
  | case4 first second third rest ih =>
      intro b hb
      rcases List.mem_append.mp hb with hb | hb
      · exact hgroup first (some second) (some third) b hb
      · exact ih b hb

theorem mem_urlAlphabet {data : Bytes} {b : UInt8} (h : b ∈ base64UrlEncode data) :
    b ∈ urlAlphabet := mem_of_mem_base64 rfl data b h

end Letters

section Comparison

theorem difference_eq_zero (left right : Bytes) (h : left.length = right.length) (acc : UInt8) :
    difference left right acc = 0 ↔ acc = 0 ∧ left = right := by
  induction left generalizing right acc with
  | nil =>
      cases right with
      | nil => simp [difference]
      | cons r right => simp at h
  | cons l left ih =>
      cases right with
      | nil => simp at h
      | cons r right =>
          have hl : left.length = right.length := by simpa using h
          rw [difference, ih right hl, UInt8.or_eq_zero_iff, UInt8.xor_eq_zero_iff, List.cons.injEq,
            and_assoc]

theorem constantTimeEqual_iff (left right : Bytes) :
    constantTimeEqual left right = true ↔ left = right := by
  unfold constantTimeEqual
  by_cases h : left.length = right.length
  · simp [h, difference_eq_zero left right h]
  · have hne : left ≠ right := fun he => h (congrArg List.length he)
    simp [h, hne]

end Comparison

section RoundTrip

/-- Every letter of the alphabet decodes to its index. -/
def Readable (alphabet : Bytes) : Prop :=
  ∀ i : Fin 64, base64UrlValue (alphabet.getD i 0) = (i : ℕ)

theorem readable_standardAlphabet : Readable standardAlphabet := by
  unfold Readable
  decide +kernel

theorem readable_urlAlphabet : Readable urlAlphabet := by
  unfold Readable
  decide +kernel

theorem shiftLeft_or (a b i : ℕ) (h : b < 2 ^ i) : a <<< i ||| b = a * 2 ^ i + b := by
  rw [← Nat.shiftLeft_add_eq_or_of_lt h, Nat.shiftLeft_eq]

theorem group_value (first second third : UInt8) :
    ((first.toUInt32 <<< 16) ||| (second.toUInt32 <<< 8) ||| third.toUInt32).toNat =
      first.toNat * 65536 + second.toNat * 256 + third.toNat := by
  have h1 := first.toNat_lt
  have h2 := second.toNat_lt
  have h3 := third.toNat_lt
  have hs1 : first.toNat <<< 16 % 4294967296 = first.toNat <<< 16 := by
    rw [Nat.shiftLeft_eq]; omega
  have hs2 : second.toNat <<< 8 % 4294967296 = second.toNat <<< 8 := by
    rw [Nat.shiftLeft_eq]; omega
  have hinner : second.toNat <<< 8 ||| third.toNat = second.toNat * 256 + third.toNat :=
    shiftLeft_or _ _ 8 h3
  have houter := shiftLeft_or first.toNat (second.toNat * 256 + third.toNat) 16 (by omega)
  simp only [UInt32.toNat_or, UInt32.toNat_shiftLeft, UInt8.toNat_toUInt32, UInt32.toNat_ofNat,
    Nat.reduceMod, Nat.reducePow, hs1, hs2]
  rw [Nat.or_assoc, hinner, houter]
  omega

theorem push_value (buffer : UInt32) {d : ℕ} (h : d < 64) :
    ((buffer <<< 6) ||| UInt32.ofNat d).toNat = (buffer.toNat * 64 + d) % 4294967296 := by
  have hb := buffer.toNat_lt
  have hsplit : buffer.toNat <<< 6 % 4294967296 = (buffer.toNat % 67108864) <<< 6 := by
    rw [Nat.shiftLeft_eq, Nat.shiftLeft_eq]; omega
  have hor := shiftLeft_or (buffer.toNat % 67108864) d 6 (by omega)
  simp only [UInt32.toNat_or, UInt32.toNat_shiftLeft, UInt32.toNat_ofNat', UInt32.toNat_ofNat,
    Nat.reduceMod, Nat.reducePow, hsplit]
  rw [Nat.mod_eq_of_lt (by omega : d < 4294967296), hor]
  omega

theorem byte_value (buffer : UInt32) {bits : ℕ} (h : bits < 8) :
    ((buffer >>> UInt32.ofNat bits) &&& 0xff).toUInt8.toNat = buffer.toNat / 2 ^ bits % 256 := by
  simp only [UInt32.toNat_toUInt8, UInt32.toNat_and, UInt32.toNat_shiftRight, UInt32.toNat_ofNat',
    UInt32.toNat_ofNat, Nat.reduceMod, Nat.reducePow]
  rw [Nat.mod_eq_of_lt (by omega : bits < 4294967296), Nat.mod_eq_of_lt (by omega : bits < 32),
    Nat.shiftRight_eq_div_pow, Nat.and_two_pow_sub_one_eq_mod _ 8]
  omega

def push (buffer : UInt32) (d : ℕ) : UInt32 := (buffer <<< 6) ||| UInt32.ofNat d

theorem base64UrlValue_letter {alphabet : Bytes} (h : Readable alphabet) (value : UInt32) :
    base64UrlValue (letter alphabet value) = (value.toNat % 64 : ℕ) := by
  have hv : (value &&& 0x3f).toNat = value.toNat % 64 := by
    simp only [UInt32.toNat_and, UInt32.toNat_ofNat, Nat.reducePow, Nat.reduceMod]
    exact Nat.and_two_pow_sub_one_eq_mod value.toNat 6
  have hi := h ⟨value.toNat % 64, Nat.mod_lt _ (by norm_num)⟩
  rw [letter, hv]
  exact hi

/-- Reading one letter of the encoder. -/
theorem decodeLoop_letter {alphabet : Bytes} (h : Readable alphabet) (value : UInt32)
    (rest : Bytes) (buffer : UInt32) (bits : ℕ) :
    decodeLoop (letter alphabet value :: rest) buffer bits =
      if bits + 6 ≥ 8 then
        (decodeLoop rest (push buffer (value.toNat % 64)) (bits + 6 - 8)).map fun r =>
          (((push buffer (value.toNat % 64) >>> UInt32.ofNat (bits + 6 - 8)) &&& 0xff).toUInt8 ::
            r.1, r.2)
      else decodeLoop rest (push buffer (value.toNat % 64)) (bits + 6) := by
  have hv := base64UrlValue_letter h value
  have hpad : letter alphabet value ≠ 0x3d := by
    intro he
    rw [he] at hv
    have hneg : base64UrlValue 0x3d = -1 := by decide
    omega
  have hnonneg : ¬ base64UrlValue (letter alphabet value) < 0 := by omega
  rw [decodeLoop, if_neg hpad, if_neg hnonneg, hv]
  rfl

theorem byte_eq (buffer : UInt32) (bits : ℕ) (b : UInt8) (hbits : bits < 8)
    (h : buffer.toNat / 2 ^ bits % 256 = b.toNat) :
    ((buffer >>> UInt32.ofNat bits) &&& 0xff).toUInt8 = b :=
  byte_eq_of_toNat ((byte_value buffer hbits).trans h)

theorem shift_value (value : UInt32) (i : ℕ) (hi : i < 32) :
    (value >>> UInt32.ofNat i).toNat = value.toNat / 2 ^ i := by
  simp only [UInt32.toNat_shiftRight, UInt32.toNat_ofNat', Nat.reducePow]
  rw [Nat.mod_eq_of_lt (by omega : i < 4294967296), Nat.mod_eq_of_lt hi,
    Nat.shiftRight_eq_div_pow]

section Group

variable {alphabet : Bytes} (h : Readable alphabet) (buffer : UInt32) (a b c : UInt8)
include h

/-- Two letters yield one byte and leave four bits. -/
theorem decodeLoop_two (value : UInt32) (ha : value.toNat / 65536 = a.toNat) (rest : Bytes) :
    decodeLoop (letter alphabet (value >>> 18) :: letter alphabet (value >>> 12) :: rest) buffer 0 =
      (decodeLoop rest (push (push buffer (value.toNat / 262144 % 64)) (value.toNat / 4096 % 64))
        4).map fun r => (a :: r.1, r.2) := by
  have hlt := a.toNat_lt
  have h18 : (value >>> 18).toNat = value.toNat / 262144 := shift_value value 18 (by norm_num)
  have h12 : (value >>> 12).toNat = value.toNat / 4096 := shift_value value 12 (by norm_num)
  have hp1 := push_value buffer (Nat.mod_lt (value.toNat / 262144) (by norm_num : 0 < 64))
  have hp2 := push_value (push buffer (value.toNat / 262144 % 64))
    (Nat.mod_lt (value.toNat / 4096) (by norm_num : 0 < 64))
  have hbyte := byte_eq
    (push (push buffer (value.toNat / 262144 % 64)) (value.toNat / 4096 % 64)) 4 a (by norm_num)
    (by simp only [push] at *; rw [hp2, hp1]; omega)
  rw [decodeLoop_letter h, if_neg (by norm_num), decodeLoop_letter h, if_pos (by norm_num), h18,
    h12]
  simp only [Nat.zero_add, Nat.reduceAdd, Nat.reduceSub]
  rw [hbyte]

/-- Three letters yield two bytes and leave two bits. -/
theorem decodeLoop_three (value : UInt32) (ha : value.toNat / 65536 = a.toNat)
    (hb : value.toNat / 256 % 256 = b.toNat) (rest : Bytes) :
    ∃ next : UInt32, next.toNat % 4 = value.toNat / 64 % 4 ∧
      decodeLoop (letter alphabet (value >>> 18) :: letter alphabet (value >>> 12) ::
        letter alphabet (value >>> 6) :: rest) buffer 0 =
      (decodeLoop rest next 2).map fun r => (a :: b :: r.1, r.2) := by
  have h6 : (value >>> 6).toNat = value.toNat / 64 := shift_value value 6 (by norm_num)
  have hp2 := push_value (push buffer (value.toNat / 262144 % 64))
    (Nat.mod_lt (value.toNat / 4096) (by norm_num : 0 < 64))
  have hp3 := push_value (push (push buffer (value.toNat / 262144 % 64)) (value.toNat / 4096 % 64))
    (Nat.mod_lt (value.toNat / 64) (by norm_num : 0 < 64))
  have hbyte := byte_eq
    (push (push (push buffer (value.toNat / 262144 % 64)) (value.toNat / 4096 % 64))
      (value.toNat / 64 % 64)) 2 b (by norm_num)
    (by simp only [push] at *; rw [hp3, hp2]; omega)
  refine ⟨push (push (push buffer (value.toNat / 262144 % 64)) (value.toNat / 4096 % 64))
    (value.toNat / 64 % 64), by simp only [push] at *; rw [hp3]; omega, ?_⟩
  rw [decodeLoop_two h buffer a value ha, decodeLoop_letter h, if_pos (by norm_num), h6]
  simp only [Nat.reduceAdd, Nat.reduceSub]
  rw [hbyte]
  cases decodeLoop rest (push (push (push buffer (value.toNat / 262144 % 64))
    (value.toNat / 4096 % 64)) (value.toNat / 64 % 64)) 2 <;> rfl

/-- A full group yields its three bytes and leaves no bits. -/
theorem decodeLoop_group (padding : Bool) (rest : Bytes) :
    ∃ next, decodeLoop (base64Group alphabet padding a (some b) (some c) ++ rest) buffer 0 =
      (decodeLoop rest next 0).map fun r => (a :: b :: c :: r.1, r.2) := by
  have hv := group_value a b c
  have hb := b.toNat_lt
  have hc := c.toNat_lt
  simp only [base64Group, Option.getD_some, Option.isSome_some, if_true, List.cons_append,
    List.nil_append]
  generalize (a.toUInt32 <<< 16) ||| (b.toUInt32 <<< 8) ||| c.toUInt32 = value at hv
  obtain ⟨next, hnext, hthree⟩ := decodeLoop_three h buffer a b value (by omega) (by omega)
    (letter alphabet value :: rest)
  have hp := push_value next (Nat.mod_lt value.toNat (by norm_num : 0 < 64))
  have hbyte := byte_eq (push next (value.toNat % 64)) 0 c (by norm_num)
    (by simp only [push] at *; rw [hp]; omega)
  refine ⟨push next (value.toNat % 64), ?_⟩
  rw [hthree, decodeLoop_letter h, if_pos (by norm_num)]
  simp only [Nat.reduceAdd, Nat.reduceSub]
  rw [hbyte]
  cases decodeLoop rest (push next (value.toNat % 64)) 0 <;> rfl

theorem decodeLoop_tail_one (padding : Bool) :
    decodeLoop (base64Group alphabet padding a none none) buffer 0 = .ok ([a], 4) := by
  have hv := group_value a 0 0
  simp only [base64Group, Option.getD_none, Option.isSome_none, Bool.false_eq_true, if_false,
    List.cons_append, List.nil_append]
  generalize (a.toUInt32 <<< 16) ||| ((0 : UInt8).toUInt32 <<< 8) ||| (0 : UInt8).toUInt32 = value
    at hv
  have hz : (0 : UInt8).toNat = 0 := rfl
  rw [decodeLoop_two h buffer a value (by omega)]
  cases padding <;> rfl

theorem decodeLoop_tail_two (padding : Bool) :
    decodeLoop (base64Group alphabet padding a (some b) none) buffer 0 = .ok ([a, b], 2) := by
  have hv := group_value a b 0
  have hb := b.toNat_lt
  simp only [base64Group, Option.getD_none, Option.getD_some, Option.isSome_some,
    Option.isSome_none, Bool.false_eq_true, if_false, if_true, List.cons_append, List.nil_append]
  generalize (a.toUInt32 <<< 16) ||| (b.toUInt32 <<< 8) ||| (0 : UInt8).toUInt32 = value at hv
  have hz : (0 : UInt8).toNat = 0 := rfl
  obtain ⟨next, -, hthree⟩ := decodeLoop_three h buffer a b value (by omega) (by omega)
    (if padding then [0x3d] else [])
  rw [hthree]
  cases padding <;> rfl

/-- Whatever the accumulator holds, the loop recovers every byte and ends with few bits. -/
theorem decodeLoop_base64 (padding : Bool) (data : Bytes) :
    ∃ bits < 6, decodeLoop (base64 alphabet padding data) buffer 0 = .ok (data, bits) := by
  induction data using base64.induct generalizing buffer with
  | case1 => exact ⟨0, by norm_num, rfl⟩
  | case2 a => exact ⟨4, by norm_num, decodeLoop_tail_one h buffer a padding⟩
  | case3 a b => exact ⟨2, by norm_num, decodeLoop_tail_two h buffer a b padding⟩
  | case4 a b c rest ih =>
      obtain ⟨next, hgroup⟩ := decodeLoop_group h buffer a b c padding
        (base64 alphabet padding rest)
      obtain ⟨bits, hbits, hrest⟩ := ih next
      exact ⟨bits, hbits, by rw [base64, hgroup, hrest]; rfl⟩

end Group

theorem length_base64_mod (alphabet : Bytes) (padding : Bool) (data : Bytes) :
    (base64 alphabet padding data).length % 4 ≠ 1 := by
  induction data using base64.induct with
  | case1 => simp [base64]
  | case2 a => cases padding <;> simp [base64, base64Group]
  | case3 a b => cases padding <;> simp [base64, base64Group]
  | case4 a b c rest ih =>
      simp only [base64, base64Group, Option.isSome_some, if_true, List.length_append,
        List.length_cons, List.length_nil]
      omega

/-- Decoding undoes encoding, with either alphabet and with or without padding. -/
theorem base64UrlDecode_base64 {alphabet : Bytes} (h : Readable alphabet) (padding : Bool)
    (data : Bytes) : base64UrlDecode (base64 alphabet padding data) = .ok data := by
  obtain ⟨bits, hbits, hloop⟩ := decodeLoop_base64 h 0 padding data
  have hlen := length_base64_mod alphabet padding data
  simp only [base64UrlDecode, hloop, not_le.mpr hbits, hlen, or_self, if_false]

theorem decode_base64UrlEncode (data : Bytes) : base64UrlDecode (base64UrlEncode data) = .ok data :=
  base64UrlDecode_base64 readable_urlAlphabet false data

end RoundTrip
end LivekitServer.Crypto

import LivekitServer.ClientContext
import LivekitServer.EscapeScan

/-!
# Request ids

A request id is a UUID of version 4 and keeps the 122 random bits that are not overwritten, in
every locale that keeps two digits together. In any other locale it is none, since the byte of
the version has two digits.
-/

namespace LivekitServer

namespace Locale
open Decimal

variable (loc : Locale)

/-- The two digits of a byte. -/
def digitPair (b : UInt8) : Bytes := [hexChar (b.toNat / 16), hexChar (b.toNat % 16)]

theorem hex_byte (b : UInt8) :
    hex b.toNat = if b < 0x10 then [hexChar b.toNat] else digitPair b := by
  have hall : ∀ b : UInt8, hex b.toNat = if b < 0x10 then [hexChar b.toNat] else digitPair b :=
    forall_byte (by decide +kernel)
  exact hall b

theorem digitPair_low {b : UInt8} (h : b < 0x10) : digitPair b = [0x30, hexChar b.toNat] := by
  have hn : b.toNat < 16 := byte_lt_iff.mp h
  rw [digitPair, Nat.div_eq_of_lt hn, Nat.mod_eq_of_lt hn]
  rfl

theorem insertHex_pair (h : loc.separates 2 = false) (b : UInt8) :
    loc.insertHex 2 0x30 b.toNat = digitPair b := by
  rw [insertHex, hex_byte]
  by_cases hb : b < 0x10
  · rw [if_pos hb, group_singleton, digitPair_low hb]
    rfl
  · rw [if_neg hb]
    have hgroup : loc.group (digitPair b) = digitPair b := loc.group_eq h
    rw [hgroup]
    rfl

theorem two_le_length_insertHex (b : UInt8) : 2 ≤ (loc.insertHex 2 0x30 b.toNat).length := by
  rw [insertHex, List.length_append, List.length_replicate]
  omega

theorem two_mul_le_length (bytes : Bytes) :
    2 * bytes.length ≤ (bytes.flatMap fun b => loc.insertHex 2 0x30 b.toNat).length := by
  induction bytes with
  | nil => exact Nat.le_refl 0
  | cons b bytes ih =>
      have hhead := loc.two_le_length_insertHex b
      rw [List.flatMap_cons, List.length_append, List.length_cons]
      omega

/-- A byte that is cut apart takes three places. -/
theorem length_insertHex_cut (h : loc.separates 2 = true) {b : UInt8} (hb : ¬ b < 0x10) :
    (loc.insertHex 2 0x30 b.toNat).length = 3 := by
  rw [insertHex, hex_byte, if_neg hb]
  have hgroup : loc.group (digitPair b) = _ := loc.group_pair h _ _
  rw [hgroup]
  rfl

theorem digitPair_injective : Function.Injective digitPair := by
  intro a b h
  have ha := a.toNat_lt
  have hb := b.toNat_lt
  obtain ⟨hhigh, hlow⟩ := List.cons.inj h
  have hdiv := AccessToken.hexChar_injective (by omega) (by omega) hhigh
  have hmod := AccessToken.hexChar_injective (Nat.mod_lt _ (by norm_num))
    (Nat.mod_lt _ (by norm_num)) (List.cons.inj hlow).1
  apply byte_eq_of_toNat
  omega

end Locale

namespace ClientContext
open Decimal LivekitServer.Locale

/-- A UUID of version 4 in lower case. -/
structure IsVersion4 (id : Bytes) : Prop where
  length : id.length = 36
  hyphen : ∀ i ∈ [8, 13, 18, 23], id[i]? = some 0x2d
  hex : ∀ i < 36, i ∉ [8, 13, 18, 23] → ∃ d < 16, id[i]? = some (hexChar d)
  version : id[14]? = some 0x34
  variant : ∃ b ∈ ([0x38, 0x39, 0x61, 0x62] : Bytes), id[19]? = some b

/-- The bits of a byte that are not overwritten. -/
def randomMask (index : ℕ) : UInt8 := if index = 6 then 0x0f else if index = 8 then 0x3f else 0xff

/-- The 122 random bits are the same. -/
def SameEntropy (bytes other : Bytes) : Prop :=
  ∀ i, bytes[i]?.map (· &&& randomMask i) = other[i]?.map (· &&& randomMask i)

def versionByte (b : UInt8) : UInt8 := b &&& 0x0f ||| 0x40

def variantByte (b : UInt8) : UInt8 := b &&& 0x3f ||| 0x80

theorem versionByte_eq_iff (b c : UInt8) :
    versionByte b = versionByte c ↔ b &&& randomMask 6 = c &&& randomMask 6 := by
  have hkeep : ∀ b : UInt8, versionByte b &&& 0x0f = b &&& 0x0f := forall_byte (by decide +kernel)
  constructor
  · intro h
    change b &&& 0x0f = c &&& 0x0f
    rw [← hkeep b, ← hkeep c, h]
  · intro h
    exact congrArg (· ||| 0x40) h

theorem variantByte_eq_iff (b c : UInt8) :
    variantByte b = variantByte c ↔ b &&& randomMask 8 = c &&& randomMask 8 := by
  have hkeep : ∀ b : UInt8, variantByte b &&& 0x3f = b &&& 0x3f := forall_byte (by decide +kernel)
  constructor
  · intro h
    change b &&& 0x3f = c &&& 0x3f
    rw [← hkeep b, ← hkeep c, h]
  · intro h
    exact congrArg (· ||| 0x80) h

/-- The bytes with version and variant in place. -/
def overwrite (bytes : Bytes) : Bytes := (bytes.modify 6 versionByte).modify 8 variantByte

theorem map_eq_map_iff {f g : UInt8 → UInt8} (h : ∀ b c, f b = f c ↔ g b = g c)
    (x y : Option UInt8) : x.map f = y.map f ↔ x.map g = y.map g := by
  cases x <;> cases y <;> simp [h]

theorem getElem?_overwrite (bytes : Bytes) (i : ℕ) :
    (overwrite bytes)[i]? = bytes[i]?.map
      (if i = 6 then versionByte else if i = 8 then variantByte else id) := by
  rw [overwrite, List.getElem?_modify, List.getElem?_modify]
  by_cases h6 : i = 6
  · subst h6
    simp
  by_cases h8 : i = 8
  · subst h8
    simp
  · rw [if_neg h6, if_neg h8]
    simp [Ne.symm h6, Ne.symm h8]

theorem overwrite_eq_iff (bytes other : Bytes) :
    overwrite bytes = overwrite other ↔ SameEntropy bytes other := by
  rw [List.ext_getElem?_iff]
  refine forall_congr' fun i => ?_
  rw [getElem?_overwrite, getElem?_overwrite]
  apply map_eq_map_iff
  intro b c
  by_cases h6 : i = 6
  · subst h6
    exact versionByte_eq_iff b c
  by_cases h8 : i = 8
  · subst h8
    exact variantByte_eq_iff b c
  · have hall : ∀ b : UInt8, b &&& 0xff = b := forall_byte (by decide +kernel)
    rw [if_neg h6, if_neg h8, randomMask, if_neg h6, if_neg h8, hall, hall]
    rfl

section Ids

variable (loc : Locale)

/-- What is written for one byte: a hyphen before some of them, and the digits. -/
def idPiece (piece : UInt8 × ℕ) : Bytes :=
  (if piece.2 = 4 ∨ piece.2 = 6 ∨ piece.2 = 8 ∨ piece.2 = 10 then [0x2d] else []) ++
    loc.insertHex 2 0x30 piece.1.toNat

theorem requestId_eq (bytes : Bytes) :
    requestId loc bytes = (overwrite bytes).zipIdx.flatMap (idPiece loc) := rfl

theorem zipIdx_flatMap_injective (h : loc.separates 2 = false) (k : ℕ) {xs ys : Bytes}
    (hlength : xs.length = ys.length)
    (heq : (xs.zipIdx k).flatMap (idPiece loc) = (ys.zipIdx k).flatMap (idPiece loc)) :
    xs = ys := by
  induction xs generalizing k ys with
  | nil => exact (List.length_eq_zero_iff.mp hlength.symm).symm
  | cons x xs ih =>
      cases ys with
      | nil => cases hlength
      | cons y ys =>
          rw [List.zipIdx_cons, List.zipIdx_cons, List.flatMap_cons, List.flatMap_cons] at heq
          simp only [idPiece, insertHex_pair loc h, List.append_assoc] at heq
          have hrest := List.append_cancel_left heq
          obtain ⟨hpair, htail⟩ := List.append_inj hrest rfl
          rw [digitPair_injective hpair, ih (k + 1) (Nat.succ.inj hlength) htail]

theorem requestId_eq_iff (h : loc.separates 2 = false) {bytes other : Bytes}
    (hlength : bytes.length = other.length) :
    requestId loc bytes = requestId loc other ↔ SameEntropy bytes other := by
  rw [← overwrite_eq_iff, requestId_eq, requestId_eq]
  constructor
  · apply zipIdx_flatMap_injective loc h
    rw [overwrite, overwrite]
    simpa only [List.length_modify] using hlength
  · exact congrArg fun bytes : Bytes => bytes.zipIdx.flatMap (idPiece loc)

theorem exists_sixteen {bytes : Bytes} (h : bytes.length = 16) :
    ∃ b0 b1 b2 b3 b4 b5 b6 b7 b8 b9 b10 b11 b12 b13 b14 b15,
      bytes = [b0, b1, b2, b3, b4, b5, b6, b7, b8, b9, b10, b11, b12, b13, b14, b15] := by
  match bytes, h with
  | [b0, b1, b2, b3, b4, b5, b6, b7, b8, b9, b10, b11, b12, b13, b14, b15], _ =>
    exact ⟨b0, b1, b2, b3, b4, b5, b6, b7, b8, b9, b10, b11, b12, b13, b14, b15, rfl⟩

variable (b0 b1 b2 b3 b4 b5 b6 b7 b8 b9 b10 b11 b12 b13 b14 b15 : UInt8)

theorem requestId_pieces :
    requestId loc [b0, b1, b2, b3, b4, b5, b6, b7, b8, b9, b10, b11, b12, b13, b14, b15] =
      ([b0, b1, b2, b3].flatMap fun b => loc.insertHex 2 0x30 b.toNat) ++ 0x2d ::
      ([b4, b5].flatMap fun b => loc.insertHex 2 0x30 b.toNat) ++ 0x2d ::
      ([versionByte b6, b7].flatMap fun b => loc.insertHex 2 0x30 b.toNat) ++ 0x2d ::
      ([variantByte b8, b9].flatMap fun b => loc.insertHex 2 0x30 b.toNat) ++ 0x2d ::
      ([b10, b11, b12, b13, b14, b15].flatMap fun b => loc.insertHex 2 0x30 b.toNat) := by
  simp [requestId, List.zipIdx_cons, List.modify_cons, versionByte, variantByte]

end Ids

theorem isVersion4_requestId (loc : Locale) (h : loc.separates 2 = false) {bytes : Bytes}
    (hlength : bytes.length = 16) : IsVersion4 (requestId loc bytes) := by
  obtain ⟨b0, b1, b2, b3, b4, b5, b6, b7, b8, b9, b10, b11, b12, b13, b14, b15, rfl⟩ :=
    exists_sixteen hlength
  have hversion : ∀ b : UInt8, hexChar ((versionByte b).toNat / 16) = 0x34 :=
    forall_byte (by decide +kernel)
  have hvariant : ∀ b : UInt8,
      hexChar ((variantByte b).toNat / 16) ∈ ([0x38, 0x39, 0x61, 0x62] : Bytes) :=
    forall_byte (by decide +kernel)
  have hhigh : ∀ b : UInt8, b.toNat / 16 < 16 := fun b => by
    have hb := b.toNat_lt
    omega
  have hlow : ∀ b : UInt8, b.toNat % 16 < 16 := fun b => Nat.mod_lt _ (by norm_num)
  rw [requestId_pieces]
  simp only [insertHex_pair loc h]
  refine ⟨rfl, ?_, ?_, ?_, ?_⟩
  · simp [digitPair]
  · intro i hi hhyphen
    interval_cases i
    all_goals first
      | exact absurd (by decide) hhyphen
      | refine ⟨_, ?_, rfl⟩
    -- a place holds the upper or the lower digit of its byte
    all_goals first
      | exact hhigh _
      | exact hlow _
  · exact congrArg some (hversion b6)
  · exact ⟨_, hvariant b8, rfl⟩

/-- The version byte is cut apart, so the text is longer than a UUID. -/
theorem lt_length_requestId (loc : Locale) (h : loc.separates 2 = true) {bytes : Bytes}
    (hlength : bytes.length = 16) : 36 < (requestId loc bytes).length := by
  obtain ⟨b0, b1, b2, b3, b4, b5, b6, b7, b8, b9, b10, b11, b12, b13, b14, b15, rfl⟩ :=
    exists_sixteen hlength
  have hlow : ∀ b : UInt8, ¬ versionByte b < 0x10 := forall_byte (by decide +kernel)
  have hversion := loc.length_insertHex_cut h (hlow b6)
  have hfirst := loc.two_mul_le_length [b0, b1, b2, b3]
  have hsecond := loc.two_mul_le_length [b4, b5]
  have hthird := loc.two_mul_le_length [b7]
  have hfourth := loc.two_mul_le_length [variantByte b8, b9]
  have hlast := loc.two_mul_le_length [b10, b11, b12, b13, b14, b15]
  rw [requestId_pieces, List.flatMap_cons (x := versionByte b6)]
  simp only [List.length_append, List.length_cons, List.length_nil] at *
  omega

/-- The id of 16 random bytes is a UUID of version 4 that keeps their entropy exactly in a locale
that keeps two digits together. -/
theorem requestId_version4_iff (loc : Locale) {bytes : Bytes} (hlength : bytes.length = 16) :
    (IsVersion4 (requestId loc bytes) ∧ ∀ other : Bytes, other.length = 16 →
      (requestId loc bytes = requestId loc other ↔ SameEntropy bytes other)) ↔
    loc.separates 2 = false := by
  constructor
  · intro h
    by_contra hcut
    have hlong := lt_length_requestId loc (Bool.not_eq_false _ ▸ hcut) hlength
    have heq := h.1.length
    omega
  · intro h
    refine ⟨isVersion4_requestId loc h hlength, fun other hother => ?_⟩
    exact requestId_eq_iff loc h (hlength.trans hother.symm)

/-- Bytes that need every digit, zeros in front and overwritten bits. -/
def sampleRandom : Bytes :=
  [0x00, 0x01, 0x1f, 0xff, 0xa0, 0x0a, 0xf7, 0x10, 0xc3, 0x99, 0x00, 0x00, 0x5e, 0x05, 0x50, 0x0f]

theorem requestId_sampleRandom :
    IsVersion4 (requestId Locale.classic sampleRandom) ∧ ∀ other : Bytes, other.length = 16 →
      (requestId Locale.classic sampleRandom = requestId Locale.classic other ↔
        SameEntropy sampleRandom other) :=
  (requestId_version4_iff Locale.classic rfl).mpr rfl

example : requestId Locale.classic sampleRandom = ascii "00011fff-a00a-4710-8399-00005e05500f" := by
  decide +kernel

theorem requestId_singleDigits :
    requestId AccessToken.singleDigits sampleRandom =
      ascii "00011,ff,f-a,00a-4,71,0-8,39,9-00005,e055,00f" ∧
      ¬(IsVersion4 (requestId AccessToken.singleDigits sampleRandom) ∧
        ∀ other : Bytes, other.length = 16 →
          (requestId AccessToken.singleDigits sampleRandom =
            requestId AccessToken.singleDigits other ↔ SameEntropy sampleRandom other)) := by
  refine ⟨by decide +kernel, fun h => ?_⟩
  have hlength := h.1.length
  revert hlength
  decide +kernel

end ClientContext
end LivekitServer

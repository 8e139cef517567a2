import LivekitServer.Json

/-!
# Writing JSON and reading it back

A value is a list of tokens: punctuation, strings and numbers. A writer chooses how the last two
are spelled. `parse_write` is the round trip: when the writer's strings read back as themselves
and so do the numbers of the value, the written text denotes the value.
-/

namespace LivekitServer

inductive Token
  | punct (text : Bytes)
  | string (s : Bytes)
  | number (n : Number)
  deriving DecidableEq

/-- Items with commas between them. -/
def commaJoin {α : Type} (text : α → Bytes) : List α → Bytes
  | [] => []
  | x :: xs => text x ++ xs.flatMap fun y => 0x2c :: text y

namespace Json

def separator (first : Bool) : List Token := if first then [] else [.punct [0x2c]]

mutual

def tokens : Json → List Token
  | .null => [.punct (ascii "null")]
  | .bool b => [.punct (ascii (if b then "true" else "false"))]
  | .number n => [.number n]
  | .string s => [.string s]
  | .array items => .punct [0x5b] :: (itemTokens true items ++ [.punct [0x5d]])
  | .object members => .punct [0x7b] :: (memberTokens true members ++ [.punct [0x7d]])

def itemTokens : Bool → List Json → List Token
  | _, [] => []
  | first, item :: items => separator first ++ (tokens item ++ itemTokens false items)

def memberTokens : Bool → Members → List Token
  | _, [] => []
  | first, (name, item) :: members =>
    separator first ++
      (.string name :: .punct [0x3a] :: (tokens item ++ memberTokens false members))

end

mutual

/-- Every string of the value, names included, satisfies `S`, and every number `N`. -/
def All (S : Bytes → Prop) (N : Number → Prop) : Json → Prop
  | .number n => N n
  | .string s => S s
  | .array items => AllItems S N items
  | .object members => AllMembers S N members
  | _ => True

def AllItems (S : Bytes → Prop) (N : Number → Prop) : List Json → Prop
  | [] => True
  | item :: items => All S N item ∧ AllItems S N items

def AllMembers (S : Bytes → Prop) (N : Number → Prop) : Members → Prop
  | [] => True
  | (name, item) :: members => (S name ∧ All S N item) ∧ AllMembers S N members

end

theorem allItems_iff {S : Bytes → Prop} {N : Number → Prop} {items : List Json} :
    AllItems S N items ↔ ∀ item ∈ items, All S N item := by
  induction items with
  | nil => simp [AllItems]
  | cons head tail ih => simp [AllItems, ih]

theorem allMembers_iff {S : Bytes → Prop} {N : Number → Prop} {members : Members} :
    AllMembers S N members ↔ ∀ m ∈ members, S m.1 ∧ All S N m.2 := by
  induction members with
  | nil => simp [AllMembers]
  | cons head tail ih => simp [AllMembers, ih]

def punctuation : List Bytes :=
  [ascii "null", ascii "true", ascii "false", [0x5b], [0x5d], [0x7b], [0x7d], [0x2c], [0x3a]]

section ForallTokens

variable {P : Token → Prop} (hpunct : ∀ text ∈ punctuation, P (.punct text))
include hpunct

theorem forall_separator (first : Bool) : ∀ t ∈ separator first, P t := by
  cases first
  · simpa [separator] using hpunct [0x2c] (by decide)
  · simp [separator]

theorem forall_itemTokens (first : Bool) (items : List Json) :
    (∀ t ∈ itemTokens first items, P t) ↔ ∀ item ∈ items, ∀ t ∈ tokens item, P t := by
  induction items generalizing first with
  | nil => simp [itemTokens]
  | cons item items ih =>
      have hsep := forall_separator hpunct first
      simp only [itemTokens, List.forall_mem_append, List.forall_mem_cons, ih]
      tauto

theorem forall_memberTokens (first : Bool) (members : Members) :
    (∀ t ∈ memberTokens first members, P t) ↔
      ∀ m ∈ members, P (.string m.1) ∧ ∀ t ∈ tokens m.2, P t := by
  induction members generalizing first with
  | nil => simp [memberTokens]
  | cons m members ih =>
      have hsep := forall_separator hpunct first
      have hcolon := hpunct [0x3a] (by decide)
      simp only [memberTokens, List.forall_mem_append, List.forall_mem_cons, ih]
      tauto

/-- What holds of every token holds of the strings and numbers, and conversely once it holds of
the punctuation. -/
theorem forall_tokens (j : Json) :
    (∀ t ∈ tokens j, P t) ↔ All (fun s => P (.string s)) (fun n => P (.number n)) j := by
  induction j with
  | null => simpa [tokens, All] using hpunct (ascii "null") (by decide)
  | bool b =>
      cases b
      · simpa [tokens, All] using hpunct (ascii "false") (by decide)
      · simpa [tokens, All] using hpunct (ascii "true") (by decide)
  | number n => simp [tokens, All]
  | string s => simp [tokens, All]
  | array items ih =>
      have hopen := hpunct [0x5b] (by decide)
      have hclose := hpunct [0x5d] (by decide)
      simp only [tokens, All, allItems_iff, List.forall_mem_cons, List.forall_mem_append,
        forall_itemTokens hpunct, List.not_mem_nil, IsEmpty.forall_iff, implies_true, hopen,
        hclose, true_and, and_true]
      exact forall₂_congr ih
  | object members ih =>
      have hopen := hpunct [0x7b] (by decide)
      have hclose := hpunct [0x7d] (by decide)
      simp only [tokens, All, allMembers_iff, List.forall_mem_cons, List.forall_mem_append,
        forall_memberTokens hpunct, List.not_mem_nil, IsEmpty.forall_iff, implies_true, hopen,
        hclose, true_and, and_true]
      exact forall₂_congr fun m hm => and_congr_right fun _ => ih m hm

end ForallTokens

end Json

structure Writer where
  escape : Bytes → Bytes
  number : Number → Bytes

namespace JsonText

/-- What may follow a value inside a text written without blanks. -/
def Follows (rest : Bytes) : Prop := ∀ b ∈ rest.head?, b = 0x2c ∨ b = 0x5d ∨ b = 0x7d

theorem skipBlanks_cons {c : UInt8} (h : isBlank c = false) (rest : Bytes) :
    skipBlanks (c :: rest) = c :: rest := by
  simp [skipBlanks, h]

theorem follows_nil : Follows [] := fun _ hb => by cases hb

theorem follows_comma (rest : Bytes) : Follows (0x2c :: rest) := by simp [Follows]

theorem follows_bracket (rest : Bytes) : Follows (0x5d :: rest) := by simp [Follows]

theorem follows_brace (rest : Bytes) : Follows (0x7d :: rest) := by simp [Follows]

theorem commaList_reads {α : Type} {item : Bytes → Option (α × Bytes)} {close : UInt8}
    (text : α → Bytes) (hclose : close ≠ 0x2c) (hblank : isBlank close = false)
    (hfollow : ∀ rest, Follows (close :: rest)) (x : α) (xs : List α)
    (hread : ∀ y ∈ x :: xs, ∀ rest, Follows rest → item (text y ++ rest) = some (y, rest))
    (fuel : ℕ) (hfuel : xs.length < fuel) (rest : Bytes) :
    commaList item close fuel (commaJoin text (x :: xs) ++ close :: rest) =
      some (x :: xs, rest) := by
  induction xs generalizing x fuel with
  | nil =>
      obtain ⟨fuel, rfl⟩ := Nat.exists_eq_succ_of_ne_zero (by omega : fuel ≠ 0)
      have hx := hread x (by simp) (close :: rest) (hfollow rest)
      simp [commaJoin, commaList, hx, skipBlanks_cons hblank, hclose]
  | cons y ys ih =>
      simp only [List.length_cons] at hfuel
      obtain ⟨fuel, rfl⟩ := Nat.exists_eq_succ_of_ne_zero (by omega : fuel ≠ 0)
      have hi := ih y (fun z hz => hread z (List.mem_cons_of_mem x hz)) fuel (by omega)
      have hsplit : commaJoin text (x :: y :: ys) ++ close :: rest =
          text x ++ 0x2c :: (commaJoin text (y :: ys) ++ close :: rest) := by
        simp [commaJoin]
      have hx := hread x (by simp) _ (follows_comma (commaJoin text (y :: ys) ++ close :: rest))
      rw [hsplit]
      simp only [commaList, hx, skipBlanks_cons (c := 0x2c) (by decide), if_pos, hi, Option.map_some]

theorem length_le_commaJoin {α : Type} (text : α → Bytes) (x : α) (xs : List α) :
    xs.length ≤ (commaJoin text (x :: xs)).length := by
  have h : xs.length ≤ (xs.flatMap fun y => 0x2c :: text y).length := by
    induction xs with
    | nil => simp
    | cons y ys ih => simp only [List.flatMap_cons, List.length_append, List.length_cons]; omega
  simp only [commaJoin, List.length_append]
  omega

theorem length_le_commaJoin_of_mem {α : Type} (text : α → Bytes) {x : α} {xs : List α}
    (h : x ∈ xs) : (text x).length ≤ (commaJoin text xs).length := by
  cases xs with
  | nil => cases h
  | cons y ys =>
      simp only [commaJoin, List.length_append]
      rcases List.mem_cons.mp h with rfl | h
      · omega
      · obtain ⟨front, back, rfl⟩ := List.append_of_mem h
        simp only [List.flatMap_append, List.flatMap_cons, List.length_append, List.length_cons]
        omega

theorem sequence_reads {α : Type} (item : Bytes → Option (α × Bytes)) (close : UInt8)
    (text : α → Bytes) (hclose : close ≠ 0x2c) (hblank : isBlank close = false)
    (hfollow : ∀ rest, Follows (close :: rest)) (xs : List α)
    (hread : ∀ y ∈ xs, ∀ rest, Follows rest → item (text y ++ rest) = some (y, rest))
    (hhead : ∀ y ∈ xs, ∃ b t, text y = b :: t ∧ isBlank b = false ∧ b ≠ close) (rest : Bytes) :
    sequence item close (commaJoin text xs ++ close :: rest) = some (xs, rest) := by
  cases xs with
  | nil => simp [commaJoin, sequence, skipBlanks_cons hblank]
  | cons x xs =>
      obtain ⟨b, t, hx, hb, hbc⟩ := hhead x (by simp)
      have hcons : commaJoin text (x :: xs) ++ close :: rest =
          b :: (t ++ (xs.flatMap fun y => 0x2c :: text y) ++ close :: rest) := by
        simp [commaJoin, hx]
      have hlist := commaList_reads text hclose hblank hfollow x xs hread
        ((commaJoin text (x :: xs) ++ close :: rest).length + 1)
        (by have := length_le_commaJoin text x xs; rw [List.length_append]; omega) rest
      unfold sequence
      rw [hcons] at hlist ⊢
      rw [skipBlanks_cons hb]
      simpa only [if_neg hbc] using hlist

/-- A writing of bytes that a reader inside a string undoes byte by byte. -/
structure ByteEscape (piece : UInt8 → Bytes) : Prop where
  read : ∀ b fuel rest,
    stringBody (fuel + 1) (piece b ++ rest) = (stringBody fuel rest).map fun r => (b :: r.1, r.2)
  ne_nil : ∀ b, piece b ≠ []

theorem ByteEscape.stringBody_reads {piece : UInt8 → Bytes} (h : ByteEscape piece) (s : Bytes)
    (fuel : ℕ) (hfuel : s.length < fuel) (rest : Bytes) :
    stringBody fuel (s.flatMap piece ++ 0x22 :: rest) = some (s, rest) := by
  induction s generalizing fuel with
  | nil =>
      obtain ⟨fuel, rfl⟩ := Nat.exists_eq_succ_of_ne_zero (by omega : fuel ≠ 0)
      simp [stringBody]
  | cons b s ih =>
      simp only [List.length_cons] at hfuel
      obtain ⟨fuel, rfl⟩ := Nat.exists_eq_succ_of_ne_zero (by omega : fuel ≠ 0)
      rw [List.flatMap_cons, List.append_assoc, h.read, ih fuel (by omega)]
      rfl

theorem ByteEscape.length_le {piece : UInt8 → Bytes} (h : ByteEscape piece) (s : Bytes) :
    s.length ≤ (s.flatMap piece).length := by
  induction s with
  | nil => simp
  | cons b s ih =>
      have hb := List.length_pos_iff.mpr (h.ne_nil b)
      simp only [List.flatMap_cons, List.length_append, List.length_cons]
      omega

theorem ByteEscape.string_reads {piece : UInt8 → Bytes} (h : ByteEscape piece) (s rest : Bytes) :
    string (s.flatMap piece ++ 0x22 :: rest) = some (s, rest) := by
  apply h.stringBody_reads
  have := h.length_le s
  simp only [List.length_append, List.length_cons]
  omega

theorem number_head {text rest : Bytes} {n : Number} (h : number text = some (n, rest)) :
    ∃ c t, text = c :: t ∧ (c = 0x2d ∨ Decimal.isDigit c = true) := by
  cases text with
  | nil => simp [number, minus] at h
  | cons c t =>
      refine ⟨c, t, rfl, ?_⟩
      by_contra hc
      rw [not_or] at hc
      have hm : minus (c :: t) = (false, c :: t) := by
        unfold minus
        split
        · simp_all
        · rfl
      simp [number, hm, hc.2] at h

/-- The first byte of a text that reads as a value starting with a digit or a minus sign. -/
theorem numberHead_facts {c : UInt8} (h : c = 0x2d ∨ Decimal.isDigit c = true) :
    isBlank c = false ∧ c ≠ 0x22 ∧ c ≠ 0x5b ∧ c ≠ 0x5d ∧ c ≠ 0x7b ∧ c ≠ 0x7d ∧
      c ≠ 0x66 ∧ c ≠ 0x6e ∧ c ≠ 0x74 := by
  revert h
  exact forall_byte (P := fun c => (c = 0x2d ∨ Decimal.isDigit c = true) → isBlank c = false ∧
    c ≠ 0x22 ∧ c ≠ 0x5b ∧ c ≠ 0x5d ∧ c ≠ 0x7b ∧ c ≠ 0x7d ∧ c ≠ 0x66 ∧ c ≠ 0x6e ∧ c ≠ 0x74)
    (by decide +kernel) c

theorem scalar_true (rest : Bytes) : scalar (ascii "true" ++ rest) = some (.bool true, rest) := by
  simp [scalar, ascii]

theorem scalar_false (rest : Bytes) :
    scalar (ascii "false" ++ rest) = some (.bool false, rest) := by
  simp [scalar, ascii]

theorem scalar_null (rest : Bytes) : scalar (ascii "null" ++ rest) = some (.null, rest) := by
  simp [scalar, ascii]

theorem scalar_number {c : UInt8} (h : c = 0x2d ∨ Decimal.isDigit c = true) (text : Bytes) :
    scalar (c :: text) = (number (c :: text)).map fun r => (.number r.1, r.2) := by
  obtain ⟨-, -, -, -, -, -, hf, hn, ht⟩ := numberHead_facts h
  simp [scalar, ascii, hf.symm, hn.symm, ht.symm]

theorem Follows.head_not_digit {rest : Bytes} (h : Follows rest) :
    rest.takeWhile Decimal.isDigit = [] ∧ rest.dropWhile Decimal.isDigit = rest := by
  cases rest with
  | nil => exact ⟨rfl, rfl⟩
  | cons c rest =>
      have hc : Decimal.isDigit c = false := by
        rcases h c rfl with rfl | rfl | rfl <;> decide
      simp [hc]

theorem takeWhile_digits (digits : Bytes) {rest : Bytes} (h : ∀ b ∈ digits, Decimal.isDigit b = true)
    (hr : Follows rest) :
    (digits ++ rest).takeWhile Decimal.isDigit = digits ∧
      (digits ++ rest).dropWhile Decimal.isDigit = rest := by
  rw [List.takeWhile_append_of_pos h, List.dropWhile_append_of_pos h, hr.head_not_digit.1,
    hr.head_not_digit.2]
  exact ⟨List.append_nil digits, rfl⟩

theorem Follows.noFraction {rest : Bytes} (h : Follows rest) : fractionPart rest = some ([], rest) := by
  cases rest with
  | nil => rfl
  | cons c rest => rcases h c rfl with rfl | rfl | rfl <;> rfl

theorem Follows.noExponent {rest : Bytes} (h : Follows rest) :
    exponentPart rest = some (none, rest) := by
  cases rest with
  | nil => rfl
  | cons c rest => rcases h c rfl with rfl | rfl | rfl <;> rfl

theorem minus_decimal (n : ℕ) (rest : Bytes) :
    minus (Decimal.decimal n ++ rest) = (false, Decimal.decimal n ++ rest) := by
  cases hd : Decimal.decimal n with
  | nil => exact absurd hd (Decimal.decimal_ne_nil n)
  | cons c digits =>
      have hc : Decimal.isDigit c = true := Decimal.isDigit_of_mem_decimal (n := n) (by simp [hd])
      have hne : c ≠ 0x2d := by rintro rfl; exact absurd hc (by decide)
      unfold minus
      split
      · simp_all
      · rfl

/-- The plain numeral of an integer reads as that integer. -/
theorem number_signed (n : ℤ) {rest : Bytes} (hr : Follows rest) :
    number (Decimal.signed n ++ rest) = some (Number.ofInt n, rest) := by
  have hminus : minus (Decimal.signed n ++ rest) =
      (decide (n < 0), Decimal.decimal n.natAbs ++ rest) := by
    unfold Decimal.signed
    split_ifs with hn
    · simp [minus, hn]
    · simp [minus_decimal, hn]
  obtain ⟨htake, hdrop⟩ := takeWhile_digits (Decimal.decimal n.natAbs)
    (fun b hb => Decimal.isDigit_of_mem_decimal hb) hr
  have hzero : ¬ (Decimal.decimal n.natAbs = [] ∨ ((Decimal.decimal n.natAbs).head? = some 0x30 ∧
      Decimal.decimal n.natAbs ≠ [0x30])) := by
    rintro (hnil | ⟨hhead, hne⟩)
    · exact Decimal.decimal_ne_nil _ hnil
    · rcases Decimal.decimal_head n.natAbs with h | ⟨b, digits, h, hb⟩
      · exact hne h
      · rw [h] at hhead
        exact hb (Option.some.inj hhead)
  unfold number
  rw [hminus]
  simp only [htake, hdrop, if_neg hzero, hr.noFraction, hr.noExponent, Option.map_some,
    Decimal.value_decimal]
  rfl

end JsonText

namespace Writer
open Json JsonText

variable (w : Writer)

def token : Token → Bytes
  | .punct text => text
  | .string s => 0x22 :: (w.escape s ++ [0x22])
  | .number n => w.number n

def write (j : Json) : Bytes := (tokens j).flatMap w.token

/-- One member, without the comma before it. -/
def writeMember (m : Bytes × Json) : Bytes := w.token (.string m.1) ++ 0x3a :: w.write m.2

/-- Every string reads back as itself. -/
def Lossless : Prop := ∀ s rest, JsonText.string (w.escape s ++ 0x22 :: rest) = some (s, rest)

/-- The number reads back as itself. -/
def ReadsNumber (n : Number) : Prop :=
  ∀ rest, Follows rest → JsonText.number (w.number n ++ rest) = some (n, rest)

theorem itemTokens_false (items : List Json) :
    (itemTokens false items).flatMap w.token = items.flatMap fun item => 0x2c :: w.write item := by
  induction items with
  | nil => rfl
  | cons item items ih =>
      simp only [itemTokens, separator, List.flatMap_append, ih, List.flatMap_cons, write]
      simp [token]

theorem write_array (items : List Json) :
    w.write (.array items) = 0x5b :: (commaJoin w.write items ++ [0x5d]) := by
  cases items with
  | nil => rfl
  | cons item items =>
      simp only [write, tokens, itemTokens, separator, List.flatMap_cons, List.flatMap_append,
        itemTokens_false, commaJoin]
      simp [token]

theorem memberTokens_false (members : Members) :
    (memberTokens false members).flatMap w.token =
      members.flatMap fun m => 0x2c :: w.writeMember m := by
  induction members with
  | nil => rfl
  | cons m members ih =>
      obtain ⟨name, item⟩ := m
      simp only [memberTokens, separator, List.flatMap_append, List.flatMap_cons, ih]
      simp [token, writeMember, write]

theorem memberTokens_true (members : Members) :
    (memberTokens true members).flatMap w.token = commaJoin w.writeMember members := by
  cases members with
  | nil => rfl
  | cons m members =>
      obtain ⟨name, item⟩ := m
      simp only [memberTokens, separator, List.flatMap_append, List.flatMap_cons,
        memberTokens_false, commaJoin]
      simp [token, writeMember, write]

theorem write_object (members : Members) :
    w.write (.object members) = 0x7b :: (commaJoin w.writeMember members ++ [0x7d]) := by
  simp only [write, tokens, List.flatMap_cons, List.flatMap_append, memberTokens_true]
  simp [token]

variable {w}

theorem ReadsNumber.head {n : Number} (h : ReadsNumber w n) :
    ∃ c t, w.number n = c :: t ∧ (c = 0x2d ∨ Decimal.isDigit c = true) := by
  have hn := h [] follows_nil
  rw [List.append_nil] at hn
  exact number_head hn

/-- A written value starts with a byte that is neither a blank nor a closing bracket. -/
theorem write_head (j : Json) (hn : All (fun _ => True) (ReadsNumber w) j) :
    ∃ b t, w.write j = b :: t ∧ isBlank b = false ∧ b ≠ 0x5d ∧ b ≠ 0x7d := by
  cases j with
  | null => exact ⟨0x6e, ascii "ull", rfl, by decide, by decide, by decide⟩
  | bool b =>
      cases b
      · exact ⟨0x66, ascii "alse", rfl, by decide, by decide, by decide⟩
      · exact ⟨0x74, ascii "rue", rfl, by decide, by decide, by decide⟩
  | number n =>
      obtain ⟨c, t, hc, hk⟩ := ReadsNumber.head hn
      obtain ⟨hb, -, -, hd, -, hD, -⟩ := numberHead_facts hk
      exact ⟨c, t, by simp [write, tokens, token, hc], hb, hd, hD⟩
  | string s =>
      exact ⟨0x22, w.escape s ++ [0x22], by simp [write, tokens, token], by decide, by decide,
        by decide⟩
  | array items => exact ⟨0x5b, _, w.write_array items, by decide, by decide, by decide⟩
  | object members => exact ⟨0x7b, _, w.write_object members, by decide, by decide, by decide⟩

theorem member_reads (hw : Lossless w) {item : Bytes → Option (Json × Bytes)} (m : Bytes × Json)
    (hitem : ∀ rest, Follows rest → item (w.write m.2 ++ rest) = some (m.2, rest)) (rest : Bytes)
    (hrest : Follows rest) : member item (w.writeMember m ++ rest) = some (m, rest) := by
  have hsplit : w.writeMember m ++ rest =
      0x22 :: (w.escape m.1 ++ 0x22 :: (0x3a :: (w.write m.2 ++ rest))) := by
    simp [writeMember, token]
  rw [hsplit]
  simp only [member, skipBlanks_cons (c := 0x22) (by decide), hw m.1,
    skipBlanks_cons (c := 0x3a) (by decide), hitem rest hrest, Option.map_some]

theorem exists_succ_of_depth {j : Json} {d : ℕ} (h : depth j ≤ d) : ∃ e, d = e + 1 := by
  apply Nat.exists_eq_succ_of_ne_zero
  cases j <;> simp only [depth] at h <;> omega

theorem value_number {n : Number} (hn : ReadsNumber w n) (d : ℕ) {rest : Bytes}
    (hrest : Follows rest) :
    value (d + 1) (w.write (.number n) ++ rest) = some (.number n, rest) := by
  obtain ⟨c, t, hc, hk⟩ := ReadsNumber.head hn
  obtain ⟨hb, hq, hB, -, hC, -⟩ := numberHead_facts hk
  have hread := hn rest hrest
  have hwrite : w.write (.number n) = c :: t := by simp [write, tokens, token, hc]
  rw [hc, List.cons_append] at hread
  rw [hwrite, List.cons_append]
  simp only [value, skipBlanks_cons hb, if_neg hq, if_neg hB, if_neg hC, scalar_number hk,
    hread, Option.map_some]

theorem value_string (hw : Lossless w) (s : Bytes) (d : ℕ) (rest : Bytes) :
    value (d + 1) (w.write (.string s) ++ rest) = some (.string s, rest) := by
  have hwrite : w.write (.string s) ++ rest = 0x22 :: (w.escape s ++ 0x22 :: rest) := by
    simp [write, tokens, token]
  rw [hwrite]
  simp only [value, skipBlanks_cons (c := 0x22) (by decide), hw s rest, Option.map_some]
  rfl

/-- The round trip inside a text. Objects and arrays read their items one level further down. -/
theorem value_write (hw : Lossless w) (j : Json)
    (hn : All (fun _ => True) (ReadsNumber w) j) (d : ℕ) (hd : depth j ≤ d)
    (rest : Bytes) (hrest : Follows rest) : value d (w.write j ++ rest) = some (j, rest) := by
  induction j generalizing d rest with
  | null =>
      obtain ⟨d, rfl⟩ := exists_succ_of_depth hd
      exact scalar_null rest
  | bool b =>
      obtain ⟨d, rfl⟩ := exists_succ_of_depth hd
      cases b
      · exact scalar_false rest
      · exact scalar_true rest
  | number n =>
      obtain ⟨d, rfl⟩ := exists_succ_of_depth hd
      exact value_number hn d hrest
  | string s =>
      obtain ⟨d, rfl⟩ := exists_succ_of_depth hd
      exact value_string hw s d rest
  | array items ih =>
      obtain ⟨d, rfl⟩ := exists_succ_of_depth hd
      have hitem : ∀ item ∈ items, All (fun _ => True) (ReadsNumber w) item := allItems_iff.mp hn
      have hseq := sequence_reads (value d) 0x5d w.write (by decide)
        (by decide) follows_bracket items
        (fun item hi => ih item hi (hitem item hi) d (by
          have := depth_le_itemsDepth hi
          simp only [depth] at hd
          omega))
        (fun item hi => by
          obtain ⟨b, t, hw, hb, hB, -⟩ := write_head item (hitem item hi)
          exact ⟨b, t, hw, hb, hB⟩) rest
      rw [w.write_array, List.cons_append, List.append_assoc, List.singleton_append]
      simp only [value, skipBlanks_cons (c := 0x5b) (by decide), hseq, Option.map_some]
      rfl
  | object members ih =>
      obtain ⟨d, rfl⟩ := exists_succ_of_depth hd
      have hmember : ∀ m ∈ members, All (fun _ => True) (ReadsNumber w) m.2 := fun m hm =>
        (allMembers_iff.mp hn m hm).2
      have hseq := sequence_reads (member (value d)) 0x7d w.writeMember
        (by decide) (by decide) follows_brace members
        (fun m hm => member_reads hw m (ih m hm (hmember m hm) d (by
          have := depth_le_membersDepth hm
          simp only [depth] at hd
          omega)))
        (fun m _ => ⟨0x22, _, rfl, by decide, by decide⟩) rest
      rw [w.write_object, List.cons_append, List.append_assoc, List.singleton_append]
      simp only [value, skipBlanks_cons (c := 0x7b) (by decide), hseq, Option.map_some, if_pos]

theorem depth_le_length (j : Json) : depth j ≤ (w.write j).length + 1 := by
  induction j with
  | null => simp [depth]
  | bool b => simp [depth]
  | number n => simp [depth]
  | string s => simp [depth]
  | array items ih =>
      have hitems : itemsDepth items ≤ (commaJoin w.write items).length + 1 :=
        itemsDepth_le fun item hi => (ih item hi).trans
          (Nat.succ_le_succ (length_le_commaJoin_of_mem w.write hi))
      rw [w.write_array]
      simp only [depth, List.length_cons, List.length_append, List.length_nil]
      omega
  | object members ih =>
      have hmembers : membersDepth members ≤ (commaJoin w.writeMember members).length + 1 := by
        apply membersDepth_le
        intro m hm
        have hi := ih m hm
        have hlen := length_le_commaJoin_of_mem w.writeMember hm
        simp only [writeMember, List.length_append, List.length_cons] at hlen
        omega
      rw [w.write_object]
      simp only [depth, List.length_cons, List.length_append, List.length_nil]
      omega

/-- The round trip: a written value denotes that value. -/
theorem parse_write (hw : Lossless w) (j : Json)
    (hn : All (fun _ => True) (ReadsNumber w) j) : parse (w.write j) = some j := by
  have hv := value_write hw j hn ((w.write j).length + 1) (depth_le_length j) [] follows_nil
  rw [List.append_nil] at hv
  simp only [parse, hv]
  rfl

/-- A text is valid UTF-8 when its strings and numbers are spelled in valid UTF-8. -/
theorem valid_write (j : Json)
    (h : All (fun s => Utf8.Valid (w.token (.string s))) (fun n => Utf8.Valid (w.number n)) j) :
    Utf8.Valid (w.write j) := by
  have hpunct : ∀ text ∈ punctuation, Utf8.Valid (w.token (.punct text)) := by
    intro text ht
    have hascii : ∀ text ∈ punctuation, Utf8.Valid text := by decide
    exact hascii text ht
  have htokens := (forall_tokens (P := fun t => Utf8.Valid (w.token t)) hpunct j).mpr h
  have hflat : ∀ ts : List Token, (∀ t ∈ ts, Utf8.Valid (w.token t)) →
      Utf8.Valid (ts.flatMap w.token) := by
    intro ts hts
    induction ts with
    | nil => exact Utf8.valid_nil
    | cons t ts ih =>
        exact (hts t (List.mem_cons_self ..)).append
          (ih fun u hu => hts u (List.mem_cons_of_mem t hu))
  exact hflat (tokens j) htokens

end Writer
end LivekitServer

import Mathlib.Data.List.Basic
import Mathlib.Tactic.Common

/-!
# Byte strings

A `std::string`, a `std::string_view` and a vector of bytes are lists of bytes. Searches return
`none` for `npos`, and `afterIndex` is the `position + 1` from which the next search starts:
`npos + 1` wraps around to `0`.
-/

namespace LivekitServer

abbrev Bytes := List UInt8

/-- The bytes of an ASCII literal. -/
def ascii (text : String) : Bytes := text.toList.map fun c => UInt8.ofNat c.toNat

theorem forall_byte {P : UInt8 → Prop} (h : ∀ n : Fin 256, P (UInt8.ofNat n)) (b : UInt8) : P b := by
  have hb := h ⟨b.toNat, b.toNat_lt⟩
  simpa using hb

theorem byte_eq_of_toNat {a b : UInt8} (h : a.toNat = b.toNat) : a = b := UInt8.toNat_inj.mp h

theorem byte_lt_iff {a b : UInt8} : a < b ↔ a.toNat < b.toNat := UInt8.lt_iff_toNat_lt

theorem byte_le_iff {a b : UInt8} : a ≤ b ↔ a.toNat ≤ b.toNat := UInt8.le_iff_toNat_le

namespace Bytes

/-- `text.find(c, pos)` for one character. -/
def find (text : Bytes) (c : UInt8) (pos : ℕ) : Option ℕ :=
  ((text.drop pos).idxOf? c).map (pos + ·)

/-- `position + 1`, which is `0` after `npos`. -/
def afterIndex : Option ℕ → ℕ
  | none => 0
  | some i => i + 1

/-- `text.substr(pos, count)`. -/
def substr (text : Bytes) (pos count : ℕ) : Bytes := (text.drop pos).take count

/-- `text.find(needle)`: the first place where `needle` occurs. -/
def findText (needle : Bytes) : Bytes → Option ℕ
  | [] => if needle = [] then some 0 else none
  | c :: rest =>
    if needle <+: c :: rest then some 0 else (findText needle rest).map (· + 1)

theorem idxOf?_of_notMem {c : UInt8} {text : Bytes} (h : c ∉ text) : text.idxOf? c = none := by
  simpa using h

theorem idxOf?_append_cons {c : UInt8} {front : Bytes} (h : c ∉ front) (rest : Bytes) :
    (front ++ c :: rest).idxOf? c = some front.length := by
  induction front with
  | nil => simp [List.idxOf?_cons]
  | cons a front ih =>
      simp only [List.mem_cons, not_or] at h
      simp [List.idxOf?_cons, ih h.2, Ne.symm h.1]

theorem find_none {text : Bytes} {c : UInt8} {pos : ℕ} (h : c ∉ text.drop pos) :
    text.find c pos = none := by
  simp only [find, idxOf?_of_notMem h, Option.map_none]

theorem find_append (skipped : Bytes) {c : UInt8} {front : Bytes} (h : c ∉ front) (rest : Bytes) :
    (skipped ++ (front ++ c :: rest)).find c skipped.length =
      some (skipped.length + front.length) := by
  simp only [find, List.drop_left, idxOf?_append_cons h, Option.map_some]

theorem findText_none {needle text : Bytes} :
    findText needle text = none ↔ ∀ i, ¬ needle <+: text.drop i := by
  induction text with
  | nil =>
      by_cases hn : needle = []
      · simp [findText, hn]
      · simp [findText, hn]
  | cons c rest ih =>
      by_cases hp : needle <+: c :: rest
      · constructor
        · intro h
          rw [findText, if_pos hp] at h
          cases h
        · exact fun h => absurd hp (h 0)
      · rw [findText, if_neg hp, Option.map_eq_none_iff, ih]
        constructor
        · intro h i
          cases i with
          | zero => exact hp
          | succ i => exact h i
        · exact fun h i => h (i + 1)

theorem findText_some {needle text : Bytes} {i : ℕ} (h : findText needle text = some i) :
    needle <+: text.drop i ∧ ∀ j < i, ¬ needle <+: text.drop j := by
  induction text generalizing i with
  | nil =>
      by_cases hn : needle = []
      · rw [findText, if_pos hn] at h
        obtain rfl := Option.some.inj h
        exact ⟨by simp [hn], fun j hj => absurd hj (Nat.not_lt_zero j)⟩
      · rw [findText, if_neg hn] at h
        cases h
  | cons c rest ih =>
      by_cases hp : needle <+: c :: rest
      · rw [findText, if_pos hp] at h
        obtain rfl := Option.some.inj h
        exact ⟨hp, fun j hj => absurd hj (Nat.not_lt_zero j)⟩
      · rw [findText, if_neg hp] at h
        obtain ⟨k, hk, rfl⟩ := Option.map_eq_some_iff.mp h
        refine ⟨(ih hk).1, fun j hj => ?_⟩
        cases j with
        | zero => exact hp
        | succ j => exact (ih hk).2 j (Nat.lt_of_succ_lt_succ hj)

/-- The first occurrence of a text is where `findText` finds it. -/
theorem findText_append {needle : Bytes} (front rest : Bytes)
    (h : ∀ j < front.length, ¬ needle <+: (front ++ (needle ++ rest)).drop j) :
    findText needle (front ++ (needle ++ rest)) = some front.length := by
  have hat : needle <+: (front ++ (needle ++ rest)).drop front.length := by
    rw [List.drop_left]
    exact List.prefix_append needle rest
  cases hf : findText needle (front ++ (needle ++ rest)) with
  | none => exact absurd hat (findText_none.mp hf front.length)
  | some i =>
      obtain ⟨hi, hbefore⟩ := findText_some hf
      rcases Nat.lt_trichotomy i front.length with hlt | rfl | hlt
      · exact absurd hi (h i hlt)
      · rfl
      · exact absurd hat (hbefore _ hlt)

/-- Any text either lacks `c` or splits at its first `c`. -/
theorem splits_at (c : UInt8) (text : Bytes) :
    c ∉ text ∨ ∃ front rest, c ∉ front ∧ text = front ++ c :: rest := by
  by_cases h : c ∈ text
  · obtain ⟨front, rest, rfl, hf⟩ := List.eq_append_cons_of_mem h
    exact Or.inr ⟨front, rest, hf, rfl⟩
  · exact Or.inl h

end Bytes
end LivekitServer

import LivekitServer.Bytes
import Mathlib.Data.Nat.Digits.Lemmas

/-!
# Numerals

Decimal and hexadecimal digits of natural numbers, the value of a run of decimal digits, and
the plain numeral of an integer.
-/

namespace LivekitServer.Decimal

def isDigit (b : UInt8) : Bool := 0x30 ≤ b && b ≤ 0x39

def digitValue (b : UInt8) : ℕ := b.toNat - 0x30

/-- The digit characters of `n`, most significant first. -/
def numeral (base n : ℕ) (char : ℕ → UInt8) : Bytes :=
  if n = 0 then [char 0] else (Nat.digits base n).reverse.map char

def decimalChar (d : ℕ) : UInt8 := UInt8.ofNat (0x30 + d)

def hexChar (d : ℕ) : UInt8 := UInt8.ofNat (if d < 10 then 0x30 + d else 0x57 + d)

def decimal (n : ℕ) : Bytes := numeral 10 n decimalChar

def hex (n : ℕ) : Bytes := numeral 16 n hexChar

/-- The plain numeral of an integer: a minus sign when it is negative, then its digits. -/
def signed (n : ℤ) : Bytes :=
  if n < 0 then 0x2d :: decimal n.natAbs else decimal n.natAbs

/-- The value of a run of decimal digits. -/
def value (digits : Bytes) : ℕ := digits.foldl (fun v d => v * 10 + digitValue d) 0

theorem foldl_value (digits : Bytes) (v : ℕ) :
    digits.foldl (fun v d => v * 10 + digitValue d) v = v * 10 ^ digits.length + value digits := by
  induction digits generalizing v with
  | nil => simp [value]
  | cons d digits ih =>
      have hv := ih (v * 10 + digitValue d)
      have h0 := ih (0 * 10 + digitValue d)
      simp only [value, List.foldl_cons, List.length_cons, pow_succ] at *
      rw [hv, h0]
      ring

theorem value_append_singleton (digits : Bytes) (d : UInt8) :
    value (digits ++ [d]) = value digits * 10 + digitValue d := by
  simp [value]

theorem value_cons (d : UInt8) (digits : Bytes) :
    value (d :: digits) = digitValue d * 10 ^ digits.length + value digits := by
  have h := foldl_value digits (0 * 10 + digitValue d)
  simpa [value] using h

theorem digitValue_decimalChar {d : ℕ} (h : d < 10) : digitValue (decimalChar d) = d := by
  simp only [digitValue, decimalChar, UInt8.toNat_ofNat']
  omega

theorem isDigit_decimalChar {d : ℕ} (h : d < 10) : isDigit (decimalChar d) = true := by
  interval_cases d <;> decide

theorem value_reverse_digits (ds : List ℕ) (h : ∀ d ∈ ds, d < 10) :
    value (ds.reverse.map decimalChar) = Nat.ofDigits 10 ds := by
  induction ds with
  | nil => rfl
  | cons d ds ih =>
      have hd : digitValue (decimalChar d) = d :=
        digitValue_decimalChar (h d (List.mem_cons_self ..))
      have hi := ih fun x hx => h x (List.mem_cons_of_mem d hx)
      rw [List.reverse_cons, List.map_append, List.map_singleton, value_append_singleton, hi, hd,
        Nat.ofDigits_cons]
      ring

@[simp] theorem value_decimal (n : ℕ) : value (decimal n) = n := by
  unfold decimal numeral
  split_ifs with hn
  · simp [hn, value, digitValue_decimalChar]
  · rw [value_reverse_digits _ fun d hd => Nat.digits_lt_base (by norm_num) hd]
    exact Nat.ofDigits_digits 10 n

theorem decimal_ne_nil (n : ℕ) : decimal n ≠ [] := by
  unfold decimal numeral
  split_ifs with hn
  · simp
  · simpa [Nat.digits_eq_nil_iff_eq_zero] using hn

theorem isDigit_of_mem_decimal {n : ℕ} {b : UInt8} (h : b ∈ decimal n) : isDigit b = true := by
  unfold decimal numeral at h
  split_ifs at h with hn
  · simp only [List.mem_singleton] at h
    subst h
    decide
  · simp only [List.mem_map, List.mem_reverse] at h
    obtain ⟨d, hd, rfl⟩ := h
    exact isDigit_decimalChar (Nat.digits_lt_base (by norm_num) hd)

/-- A numeral of several digits does not start with a zero. -/
theorem decimal_head (n : ℕ) :
    decimal n = [0x30] ∨ ∃ b rest, decimal n = b :: rest ∧ b ≠ 0x30 := by
  by_cases hn : n = 0
  · exact Or.inl (by simp [decimal, numeral, hn, decimalChar])
  · right
    have hd : Nat.digits 10 n ≠ [] := Nat.digits_ne_nil_iff_ne_zero.mpr hn
    have hlast : (Nat.digits 10 n).getLast hd ≠ 0 := Nat.getLast_digit_ne_zero 10 hn
    have hlt : (Nat.digits 10 n).getLast hd < 10 :=
      Nat.digits_lt_base (by norm_num) (List.getLast_mem hd)
    refine ⟨decimalChar ((Nat.digits 10 n).getLast hd),
      ((Nat.digits 10 n).dropLast.reverse).map decimalChar, ?_, ?_⟩
    · have hsplit := List.dropLast_append_getLast hd
      unfold decimal numeral
      rw [if_neg hn]
      conv_lhs => rw [← hsplit]
      simp
    · intro he
      have hv := congrArg digitValue he
      rw [digitValue_decimalChar hlt] at hv
      exact hlast hv

end LivekitServer.Decimal

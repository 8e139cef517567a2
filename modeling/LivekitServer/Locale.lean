import LivekitServer.Decimal

/-!
# Integers on a stream with a locale

A default-constructed stream formats integers with the `numpunct` facet of the global locale:
the digits are cut into groups from the right, and a separator stands before every group but the
first. Padding is applied afterwards. `separates` says when a number of so many digits receives
a separator at all; it then grows, and otherwise it is the plain numeral.
-/

namespace LivekitServer

/-- A `numpunct` facet: group sizes from the right, the last one repeating, and the separator. -/
structure Locale where
  grouping : List ℤ
  thousandsSep : UInt8

namespace Locale
open Decimal

def classic : Locale := ⟨[], 0x2c⟩

/-- A size that is not positive, or is `CHAR_MAX`, stands for an unlimited group. -/
def limited (size : ℤ) : Bool := 0 < size && size < 127

/-- The digits with separators, for the group sizes that remain; the last size repeats. -/
def addGrouping (sep : UInt8) : ℕ → List ℤ → Bytes → Bytes
  | fuel + 1, size :: sizes, digits =>
    if limited size && size < digits.length then
      addGrouping sep fuel (if sizes = [] then [size] else sizes)
          (digits.take (digits.length - size.toNat)) ++
        sep :: digits.drop (digits.length - size.toNat)
    else digits
  | _, _, digits => digits

variable (loc : Locale)

def group (digits : Bytes) : Bytes :=
  addGrouping loc.thousandsSep digits.length loc.grouping digits

/-- `stream << n` with the default flags. -/
def insertInteger (n : ℤ) : Bytes :=
  if n < 0 then 0x2d :: loc.group (decimal n.natAbs) else loc.group (decimal n.natAbs)

/-- `stream << std::hex << std::setw(width) << std::setfill(fill) << n` for a nonnegative `n`. -/
def insertHex (width : ℕ) (fill : UInt8) (n : ℕ) : Bytes :=
  List.replicate (width - (loc.group (hex n)).length) fill ++ loc.group (hex n)

/-- A number of `digits` digits receives a separator. -/
def separates (digits : ℕ) : Bool :=
  match loc.grouping with
  | [] => false
  | size :: _ => limited size && size < digits

theorem length_le_addGrouping (sep : UInt8) (fuel : ℕ) (sizes : List ℤ) (digits : Bytes) :
    digits.length ≤ (addGrouping sep fuel sizes digits).length := by
  induction fuel generalizing sizes digits with
  | zero => simp [addGrouping]
  | succ fuel ih =>
      cases sizes with
      | nil => simp [addGrouping]
      | cons size sizes =>
          simp only [addGrouping]
          split_ifs with hs
          · have hi := ih [size] (digits.take (digits.length - size.toNat))
            simp only [List.length_append, List.length_cons, List.length_take,
              List.length_drop] at *
            omega
          · have hi := ih sizes (digits.take (digits.length - size.toNat))
            simp only [List.length_append, List.length_cons, List.length_take,
              List.length_drop] at *
            omega
          · exact le_rfl

theorem group_eq {digits : Bytes} (h : loc.separates digits.length = false) :
    loc.group digits = digits := by
  unfold separates at h
  unfold group
  cases hd : digits.length with
  | zero => simp [addGrouping]
  | succ n =>
      cases hg : loc.grouping with
      | nil => simp [addGrouping]
      | cons size sizes =>
          rw [hg] at h
          simp only [addGrouping, h, Bool.false_eq_true, if_false]

theorem length_lt_group {digits : Bytes} (h : loc.separates digits.length = true) :
    digits.length < (loc.group digits).length := by
  unfold separates at h
  cases hg : loc.grouping with
  | nil => simp [hg] at h
  | cons size sizes =>
      rw [hg] at h
      have hsize := h
      simp only [limited, Bool.and_eq_true, decide_eq_true_eq] at hsize
      obtain ⟨fuel, hd⟩ := Nat.exists_eq_succ_of_ne_zero (by omega : digits.length ≠ 0)
      have hlen := length_le_addGrouping loc.thousandsSep fuel
        (if sizes = [] then [size] else sizes) (digits.take (digits.length - size.toNat))
      unfold group
      rw [hg, hd]
      simp only [addGrouping]
      rw [if_pos h]
      simp only [List.length_append, List.length_cons, List.length_take, List.length_drop] at *
      omega

theorem length_le_group (digits : Bytes) : digits.length ≤ (loc.group digits).length :=
  length_le_addGrouping _ _ _ _

@[simp] theorem classic_group (digits : Bytes) : classic.group digits = digits :=
  classic.group_eq rfl

@[simp] theorem classic_insertInteger (n : ℤ) : classic.insertInteger n = signed n := by
  simp [insertInteger, signed]

end Locale
end LivekitServer

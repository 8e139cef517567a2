import LivekitServer.Utf8
import LivekitServer.Decimal
import Mathlib.Data.Rat.Defs
import Mathlib.Algebra.Order.Field.Rat

/-!
# JSON texts and what they denote

`Json.parse` reads a byte string by the JSON grammar. A value is read with a bound on its
nesting, and the items of an array or object in a loop bounded by the length of the text, so
every reader is structurally recursive. Objects keep their members in the order of the text;
`DistinctNames` says that no object repeats a name.
-/

namespace LivekitServer

/-- A JSON number as it is written: sign, whole part, digits after the point, exponent. -/
structure Number where
  negative : Bool
  whole : ℕ
  fraction : Bytes
  exponent : Option ℤ
  deriving DecidableEq

namespace Number

def ofInt (n : ℤ) : Number := ⟨decide (n < 0), n.natAbs, [], none⟩

/-- Written without a fraction and without an exponent. -/
def IsInteger (n : Number) : Prop := n.fraction = [] ∧ n.exponent = none

instance (n : Number) : Decidable n.IsInteger := inferInstanceAs (Decidable (_ ∧ _))

def magnitude (n : Number) : ℚ :=
  (n.whole + Decimal.value n.fraction / 10 ^ n.fraction.length) * 10 ^ n.exponent.getD 0

/-- The number that the text denotes. -/
def value (n : Number) : ℚ := if n.negative then -n.magnitude else n.magnitude

@[simp] theorem value_ofInt (n : ℤ) : (ofInt n).value = n := by
  have hm : (ofInt n).magnitude = n.natAbs := by simp [magnitude, ofInt, Decimal.value]
  unfold value
  rw [hm]
  by_cases hn : n < 0
  · have hc : ((n.natAbs : ℤ) : ℚ) = ((-n : ℤ) : ℚ) := congrArg _ (by omega)
    have hc' : (n.natAbs : ℚ) = -(n : ℚ) := by simpa using hc
    simp [ofInt, hn, hc']
  · have hc : ((n.natAbs : ℤ) : ℚ) = ((n : ℤ) : ℚ) := congrArg _ (by omega)
    have hc' : (n.natAbs : ℚ) = (n : ℚ) := by simpa using hc
    simp [ofInt, hn, hc']

end Number

inductive Json
  | null
  | bool (b : Bool)
  | number (n : Number)
  | string (s : Bytes)
  | array (items : List Json)
  | object (members : List (Bytes × Json))

abbrev Members := List (Bytes × Json)

namespace Json

mutual

/-- No object of the value has two members of one name. -/
def DistinctNames : Json → Prop
  | .array items => DistinctItems items
  | .object members => (members.map Prod.fst).Nodup ∧ DistinctMembers members
  | _ => True

def DistinctItems : List Json → Prop
  | [] => True
  | item :: items => DistinctNames item ∧ DistinctItems items

def DistinctMembers : Members → Prop
  | [] => True
  | (_, item) :: members => DistinctNames item ∧ DistinctMembers members

end

mutual

def depth : Json → ℕ
  | .array items => itemsDepth items + 1
  | .object members => membersDepth members + 1
  | _ => 1

def itemsDepth : List Json → ℕ
  | [] => 0
  | item :: items => max (depth item) (itemsDepth items)

def membersDepth : Members → ℕ
  | [] => 0
  | (_, item) :: members => max (depth item) (membersDepth members)

end

@[elab_as_elim, induction_eliminator]
theorem induction {P : Json → Prop} (null : P .null) (bool : ∀ b, P (.bool b))
    (number : ∀ n, P (.number n)) (string : ∀ s, P (.string s))
    (array : ∀ items, (∀ item ∈ items, P item) → P (.array items))
    (object : ∀ members, (∀ m ∈ members, P m.2) → P (.object members)) (j : Json) : P j := by
  refine @Json.rec P (fun items => ∀ item ∈ items, P item)
    (fun members => ∀ m ∈ members, P m.2) (fun m => P m.2) null bool number string array object ?_ ?_ ?_ ?_ ?_ j
  · intro item hi
    cases hi
  · intro head tail hh ht item hi
    rcases List.mem_cons.mp hi with rfl | hi
    · exact hh
    · exact ht item hi
  · intro m hm
    cases hm
  · intro head tail hh ht m hm
    rcases List.mem_cons.mp hm with rfl | hm
    · exact hh
    · exact ht m hm
  · intro name item hi
    exact hi

theorem depth_le_itemsDepth {item : Json} {items : List Json} (h : item ∈ items) :
    depth item ≤ itemsDepth items := by
  induction items with
  | nil => cases h
  | cons head tail ih =>
      rcases List.mem_cons.mp h with rfl | ht
      · exact le_max_left _ _
      · exact (ih ht).trans (le_max_right _ _)

theorem depth_le_membersDepth {m : Bytes × Json} {members : Members} (h : m ∈ members) :
    depth m.2 ≤ membersDepth members := by
  induction members with
  | nil => cases h
  | cons head tail ih =>
      rcases List.mem_cons.mp h with rfl | ht
      · exact le_max_left _ _
      · exact (ih ht).trans (le_max_right _ _)

theorem itemsDepth_le {items : List Json} {d : ℕ} (h : ∀ item ∈ items, depth item ≤ d) :
    itemsDepth items ≤ d := by
  induction items with
  | nil => exact Nat.zero_le d
  | cons head tail ih =>
      exact max_le (h head (List.mem_cons_self ..))
        (ih fun item hi => h item (List.mem_cons_of_mem head hi))

theorem membersDepth_le {members : Members} {d : ℕ} (h : ∀ m ∈ members, depth m.2 ≤ d) :
    membersDepth members ≤ d := by
  induction members with
  | nil => exact Nat.zero_le d
  | cons head tail ih =>
      exact max_le (h head (List.mem_cons_self ..))
        (ih fun m hm => h m (List.mem_cons_of_mem head hm))

theorem distinctMembers_iff {members : Members} :
    DistinctMembers members ↔ ∀ m ∈ members, m.2.DistinctNames := by
  induction members with
  | nil => simp [DistinctMembers]
  | cons head tail ih => simp [DistinctMembers, ih]

theorem distinctItems_iff {items : List Json} :
    DistinctItems items ↔ ∀ item ∈ items, item.DistinctNames := by
  induction items with
  | nil => simp [DistinctItems]
  | cons head tail ih => simp [DistinctItems, ih]

end Json

namespace JsonText
open Decimal

def isBlank (b : UInt8) : Bool := b = 0x20 || b = 0x09 || b = 0x0a || b = 0x0d

def skipBlanks (text : Bytes) : Bytes := text.dropWhile isBlank

def hexValue (b : UInt8) : Option ℕ :=
  if 0x30 ≤ b ∧ b ≤ 0x39 then some (b.toNat - 0x30)
  else if 0x61 ≤ b ∧ b ≤ 0x66 then some (b.toNat - 0x57)
  else if 0x41 ≤ b ∧ b ≤ 0x46 then some (b.toNat - 0x37)
  else none

/-- The four hexadecimal digits of a `\u` escape. -/
def codeUnit : Bytes → Option (ℕ × Bytes)
  | a :: b :: c :: d :: rest =>
    match hexValue a, hexValue b, hexValue c, hexValue d with
    | some a, some b, some c, some d => some (((a * 16 + b) * 16 + c) * 16 + d, rest)
    | _, _, _, _ => none
  | _ => none

/-- What follows `\u`: one code unit, or a surrogate pair. A lone surrogate denotes nothing. -/
def unicodeEscape (text : Bytes) : Option (Bytes × Bytes) :=
  match codeUnit text with
  | none => none
  | some (unit, rest) =>
    if 0xd800 ≤ unit ∧ unit < 0xdc00 then
      match rest with
      | 0x5c :: 0x75 :: rest =>
        match codeUnit rest with
        | none => none
        | some (low, rest) =>
          if 0xdc00 ≤ low ∧ low < 0xe000 then
            some (Utf8.encode (0x10000 + (unit - 0xd800) * 0x400 + (low - 0xdc00)), rest)
          else none
      | _ => none
    else if 0xdc00 ≤ unit ∧ unit < 0xe000 then none
    else some (Utf8.encode unit, rest)

/-- What follows a backslash. -/
def escapeSequence : Bytes → Option (Bytes × Bytes)
  | [] => none
  | c :: rest =>
    if c = 0x22 ∨ c = 0x5c ∨ c = 0x2f then some ([c], rest)
    else if c = 0x62 then some ([0x08], rest)
    else if c = 0x66 then some ([0x0c], rest)
    else if c = 0x6e then some ([0x0a], rest)
    else if c = 0x72 then some ([0x0d], rest)
    else if c = 0x74 then some ([0x09], rest)
    else if c = 0x75 then unicodeEscape rest
    else none

/-- The rest of a string after its opening quote, up to and with the closing one. -/
def stringBody : ℕ → Bytes → Option (Bytes × Bytes)
  | 0, _ => none
  | _ + 1, [] => none
  | fuel + 1, c :: rest =>
    if c = 0x22 then some ([], rest)
    else if c = 0x5c then
      match escapeSequence rest with
      | none => none
      | some (piece, rest) => (stringBody fuel rest).map fun r => (piece ++ r.1, r.2)
    else if c < 0x20 then none
    else (stringBody fuel rest).map fun r => (c :: r.1, r.2)

def string (text : Bytes) : Option (Bytes × Bytes) := stringBody (text.length + 1) text

def fractionPart : Bytes → Option (Bytes × Bytes)
  | 0x2e :: rest =>
    if rest.takeWhile isDigit = [] then none
    else some (rest.takeWhile isDigit, rest.dropWhile isDigit)
  | text => some ([], text)

def exponentSign : Bytes → ℤ × Bytes
  | 0x2d :: rest => (-1, rest)
  | 0x2b :: rest => (1, rest)
  | text => (1, text)

def exponentPart : Bytes → Option (Option ℤ × Bytes)
  | [] => some (none, [])
  | c :: rest =>
    if c = 0x65 ∨ c = 0x45 then
      let (sign, rest) := exponentSign rest
      if rest.takeWhile isDigit = [] then none
      else some (some (sign * value (rest.takeWhile isDigit)), rest.dropWhile isDigit)
    else some (none, c :: rest)

def minus : Bytes → Bool × Bytes
  | 0x2d :: rest => (true, rest)
  | text => (false, text)

def number (text : Bytes) : Option (Number × Bytes) :=
  let (negative, text) := minus text
  let whole := text.takeWhile isDigit
  if whole = [] ∨ (whole.head? = some 0x30 ∧ whole ≠ [0x30]) then none
  else
    match fractionPart (text.dropWhile isDigit) with
    | none => none
    | some (fraction, text) =>
      (exponentPart text).map fun r => (⟨negative, value whole, fraction, r.1⟩, r.2)

/-- Items separated by commas, up to and with the closing bracket. -/
def commaList {α : Type} (item : Bytes → Option (α × Bytes)) (close : UInt8) :
    ℕ → Bytes → Option (List α × Bytes)
  | 0, _ => none
  | fuel + 1, text =>
    match item text with
    | none => none
    | some (x, rest) =>
      match skipBlanks rest with
      | [] => none
      | c :: rest =>
        if c = 0x2c then (commaList item close fuel rest).map fun r => (x :: r.1, r.2)
        else if c = close then some ([x], rest)
        else none

/-- What follows an opening bracket. -/
def sequence {α : Type} (item : Bytes → Option (α × Bytes)) (close : UInt8) (text : Bytes) :
    Option (List α × Bytes) :=
  match skipBlanks text with
  | [] => none
  | c :: rest =>
    if c = close then some ([], rest) else commaList item close (text.length + 1) (c :: rest)

def member (item : Bytes → Option (Json × Bytes)) (text : Bytes) :
    Option ((Bytes × Json) × Bytes) :=
  match skipBlanks text with
  | 0x22 :: rest =>
    match string rest with
    | none => none
    | some (name, rest) =>
      match skipBlanks rest with
      | 0x3a :: rest => (item rest).map fun r => ((name, r.1), r.2)
      | _ => none
  | _ => none

def scalar (text : Bytes) : Option (Json × Bytes) :=
  if ascii "true" <+: text then some (.bool true, text.drop 4)
  else if ascii "false" <+: text then some (.bool false, text.drop 5)
  else if ascii "null" <+: text then some (.null, text.drop 4)
  else (number text).map fun r => (.number r.1, r.2)

/-- A value nested at most `depth` deep, after any blanks. -/
def value : ℕ → Bytes → Option (Json × Bytes)
  | 0, _ => none
  | depth + 1, text =>
    match skipBlanks text with
    | [] => none
    | c :: rest =>
      if c = 0x7b then
        (sequence (member (value depth)) 0x7d rest).map fun r => (.object r.1, r.2)
      else if c = 0x5b then
        (sequence (value depth) 0x5d rest).map fun r => (.array r.1, r.2)
      else if c = 0x22 then (string rest).map fun r => (.string r.1, r.2)
      else scalar (c :: rest)

end JsonText

/-- The value that a text denotes, when it is a JSON text. -/
def Json.parse (text : Bytes) : Option Json :=
  match JsonText.value (text.length + 1) text with
  | none => none
  | some (j, rest) => if JsonText.skipBlanks rest = [] then some j else none

end LivekitServer

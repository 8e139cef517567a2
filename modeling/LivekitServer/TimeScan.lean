import LivekitServer.WebhookReceiver

/-!
# What the scan for a time claim reads

`JsonIntegerField` looks for a quoted name anywhere in the text, then for the next colon, and
reads the digits behind it. `Spells` says this of the text, without the loops, and
`reads_of_scans` says that the scan returns exactly that.
-/

namespace LivekitServer.Webhook

/-- A time claim: missing, unusable, or a number of seconds. -/
inductive Reading (ν : Type)
  | absent
  | refused
  | seconds (value : ν)
  deriving DecidableEq

section Scan

/-- After blanks and at most one minus sign stands a run of digits that fits in 63 bits. -/
def SpellsInteger (text : Bytes) (r : ℤ) : Prop :=
  ∃ (blanks : Bytes) (negative : Bool) (digits rest : Bytes), (∀ b ∈ blanks, isSpace b) ∧
    text = blanks ++ ((if negative then [0x2d] else []) ++ (digits ++ rest)) ∧
    digits ≠ [] ∧ (∀ d ∈ digits, Decimal.isDigit d) ∧
    (∀ d, rest.head? = some d → Decimal.isDigit d = false) ∧ Decimal.value digits < 2 ^ 63 ∧
    r = if negative then -(Decimal.value digits : ℤ) else Decimal.value digits

/-- The name occurs nowhere in quotes, neither as a name nor as a string nor inside one. -/
def Lacks (text : Bytes) (name : String) : Prop := ∀ i, ¬ marker name <+: text.drop i

/-- The integer stands behind the first colon after the first occurrence of the quoted name. -/
def Spells (text : Bytes) (name : String) (r : ℤ) : Prop :=
  ∃ front gap after, text = front ++ (marker name ++ (gap ++ 0x3a :: after)) ∧
    (∀ j < front.length, ¬ marker name <+: text.drop j) ∧ 0x3a ∉ gap ∧ SpellsInteger after r

def Scans (text : Bytes) (name : String) : Reading ℤ → Prop
  | .absent => Lacks text name
  | .refused => ¬ Lacks text name ∧ ∀ r, ¬ Spells text name r
  | .seconds r => Spells text name r

/-- The messages with which the scan refuses a text. -/
def refusals : List String :=
  ["webhook JWT contains invalid JSON", "webhook JWT time claim is invalid",
    "webhook JWT time claim is too large"]

def Refused {α : Type} (o : Outcome α) : Prop :=
  ∃ message ∈ refusals, o = raise .authentication (ascii message)

def Reads (o : Outcome (Option ℤ)) : Reading ℤ → Prop
  | .absent => o = .ok none
  | .refused => Refused o
  | .seconds r => o = .ok (some r)

end Scan

section Digits
open Decimal

theorem isSpace_of_isDigit {b : UInt8} (h : isDigit b) : isSpace b = false := by
  have hbyte : ∀ b : UInt8, isDigit b → isSpace b = false :=
    forall_byte (by decide +kernel)
  exact hbyte b h

theorem digitValue_le {b : UInt8} (h : isDigit b) : digitValue b ≤ 9 := by
  have hbyte : ∀ b : UInt8, isDigit b → digitValue b ≤ 9 :=
    forall_byte (by decide +kernel)
  exact hbyte b h

/-- The guard of the digit loop stops exactly the numbers that do not fit. -/
theorem guard_iff {v digit : ℤ} (hd : 0 ≤ digit) (hd' : digit ≤ 9) :
    v > (2 ^ 63 - 1 - digit).tdiv 10 ↔ 2 ^ 63 ≤ v * 10 + digit := by
  rw [Int.tdiv_eq_ediv_of_nonneg (by omega)]
  omega

theorem digitLoop_fits (text : Bytes) {v : ℤ} (hv : 0 ≤ v)
    (h : v * 10 ^ (text.takeWhile isDigit).length + value (text.takeWhile isDigit) < 2 ^ 63) :
    digitLoop text v =
      .ok (v * 10 ^ (text.takeWhile isDigit).length + value (text.takeWhile isDigit)) := by
  induction text generalizing v with
  | nil => simp [digitLoop, value]
  | cons ch rest ih =>
      by_cases hd : isDigit ch
      · have hle : (digitValue ch : ℤ) ≤ 9 := by exact_mod_cast digitValue_le hd
        have hsum : v * 10 ^ ((ch :: rest).takeWhile isDigit).length +
            value ((ch :: rest).takeWhile isDigit) =
            (v * 10 + digitValue ch) * 10 ^ (rest.takeWhile isDigit).length +
              value (rest.takeWhile isDigit) := by
          rw [List.takeWhile_cons_of_pos hd, value_cons, List.length_cons, pow_succ]
          push_cast
          ring
        rw [hsum] at h ⊢
        have hone : (1 : ℤ) ≤ 10 ^ (rest.takeWhile isDigit).length := one_le_pow₀ (by norm_num)
        have hfits : v * 10 + digitValue ch < 2 ^ 63 := by
          have hmul := le_mul_of_one_le_right
            (show (0 : ℤ) ≤ v * 10 + digitValue ch by positivity) hone
          omega
        rw [digitLoop, if_pos hd, if_neg]
        · exact ih (by positivity) h
        · rw [guard_iff (by positivity) hle]
          omega
      · rw [List.takeWhile_cons_of_neg hd, digitLoop, if_neg hd]
        simp [value]

theorem digitLoop_exceeds (text : Bytes) {v : ℤ} (hv : 0 ≤ v) (hv' : v < 2 ^ 63)
    (h : 2 ^ 63 ≤ v * 10 ^ (text.takeWhile isDigit).length + value (text.takeWhile isDigit)) :
    digitLoop text v =
      raise .authentication (ascii "webhook JWT time claim is too large") := by
  induction text generalizing v with
  | nil =>
      simp only [List.takeWhile_nil, List.length_nil, pow_zero, mul_one, value, List.foldl_nil,
        Nat.cast_zero, add_zero] at h
      omega
  | cons ch rest ih =>
      by_cases hd : isDigit ch
      · have hle : (digitValue ch : ℤ) ≤ 9 := by exact_mod_cast digitValue_le hd
        rw [digitLoop, if_pos hd]
        by_cases hguard : v > (2 ^ 63 - 1 - (digitValue ch : ℤ)).tdiv 10
        · rw [if_pos hguard]
        · rw [if_neg hguard]
          rw [guard_iff (by positivity) hle] at hguard
          apply ih (by positivity) (by omega)
          rw [List.takeWhile_cons_of_pos hd, value_cons, List.length_cons, pow_succ] at h
          push_cast at h
          have hsum : (v * 10 + digitValue ch) * 10 ^ (rest.takeWhile isDigit).length +
              value (rest.takeWhile isDigit) =
              v * (10 ^ (rest.takeWhile isDigit).length * 10) +
                (digitValue ch * 10 ^ (rest.takeWhile isDigit).length +
                  value (rest.takeWhile isDigit)) := by ring
          rw [hsum]
          exact h
      · rw [List.takeWhile_cons_of_neg hd] at h
        simp only [List.length_nil, pow_zero, mul_one, value, List.foldl_nil, Nat.cast_zero,
          add_zero] at h
        omega

/-- A run of digits with something else behind it is what `takeWhile` takes. -/
theorem takeWhile_digits {digits rest : Bytes} (hd : ∀ d ∈ digits, isDigit d)
    (hrest : ∀ d, rest.head? = some d → isDigit d = false) :
    (digits ++ rest).takeWhile isDigit = digits := by
  rw [List.takeWhile_append_of_pos hd]
  cases rest with
  | nil => simp
  | cons d rest => simp [hrest d rfl]

theorem isDigit_of_dropWhile {text : Bytes} {b : UInt8}
    (h : (text.dropWhile isDigit).head? = some b) : isDigit b = false := by
  have hdrop := List.head?_dropWhile_not isDigit text
  rw [h] at hdrop
  simpa using hdrop

theorem dropWhile_blanks {blanks : Bytes} (text : Bytes) (hb : ∀ b ∈ blanks, isSpace b)
    (htext : ∀ b, text.head? = some b → isSpace b = false) :
    (blanks ++ text).dropWhile isSpace = text := by
  rw [List.dropWhile_append_of_pos hb]
  cases text with
  | nil => rfl
  | cons b text => simp [htext b rfl]

end Digits

section Integers
open Decimal

theorem integerAfterColon_spells {text : Bytes} {r : ℤ} (h : SpellsInteger text r) :
    integerAfterColon text = .ok (some r) := by
  obtain ⟨blanks, negative, digits, rest, hblanks, rfl, hne, hdigits, hrest, hfits, rfl⟩ := h
  obtain ⟨d, digits, rfl⟩ := List.exists_cons_of_ne_nil hne
  have hd : isDigit d := hdigits d List.mem_cons_self
  have hloop : digitLoop (d :: digits ++ rest) 0 = .ok (value (d :: digits) : ℤ) := by
    have htake := takeWhile_digits hdigits hrest
    have hz := digitLoop_fits (d :: digits ++ rest) (v := 0) le_rfl
    rw [htake, zero_mul, zero_add] at hz
    exact hz (by exact_mod_cast hfits)
  unfold integerAfterColon
  cases negative with
  | true =>
      have hdrop := dropWhile_blanks ([0x2d] ++ (d :: digits ++ rest)) hblanks
        fun b hb => by
          obtain rfl := Option.some.inj hb
          decide
      simp only [if_true, hdrop]
      rw [List.cons_append] at hloop ⊢
      simp only [List.cons_append, List.nil_append, List.head?_cons, List.tail_cons, if_true, hd,
        hloop]
      rfl
  | false =>
      have hdrop := dropWhile_blanks ([] ++ (d :: digits ++ rest)) hblanks
        fun b hb => by
          obtain rfl := Option.some.inj hb
          exact isSpace_of_isDigit hd
      have hminus : d ≠ 0x2d := by
        rintro rfl
        exact absurd hd (by decide)
      simp only [Bool.false_eq_true, if_false, hdrop]
      rw [List.cons_append] at hloop ⊢
      simp only [List.nil_append, List.head?_cons, Option.some.injEq, hminus, if_false, hd, if_true,
        hloop]
      rfl

/-- A text that spells no integer is refused. -/
theorem integerAfterColon_cases (text : Bytes) :
    (∃ r, SpellsInteger text r) ∨ Refused (integerAfterColon text) := by
  have hsplit : text.takeWhile isSpace ++ text.dropWhile isSpace = text :=
    List.takeWhile_append_dropWhile
  have hblanks : ∀ b ∈ text.takeWhile isSpace, isSpace b :=
    List.all_eq_true.mp List.all_takeWhile
  unfold integerAfterColon
  generalize text.dropWhile isSpace = after at hsplit
  generalize hunsigned : (if after.head? = some 0x2d then after.tail else after) = unsigned
  have hafter : after = (if after.head? = some 0x2d then [0x2d] else []) ++ unsigned := by
    rw [← hunsigned]
    split_ifs with hsign
    · cases after with
      | nil => cases hsign
      | cons b after => simpa using hsign
    · rfl
  simp only [hunsigned]
  cases unsigned with
  | nil => exact Or.inr ⟨_, by decide, rfl⟩
  | cons d rest =>
      by_cases hd : isDigit d
      · simp only [hd, if_true]
        by_cases hfits : value ((d :: rest).takeWhile isDigit) < 2 ^ 63
        · left
          refine ⟨_, text.takeWhile isSpace, decide (after.head? = some 0x2d),
            (d :: rest).takeWhile isDigit, (d :: rest).dropWhile isDigit, hblanks, ?_, ?_, ?_, ?_,
            hfits, rfl⟩
          · rw [List.takeWhile_append_dropWhile]
            simp only [decide_eq_true_eq]
            rw [← hafter, hsplit]
          · simp [hd]
          · exact List.all_eq_true.mp List.all_takeWhile
          · exact fun b hb => isDigit_of_dropWhile hb
        · right
          have hexceeds := digitLoop_exceeds (d :: rest) (v := 0) le_rfl (by norm_num)
            (by rw [zero_mul, zero_add]; exact_mod_cast not_lt.mp hfits)
          rw [hexceeds]
          exact ⟨"webhook JWT time claim is too large", by decide, rfl⟩
      · right
        simp only [hd, Bool.false_eq_true, if_false]
        exact ⟨_, by decide, rfl⟩

end Integers

section Fields

theorem marker_ne_nil (name : String) : marker name ≠ [] := by simp [marker]

theorem jsonIntegerField_spells {text : Bytes} {name : String} {r : ℤ} (h : Spells text name r) :
    jsonIntegerField text name = .ok (some r) := by
  obtain ⟨front, gap, after, rfl, hfirst, hgap, hspells⟩ := h
  have hfind := Bytes.findText_append front (gap ++ 0x3a :: after) hfirst
  have hcolon := Bytes.find_append (front ++ marker name) hgap after
  rw [List.append_assoc, List.length_append] at hcolon
  have hdrop : (front ++ (marker name ++ (gap ++ 0x3a :: after))).drop
      (front.length + (marker name).length + gap.length + 1) = after := by
    have hsplit : front ++ (marker name ++ (gap ++ 0x3a :: after)) =
        (front ++ marker name ++ gap ++ [0x3a]) ++ after := by simp
    rw [hsplit]
    apply List.drop_left'
    simp only [List.length_append, List.length_singleton]
  simp only [jsonIntegerField, hfind, hcolon, hdrop]
  exact integerAfterColon_spells hspells

/-- The scan finds a reading in every text, and returns it. -/
theorem scan_jsonIntegerField (text : Bytes) (name : String) :
    ∃ reading, Scans text name reading ∧ Reads (jsonIntegerField text name) reading := by
  cases hfind : Bytes.findText (marker name) text with
  | none =>
      refine ⟨.absent, Bytes.findText_none.mp hfind, ?_⟩
      simp only [Reads, jsonIntegerField, hfind]
  | some position =>
      by_cases hspells : ∃ r, Spells text name r
      · obtain ⟨r, hr⟩ := hspells
        exact ⟨.seconds r, hr, jsonIntegerField_spells hr⟩
      · obtain ⟨⟨tail, htail⟩, hfirst⟩ := Bytes.findText_some hfind
        have htext : text = text.take position ++ (marker name ++ tail) := by
          rw [htail, List.take_append_drop]
        have hlength : (text.take position).length = position := by
          rw [List.length_take]
          apply min_eq_left
          by_contra hlong
          rw [List.drop_eq_nil_of_le (by omega)] at htail
          exact marker_ne_nil name (List.append_eq_nil_iff.mp htail).1
        refine ⟨.refused, ⟨fun hlacks => hlacks position ⟨tail, htail⟩, not_exists.mp hspells⟩, ?_⟩
        have hafter : text.drop (position + (marker name).length) = tail := by
          rw [← List.drop_drop, ← htail, List.drop_left]
        change Refused (jsonIntegerField text name)
        rcases Bytes.splits_at 0x3a tail with hnone | ⟨gap, after, hgap, rfl⟩
        · have hcolon : text.find 0x3a (position + (marker name).length) = none :=
            Bytes.find_none (by rwa [hafter])
          simp only [jsonIntegerField, hfind, hcolon]
          exact ⟨_, by decide, rfl⟩
        · rcases integerAfterColon_cases after with ⟨r, hr⟩ | hrefused
          · refine absurd ⟨r, text.take position, gap, after, htext, ?_, hgap, hr⟩ hspells
            rwa [hlength]
          · have hcolon : text.find 0x3a (position + (marker name).length) =
                some (position + (marker name).length + gap.length) := by
              simp only [Bytes.find, hafter, Bytes.idxOf?_append_cons hgap, Option.map_some]
            have hdrop : text.drop (position + (marker name).length + gap.length + 1) = after := by
              rw [Nat.add_assoc _ gap.length, ← List.drop_drop, hafter]
              simp
            simp only [jsonIntegerField, hfind, hcolon, hdrop]
            exact hrefused

theorem reads_of_scans {text : Bytes} {name : String} {reading : Reading ℤ}
    (h : Scans text name reading) : Reads (jsonIntegerField text name) reading := by
  cases reading with
  | absent =>
      have hfind := Bytes.findText_none.mpr h
      simp only [Reads, jsonIntegerField, hfind]
  | seconds r => exact jsonIntegerField_spells h
  | refused =>
      obtain ⟨reading, hscans, hreads⟩ := scan_jsonIntegerField text name
      cases reading with
      | absent => exact absurd hscans h.1
      | refused => exact hreads
      | seconds r => exact absurd hscans (h.2 r)

end Fields
end LivekitServer.Webhook

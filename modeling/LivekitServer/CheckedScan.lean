import LivekitServer.TimeScan

/-!
# The scan for a time claim, index by index

Here `JsonIntegerField` walks over the text by position, as it does in C++, where reading behind the
end and leaving the range of `std::int64_t` have no meaning. `integerField_eq` says that neither
happens, and `integerField_exact` which integer the scan returns.
-/

namespace LivekitServer.Webhook

/-- How the scan can stop early: with an exception, or where C++ gives no meaning. -/
inductive Stop
  | thrown (e : Thrown)
  | overflow
  | outOfBounds

abbrev Checked (α : Type) := Except Stop α

/-- An outcome in which nothing was undefined. -/
def lift {α : Type} (o : Outcome α) : Checked α := o.mapError .thrown

/-- `json[position]`. -/
def readAt (json : Bytes) (position : ℕ) : Checked UInt8 :=
  match json[position]? with
  | none => .error .outOfBounds
  | some ch => .ok ch

/-- The result of an operation on `std::int64_t`. -/
def int64 (n : ℤ) : Checked ℤ := if InInt64 n then .ok n else .error .overflow

section Loops

/-- The loop over the blanks, up to the position behind them. -/
def skipSpaces (json : Bytes) (position : ℕ) : Checked ℕ :=
  if position < json.length then do
    let ch ← readAt json position
    if isSpace ch then skipSpaces json (position + 1) else .ok position
  else .ok position
termination_by json.length - position

/-- The loop over the digits. -/
def scanDigits (json : Bytes) (position : ℕ) (value : ℤ) : Checked ℤ :=
  if position < json.length then do
    let ch ← readAt json position
    if Decimal.isDigit ch then
      let ch ← readAt json position
      let digit : ℤ := ch.toNat - 0x30
      let room ← int64 (2 ^ 63 - 1 - digit)
      if value > room.tdiv 10 then
        lift (raise .authentication (ascii "webhook JWT time claim is too large"))
      else
        let scaled ← int64 (value * 10)
        let next ← int64 (scaled + digit)
        scanDigits json (position + 1) next
    else .ok value
  else .ok value
termination_by json.length - position

end Loops

/-- `position < json.size() && is(json[position])`. -/
def standsAt (json : Bytes) (is : UInt8 → Bool) (position : ℕ) : Checked Bool :=
  if position < json.length then (readAt json position).map is else .ok false

/-- The check for a digit, the loop over the digits and the sign of the result. -/
def magnitudeAt (json : Bytes) (position : ℕ) (negative : Bool) : Checked ℤ := do
  if ← standsAt json Decimal.isDigit position then
    let value ← scanDigits json position 0
    if negative then int64 (-value) else .ok value
  else lift (raise .authentication (ascii "webhook JWT time claim is invalid"))

/-- What `JsonIntegerField` does from the position after the colon on. -/
def integerAt (json : Bytes) (position : ℕ) : Checked ℤ := do
  let position ← skipSpaces json position
  let negative ← standsAt json (· == 0x2d) position
  magnitudeAt json (if negative then position + 1 else position) negative

def integerField (json : Bytes) (name : String) : Checked (Option ℤ) :=
  match Bytes.findText (marker name) json with
  | none => .ok none
  | some position =>
    match json.find 0x3a (position + (marker name).length) with
    | none => lift (raise .authentication (ascii "webhook JWT contains invalid JSON"))
    | some position => (integerAt json (position + 1)).map some

section Positions
open Decimal

theorem lt_length_of_drop {json rest : Bytes} {position : ℕ} {ch : UInt8}
    (h : json.drop position = ch :: rest) : position < json.length := by
  by_contra hlong
  rw [List.drop_eq_nil_of_le (not_lt.mp hlong)] at h
  cases h

theorem readAt_of_drop {json rest : Bytes} {position : ℕ} {ch : UInt8}
    (h : json.drop position = ch :: rest) : readAt json position = .ok ch := by
  have hget : json[position]? = some ch := by
    rw [← List.head?_drop, h]
    rfl
  rw [readAt, hget]

theorem drop_next {json rest : Bytes} {position : ℕ} {ch : UInt8}
    (h : json.drop position = ch :: rest) : json.drop (position + 1) = rest := by
  rw [← List.drop_drop, h]
  rfl

theorem length_le_of_drop {json : Bytes} {position : ℕ} (h : json.drop position = []) :
    json.length ≤ position := List.drop_eq_nil_iff.mp h

theorem int64_ok {n : ℤ} (h : InInt64 n) : int64 n = .ok n := if_pos h

theorem skipSpaces_spec (json : Bytes) (position : ℕ) :
    ∃ next, skipSpaces json position = .ok next ∧
      json.drop next = (json.drop position).dropWhile isSpace := by
  generalize htext : json.drop position = text
  induction text generalizing position with
  | nil =>
      refine ⟨position, ?_, htext⟩
      rw [skipSpaces, if_neg (length_le_of_drop htext).not_gt]
  | cons ch rest ih =>
      rw [skipSpaces, if_pos (lt_length_of_drop htext), readAt_of_drop htext]
      by_cases hspace : isSpace ch
      · obtain ⟨next, hnext, hdrop⟩ := ih (position + 1) (drop_next htext)
        refine ⟨next, ?_, ?_⟩
        · change (if isSpace ch then _ else _) = _
          rw [if_pos hspace, hnext]
        · rw [hdrop, List.dropWhile_cons_of_pos hspace]
      · refine ⟨position, ?_, ?_⟩
        · change (if isSpace ch then _ else _) = _
          rw [if_neg hspace]
        · rw [htext, List.dropWhile_cons_of_neg hspace]

theorem cast_digitValue {ch : UInt8} (h : isDigit ch) :
    (ch.toNat : ℤ) - 0x30 = digitValue ch := by
  have hall : ∀ ch : UInt8, isDigit ch → 0x30 ≤ ch.toNat := forall_byte (by decide +kernel)
  have hch := hall ch h
  unfold digitValue
  omega

/-- The guard keeps the product and the sum within 64 bits. -/
theorem inInt64_of_guard {v digit : ℤ} (hv : 0 ≤ v) (hnonneg : 0 ≤ digit) (hle : digit ≤ 9)
    (hguard : ¬v > (2 ^ 63 - 1 - digit).tdiv 10) :
    InInt64 (v * 10) ∧ InInt64 (v * 10 + digit) ∧ v * 10 + digit < 2 ^ 63 := by
  rw [guard_iff hnonneg hle] at hguard
  unfold InInt64
  omega

/-- The digits are read as by the loop over the rest of the text. -/
theorem scanDigits_eq (json : Bytes) (position : ℕ) {v : ℤ} (hv : 0 ≤ v) (hv' : v < 2 ^ 63) :
    scanDigits json position v = lift (digitLoop (json.drop position) v) := by
  generalize htext : json.drop position = text
  induction text generalizing position v with
  | nil =>
      rw [scanDigits, if_neg (length_le_of_drop htext).not_gt]
      rfl
  | cons ch rest ih =>
      rw [scanDigits, if_pos (lt_length_of_drop htext), readAt_of_drop htext]
      by_cases hdigit : isDigit ch
      · have hle : (digitValue ch : ℤ) ≤ 9 := by exact_mod_cast digitValue_le hdigit
        have hnonneg : (0 : ℤ) ≤ digitValue ch := Int.natCast_nonneg _
        have hroom : int64 (2 ^ 63 - 1 - digitValue ch) = .ok (2 ^ 63 - 1 - digitValue ch) := by
          apply int64_ok
          unfold InInt64
          omega
        change (if isDigit ch then (int64 (2 ^ 63 - 1 - ((ch.toNat : ℤ) - 0x30)) >>= _) else _) = _
        rw [if_pos hdigit, cast_digitValue hdigit, hroom, digitLoop, if_pos hdigit]
        change (if v > (2 ^ 63 - 1 - (digitValue ch : ℤ)).tdiv 10 then _
          else (int64 (v * 10) >>= fun scaled => _)) = lift (if _ then _ else _)
        by_cases hguard : v > (2 ^ 63 - 1 - (digitValue ch : ℤ)).tdiv 10
        · rw [if_pos hguard, if_pos hguard]
        · rw [if_neg hguard, if_neg hguard]
          obtain ⟨hscaled, hnext, hlt⟩ := inInt64_of_guard hv hnonneg hle hguard
          rw [int64_ok hscaled]
          change (int64 (v * 10 + digitValue ch) >>= fun next =>
            scanDigits json (position + 1) next) = _
          rw [int64_ok hnext]
          exact ih (position + 1) (by omega) hlt (drop_next htext)
      · rw [digitLoop, if_neg hdigit]
        change (if isDigit ch then _ else _) = _
        rw [if_neg hdigit]
        rfl

theorem digitLoop_eq (text : Bytes) :
    digitLoop text 0 =
      if value (text.takeWhile isDigit) < 2 ^ 63 then .ok (value (text.takeWhile isDigit) : ℤ)
      else raise .authentication (ascii "webhook JWT time claim is too large") := by
  have hsum : (0 : ℤ) * 10 ^ (text.takeWhile isDigit).length + value (text.takeWhile isDigit) =
      value (text.takeWhile isDigit) := by
    rw [zero_mul, zero_add]
  by_cases hfits : value (text.takeWhile isDigit) < 2 ^ 63
  · rw [if_pos hfits, digitLoop_fits text le_rfl, hsum]
    rw [hsum]
    exact_mod_cast hfits
  · rw [if_neg hfits]
    apply digitLoop_exceeds text le_rfl (by norm_num)
    rw [hsum]
    exact_mod_cast not_lt.mp hfits

theorem digitLoop_range {text : Bytes} {r : ℤ} (h : digitLoop text 0 = .ok r) :
    0 ≤ r ∧ r < 2 ^ 63 := by
  rw [digitLoop_eq] at h
  split_ifs at h with hfits
  · obtain rfl := Except.ok.inj h
    omega
  · cases h

/-- The text behind the blanks starts with a minus sign. -/
def isNegative (text : Bytes) : Bool := (text.dropWhile isSpace).head?.any (· == 0x2d)

/-- The text behind the blanks and the sign. -/
def unsigned (text : Bytes) : Bytes :=
  if isNegative text then (text.dropWhile isSpace).tail else text.dropWhile isSpace

theorem standsAt_eq (json : Bytes) (is : UInt8 → Bool) (position : ℕ) :
    standsAt json is position = .ok ((json.drop position).head?.any is) := by
  cases htext : json.drop position with
  | nil =>
      rw [standsAt, if_neg (length_le_of_drop htext).not_gt]
      rfl
  | cons ch rest =>
      rw [standsAt, if_pos (lt_length_of_drop htext), readAt_of_drop htext]
      rfl

theorem magnitudeAt_eq (json : Bytes) (position : ℕ) (negative : Bool) :
    magnitudeAt json position negative =
      if (json.drop position).head?.any isDigit then
        lift ((digitLoop (json.drop position) 0).map fun v => if negative then -v else v)
      else lift (raise .authentication (ascii "webhook JWT time claim is invalid")) := by
  rw [magnitudeAt, standsAt_eq]
  change (if (json.drop position).head?.any isDigit = true then scanDigits json position 0 >>= _
    else _) = _
  by_cases hdigit : (json.drop position).head?.any isDigit = true
  · rw [if_pos hdigit, if_pos hdigit, scanDigits_eq json position le_rfl (by norm_num)]
    cases hloop : digitLoop (json.drop position) 0 with
    | error e => rfl
    | ok v =>
        have hrange := digitLoop_range hloop
        change (if negative then int64 (-v) else .ok v) = .ok (if negative then -v else v)
        by_cases hnegative : negative = true
        · rw [if_pos hnegative, if_pos hnegative]
          apply int64_ok
          unfold InInt64
          omega
        · rw [if_neg hnegative, if_neg hnegative]
  · rw [if_neg hdigit, if_neg hdigit]

theorem integerAfterColon_eq (text : Bytes) :
    integerAfterColon text =
      if (unsigned text).head?.any isDigit then
        (digitLoop (unsigned text) 0).map fun v => some (if isNegative text then -v else v)
      else raise .authentication (ascii "webhook JWT time claim is invalid") := by
  have hsign : (isNegative text = true) = ((text.dropWhile isSpace).head? = some 0x2d) := by
    unfold isNegative
    cases text.dropWhile isSpace with
    | nil => simp
    | cons ch rest => simp
  rw [integerAfterColon]
  have hunsigned : (if isNegative text then (text.dropWhile isSpace).tail
      else text.dropWhile isSpace) = unsigned text := rfl
  simp only [← hsign, hunsigned]
  cases unsigned text with
  | nil => rfl
  | cons ch rest => rfl

theorem integerAt_value (json : Bytes) (position : ℕ) :
    integerAt json position =
      if (unsigned (json.drop position)).head?.any isDigit then
        lift ((digitLoop (unsigned (json.drop position)) 0).map fun v =>
          if isNegative (json.drop position) then -v else v)
      else lift (raise .authentication (ascii "webhook JWT time claim is invalid")) := by
  obtain ⟨next, hskip, hdrop⟩ := skipSpaces_spec json position
  have hsign : (json.drop next).head?.any (· == 0x2d) = isNegative (json.drop position) := by
    rw [isNegative, ← hdrop]
  have hdigits : json.drop (if isNegative (json.drop position) then next + 1 else next) =
      unsigned (json.drop position) := by
    rw [unsigned, ← hdrop]
    by_cases hnegative : isNegative (json.drop position) = true
    · rw [if_pos hnegative, if_pos hnegative, List.tail_drop]
    · rw [if_neg hnegative, if_neg hnegative]
  rw [integerAt, hskip]
  change (standsAt json (· == 0x2d) next >>= _) = _
  rw [standsAt_eq, hsign]
  change magnitudeAt json _ _ = _
  rw [magnitudeAt_eq, hdigits]

/-- Nothing in the scan is undefined, and it reads what `integerAfterColon` reads. -/
theorem integerAt_eq (json : Bytes) (position : ℕ) :
    (integerAt json position).map some = lift (integerAfterColon (json.drop position)) := by
  rw [integerAt_value, integerAfterColon_eq]
  by_cases hdigit : (unsigned (json.drop position)).head?.any isDigit = true
  · rw [if_pos hdigit, if_pos hdigit]
    cases digitLoop (unsigned (json.drop position)) 0 with
    | error e => rfl
    | ok v => rfl
  · rw [if_neg hdigit, if_neg hdigit]
    rfl

theorem integerField_eq (json : Bytes) (name : String) :
    integerField json name = lift (jsonIntegerField json name) := by
  rw [integerField, jsonIntegerField]
  cases hfind : Bytes.findText (marker name) json with
  | none => rfl
  | some position =>
      cases hcolon : json.find 0x3a (position + (marker name).length) with
      | none => simp only [hcolon]
      | some colon =>
          simp only [hcolon]
          exact integerAt_eq json (colon + 1)

end Positions

section Exact
open Decimal

/-- Blanks, at most one minus sign and a run of digits that the text does not go on with. -/
def SpellsDigits (text : Bytes) (negative : Bool) (digits : Bytes) : Prop :=
  ∃ blanks rest, (∀ b ∈ blanks, isSpace b) ∧
    text = blanks ++ ((if negative then [0x2d] else []) ++ (digits ++ rest)) ∧
    digits ≠ [] ∧ (∀ d ∈ digits, isDigit d) ∧ ∀ d, rest.head? = some d → isDigit d = false

theorem unsigned_spec (text : Bytes) :
    text.takeWhile isSpace ++ ((if isNegative text then [0x2d] else []) ++ unsigned text) =
      text := by
  conv_rhs => rw [← List.takeWhile_append_dropWhile (p := isSpace) (l := text)]
  rw [List.append_cancel_left_eq, unsigned, isNegative]
  cases text.dropWhile isSpace with
  | nil => rfl
  | cons ch rest =>
      by_cases hminus : ch = 0x2d
      · subst hminus
        rfl
      · simp [hminus]

/-- The sign and the digits of a text that is spelled out. -/
theorem unsigned_spelled {blanks : Bytes} (negative : Bool) {d : UInt8} (rest : Bytes)
    (hblanks : ∀ b ∈ blanks, isSpace b) (hd : isDigit d) :
    isNegative (blanks ++ ((if negative then [0x2d] else []) ++ d :: rest)) = negative ∧
      unsigned (blanks ++ ((if negative then [0x2d] else []) ++ d :: rest)) = d :: rest := by
  have hminus : (d == 0x2d) = false := by
    apply beq_false_of_ne
    rintro rfl
    exact absurd hd (by decide)
  have hdrop : (blanks ++ ((if negative then [0x2d] else []) ++ d :: rest)).dropWhile isSpace =
      (if negative then [0x2d] else []) ++ d :: rest := by
    apply dropWhile_blanks _ hblanks
    intro b hb
    cases negative with
    | false =>
        obtain rfl := Option.some.inj hb
        exact isSpace_of_isDigit hd
    | true =>
        obtain rfl := Option.some.inj hb
        rfl
  rw [unsigned, isNegative, hdrop]
  cases negative with
  | false => exact ⟨hminus, by simp [hminus]⟩
  | true => exact ⟨rfl, rfl⟩

theorem spellsDigits_iff (text : Bytes) (negative : Bool) (digits : Bytes) :
    SpellsDigits text negative digits ↔ isNegative text = negative ∧
      (unsigned text).takeWhile isDigit = digits ∧ (unsigned text).head?.any isDigit = true := by
  constructor
  · rintro ⟨blanks, rest, hblanks, rfl, hne, hdigits, hrest⟩
    have htake := takeWhile_digits hdigits hrest
    obtain ⟨d, digits, rfl⟩ := List.exists_cons_of_ne_nil hne
    have hd : isDigit d := hdigits d List.mem_cons_self
    obtain ⟨hnegative, hunsigned⟩ := unsigned_spelled negative (digits ++ rest) hblanks hd
    rw [List.cons_append] at htake ⊢
    rw [hnegative, hunsigned]
    exact ⟨rfl, htake, hd⟩
  · rintro ⟨rfl, rfl, hdigit⟩
    refine ⟨text.takeWhile isSpace, (unsigned text).dropWhile isDigit,
      List.all_eq_true.mp List.all_takeWhile, ?_, ?_, List.all_eq_true.mp List.all_takeWhile, ?_⟩
    · rw [List.takeWhile_append_dropWhile, unsigned_spec]
    · intro hnil
      rw [← List.head?_eq_none_iff, List.head?_takeWhile] at hnil
      cases hhead : (unsigned text).head? with
      | none =>
          rw [hhead] at hdigit
          cases hdigit
      | some d =>
          rw [hhead] at hdigit hnil
          rw [Option.filter_eq_none_iff] at hnil
          exact hnil d rfl hdigit
    · exact fun d hd => isDigit_of_dropWhile hd

theorem integerAt_spells {json digits : Bytes} {position : ℕ} {negative : Bool}
    (h : SpellsDigits (json.drop position) negative digits) :
    integerAt json position =
      if value digits < 2 ^ 63 then .ok (if negative then -(value digits : ℤ) else value digits)
      else lift (raise .authentication (ascii "webhook JWT time claim is too large")) := by
  obtain ⟨rfl, rfl, hdigit⟩ := (spellsDigits_iff _ _ _).mp h
  rw [integerAt_value, if_pos hdigit, digitLoop_eq]
  by_cases hfits : value ((unsigned (json.drop position)).takeWhile isDigit) < 2 ^ 63
  · rw [if_pos hfits, if_pos hfits]
    rfl
  · rw [if_neg hfits, if_neg hfits]
    rfl

theorem integerAt_invalid {json : Bytes} {position : ℕ}
    (h : ∀ negative digits, ¬SpellsDigits (json.drop position) negative digits) :
    integerAt json position =
      lift (raise .authentication (ascii "webhook JWT time claim is invalid")) := by
  rw [integerAt_value, if_neg]
  intro hdigit
  exact h _ _ ((spellsDigits_iff _ _ _).mpr ⟨rfl, rfl, hdigit⟩)

theorem lift_ne {α : Type} (o : Outcome α) :
    lift o ≠ .error .overflow ∧ lift o ≠ .error .outOfBounds := by
  cases o with
  | error e => exact ⟨nofun, nofun⟩
  | ok a => exact ⟨nofun, nofun⟩

/-- The place of the colon whose value is read. -/
def colonAfter (json : Bytes) (name : String) : Option ℕ :=
  (Bytes.findText (marker name) json).bind fun position =>
    json.find 0x3a (position + (marker name).length)

theorem integerField_of_colon {json : Bytes} {name : String} {colon : ℕ}
    (h : colonAfter json name = some colon) :
    integerField json name = (integerAt json (colon + 1)).map some := by
  obtain ⟨position, hfind, hcolon⟩ := Option.bind_eq_some_iff.mp h
  rw [integerField, hfind]
  simp only [hcolon]

/-- After the colon, blanks, a sign and digits give the signed value of the whole run of digits
when it fits and are refused when it does not. Anything else is refused, and no operation leaves its
range or the text. -/
theorem integerField_exact {json : Bytes} {name : String} {colon : ℕ}
    (h : colonAfter json name = some colon) :
    (∀ negative digits, SpellsDigits (json.drop (colon + 1)) negative digits →
      integerField json name =
        if value digits < 2 ^ 63 then
          .ok (some (if negative then -(value digits : ℤ) else value digits))
        else lift (raise .authentication (ascii "webhook JWT time claim is too large"))) ∧
    ((∀ negative digits, ¬SpellsDigits (json.drop (colon + 1)) negative digits) →
      integerField json name =
        lift (raise .authentication (ascii "webhook JWT time claim is invalid"))) ∧
    integerField json name ≠ .error .overflow ∧ integerField json name ≠ .error .outOfBounds := by
  refine ⟨fun negative digits hspells => ?_, fun hnone => ?_, ?_⟩
  · rw [integerField_of_colon h, integerAt_spells hspells]
    by_cases hfits : value digits < 2 ^ 63
    · rw [if_pos hfits, if_pos hfits]
      rfl
    · rw [if_neg hfits, if_neg hfits]
      rfl
  · rw [integerField_of_colon h, integerAt_invalid hnone]
    rfl
  · rw [integerField_eq]
    exact lift_ne _

/-- A text with a negative number after blanks and with zeros in front. -/
def paddedClaims : Bytes := ascii "\x7b\"exp\": \t-0012,\"nbf\":1\x7d"

theorem integerField_paddedClaims : integerField paddedClaims "exp" = .ok (some (-12)) := by
  have hspells : SpellsDigits (paddedClaims.drop (6 + 1)) true (ascii "0012") := by
    refine ⟨ascii " \t", ascii ",\"nbf\":1\x7d", List.all_eq_true.mp rfl, rfl, by decide,
      List.all_eq_true.mp rfl, fun d hd => ?_⟩
    obtain rfl := Option.some.inj hd
    rfl
  rw [(integerField_exact (by decide : colonAfter paddedClaims "exp" = some 6)).1 true _ hspells]
  rfl

end Exact

end LivekitServer.Webhook

import LivekitServer.JsonWriter

/-!
# The strings of a JSON text

A JSON text that is valid UTF-8 denotes valid strings only: a quote or a backslash stands between
characters, and an escape denotes a whole one.
-/

namespace LivekitServer

namespace Utf8

section Encode

theorem step_tail (more : ℕ) (k : Fin 64) :
    step (.inside (more + 1) .any) (UInt8.ofNat (0x80 + k)) = some (.inside more .any) := by
  have htail : ∀ k : Fin 64, Tail.any.low ≤ UInt8.ofNat (0x80 + k) ∧
      UInt8.ofNat (0x80 + k) ≤ Tail.any.high := by decide
  exact if_pos (htail k)

theorem step_last (k : Fin 64) :
    step (.inside 0 .any) (UInt8.ofNat (0x80 + k)) = some .boundary := by
  revert k
  decide

theorem run_two : ∀ k : Fin 32, 2 ≤ k.1 →
    step .boundary (UInt8.ofNat (0xc0 + k)) = some (.inside 0 .any) := by decide

theorem run_three : ∀ (k : Fin 16) (s : Fin 64), ¬(k.1 = 0 ∧ s.1 < 32) → ¬(k.1 = 13 ∧ 32 ≤ s.1) →
    run .boundary [UInt8.ofNat (0xe0 + k), UInt8.ofNat (0x80 + s)] = some (.inside 0 .any) := by
  decide +kernel

theorem run_four : ∀ (k : Fin 5) (s : Fin 64), ¬(k.1 = 0 ∧ s.1 < 16) → ¬(k.1 = 4 ∧ 16 ≤ s.1) →
    run .boundary [UInt8.ofNat (0xf0 + k), UInt8.ofNat (0x80 + s)] = some (.inside 1 .any) := by
  decide +kernel

/-- Scalar values that are no surrogates have an encoding. -/
theorem valid_encode {scalar : ℕ} (h : scalar < 0x110000)
    (hsurrogate : ¬(0xd800 ≤ scalar ∧ scalar < 0xe000)) : Valid (encode scalar) := by
  have hlast (n : ℕ) : step (.inside 0 .any) (UInt8.ofNat (0x80 + n % 0x40)) = some .boundary :=
    step_last ⟨n % 0x40, Nat.mod_lt n (by decide)⟩
  unfold encode
  split_ifs with hone htwo hthree
  · apply valid_of_ascii
    intro b hb
    obtain rfl := List.mem_singleton.mp hb
    rw [byte_lt_iff, UInt8.toNat_ofNat']
    change scalar % 256 < 128
    omega
  · have hlead := run_two ⟨scalar / 0x40, by omega⟩ (by change 2 ≤ scalar / 0x40; omega)
    change (step .boundary (UInt8.ofNat (0xc0 + scalar / 0x40))).bind _ = _
    rw [hlead]
    change (step _ _).bind _ = _
    rw [hlast]
    rfl
  · have hfront := run_three ⟨scalar / 0x1000, by omega⟩ ⟨scalar / 0x40 % 0x40, by omega⟩
      (by change ¬(scalar / 0x1000 = 0 ∧ scalar / 0x40 % 0x40 < 32); omega)
      (by change ¬(scalar / 0x1000 = 13 ∧ 32 ≤ scalar / 0x40 % 0x40); omega)
    apply (run_append .boundary [_, _] [_]).trans
    rw [hfront]
    change (step _ _).bind _ = _
    rw [hlast]
    rfl
  · have hfront := run_four ⟨scalar / 0x40000, by omega⟩ ⟨scalar / 0x1000 % 0x40, by omega⟩
      (by change ¬(scalar / 0x40000 = 0 ∧ scalar / 0x1000 % 0x40 < 16); omega)
      (by change ¬(scalar / 0x40000 = 4 ∧ 16 ≤ scalar / 0x1000 % 0x40); omega)
    have hthird := step_tail 0 ⟨scalar / 0x40 % 0x40, Nat.mod_lt _ (by decide)⟩
    apply (run_append .boundary [_, _] [_, _]).trans
    rw [hfront]
    change (step _ (UInt8.ofNat (0x80 + scalar / 0x40 % 0x40))).bind _ = _
    rw [hthird]
    change (step _ _).bind _ = _
    rw [hlast]
    rfl

end Encode

section Remainders

theorem valid_cons_ascii {b : UInt8} (hb : b < 0x80) {text : Bytes} :
    Valid (b :: text) ↔ Valid text := by
  change (step .boundary b).bind _ = _ ↔ _
  rw [step_ascii hb]
  rfl

theorem Valid.dropWhile {f : UInt8 → Bool} (hf : ∀ b, f b = true → b < 0x80) {text : Bytes}
    (h : Valid text) : Valid (text.dropWhile f) := by
  induction text with
  | nil => exact h
  | cons b text ih =>
      cases hb : f b with
      | true =>
          rw [List.dropWhile_cons_of_pos hb]
          exact ih ((valid_cons_ascii (hf b hb)).mp h)
      | false =>
          rw [List.dropWhile_cons_of_neg (by simp [hb])]
          exact h

theorem Valid.of_ascii_append {front rest : Bytes} (hfront : ∀ b ∈ front, b < 0x80)
    (h : Valid (front ++ rest)) : Valid rest := by
  induction front with
  | nil => exact h
  | cons b front ih =>
      exact ih (fun c hc => hfront c (List.mem_cons_of_mem b hc))
        ((valid_cons_ascii (hfront b List.mem_cons_self)).mp h)

end Remainders

end Utf8

namespace JsonText
open Utf8 Decimal

/-- On valid texts the parser reads results that satisfy `P`, and leaves a valid rest. -/
def Reads {α : Type} (P : α → Prop) (parser : Bytes → Option (α × Bytes)) : Prop :=
  ∀ text a rest, Valid text → parser text = some (a, rest) → P a ∧ Valid rest

section Strings

theorem hexValue_some {b : UInt8} {n : ℕ} (h : hexValue b = some n) : b < 0x80 ∧ n < 16 := by
  have hbyte : ∀ b : UInt8, ∀ n, hexValue b = some n → b < 0x80 ∧ n < 16 := by
    apply forall_byte
    have hall : ∀ m : Fin 256, (hexValue (UInt8.ofNat m)).all (fun n =>
        decide (UInt8.ofNat m < 0x80 ∧ n < 16)) = true := by decide +kernel
    intro m n hn
    have hm := hall m
    rw [hn] at hm
    exact of_decide_eq_true hm
  exact hbyte b n h

theorem reads_codeUnit : Reads (· < 0x10000) codeUnit := by
  intro text unit rest hvalid h
  match text with
  | a :: b :: c :: d :: text =>
      cases ha : hexValue a with
      | none => simp [codeUnit, ha] at h
      | some av =>
      cases hb : hexValue b with
      | none => simp [codeUnit, ha, hb] at h
      | some bv =>
      cases hc : hexValue c with
      | none => simp [codeUnit, ha, hb, hc] at h
      | some cv =>
      cases hd : hexValue d with
      | none => simp [codeUnit, ha, hb, hc, hd] at h
      | some dv =>
      simp only [codeUnit, ha, hb, hc, hd, Option.some.injEq, Prod.mk.injEq] at h
      obtain ⟨rfl, rfl⟩ := h
      have ha := hexValue_some ha
      have hb := hexValue_some hb
      have hc := hexValue_some hc
      have hd := hexValue_some hd
      refine ⟨by omega, ?_⟩
      rwa [valid_cons_ascii ha.1, valid_cons_ascii hb.1, valid_cons_ascii hc.1,
        valid_cons_ascii hd.1] at hvalid
  | [] | [_] | [_, _] | [_, _, _] => cases h

theorem reads_unicodeEscape : Reads Valid unicodeEscape := by
  intro text piece rest hvalid h
  unfold unicodeEscape at h
  cases hunit : codeUnit text with
  | none => simp [hunit] at h
  | some r =>
      obtain ⟨unit, after⟩ := r
      obtain ⟨hlt, hafter⟩ := reads_codeUnit text unit after hvalid hunit
      simp only [hunit] at h
      split_ifs at h with hhigh hlow
      · split at h
        · rename_i tail
          cases hpair : codeUnit tail with
          | none => simp [hpair] at h
          | some r =>
              obtain ⟨low, last⟩ := r
              have htail : Valid tail := by
                rwa [valid_cons_ascii (by decide), valid_cons_ascii (by decide)] at hafter
              have hlast := (reads_codeUnit tail low last htail hpair).2
              simp only [hpair] at h
              split_ifs at h with hrange
              obtain ⟨rfl, rfl⟩ : _ = piece ∧ last = rest := by simpa using h
              exact ⟨valid_encode (by omega) (by omega), hlast⟩
        · cases h
      · obtain ⟨rfl, rfl⟩ : _ = piece ∧ after = rest := by simpa using h
        exact ⟨valid_encode (by omega) (by omega), hafter⟩

theorem reads_escapeSequence : Reads Valid escapeSequence := by
  intro text piece rest hvalid h
  cases text with
  | nil => cases h
  | cons c text =>
      have hplain {b : UInt8} (hc : c < 0x80) (hb : b < 0x80)
          (h : some ([b], text) = some (piece, rest)) : Valid piece ∧ Valid rest := by
        obtain ⟨rfl, rfl⟩ : [b] = piece ∧ text = rest := by simpa using h
        exact ⟨(valid_cons_ascii hb).mpr valid_nil, (valid_cons_ascii hc).mp hvalid⟩
      simp only [escapeSequence] at h
      split_ifs at h with hself hb hf hn hr ht hu
      · have hc : c < 0x80 := by rcases hself with rfl | rfl | rfl <;> decide
        exact hplain hc hc h
      · exact hplain (hb ▸ by decide) (by decide) h
      · exact hplain (hf ▸ by decide) (by decide) h
      · exact hplain (hn ▸ by decide) (by decide) h
      · exact hplain (hr ▸ by decide) (by decide) h
      · exact hplain (ht ▸ by decide) (by decide) h
      · exact reads_unicodeEscape text piece rest
          ((valid_cons_ascii (hu ▸ by decide : c < 0x80)).mp hvalid) h

/-- An ASCII byte is read between characters only. -/
theorem boundary_of_ascii {p : Position} {b : UInt8} (hb : b < 0x80) {text : Bytes}
    (h : run p (b :: text) = some .boundary) : p = .boundary ∧ Valid text := by
  cases p with
  | boundary => exact ⟨rfl, (valid_cons_ascii hb).mp h⟩
  | inside more tail =>
      change (step _ b).bind _ = _ at h
      rw [step_inside_ascii hb] at h
      cases h

theorem stringBody_valid {fuel : ℕ} {p : Position} {text s rest : Bytes}
    (hvalid : run p text = some .boundary) (h : stringBody fuel text = some (s, rest)) :
    run p s = some .boundary ∧ Valid rest := by
  induction fuel generalizing p text s with
  | zero => cases h
  | succ fuel ih =>
      cases text with
      | nil => cases h
      | cons c text =>
          unfold stringBody at h
          split_ifs at h with hquote hslash hcontrol
          · obtain ⟨rfl, hrest⟩ := boundary_of_ascii (hquote ▸ by decide) hvalid
            obtain ⟨rfl, rfl⟩ : [] = s ∧ text = rest := by simpa using h
            exact ⟨rfl, hrest⟩
          · obtain ⟨rfl, htext⟩ := boundary_of_ascii (hslash ▸ by decide) hvalid
            cases hescape : escapeSequence text with
            | none => simp [hescape] at h
            | some r =>
                obtain ⟨piece, after⟩ := r
                obtain ⟨hpiece, hafter⟩ := reads_escapeSequence text piece after htext hescape
                simp only [hescape, Option.map_eq_some_iff] at h
                obtain ⟨⟨body, last⟩, hbody, h⟩ := h
                obtain ⟨rfl, rfl⟩ : piece ++ body = s ∧ last = rest := by simpa using h
                obtain ⟨hs, hrest⟩ := ih hafter hbody
                exact ⟨Valid.append hpiece hs, hrest⟩
          · obtain ⟨⟨body, last⟩, hbody, h⟩ := Option.map_eq_some_iff.mp h
            obtain ⟨rfl, rfl⟩ : c :: body = s ∧ last = rest := by simpa using h
            change (step p c).bind _ = _ at hvalid
            cases hstep : step p c with
            | none =>
                rw [hstep] at hvalid
                cases hvalid
            | some q =>
                rw [hstep] at hvalid
                obtain ⟨hs, hrest⟩ := ih hvalid hbody
                refine ⟨?_, hrest⟩
                change (step p c).bind _ = _
                rw [hstep]
                exact hs

theorem reads_string : Reads Valid string := fun _ _ _ hvalid h => stringBody_valid hvalid h

end Strings

section Numbers

theorem valid_dropDigits {text : Bytes} (h : Valid text) : Valid (text.dropWhile isDigit) :=
  h.dropWhile (forall_byte (by decide +kernel))

theorem valid_skipBlanks {text : Bytes} (h : Valid text) : Valid (skipBlanks text) :=
  h.dropWhile (forall_byte (by decide +kernel))

theorem reads_fractionPart : Reads (fun _ => True) fractionPart := by
  intro text digits rest hvalid h
  unfold fractionPart at h
  split at h
  · split_ifs at h with hdigits
    obtain ⟨-, rfl⟩ := Prod.mk.inj (Option.some.inj h)
    exact ⟨trivial, valid_dropDigits ((valid_cons_ascii (by decide)).mp hvalid)⟩
  · obtain ⟨-, rfl⟩ := Prod.mk.inj (Option.some.inj h)
    exact ⟨trivial, hvalid⟩

theorem valid_exponentSign {text : Bytes} (h : Valid text) : Valid (exponentSign text).2 := by
  unfold exponentSign
  split
  · exact (valid_cons_ascii (by decide)).mp h
  · exact (valid_cons_ascii (by decide)).mp h
  · exact h

theorem reads_exponentPart : Reads (fun _ => True) exponentPart := by
  intro text exponent rest hvalid h
  cases text with
  | nil =>
      obtain ⟨-, rfl⟩ := Prod.mk.inj (Option.some.inj h)
      exact ⟨trivial, hvalid⟩
  | cons c text =>
      simp only [exponentPart] at h
      split_ifs at h with hc hdigits
      · have hascii : c < 0x80 := by rcases hc with rfl | rfl <;> decide
        obtain ⟨-, rfl⟩ := Prod.mk.inj (Option.some.inj h)
        exact ⟨trivial, valid_dropDigits
          (valid_exponentSign ((valid_cons_ascii hascii).mp hvalid))⟩
      · obtain ⟨-, rfl⟩ := Prod.mk.inj (Option.some.inj h)
        exact ⟨trivial, hvalid⟩

theorem valid_minus {text : Bytes} (h : Valid text) : Valid (minus text).2 := by
  unfold minus
  split
  · exact (valid_cons_ascii (by decide)).mp h
  · exact h

theorem reads_number : Reads (fun _ => True) number := by
  intro text n rest hvalid h
  simp only [number] at h
  split_ifs at h with hwhole
  have hafter := valid_dropDigits (valid_minus hvalid)
  cases hfraction : fractionPart ((minus text).2.dropWhile isDigit) with
  | none => simp [hfraction] at h
  | some r =>
      obtain ⟨fraction, after⟩ := r
      have hvalid := (reads_fractionPart _ fraction after hafter hfraction).2
      simp only [hfraction, Option.map_eq_some_iff] at h
      obtain ⟨⟨exponent, last⟩, hexponent, h⟩ := h
      obtain ⟨-, rfl⟩ := Prod.mk.inj h
      exact ⟨trivial, (reads_exponentPart _ exponent last hvalid hexponent).2⟩

end Numbers

section Values

theorem reads_commaList {α : Type} {P : α → Prop} {item : Bytes → Option (α × Bytes)}
    (hitem : Reads P item) {close : UInt8} (hclose : close < 0x80) (fuel : ℕ) :
    Reads (∀ a ∈ ·, P a) (commaList item close fuel) := by
  induction fuel with
  | zero => exact fun _ _ _ _ h => by cases h
  | succ fuel ih =>
      intro text items rest hvalid h
      unfold commaList at h
      cases hfirst : item text with
      | none => simp [hfirst] at h
      | some r =>
          obtain ⟨a, after⟩ := r
          obtain ⟨ha, hafter⟩ := hitem text a after hvalid hfirst
          have hblanks := valid_skipBlanks hafter
          simp only [hfirst] at h
          cases hskip : skipBlanks after with
          | nil => simp [hskip] at h
          | cons c last =>
              rw [hskip] at hblanks
              simp only [hskip] at h
              split_ifs at h with hcomma hend
              · obtain ⟨⟨others, final⟩, hothers, h⟩ := Option.map_eq_some_iff.mp h
                obtain ⟨rfl, rfl⟩ : a :: others = items ∧ final = rest := by simpa using h
                obtain ⟨hall, hfinal⟩ :=
                  ih last others final ((valid_cons_ascii (hcomma ▸ by decide)).mp hblanks) hothers
                exact ⟨List.forall_mem_cons.mpr ⟨ha, hall⟩, hfinal⟩
              · obtain ⟨rfl, rfl⟩ : [a] = items ∧ last = rest := by simpa using h
                exact ⟨List.forall_mem_cons.mpr ⟨ha, fun _ hm => absurd hm List.not_mem_nil⟩,
                  (valid_cons_ascii (hend ▸ hclose)).mp hblanks⟩

theorem reads_sequence {α : Type} {P : α → Prop} {item : Bytes → Option (α × Bytes)}
    (hitem : Reads P item) {close : UInt8} (hclose : close < 0x80) :
    Reads (∀ a ∈ ·, P a) (sequence item close) := by
  intro text items rest hvalid h
  unfold sequence at h
  have hblanks := valid_skipBlanks hvalid
  cases hskip : skipBlanks text with
  | nil => simp [hskip] at h
  | cons c after =>
      rw [hskip] at hblanks
      simp only [hskip] at h
      split_ifs at h with hend
      · obtain ⟨rfl, rfl⟩ := Prod.mk.inj (Option.some.inj h)
        exact ⟨fun _ hm => absurd hm List.not_mem_nil,
          (valid_cons_ascii (hend ▸ hclose)).mp hblanks⟩
      · exact reads_commaList hitem hclose _ (c :: after) items rest hblanks h

theorem reads_member {P : Json → Prop} {item : Bytes → Option (Json × Bytes)}
    (hitem : Reads P item) : Reads (fun m => Valid m.1 ∧ P m.2) (member item) := by
  intro text m rest hvalid h
  unfold member at h
  have hblanks := valid_skipBlanks hvalid
  split at h
  · rename_i after hskip
    rw [hskip, valid_cons_ascii (by decide)] at hblanks
    cases hname : string after with
    | none => simp [hname] at h
    | some r =>
        obtain ⟨name, colon⟩ := r
        obtain ⟨hvalidName, hcolon⟩ := reads_string after name colon hblanks hname
        have hblanks' := valid_skipBlanks hcolon
        simp only [hname] at h
        split at h
        · rename_i last hskip'
          rw [hskip', valid_cons_ascii (by decide)] at hblanks'
          obtain ⟨⟨j, final⟩, hj, h⟩ := Option.map_eq_some_iff.mp h
          obtain ⟨rfl, rfl⟩ := Prod.mk.inj h
          obtain ⟨hP, hfinal⟩ := hitem last j final hblanks' hj
          exact ⟨⟨hvalidName, hP⟩, hfinal⟩
        · cases h
  · cases h

/-- Every string of the value, names included, is valid. -/
def ValidStrings (j : Json) : Prop := Json.All Valid (fun _ => True) j

theorem reads_scalar : Reads ValidStrings scalar := by
  have hliteral {word text rest : Bytes} (hword : word.all (· < 0x80)) (hvalid : Valid text)
      (hstart : word <+: text) (hrest : text.drop word.length = rest) : Valid rest := by
    obtain ⟨after, rfl⟩ := hstart
    rw [List.drop_left] at hrest
    have hbytes : ∀ b ∈ word, b < 0x80 := fun b hb =>
      of_decide_eq_true (List.all_eq_true.mp hword b hb)
    exact hrest ▸ Valid.of_ascii_append hbytes hvalid
  intro text j rest hvalid h
  unfold scalar at h
  split_ifs at h with htrue hfalse hnull
  · obtain ⟨rfl, hrest⟩ := Prod.mk.inj (Option.some.inj h)
    exact ⟨trivial, hliteral (by decide) hvalid htrue hrest⟩
  · obtain ⟨rfl, hrest⟩ := Prod.mk.inj (Option.some.inj h)
    exact ⟨trivial, hliteral (by decide) hvalid hfalse hrest⟩
  · obtain ⟨rfl, hrest⟩ := Prod.mk.inj (Option.some.inj h)
    exact ⟨trivial, hliteral (by decide) hvalid hnull hrest⟩
  · obtain ⟨⟨n, after⟩, hn, h⟩ := Option.map_eq_some_iff.mp h
    obtain ⟨rfl, rfl⟩ := Prod.mk.inj h
    exact ⟨trivial, (reads_number text n after hvalid hn).2⟩

theorem reads_value (depth : ℕ) : Reads ValidStrings (value depth) := by
  induction depth with
  | zero => exact fun _ _ _ _ h => by cases h
  | succ depth ih =>
      intro text j rest hvalid h
      unfold value at h
      have hblanks := valid_skipBlanks hvalid
      cases hskip : skipBlanks text with
      | nil => simp [hskip] at h
      | cons c after =>
          rw [hskip] at hblanks
          simp only [hskip] at h
          split_ifs at h with hobject harray hstring
          · rw [valid_cons_ascii (hobject ▸ by decide)] at hblanks
            obtain ⟨⟨members, last⟩, hmembers, h⟩ := Option.map_eq_some_iff.mp h
            obtain ⟨rfl, rfl⟩ := Prod.mk.inj h
            obtain ⟨hall, hlast⟩ :=
              reads_sequence (reads_member ih) (by decide) after members last hblanks hmembers
            exact ⟨Json.allMembers_iff.mpr hall, hlast⟩
          · rw [valid_cons_ascii (harray ▸ by decide)] at hblanks
            obtain ⟨⟨items, last⟩, hitems, h⟩ := Option.map_eq_some_iff.mp h
            obtain ⟨rfl, rfl⟩ := Prod.mk.inj h
            obtain ⟨hall, hlast⟩ :=
              reads_sequence ih (by decide) after items last hblanks hitems
            exact ⟨Json.allItems_iff.mpr hall, hlast⟩
          · rw [valid_cons_ascii (hstring ▸ by decide)] at hblanks
            obtain ⟨⟨s, last⟩, hs, h⟩ := Option.map_eq_some_iff.mp h
            obtain ⟨rfl, rfl⟩ := Prod.mk.inj h
            exact reads_string after s last hblanks hs
          · exact reads_scalar (c :: after) j rest hblanks h

/-- A valid JSON text denotes valid strings. -/
theorem validStrings_parse {text : Bytes} {j : Json} (hvalid : Valid text)
    (h : Json.parse text = some j) : ValidStrings j := by
  unfold Json.parse at h
  cases hvalue : value (text.length + 1) text with
  | none => simp [hvalue] at h
  | some r =>
      obtain ⟨j', rest⟩ := r
      simp only [hvalue] at h
      split_ifs at h with hrest
      obtain rfl := Option.some.inj h
      exact (reads_value _ text j' rest hvalid hvalue).1

end Values

end JsonText

end LivekitServer

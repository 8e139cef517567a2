import LivekitServer.JsonUtf8
import LivekitServer.TokenLocale
import Mathlib.Data.List.DropRight

/-!
# Escaped strings before a scanner

A scanner inside a JSON string keeps one bit, whether the next byte is escaped. An escaped text
takes this bit back to where it was and holds no control character, and it reads back as the
string. A locale that cuts two digits apart spoils this for the control characters from `0x10` on,
and for nothing else.
-/

namespace LivekitServer

/-- Texts put together from pieces that show where they end are equal only piece by piece. -/
theorem flatMap_injective {α β : Type} {piece : α → List β} (hne : ∀ a, piece a ≠ [])
    (h : ∀ a b x y, piece a ++ x = piece b ++ y → a = b) :
    Function.Injective fun xs : List α => xs.flatMap piece := by
  intro xs ys heq
  induction xs generalizing ys with
  | nil =>
      cases ys with
      | nil => rfl
      | cons b ys =>
          simp only [List.flatMap_nil, List.flatMap_cons] at heq
          exact absurd (List.append_eq_nil_iff.mp heq.symm).1 (hne b)
  | cons a xs ih =>
      cases ys with
      | nil =>
          simp only [List.flatMap_nil, List.flatMap_cons] at heq
          exact absurd (List.append_eq_nil_iff.mp heq).1 (hne a)
      | cons b ys =>
          simp only [List.flatMap_cons] at heq
          obtain rfl := h a b _ _ heq
          rw [ih (List.append_cancel_left heq)]

namespace AccessToken
open Json JsonText

section Scanning

/-- The length of the run of backslashes at the end of a text. -/
def backslashRun (text : Bytes) : ℕ := (text.rtakeWhile (· = 0x5c)).length

/-- One byte inside a string. The state says whether the byte is escaped; a quote that is not
leaves the string. -/
def scanByte (escaped : Bool) (b : UInt8) : Option Bool :=
  if escaped then some false else if b = 0x22 then none else some (b = 0x5c)

/-- The state of a scanner after a text, none where it has left the string. -/
def scan (text : Bytes) : Option Bool := text.foldlM scanByte false

theorem scan_append_singleton (text : Bytes) (b : UInt8) :
    scan (text ++ [b]) = (scan text).bind fun escaped => scanByte escaped b := by
  unfold scan
  rw [List.foldlM_append]
  cases text.foldlM scanByte false with
  | none => rfl
  | some escaped => exact bind_pure (scanByte escaped b)

theorem backslashRun_append_singleton (text : Bytes) (b : UInt8) :
    backslashRun (text ++ [b]) = if b = 0x5c then backslashRun text + 1 else 0 := by
  unfold backslashRun
  split_ifs with hb
  · rw [List.rtakeWhile_concat_pos _ _ _ (by simpa using hb), List.length_append]
    rfl
  · rw [List.rtakeWhile_concat_neg _ _ _ (by simpa using hb)]
    rfl

/-- The scanner counts the backslashes before it modulo two. -/
theorem scan_run {text : Bytes} {escaped : Bool} (h : scan text = some escaped) :
    backslashRun text % 2 = 1 ↔ escaped = true := by
  induction text using List.reverseRecOn generalizing escaped with
  | nil =>
      obtain rfl : false = escaped := Option.some.inj h
      decide
  | append_singleton text b ih =>
      rw [scan_append_singleton] at h
      obtain ⟨before, hbefore, hstep⟩ := Option.bind_eq_some_iff.mp h
      have hrun := ih hbefore
      rw [backslashRun_append_singleton]
      unfold scanByte at hstep
      split_ifs at hstep with hescaped hquote
      · obtain rfl := Option.some.inj hstep
        have hodd := hrun.mpr hescaped
        split_ifs
        · refine iff_of_false ?_ id
          omega
        · simp
      · obtain rfl := Option.some.inj hstep
        have heven : ¬backslashRun text % 2 = 1 := fun hodd => hescaped (hrun.mp hodd)
        by_cases hb : b = 0x5c
        · simp only [hb, if_true, decide_true, iff_true]
          omega
        · simp [hb]

/-- A quote that a scanner passes is escaped. -/
theorem scan_quote {front back : Bytes} {escaped : Bool}
    (h : scan (front ++ 0x22 :: back) = some escaped) : backslashRun front % 2 = 1 := by
  unfold scan at h
  rw [List.foldlM_append] at h
  obtain ⟨before, hbefore, h⟩ := Option.bind_eq_some_iff.mp h
  rw [List.foldlM_cons] at h
  obtain ⟨after, hafter, -⟩ := Option.bind_eq_some_iff.mp h
  have hrun : backslashRun front % 2 = 1 ↔ before = true := scan_run hbefore
  apply hrun.mpr
  cases before with
  | true => rfl
  | false => cases hafter

end Scanning

/-- What a text has to be, to stand for a string between two quotes: no control characters, no
quote but after an odd run of backslashes, no such run at the end, and a reader that takes it for
the string and stops at the quote behind it. -/
structure Encloses (text v : Bytes) : Prop where
  controls : ∀ b ∈ text, ¬ b < 0x20
  quotes : ∀ front back, text = front ++ 0x22 :: back → backslashRun front % 2 = 1
  final : backslashRun text % 2 = 0
  reads : ∀ rest, JsonText.string (text ++ 0x22 :: rest) = some (v, rest)

section Classic

theorem scan_escapeByte (b : UInt8) : scan (escapeByte Locale.classic b) = some false :=
  forall_byte (P := fun b => scan (escapeByte Locale.classic b) = some false) (by decide +kernel) b

theorem scan_escapeJson (v : Bytes) : scan (escapeJson Locale.classic v) = some false := by
  induction v with
  | nil => rfl
  | cons b v ih =>
      unfold escapeJson scan at *
      rw [List.flatMap_cons, List.foldlM_append]
      have hb : (escapeByte Locale.classic b).foldlM scanByte false = some false := scan_escapeByte b
      rw [hb]
      exact ih

theorem escapeByte_controls {b c : UInt8} (h : c ∈ escapeByte Locale.classic b) : ¬ c < 0x20 := by
  have hall : ∀ b : UInt8, (escapeByte Locale.classic b).all fun c => !decide (c < 0x20) :=
    forall_byte (by decide +kernel)
  have hc := List.all_eq_true.mp (hall b) c h
  simpa using hc

theorem encloses_classic (v : Bytes) : Encloses (escapeJson Locale.classic v) v := by
  have hscan := scan_escapeJson v
  refine ⟨fun c hc => ?_, fun front back htext => ?_, ?_, fun rest => ?_⟩
  · obtain ⟨b, -, hc⟩ := List.mem_flatMap.mp hc
    exact escapeByte_controls hc
  · rw [htext] at hscan
    exact scan_quote hscan
  · have hrun := scan_run hscan
    simp only [Bool.false_eq_true, iff_false] at hrun
    omega
  · exact byteEscape_escapeByte.string_reads v rest

end Classic

section Locales

variable (loc : Locale)

theorem hexChar_injective {d e : ℕ} (hd : d < 16) (he : e < 16)
    (h : Decimal.hexChar d = Decimal.hexChar e) : d = e := by
  have hvalue := hexValue_hexChar hd
  rw [h, hexValue_hexChar he] at hvalue
  exact (Option.some.inj hvalue).symm

/-- The escape of a control character: the middle two of its four places tell whether the
character is wide. -/
theorem insertHex_cases {n : ℕ} (h : n < 32) :
    ∃ tens sixteens, loc.insertHex 4 0x30 n =
        [0x30, tens, sixteens, Decimal.hexChar (n % 16)] ∧
      (n < 16 ∧ tens = 0x30 ∧ sixteens = 0x30 ∨ 16 ≤ n ∧
        (loc.separates 2 = false ∧ tens = 0x30 ∧ sixteens = 0x31 ∨
          loc.separates 2 = true ∧ tens = 0x31 ∧ sixteens = loc.thousandsSep)) := by
  have hclassic := insertHex_control h
  by_cases hwide : 16 ≤ n
  · have hone : Decimal.hexChar (n / 16) = 0x31 := by
      have hdiv : n / 16 = 1 := by omega
      rw [hdiv]
      rfl
    cases hs : loc.separates 2 with
    | false =>
        have heq := (loc.insertHex_eq_iff h).mpr fun hs' => by rw [hs] at hs'; cases hs'
        rw [heq, hclassic, hone]
        exact ⟨_, _, rfl, Or.inr ⟨hwide, Or.inl ⟨rfl, rfl, rfl⟩⟩⟩
    | true =>
        have hhex : Decimal.hex n = [0x31, Decimal.hexChar (n % 16)] := by
          have hall : ∀ d : Fin 16, Decimal.hex (16 + d) = [0x31, Decimal.hexChar d] := by decide
          have hn : n = 16 + n % 16 := by omega
          have hd := hall ⟨n % 16, by omega⟩
          rw [← hn] at hd
          exact hd
        refine ⟨_, _, ?_, Or.inr ⟨hwide, Or.inr ⟨rfl, rfl, rfl⟩⟩⟩
        rw [Locale.insertHex, hhex, loc.group_pair hs]
        rfl
  · have heq := (loc.insertHex_eq_iff h).mpr fun _ => hwide
    have hzero : Decimal.hexChar (n / 16) = 0x30 := by
      have hdiv : n / 16 = 0 := by omega
      rw [hdiv]
      rfl
    rw [heq, hclassic, hzero]
    exact ⟨_, _, rfl, Or.inl ⟨by omega, rfl, rfl⟩⟩

theorem escapeByte_of_control {b : UInt8} (h : b < 0x20)
    (hshort : b ∉ [0x08, 0x09, 0x0a, 0x0c, 0x0d]) :
    escapeByte loc b = 0x5c :: 0x75 :: loc.insertHex 4 0x30 b.toNat := by
  simp only [List.mem_cons, List.not_mem_nil, or_false, not_or] at hshort
  obtain ⟨hb, ht, hn, hf, hr⟩ := hshort
  have hquote : b ≠ 0x22 := by
    rintro rfl
    exact absurd h (by decide)
  have hback : b ≠ 0x5c := by
    rintro rfl
    exact absurd h (by decide)
  simp only [escapeByte, if_neg hquote, if_neg hback, if_neg hb, if_neg hf, if_neg hn,
    if_neg hr, if_neg ht, if_pos h]
  rfl

theorem escapeByte_of_wide {b : UInt8} (h : WideControl b) :
    escapeByte loc b = 0x5c :: 0x75 :: loc.insertHex 4 0x30 b.toNat := by
  have hall : ∀ b : UInt8, WideControl b → b < 0x20 ∧ b ∉ [0x08, 0x09, 0x0a, 0x0c, 0x0d] :=
    forall_byte (by decide +kernel)
  obtain ⟨hlow, hshort⟩ := hall b h
  exact escapeByte_of_control loc hlow hshort

/-- The byte that an escape stands for, from the first six bytes of a text. -/
def firstEscaped : Bytes → Option UInt8
  | 0x5c :: 0x75 :: _ :: tens :: sixteens :: unit :: _ =>
    (hexValue unit).map fun d =>
      UInt8.ofNat (if tens = 0x31 ∨ sixteens = 0x31 then 16 + d else d)
  | 0x5c :: c :: _ => (escapeSequence [c]).bind fun piece => piece.1.head?
  | c :: _ => some c
  | [] => none

/-- The escape of a control character by its number. -/
theorem firstEscaped_control {b : UInt8} (hlow : b < 0x20)
    (hshort : b ∉ [0x08, 0x09, 0x0a, 0x0c, 0x0d]) (rest : Bytes) :
    firstEscaped (escapeByte loc b ++ rest) = some b := by
  have hn : b.toNat < 32 := byte_lt_iff.mp hlow
  obtain ⟨tens, sixteens, hinsert, hcases⟩ := insertHex_cases loc hn
  have hd : b.toNat % 16 < 16 := Nat.mod_lt _ (by norm_num)
  rw [escapeByte_of_control loc hlow hshort, hinsert]
  simp only [List.cons_append, firstEscaped, hexValue_hexChar hd, Option.map_some,
    Option.some.injEq]
  apply byte_eq_of_toNat
  rw [UInt8.toNat_ofNat']
  rcases hcases with ⟨hlt, rfl, rfl⟩ | ⟨hge, ⟨-, rfl, rfl⟩ | ⟨-, rfl, rfl⟩⟩
  · rw [if_neg (by decide)]
    omega
  · rw [if_pos (by decide)]
    omega
  · rw [if_pos (Or.inl rfl)]
    omega

theorem firstEscaped_cons {c : UInt8} (h : c ≠ 0x5c) (rest : Bytes) :
    firstEscaped (c :: rest) = some c := by
  unfold firstEscaped
  split
  · rename_i heq
    exact absurd (List.cons.inj heq).1 h
  · rename_i heq
    exact absurd (List.cons.inj heq).1 h
  · rename_i heq
    rw [(List.cons.inj heq).1]
  · rename_i heq
    cases heq

theorem firstEscaped_escapeByte (b : UInt8) (rest : Bytes) :
    firstEscaped (escapeByte loc b ++ rest) = some b := by
  by_cases hquote : b = 0x22
  · subst hquote
    rfl
  by_cases hback : b = 0x5c
  · subst hback
    rfl
  by_cases hlow : b < 0x20
  · by_cases hshort : b ∈ [0x08, 0x09, 0x0a, 0x0c, 0x0d]
    · simp only [List.mem_cons, List.not_mem_nil, or_false] at hshort
      rcases hshort with rfl | rfl | rfl | rfl | rfl
      · rfl
      · rfl
      · rfl
      · rfl
      · rfl
    · exact firstEscaped_control loc hlow hshort rest
  · rw [escapeByte_plain loc ⟨hlow, hquote, hback⟩, List.singleton_append]
    exact firstEscaped_cons hback rest

/-- In every locale the escaped text determines the string. -/
theorem escapeJson_injective : Function.Injective (escapeJson loc) := by
  apply flatMap_injective
  · intro b
    unfold escapeByte
    split_ifs <;> simp [ascii]
  · intro a b x y h
    have ha := firstEscaped_escapeByte loc a x
    rw [h, firstEscaped_escapeByte loc b y] at ha
    exact (Option.some.inj ha).symm

/-- A reader takes what stands before a wide control character for itself. -/
theorem stringBody_front (front rest : Bytes) (fuel : ℕ) :
    stringBody (front.length + fuel) (escapeJson Locale.classic front ++ rest) =
      (stringBody fuel rest).map fun r => (front ++ r.1, r.2) := by
  induction front with
  | nil =>
      have hnil : escapeJson Locale.classic [] ++ rest = rest := rfl
      rw [List.length_nil, Nat.zero_add, hnil]
      cases stringBody fuel rest <;> rfl
  | cons b front ih =>
      have hfuel : (b :: front).length + fuel = front.length + fuel + 1 := by
        rw [List.length_cons]
        omega
      unfold escapeJson at *
      rw [hfuel, List.flatMap_cons, List.append_assoc, byteEscape_escapeByte.read, ih, Option.map_map]
      rfl

/-- Two digits cut apart are no escape of a control character, whatever stands between them. -/
theorem unicodeEscape_cut {d : ℕ} (hd : d < 16) {sep : UInt8} {rest piece after : Bytes}
    (h : unicodeEscape ([0x30, 0x31, sep, Decimal.hexChar d] ++ rest) = some (piece, after)) :
    ∃ first second, piece = [first, second] ∧ ¬ first < 0x20 := by
  have hzero : hexValue 0x30 = some 0 := by decide
  have hone : hexValue 0x31 = some 1 := by decide
  cases hsep : hexValue sep with
  | none =>
      have hunit : codeUnit ([0x30, 0x31, sep, Decimal.hexChar d] ++ rest) = none := by
        simp only [List.cons_append, codeUnit, hzero, hone, hsep]
      simp only [unicodeEscape, hunit] at h
      cases h
  | some s =>
      have hs : s < 16 := (hexValue_some hsep).2
      have hunit : codeUnit ([0x30, 0x31, sep, Decimal.hexChar d] ++ rest) =
          some (((0 * 16 + 1) * 16 + s) * 16 + d, rest) := by
        simp only [List.cons_append, List.nil_append, codeUnit, hzero, hone, hsep,
          hexValue_hexChar hd]
      simp only [unicodeEscape, hunit] at h
      rw [if_neg (by omega), if_neg (by omega), Utf8.encode, if_neg (by omega),
        if_pos (by omega)] at h
      obtain ⟨rfl, -⟩ := Prod.mk.inj (Option.some.inj h)
      refine ⟨_, _, rfl, ?_⟩
      rw [byte_lt_iff, UInt8.toNat_ofNat']
      change ¬ _ < 32
      omega

/-- A wide control character that is cut apart is not read back. -/
theorem stringBody_wide {b : UInt8} (hb : WideControl b) (hs : loc.separates 2 = true)
    {fuel : ℕ} {rest read after : Bytes}
    (h : stringBody fuel (escapeByte loc b ++ rest) = some (read, after)) : read.head? ≠ some b := by
  have hrange : ∀ b : UInt8, WideControl b → 16 ≤ b.toNat ∧ b.toNat < 32 ∧ b < 0x20 :=
    forall_byte (by decide +kernel)
  obtain ⟨hge, hlt, hlow⟩ := hrange b hb
  obtain ⟨tens, sixteens, hinsert, hcases⟩ := insertHex_cases loc hlt
  have hd : b.toNat % 16 < 16 := Nat.mod_lt _ (by norm_num)
  rcases hcases with ⟨hnarrow, -⟩ | ⟨-, ⟨hs', -⟩ | ⟨-, rfl, rfl⟩⟩
  · omega
  · rw [hs] at hs'
    cases hs'
  · cases fuel with
    | zero => cases h
    | succ fuel =>
        have hquote : (0x5c : UInt8) ≠ 0x22 := by decide
        rw [escapeByte_of_wide loc hb, hinsert, List.cons_append, stringBody, if_neg hquote,
          if_pos rfl] at h
        have hsequence : escapeSequence
            (0x75 :: [0x30, 0x31, loc.thousandsSep, Decimal.hexChar (b.toNat % 16)] ++ rest) =
            unicodeEscape ([0x30, 0x31, loc.thousandsSep, Decimal.hexChar (b.toNat % 16)] ++ rest) :=
          rfl
        rw [hsequence] at h
        cases hunicode : unicodeEscape
            ([0x30, 0x31, loc.thousandsSep, Decimal.hexChar (b.toNat % 16)] ++ rest) with
        | none =>
            rw [hunicode] at h
            cases h
        | some r =>
            obtain ⟨piece, next⟩ := r
            obtain ⟨first, second, rfl, hfirst⟩ := unicodeEscape_cut hd hunicode
            rw [hunicode] at h
            obtain ⟨r, -, hr⟩ := Option.map_eq_some_iff.mp h
            obtain ⟨rfl, -⟩ := Prod.mk.inj hr
            simp only [List.cons_append, List.head?_cons, ne_eq, Option.some.injEq]
            rintro rfl
            exact hfirst hlow

/-- The first wide control character of a string. -/
theorem exists_firstWide {v : Bytes} {c : UInt8} (hc : c ∈ v) (hwide : WideControl c) :
    ∃ front b back, v = front ++ b :: back ∧ WideControl b ∧ ∀ a ∈ front, ¬ WideControl a := by
  have hfound : (v.find? fun b => decide (WideControl b)).isSome = true :=
    List.find?_isSome.mpr ⟨c, hc, decide_eq_true hwide⟩
  obtain ⟨b, hfind⟩ := Option.isSome_iff_exists.mp hfound
  obtain ⟨hb, front, back, rfl, hfront⟩ := List.find?_eq_some_iff_append.mp hfind
  refine ⟨front, b, back, rfl, of_decide_eq_true hb, ?_⟩
  intro a ha
  simpa using hfront a ha

/-- A reader stops being right at the first wide control character that is cut apart. -/
theorem not_encloses_of_wide (hs : loc.separates 2 = true) {front back : Bytes} {b : UInt8}
    (hb : WideControl b) (hfront : ∀ a ∈ front, ¬ WideControl a) :
    ¬Encloses (escapeJson loc (front ++ b :: back)) (front ++ b :: back) := by
  intro h
  have hread := h.reads []
  have hclassic : escapeJson loc front = escapeJson Locale.classic front :=
    (escapeJson_eq_iff loc front).mpr fun _ => hfront
  have htext : escapeJson loc (front ++ b :: back) ++ [0x22] =
      escapeJson Locale.classic front ++ (escapeByte loc b ++ (escapeJson loc back ++ [0x22])) := by
    rw [← hclassic]
    simp [escapeJson]
  have hlength := byteEscape_escapeByte.length_le front
  rw [JsonText.string, htext] at hread
  obtain ⟨fuel, hfuel⟩ := Nat.exists_eq_add_of_le (show front.length ≤ (escapeJson
    Locale.classic front ++ (escapeByte loc b ++ (escapeJson loc back ++ [0x22]))).length + 1 by
      rw [List.length_append, escapeJson]
      omega)
  rw [hfuel, stringBody_front] at hread
  obtain ⟨⟨read, after⟩, hbody, heq⟩ := Option.map_eq_some_iff.mp hread
  obtain rfl := List.append_cancel_left (Prod.mk.inj heq).1
  exact stringBody_wide loc hb hs hbody rfl

/-- In a locale that keeps two digits together the escaped text encloses the string, and in any
other one it does exactly when the string has no wide control character. It determines the string
in every locale. -/
theorem escapeJson_encloses_iff :
    (∀ v, Encloses (escapeJson loc v) v ↔
      (loc.separates 2 = true → ∀ b ∈ v, ¬ WideControl b)) ∧
    Function.Injective (escapeJson loc) := by
  refine ⟨fun v => ?_, escapeJson_injective loc⟩
  constructor
  · intro h hs c hc hwide
    obtain ⟨front, b, back, rfl, hb, hfront⟩ := exists_firstWide hc hwide
    exact not_encloses_of_wide loc hs hb hfront h
  · intro h
    rw [(escapeJson_eq_iff loc v).mpr h]
    exact encloses_classic v

/-- A locale with groups of one digit. -/
def singleDigits : Locale := ⟨[1], 0x2c⟩

theorem escapeJson_singleDigits :
    escapeJson singleDigits [0x1f] = ascii "\\u01,f" ∧
      ¬Encloses (escapeJson singleDigits [0x1f]) [0x1f] := by
  refine ⟨by decide, fun h => ?_⟩
  have hread := h.reads []
  revert hread
  decide

end Locales

end AccessToken
end LivekitServer

import LivekitServer.Bytes

/-!
# UTF-8

A decoder walks a byte string and stands between characters or inside one. A byte string is
valid when the walk ends between characters. Texts built by replacing ASCII bytes with ASCII
strings stay valid, whatever multi-byte characters stand between the replaced bytes.
-/

namespace LivekitServer.Utf8

/-- The bytes the next continuation byte is drawn from. -/
inductive Tail
  | any
  | fromA0
  | upTo9F
  | from90
  | upTo8F
  deriving DecidableEq

def Tail.low : Tail → UInt8
  | .fromA0 => 0xa0
  | .from90 => 0x90
  | _ => 0x80

def Tail.high : Tail → UInt8
  | .upTo9F => 0x9f
  | .upTo8F => 0x8f
  | _ => 0xbf

/-- Between characters, or owing one continuation byte from `tail` and then `more` others. -/
inductive Position
  | boundary
  | inside (more : ℕ) (tail : Tail)
  deriving DecidableEq

def lead (b : UInt8) : Option Position :=
  if b < 0x80 then some .boundary
  else if b < 0xc2 then none
  else if b < 0xe0 then some (.inside 0 .any)
  else if b = 0xe0 then some (.inside 1 .fromA0)
  else if b = 0xed then some (.inside 1 .upTo9F)
  else if b < 0xf0 then some (.inside 1 .any)
  else if b = 0xf0 then some (.inside 2 .from90)
  else if b < 0xf4 then some (.inside 2 .any)
  else if b = 0xf4 then some (.inside 2 .upTo8F)
  else none

def step : Position → UInt8 → Option Position
  | .boundary, b => lead b
  | .inside more tail, b =>
    if tail.low ≤ b ∧ b ≤ tail.high then
      match more with
      | 0 => some .boundary
      | owed + 1 => some (.inside owed .any)
    else none

def run : Position → Bytes → Option Position
  | p, [] => some p
  | p, b :: text => (step p b).bind fun q => run q text

def Valid (text : Bytes) : Prop := run .boundary text = some .boundary

instance (text : Bytes) : Decidable (Valid text) :=
  inferInstanceAs (Decidable (run .boundary text = some .boundary))

/-- The encoding of a Unicode scalar value. -/
def encode (scalar : ℕ) : Bytes :=
  if scalar < 0x80 then [UInt8.ofNat scalar]
  else if scalar < 0x800 then
    [UInt8.ofNat (0xc0 + scalar / 0x40), UInt8.ofNat (0x80 + scalar % 0x40)]
  else if scalar < 0x10000 then
    [UInt8.ofNat (0xe0 + scalar / 0x1000), UInt8.ofNat (0x80 + scalar / 0x40 % 0x40),
      UInt8.ofNat (0x80 + scalar % 0x40)]
  else
    [UInt8.ofNat (0xf0 + scalar / 0x40000), UInt8.ofNat (0x80 + scalar / 0x1000 % 0x40),
      UInt8.ofNat (0x80 + scalar / 0x40 % 0x40), UInt8.ofNat (0x80 + scalar % 0x40)]

theorem run_append (p : Position) (text rest : Bytes) :
    run p (text ++ rest) = (run p text).bind fun q => run q rest := by
  induction text generalizing p with
  | nil => rfl
  | cons b text ih =>
      cases hs : step p b with
      | none => simp [run, hs]
      | some q => simp [run, hs, ih]

@[simp] theorem valid_nil : Valid [] := rfl

theorem Valid.append {text rest : Bytes} (ht : Valid text) (hr : Valid rest) :
    Valid (text ++ rest) := by
  unfold Valid at *
  rw [run_append, ht]
  exact hr

theorem step_ascii {b : UInt8} (hb : b < 0x80) : step .boundary b = some .boundary := by
  simp only [step, lead, if_pos hb]

theorem step_inside_ascii {b : UInt8} (hb : b < 0x80) (more : ℕ) (tail : Tail) :
    step (.inside more tail) b = none := by
  have hlow : 0x80 ≤ tail.low := by cases tail <;> decide
  have hout : ¬ (tail.low ≤ b ∧ b ≤ tail.high) := by
    rintro ⟨hge, -⟩
    rw [byte_le_iff] at hlow hge
    rw [byte_lt_iff] at hb
    omega
  simp only [step, if_neg hout]

/-- No ASCII byte stands inside a character. -/
theorem Valid.of_append_ascii {text rest : Bytes} {b : UInt8} (hb : b < 0x80)
    (h : Valid (text ++ b :: rest)) : Valid text := by
  unfold Valid at *
  rw [run_append] at h
  cases hrun : run .boundary text with
  | none =>
      rw [hrun] at h
      cases h
  | some p =>
      cases p with
      | boundary => rfl
      | inside more tail =>
          rw [hrun] at h
          change (step (.inside more tail) b).bind _ = _ at h
          rw [step_inside_ascii hb] at h
          cases h

/-- The part before the first NUL. -/
theorem Valid.takeWhile_ne_zero {text : Bytes} (h : Valid text) :
    Valid (text.takeWhile (· ≠ 0)) := by
  rw [← List.takeWhile_append_dropWhile (p := fun b => b ≠ 0) (l := text)] at h
  cases hrest : text.dropWhile (· ≠ 0) with
  | nil =>
      rw [hrest, List.append_nil] at h
      exact h
  | cons b rest =>
      have hb : b = 0 := by
        have hhead := List.head?_dropWhile_not (fun b : UInt8 => decide (b ≠ 0)) text
        rw [hrest] at hhead
        simpa using hhead
      rw [hrest, hb] at h
      exact Valid.of_append_ascii (by decide) h

theorem valid_of_ascii {text : Bytes} (h : ∀ b ∈ text, b < 0x80) : Valid text := by
  induction text with
  | nil => rfl
  | cons b text ih =>
      have hs := step_ascii (h b (List.mem_cons_self ..))
      have ht : Valid text := ih fun c hc => h c (List.mem_cons_of_mem b hc)
      unfold Valid run
      rw [hs]
      exact ht

theorem valid_ascii {text : List Char} (h : text.all (·.toNat < 0x80)) :
    Valid (LivekitServer.ascii (String.ofList text)) := by
  refine valid_of_ascii fun b hb => ?_
  rw [LivekitServer.ascii, String.toList_ofList] at hb
  obtain ⟨c, hc, rfl⟩ := List.mem_map.mp hb
  rw [byte_lt_iff, UInt8.toNat_ofNat']
  have hlt : c.toNat < 0x80 := of_decide_eq_true (List.all_eq_true.mp h c hc)
  change c.toNat % 256 < 128
  omega

/-- A rewriting of ASCII bytes into ASCII strings that leaves the other bytes alone. -/
structure AsciiRewriting (f : UInt8 → Bytes) : Prop where
  keeps : ∀ b, ¬ b < 0x80 → f b = [b]
  ascii : ∀ b, b < 0x80 → ∀ c ∈ f b, c < 0x80

theorem AsciiRewriting.run_flatMap {f : UInt8 → Bytes} (hf : AsciiRewriting f) (p : Position)
    (text : Bytes) (h : run p text = some .boundary) :
    run p (text.flatMap f) = some .boundary := by
  induction text generalizing p with
  | nil => exact h
  | cons b text ih =>
      rw [List.flatMap_cons, run_append]
      cases hs : step p b with
      | none => simp [run, hs] at h
      | some q =>
          have hq : run q text = some .boundary := by simpa [run, hs] using h
          by_cases hb : b < 0x80
          · cases p with
            | boundary =>
                have hqb : q = .boundary := by
                  rw [step_ascii hb] at hs
                  exact (Option.some.inj hs).symm
                have hv : run .boundary (f b) = some .boundary := valid_of_ascii (hf.ascii b hb)
                subst hqb
                rw [hv, Option.bind_some]
                exact ih .boundary hq
            | inside more tail => rw [step_inside_ascii hb] at hs; cases hs
          · rw [hf.keeps b hb]
            simpa [run, hs] using ih q hq

theorem AsciiRewriting.valid {f : UInt8 → Bytes} (hf : AsciiRewriting f) {text : Bytes}
    (h : Valid text) : Valid (text.flatMap f) := hf.run_flatMap .boundary text h

end LivekitServer.Utf8

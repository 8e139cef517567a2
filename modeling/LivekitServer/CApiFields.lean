import LivekitServer.AccessToken
import LivekitServer.TimeScan
import Mathlib.Data.List.TakeWhile

/-!
# Reading the fields of an options object

The C ABI takes its options as a `Struct`. A field that is missing stands for a default, and a
field of another kind is an error; `readField_ok` says when a field carries a value.
-/

namespace LivekitServer

namespace Value

def string? : Value → Option Bytes
  | .string s => some s
  | _ => none

def bool? : Value → Option Bool
  | .bool b => some b
  | _ => none

def struct? : Value → Option Fields
  | .struct fields => some fields
  | _ => none

def list? : Value → Option (List Value)
  | .list values => some values
  | _ => none

theorem string?_eq_some {v : Value} {s : Bytes} : v.string? = some s ↔ v = .string s := by
  cases v <;> simp [string?]

theorem bool?_eq_some {v : Value} {b : Bool} : v.bool? = some b ↔ v = .bool b := by
  cases v <;> simp [bool?]

end Value

namespace CApi

section Accessors

variable {α : Type} (obj : Fields) (name : String)

def has : Bool := (obj.lookup (ascii name)).isSome

/-- A missing field reads as an empty value. -/
def field : Value := (obj.lookup (ascii name)).getD .notSet

def requireKind (get : Value → Option α) (value : Value) : Outcome α :=
  match get value with
  | some a => .ok a
  | none => raise .invalidArgument (ascii "invalid C ABI field type")

/-- The value of a field of one kind, or what it stands for when it is missing. -/
def readField (missing : α) (get : Value → Option α) : Outcome α :=
  match field obj name with
  | .notSet => .ok missing
  | value => requireKind get value

def string : Outcome Bytes := readField obj name [] Value.string?

def boolean : Outcome Bool := readField obj name false Value.bool?

def object : Outcome Fields := readField obj name [] Value.struct?

def stringList : Outcome (List Bytes) := do
  let values ← readField obj name [] Value.list?
  values.mapM (requireKind Value.string?)

def stringMap : Outcome StringMap := do
  let entries ← obj.mapM fun f => (requireKind Value.string? f.2).map fun value => (f.1, value)
  return SortedMap.ofList entries

/-- `std::stoll`: the number and what follows it, or nothing when it throws. -/
def stoll (text : Bytes) : Option (ℤ × Bytes) :=
  let text := text.dropWhile Webhook.isSpace
  let negative := text.head? = some 0x2d
  let text := if negative ∨ text.head? = some 0x2b then text.tail else text
  let digits := text.takeWhile Decimal.isDigit
  let result : ℤ := if negative then -Decimal.value digits else Decimal.value digits
  if digits = [] ∨ ¬ InInt64 result then none
  else some (result, text.dropWhile Decimal.isDigit)

def integer : Outcome ℤ := do
  let text ← string obj name
  match stoll text with
  | some (result, []) => .ok result
  | _ => raise .invalidArgument (ascii "invalid integer in C ABI options")

def decodeBody : Outcome Bytes := do
  let text ← string obj name
  Crypto.base64UrlDecode text

end Accessors

/-- `NewObject`. -/
def newObject (fields : List (String × Bytes)) : Value :=
  .struct (fields.map fun f => (ascii f.1, .string f.2))

section Carrying

variable {α β : Type} {obj : Fields} {name : String}

/-- The field has the value, or it is missing and stands for the value. -/
def Carries (obj : Fields) (name : String) (missing : α) (get : Value → Option α) (a : α) : Prop :=
  field obj name = .notSet ∧ a = missing ∨ get (field obj name) = some a

/-- The field is there with a value of another kind. -/
def Wrong (obj : Fields) (name : String) (get : Value → Option α) : Prop :=
  field obj name ≠ .notSet ∧ get (field obj name) = none

/-- A result or an invalid argument. -/
def Settled (o : Outcome α) : Prop :=
  (∃ a, o = .ok a) ∨ ∃ message, o = raise .invalidArgument message

theorem settled_ok (a : α) : Settled (.ok a) := Or.inl ⟨a, rfl⟩

theorem settled_bind {o : Outcome α} {f : α → Outcome β} (h : Settled o)
    (hf : ∀ a, o = .ok a → Settled (f a)) : Settled (o >>= f) := by
  rcases h with ⟨a, rfl⟩ | ⟨message, rfl⟩
  · exact hf a rfl
  · exact Or.inr ⟨message, rfl⟩

theorem settled_map {o : Outcome α} {f : α → β} (h : Settled o) : Settled (o.map f) := by
  rcases h with ⟨a, rfl⟩ | ⟨message, rfl⟩
  · exact Or.inl ⟨f a, rfl⟩
  · exact Or.inr ⟨message, rfl⟩

theorem settled_mapM {f : α → Outcome β} (h : ∀ a, Settled (f a)) (values : List α) :
    Settled (values.mapM f) := by
  induction values with
  | nil => exact settled_ok []
  | cons v values ih =>
      rw [List.mapM_cons]
      exact settled_bind (h v) fun a _ => settled_bind ih fun as _ => settled_ok (a :: as)

theorem mapM_ok {f : α → Outcome β} {values : List α} {results : List β} :
    values.mapM f = .ok results ↔ List.Forall₂ (fun v b => f v = .ok b) values results := by
  induction values generalizing results with
  | nil => simp [pure, Except.pure, eq_comm]
  | cons v values ih =>
      rw [List.mapM_cons, bind_ok, List.forall₂_cons_left_iff]
      simp only [bind_ok, ih]
      constructor
      · rintro ⟨b, hb, bs, hbs, h⟩
        exact ⟨b, bs, hb, hbs, (Except.ok.inj h).symm⟩
      · rintro ⟨b, bs, hb, hbs, rfl⟩
        exact ⟨b, hb, bs, hbs, rfl⟩

theorem mapM_mem {f : α → Outcome β} {values : List α} {results : List β}
    (h : List.Forall₂ (fun v b => f v = .ok b) values results) {v : α} (hv : v ∈ values) :
    ∃ b, f v = .ok b := by
  induction h with
  | nil => cases hv
  | @cons _ b _ _ hb _ ih =>
      rcases List.mem_cons.mp hv with rfl | hv
      · exact ⟨b, hb⟩
      · exact ih hv

theorem requireKind_ok {get : Value → Option α} {value : Value} {a : α} :
    requireKind get value = .ok a ↔ get value = some a := by
  unfold requireKind
  cases get value <;> simp [raise]

theorem settled_requireKind (get : Value → Option α) (value : Value) :
    Settled (requireKind get value) := by
  unfold requireKind
  cases get value with
  | none => exact Or.inr ⟨_, rfl⟩
  | some a => exact settled_ok a

theorem settled_readField (missing : α) (get : Value → Option α) :
    Settled (readField obj name missing get) := by
  unfold readField
  split
  · exact settled_ok missing
  · exact settled_requireKind get _

/-- A field is read as the value that it carries. -/
theorem readField_ok {missing : α} {get : Value → Option α} (hget : get .notSet = none) {a : α} :
    readField obj name missing get = .ok a ↔ Carries obj name missing get a := by
  unfold readField Carries
  cases hfield : field obj name with
  | notSet => simp [hget, eq_comm]
  | _ => simp [requireKind_ok]

theorem Carries.not_wrong {missing : α} {get : Value → Option α} {a : α}
    (h : Carries obj name missing get a) : ¬ Wrong obj name get := by
  rintro ⟨hset, hnone⟩
  rcases h with ⟨hunset, -⟩ | hsome
  · exact hset hunset
  · rw [hsome] at hnone
    cases hnone

theorem string_ok {s : Bytes} : string obj name = .ok s ↔ Carries obj name [] Value.string? s :=
  readField_ok rfl

theorem boolean_ok {b : Bool} :
    boolean obj name = .ok b ↔ Carries obj name false Value.bool? b :=
  readField_ok rfl

theorem object_ok {fields : Fields} :
    object obj name = .ok fields ↔ Carries obj name [] Value.struct? fields :=
  readField_ok rfl

theorem stringList_ok {items : List Bytes} :
    stringList obj name = .ok items ↔
      Carries obj name [] Value.list? (items.map .string) := by
  have hitems : ∀ values : List Value, values.mapM (requireKind Value.string?) = .ok items ↔
      values = items.map .string := by
    intro values
    rw [mapM_ok]
    simp only [requireKind_ok, Value.string?_eq_some]
    rw [← List.forall₂_map_right_iff (R := (· = ·)) (f := Value.string), List.forall₂_eq_eq_eq]
  unfold stringList
  have hlist : Value.list? .notSet = none := rfl
  simp only [bind_ok, readField_ok hlist, hitems, exists_eq_right]

theorem settled_stringList : Settled (stringList obj name) :=
  settled_bind (settled_readField [] _) fun values _ =>
    settled_mapM (settled_requireKind Value.string?) values

theorem settled_stringMap : Settled (stringMap obj) :=
  settled_bind (settled_mapM (fun f => settled_map (settled_requireKind Value.string? f.2)) obj)
    fun entries _ => settled_ok (SortedMap.ofList entries)

/-- The fields of a string map, in any order. -/
theorem stringMap_ok {m : StringMap} {entries : List (Bytes × Bytes)}
    (hobj : obj = entries.map fun e => (e.1, .string e.2)) (h : entries.Perm m.entries) :
    stringMap obj = .ok m := by
  have hentries : (obj.mapM fun f =>
      (requireKind Value.string? f.2).map fun value => (f.1, value)) = .ok entries := by
    rw [mapM_ok, hobj, List.forall₂_map_left_iff, List.forall₂_same]
    exact fun e _ => rfl
  unfold stringMap
  rw [hentries]
  exact congrArg Except.ok (SortedMap.ofList_eq m h)

theorem stringMap_strings {m : StringMap} (h : stringMap obj = .ok m) {f : Bytes × Value}
    (hf : f ∈ obj) : f.2.string? ≠ none := by
  obtain ⟨entries, hentries, -⟩ := bind_ok.mp h
  obtain ⟨e, he⟩ := mapM_mem (mapM_ok.mp hentries) hf
  intro hnone
  rw [requireKind, hnone] at he
  cases he

end Carrying

section Integers
open Decimal

/-- A plain numeral is read back, to its last byte. -/
theorem stoll_signed {n : ℤ} (h : InInt64 n) : stoll (signed n) = some (n, []) := by
  have hdigits : ∀ b ∈ decimal n.natAbs, isDigit b := fun b hb => isDigit_of_mem_decimal hb
  obtain ⟨d, rest, hd⟩ := List.exists_cons_of_ne_nil (decimal_ne_nil n.natAbs)
  have hfirst : isDigit d := hdigits d (hd ▸ List.mem_cons_self)
  have hspace : Webhook.isSpace d = false := Webhook.isSpace_of_isDigit hfirst
  have htake : (decimal n.natAbs).takeWhile isDigit = decimal n.natAbs :=
    List.takeWhile_eq_self_iff.mpr hdigits
  have hdrop : (decimal n.natAbs).dropWhile isDigit = [] := List.dropWhile_eq_nil_iff.mpr hdigits
  unfold stoll signed
  by_cases hneg : n < 0
  · have hvalue : -((n.natAbs : ℤ)) = n := by omega
    have hblank : (0x2d :: decimal n.natAbs).dropWhile Webhook.isSpace = 0x2d :: decimal n.natAbs :=
      rfl
    simp only [if_pos hneg, hblank, List.head?_cons, if_true, true_or, List.tail_cons, htake, hdrop,
      value_decimal, hvalue, decimal_ne_nil, h, not_true, or_false, if_false]
  · have hvalue : (n.natAbs : ℤ) = n := by omega
    have hsign : d ≠ 0x2d ∧ d ≠ 0x2b := by
      constructor <;>
      · rintro rfl
        exact absurd hfirst (by decide)
    have hblank : (decimal n.natAbs).dropWhile Webhook.isSpace = decimal n.natAbs := by
      rw [hd, List.dropWhile_cons_of_neg (by simp [hspace])]
    have hhead : (decimal n.natAbs).head? = some d := by rw [hd]; rfl
    simp only [if_neg hneg, hblank, hhead, Option.some.injEq, hsign.1, hsign.2, or_self, if_false,
      htake, hdrop, value_decimal, hvalue, decimal_ne_nil, h, not_true]

theorem settled_integer {obj : Fields} {name : String} : Settled (integer obj name) := by
  apply settled_bind (settled_readField [] _)
  intro text _
  rcases stoll text with - | ⟨n, - | ⟨b, rest⟩⟩
  · exact Or.inr ⟨_, rfl⟩
  · exact settled_ok n
  · exact Or.inr ⟨_, rfl⟩

theorem integer_ok {obj : Fields} {name : String} {n : ℤ} :
    integer obj name = .ok n ↔
      ∃ text, Carries obj name [] Value.string? text ∧ stoll text = some (n, []) := by
  unfold integer
  simp only [bind_ok, string_ok]
  apply exists_congr
  intro text
  apply and_congr_right
  intro _
  rcases stoll text with - | ⟨k, - | ⟨b, rest⟩⟩ <;> simp [raise]

end Integers

end CApi
end LivekitServer

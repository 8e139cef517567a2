import LivekitServer.AssocList
import LivekitServer.JsonWriter
import LivekitServer.Clock

/-!
# Protobuf `Struct` values and their JSON form

A `Struct` is a map from names to values. The library only looks names up in it, so its entries
stand in a list of some order. Reading a `Struct` from JSON and printing one are services of the
protobuf runtime: `ReadsJson` and `PrintsJson` say what they do on the texts and values that the
library hands to them, up to the order of the entries and the precision of numbers.
-/

namespace LivekitServer

inductive Value
  | notSet
  | null
  | number (n : ℚ)
  | string (s : Bytes)
  | bool (b : Bool)
  | struct (fields : List (Bytes × Value))
  | list (values : List Value)

abbrev Fields := List (Bytes × Value)

namespace Value

@[elab_as_elim, induction_eliminator]
theorem induction {P : Value → Prop} (notSet : P .notSet) (null : P .null)
    (number : ∀ n, P (.number n)) (string : ∀ s, P (.string s)) (bool : ∀ b, P (.bool b))
    (struct : ∀ fields, (∀ f ∈ fields, P f.2) → P (.struct fields))
    (list : ∀ values, (∀ v ∈ values, P v) → P (.list values)) (v : Value) : P v := by
  refine @Value.rec P (fun fields => ∀ f ∈ fields, P f.2)
    (fun values => ∀ v ∈ values, P v) (fun f => P f.2) notSet null number string bool struct list ?_ ?_ ?_ ?_ ?_ v
  · intro f hf
    cases hf
  · intro head tail hh ht f hf
    rcases List.mem_cons.mp hf with rfl | hf
    · exact hh
    · exact ht f hf
  · intro v hv
    cases hv
  · intro head tail hh ht v hv
    rcases List.mem_cons.mp hv with rfl | hv
    · exact hh
    · exact ht v hv
  · intro name v hv
    exact hv

mutual

/-- A value that a `Struct` can hold: a kind is set everywhere and no map repeats a key. -/
def WellFormed : Value → Prop
  | .notSet => False
  | .struct fields => (fields.map Prod.fst).Nodup ∧ WellFormedFields fields
  | .list values => WellFormedValues values
  | _ => True

def WellFormedFields : Fields → Prop
  | [] => True
  | (_, v) :: fields => WellFormed v ∧ WellFormedFields fields

def WellFormedValues : List Value → Prop
  | [] => True
  | v :: values => WellFormed v ∧ WellFormedValues values

end

mutual

/-- Every string of the value, keys included, satisfies `S`, and every number `N`. -/
def All (S : Bytes → Prop) (N : ℚ → Prop) : Value → Prop
  | .number n => N n
  | .string s => S s
  | .struct fields => AllFields S N fields
  | .list values => AllValues S N values
  | _ => True

def AllFields (S : Bytes → Prop) (N : ℚ → Prop) : Fields → Prop
  | [] => True
  | (key, v) :: fields => (S key ∧ All S N v) ∧ AllFields S N fields

def AllValues (S : Bytes → Prop) (N : ℚ → Prop) : List Value → Prop
  | [] => True
  | v :: values => All S N v ∧ AllValues S N values

end

mutual

/-- How deep the value nests. -/
def depth : Value → ℕ
  | .struct fields => fieldsDepth fields + 1
  | .list values => valuesDepth values + 1
  | _ => 1

def fieldsDepth : Fields → ℕ
  | [] => 0
  | (_, v) :: fields => max (depth v) (fieldsDepth fields)

def valuesDepth : List Value → ℕ
  | [] => 0
  | v :: values => max (depth v) (valuesDepth values)

end

theorem depth_le_fieldsDepth {f : Bytes × Value} {fields : Fields} (h : f ∈ fields) :
    depth f.2 ≤ fieldsDepth fields := by
  induction fields with
  | nil => cases h
  | cons first fields ih =>
      rcases List.mem_cons.mp h with rfl | h
      · exact le_max_left _ _
      · exact (ih h).trans (le_max_right _ _)

theorem depth_le_valuesDepth {v : Value} {values : List Value} (h : v ∈ values) :
    depth v ≤ valuesDepth values := by
  induction values with
  | nil => cases h
  | cons first values ih =>
      rcases List.mem_cons.mp h with rfl | h
      · exact le_max_left _ _
      · exact (ih h).trans (le_max_right _ _)

theorem fieldsDepth_le {fields : Fields} {d : ℕ} (h : ∀ f ∈ fields, depth f.2 ≤ d) :
    fieldsDepth fields ≤ d := by
  induction fields with
  | nil => exact Nat.zero_le d
  | cons f fields ih =>
      obtain ⟨hf, hfields⟩ := List.forall_mem_cons.mp h
      exact max_le hf (ih hfields)

theorem valuesDepth_le {values : List Value} {d : ℕ} (h : ∀ v ∈ values, depth v ≤ d) :
    valuesDepth values ≤ d := by
  induction values with
  | nil => exact Nat.zero_le d
  | cons v values ih =>
      obtain ⟨hv, hvalues⟩ := List.forall_mem_cons.mp h
      exact max_le hv (ih hvalues)

theorem wellFormedFields_iff {fields : Fields} :
    WellFormedFields fields ↔ ∀ f ∈ fields, WellFormed f.2 := by
  induction fields with
  | nil => simp [WellFormedFields]
  | cons f fields ih => simp [WellFormedFields, ih]

theorem wellFormedValues_iff {values : List Value} :
    WellFormedValues values ↔ ∀ v ∈ values, WellFormed v := by
  induction values with
  | nil => simp [WellFormedValues]
  | cons v values ih => simp [WellFormedValues, ih]

theorem allFields_iff {S : Bytes → Prop} {N : ℚ → Prop} {fields : Fields} :
    AllFields S N fields ↔ ∀ f ∈ fields, S f.1 ∧ All S N f.2 := by
  induction fields with
  | nil => simp [AllFields]
  | cons f fields ih => simp [AllFields, ih]

theorem allValues_iff {S : Bytes → Prop} {N : ℚ → Prop} {values : List Value} :
    AllValues S N values ↔ ∀ v ∈ values, All S N v := by
  induction values with
  | nil => simp [AllValues]
  | cons v values ih => simp [AllValues, ih]

theorem All.mono {S S' : Bytes → Prop} {N N' : ℚ → Prop} (hS : ∀ s, S s → S' s)
    (hN : ∀ n, N n → N' n) {v : Value} (h : All S N v) : All S' N' v := by
  induction v with
  | notSet => trivial
  | null => trivial
  | number n => exact hN n h
  | string s => exact hS s h
  | bool b => trivial
  | struct fields ih =>
      have hf := allFields_iff.mp h
      exact allFields_iff.mpr fun f hm => ⟨hS f.1 (hf f hm).1, ih f hm (hf f hm).2⟩
  | list values ih =>
      have hv := allValues_iff.mp h
      exact allValues_iff.mpr fun v hm => ih v hm (hv v hm)

section Agreement

variable (same : Bytes → Bytes → Prop) (count : ℚ → Number → Prop)

mutual

/-- A value and a JSON value of the same kinds throughout, whose strings are related by `same`
and whose numbers by `count`. The order of the members of an object is free. -/
def Agrees : Value → Json → Prop
  | .null, .null => True
  | .number q, .number n => count q n
  | .string s, .string t => same s t
  | .bool b, .bool c => b = c
  | .struct fields, .object members => AgreesFields fields members
  | .list values, .array items => AgreesItems values items
  | _, _ => False

def AgreesFields : Fields → Members → Prop
  | [], members => members = []
  | (key, v) :: fields, members => ∃ front name item back,
      members = front ++ (name, item) :: back ∧ same key name ∧ Agrees v item ∧
        AgreesFields fields (front ++ back)

def AgreesItems : List Value → List Json → Prop
  | [], [] => True
  | v :: values, item :: items => Agrees v item ∧ AgreesItems values items
  | _, _ => False

end

variable {same count} in
theorem agrees_bool {b : Bool} {j : Json} : Agrees same count (.bool b) j ↔ j = .bool b := by
  cases j <;> simp [Agrees, eq_comm]

variable {same count} in
theorem agrees_number {q : ℚ} {j : Json} :
    Agrees same count (.number q) j ↔ ∃ n, j = .number n ∧ count q n := by
  cases j <;> simp [Agrees]

variable {same count} in
theorem agrees_string {s : Bytes} {j : Json} :
    Agrees same count (.string s) j ↔ ∃ t, j = .string t ∧ same s t := by
  cases j <;> simp [Agrees]

variable {same count} in
theorem agrees_list {values : List Value} {j : Json} :
    Agrees same count (.list values) j ↔ ∃ items, j = .array items ∧
      AgreesItems same count values items := by
  cases j <;> simp [Agrees]

variable {same count} in
theorem agrees_struct {fields : Fields} {j : Json} :
    Agrees same count (.struct fields) j ↔ ∃ members, j = .object members ∧
      AgreesFields same count fields members := by
  cases j <;> simp [Agrees]

/-- Some order of the members runs in parallel with the fields. -/
theorem agreesFields_iff {fields : Fields} {members : Members} :
    AgreesFields same count fields members ↔ ∃ matched, matched.Perm members ∧
      List.Forall₂ (fun f m => same f.1 m.1 ∧ Agrees same count f.2 m.2) fields matched := by
  induction fields generalizing members with
  | nil =>
      constructor
      · rintro rfl
        exact ⟨[], List.Perm.refl _, List.Forall₂.nil⟩
      · rintro ⟨matched, hperm, hmatched⟩
        cases hmatched
        exact hperm.nil_eq.symm
  | cons f fields ih =>
      obtain ⟨key, v⟩ := f
      constructor
      · rintro ⟨front, name, item, back, rfl, hname, hitem, hrest⟩
        obtain ⟨matched, hperm, hmatched⟩ := ih.mp hrest
        exact ⟨(name, item) :: matched, (hperm.cons _).trans List.perm_middle.symm,
          List.Forall₂.cons ⟨hname, hitem⟩ hmatched⟩
      · rintro ⟨_, hperm, hmatched⟩
        cases hmatched with
        | @cons _ m _ matched hm hmatched =>
            obtain ⟨front, back, rfl⟩ := List.append_of_mem (hperm.subset List.mem_cons_self)
            have hrest : matched.Perm (front ++ back) :=
              (List.perm_cons m).mp (hperm.trans List.perm_middle)
            exact ⟨front, m.1, m.2, back, rfl, hm.1, hm.2, ih.mpr ⟨matched, hrest, hmatched⟩⟩

theorem agreesItems_iff {values : List Value} {items : List Json} :
    AgreesItems same count values items ↔ List.Forall₂ (Agrees same count) values items := by
  induction values generalizing items with
  | nil => cases items <;> simp [AgreesItems]
  | cons v values ih => cases items <;> simp [AgreesItems, ih]

variable {same count} {same' : Bytes → Bytes → Prop} {count' : ℚ → Number → Prop}

theorem Agrees.mono (hsame : ∀ s t, same s t → same' s t)
    (hcount : ∀ q n, count q n → count' q n) {v : Value} {j : Json}
    (h : Agrees same count v j) : Agrees same' count' v j := by
  induction v generalizing j with
  | notSet => cases j <;> exact h.elim
  | null => cases j <;> trivial
  | number q =>
      cases j with
      | number n => exact hcount q n h
      | _ => exact h.elim
  | string s =>
      cases j with
      | string t => exact hsame s t h
      | _ => exact h.elim
  | bool b => cases j <;> exact h
  | struct fields ih =>
      cases j with
      | object members =>
          obtain ⟨matched, hperm, hmatched⟩ := (agreesFields_iff same count).mp h
          refine (agreesFields_iff same' count').mpr ⟨matched, hperm, ?_⟩
          refine (List.forall₂_iff_zip.mpr ⟨hmatched.length_eq, fun {f m} hfm => ?_⟩)
          have hpair := List.forall₂_zip hmatched hfm
          exact ⟨hsame _ _ hpair.1, ih f (List.of_mem_zip hfm).1 hpair.2⟩
      | _ => exact h.elim
  | list values ih =>
      cases j with
      | array items =>
          have hmatched := (agreesItems_iff same count).mp h
          apply (agreesItems_iff same' count').mpr
          refine (List.forall₂_iff_zip.mpr ⟨hmatched.length_eq, fun {v j} hvj => ?_⟩)
          exact ih v (List.of_mem_zip hvj).1 (List.forall₂_zip hmatched hvj)
      | _ => exact h.elim

/-- A name is found in a value and in its JSON form alike. -/
theorem AgreesFields.lookup {fields : Fields} {members : Members}
    (h : AgreesFields (· = ·) count fields members) (hn : (members.map Prod.fst).Nodup)
    (name : Bytes) :
    (fields.lookup name = none ∧ members.lookup name = none) ∨
      ∃ v item, fields.lookup name = some v ∧ members.lookup name = some item ∧
        Agrees (· = ·) count v item := by
  obtain ⟨matched, hperm, hmatched⟩ := (agreesFields_iff _ _).mp h
  rw [← AssocList.lookup_perm hperm (((hperm.map Prod.fst).nodup_iff).mpr hn)]
  exact AssocList.lookup_forall₂ hmatched name

theorem AgreesFields.nodup {fields : Fields} {members : Members}
    (h : AgreesFields (· = ·) count fields members) (hn : (fields.map Prod.fst).Nodup) :
    (members.map Prod.fst).Nodup := by
  obtain ⟨matched, hperm, hmatched⟩ := (agreesFields_iff _ _).mp h
  have hnames : matched.map Prod.fst = fields.map Prod.fst := by
    clear hperm hn h
    induction hmatched with
    | nil => rfl
    | cons hfm _ ih => rw [List.map_cons, List.map_cons, ih, hfm.1]
  rw [← (hperm.map Prod.fst).nodup_iff, hnames]
  exact hn

theorem AgreesFields.lookup_string {fields : Fields} {members : Members}
    (h : AgreesFields (· = ·) count fields members) (hn : (members.map Prod.fst).Nodup)
    {name s : Bytes} (hs : members.lookup name = some (.string s)) :
    fields.lookup name = some (.string s) := by
  rcases h.lookup hn name with ⟨_, hnone⟩ | ⟨v, item, hv, hitem, hagree⟩
  · rw [hnone] at hs
    cases hs
  · rw [hitem] at hs
    obtain rfl := Option.some.inj hs
    cases v with
    | string t =>
        obtain rfl : t = s := hagree
        exact hv
    | _ => exact hagree.elim

end Agreement

end Value

section Runtime
open Value

/-- Integers of at most 53 bits have a value of their own among the numbers of a `Struct`. -/
def SmallInteger (k : ℤ) : Prop := k.natAbs ≤ 2 ^ 53

/-- A number that is a small integer is read as that integer. -/
def ReadAs (q : ℚ) (n : Number) : Prop := ∀ k : ℤ, SmallInteger k → n.value = k → q = k

/-- A small integer is printed as a number that denotes it. -/
def PrintedAs (q : ℚ) (n : Number) : Prop := ∀ k : ℤ, SmallInteger k → q = k → n.value = k

/-- Printing keeps a string that is valid UTF-8. -/
def SameText (s t : Bytes) : Prop := Utf8.Valid s → t = s

/-- The nesting up to which every version of the runtime reads and prints JSON. -/
def nestingLimit : ℕ := 16

/-- A JSON text of an object that every version of the runtime reads. -/
structure Json.Portable (text : Bytes) (members : Members) : Prop where
  valid : Utf8.Valid text
  parses : Json.parse text = some (.object members)
  distinct : Json.DistinctNames (.object members)
  shallow : Json.depth (.object members) ≤ nestingLimit
  numbers : Json.All (fun _ => True) (fun n => ∃ k : ℤ, InInt64 k ∧ n = .ofInt k) (.object members)

/-- What `JsonStringToMessage` does for a `Struct`. -/
structure ReadsJson (parse : Bytes → Option Fields) : Prop where
  reads : ∀ text members, Utf8.Valid text → Json.parse text = some (.object members) →
    Json.DistinctNames (.object members) → Json.depth (.object members) ≤ nestingLimit →
    Json.All (fun _ => True) (fun n => ∃ k : ℤ, InInt64 k ∧ n = .ofInt k) (.object members) →
    ∃ fields, parse text = some fields ∧ AgreesFields (· = ·) ReadAs fields members

theorem ReadsJson.string {parse : Bytes → Option Fields} (h : ReadsJson parse) {text : Bytes}
    {members : Members} (htext : Json.Portable text members) :
    ∃ fields, parse text = some fields ∧ ∀ name s, members.lookup name = some (.string s) →
      fields.lookup name = some (.string s) := by
  obtain ⟨fields, hfields, hagrees⟩ :=
    h.reads text members htext.valid htext.parses htext.distinct htext.shallow htext.numbers
  exact ⟨fields, hfields, fun name s hname => hagrees.lookup_string htext.distinct.1 hname⟩

/-- What `MessageToJsonString` does for a `Struct`. -/
structure PrintsJson (print : Fields → Option Bytes) : Prop where
  prints : ∀ fields text, WellFormed (.struct fields) → print fields = some text →
    0 ∉ text ∧ ∃ members, Json.parse text = some (.object members) ∧
      AgreesFields SameText PrintedAs fields members
  total : ∀ fields, WellFormed (.struct fields) →
    All Utf8.Valid (fun q => ∃ k : ℤ, InInt32 k ∧ q = k) (.struct fields) →
    depth (.struct fields) ≤ nestingLimit → ∃ text, print fields = some text ∧ Utf8.Valid text

/-- A value of valid strings is printed exactly. -/
theorem Value.Agrees.exact {count : ℚ → Number → Prop} {N : ℚ → Prop} {v : Value} {j : Json}
    (h : Agrees SameText count v j) (hv : All Utf8.Valid N v) :
    Agrees (· = ·) count v j := by
  induction v generalizing j with
  | notSet => cases j <;> exact h.elim
  | null => cases j <;> exact h
  | number q => cases j <;> exact h
  | string s =>
      obtain ⟨t, rfl, hsame⟩ := agrees_string.mp h
      exact (hsame hv).symm
  | bool b => cases j <;> exact h
  | struct fields ih =>
      obtain ⟨members, rfl, hfields⟩ := agrees_struct.mp h
      obtain ⟨matched, hperm, hmatched⟩ := (agreesFields_iff _ _).mp hfields
      have hall := allFields_iff.mp hv
      refine (agreesFields_iff _ _).mpr ⟨matched, hperm,
        List.forall₂_iff_zip.mpr ⟨hmatched.length_eq, fun {f m} hfm => ?_⟩⟩
      have hf := (List.of_mem_zip hfm).1
      obtain ⟨hname, hitem⟩ := List.forall₂_zip hmatched hfm
      exact ⟨(hname (hall f hf).1).symm, ih f hf hitem (hall f hf).2⟩
  | list values ih =>
      obtain ⟨items, rfl, hitems⟩ := agrees_list.mp h
      have hmatched := (agreesItems_iff _ _).mp hitems
      have hall := allValues_iff.mp hv
      refine (agreesItems_iff _ _).mpr
        (List.forall₂_iff_zip.mpr ⟨hmatched.length_eq, fun {v j} hvj => ?_⟩)
      have hmem := (List.of_mem_zip hvj).1
      exact ih v hmem (List.forall₂_zip hmatched hvj) (hall v hmem)

variable {print : Fields → Option Bytes} {fields : Fields} {text : Bytes}

/-- The members of a printed object, in the order of the fields. -/
theorem PrintsJson.members (h : PrintsJson print) (hwf : WellFormed (.struct fields))
    (hkeys : ∀ f ∈ fields, Utf8.Valid f.1) (hprint : print fields = some text) :
    ∃ members matched, Json.parse text = some (.object members) ∧ matched.Perm members ∧
      List.Forall₂ (fun f m => f.1 = m.1 ∧ Agrees SameText PrintedAs f.2 m.2) fields matched := by
  obtain ⟨-, members, hparse, hagree⟩ := h.prints fields text hwf hprint
  obtain ⟨matched, hperm, hmatched⟩ := (agreesFields_iff _ _).mp hagree
  refine ⟨members, matched, hparse, hperm,
    List.forall₂_iff_zip.mpr ⟨hmatched.length_eq, fun {f m} hfm => ?_⟩⟩
  obtain ⟨hname, hitem⟩ := List.forall₂_zip hmatched hfm
  exact ⟨(hname (hkeys f (List.of_mem_zip hfm).1)).symm, hitem⟩

/-- The members are the names of the fields beside the items that their values are printed as. -/
theorem PrintsJson.items (h : PrintsJson print) (hwf : WellFormed (.struct fields))
    (hkeys : ∀ name ∈ fields.map Prod.fst, Utf8.Valid name) (hprint : print fields = some text) :
    ∃ members items, Json.parse text = some (.object members) ∧
      members.Perm ((fields.map Prod.fst).zip items) ∧
      List.Forall₂ (Agrees SameText PrintedAs) (fields.map Prod.snd) items := by
  obtain ⟨members, matched, hparse, hperm, hmatched⟩ :=
    h.members hwf (List.forall_mem_map.mp hkeys) hprint
  refine ⟨members, matched.map Prod.snd, hparse, ?_, ?_⟩
  · have hzip : (fields.map Prod.fst).zip (matched.map Prod.snd) = matched := by
      clear hperm hprint hwf hkeys
      induction hmatched with
      | nil => rfl
      | cons hfm _ ih => rw [List.map_cons, List.map_cons, List.zip_cons_cons, ih, hfm.1]
    rw [hzip]
    exact hperm.symm
  · rw [List.forall₂_map_left_iff, List.forall₂_map_right_iff]
    exact hmatched.imp fun _ _ hfm => hfm.2

theorem PrintsJson.lookup (h : PrintsJson print) (hwf : WellFormed (.struct fields))
    (hkeys : ∀ f ∈ fields, Utf8.Valid f.1) (hprint : print fields = some text) :
    ∃ members, Json.parse text = some (.object members) ∧
      ∀ name v, fields.lookup name = some v →
        ∃ item, members.lookup name = some item ∧ Agrees SameText PrintedAs v item := by
  obtain ⟨members, matched, hparse, hperm, hmatched⟩ := h.members hwf hkeys hprint
  refine ⟨members, hparse, fun name v hv => ?_⟩
  have hnames : matched.map Prod.fst = fields.map Prod.fst := by
    clear hperm hprint hwf hkeys hv
    induction hmatched with
    | nil => rfl
    | cons hfm _ ih => rw [List.map_cons, List.map_cons, ih, hfm.1]
  rw [← AssocList.lookup_perm hperm (hnames ▸ hwf.1)]
  rcases AssocList.lookup_forall₂ hmatched name with ⟨hnone, -⟩ | ⟨v', item, hv', hitem, hagree⟩
  · rw [hnone] at hv
    cases hv
  · obtain rfl := Option.some.inj (hv'.symm.trans hv)
    exact ⟨item, hitem, hagree⟩

/-- An object of strings is printed as its strings. -/
theorem PrintsJson.strings (h : PrintsJson print) {pairs : List (Bytes × Bytes)}
    (hvalid : ∀ p ∈ pairs, Utf8.Valid p.1 ∧ Utf8.Valid p.2)
    (hnames : (pairs.map Prod.fst).Nodup) :
    ∃ text members, print (pairs.map fun p => (p.1, .string p.2)) = some text ∧
      Utf8.Valid text ∧ Json.parse text = some (.object members) ∧
      members.Perm (pairs.map fun p => (p.1, .string p.2)) := by
  have hwf : WellFormed (.struct (pairs.map fun p => (p.1, .string p.2))) := by
    refine ⟨by simpa [Function.comp_def] using hnames, wellFormedFields_iff.mpr ?_⟩
    exact List.forall_mem_map.mpr fun p _ => trivial
  have hall : All Utf8.Valid (fun q => ∃ k : ℤ, InInt32 k ∧ q = k)
      (.struct (pairs.map fun p => (p.1, .string p.2))) :=
    allFields_iff.mpr (List.forall_mem_map.mpr hvalid)
  have hdepth : depth (.struct (pairs.map fun p => (p.1, .string p.2))) ≤ nestingLimit := by
    have hflat : fieldsDepth (pairs.map fun p => (p.1, .string p.2)) ≤ 1 :=
      fieldsDepth_le (List.forall_mem_map.mpr fun p _ => le_refl 1)
    exact (Nat.succ_le_succ hflat).trans (by decide)
  obtain ⟨text, htext, hutf8⟩ := h.total _ hwf hall hdepth
  obtain ⟨-, members, hparse, hagree⟩ := h.prints _ text hwf htext
  have hsame : Agrees SameText PrintedAs (.struct (pairs.map fun p => (p.1, .string p.2)))
      (.object members) := hagree
  obtain ⟨matched, hperm, hmatched⟩ := (agreesFields_iff _ _).mp (hsame.exact hall)
  refine ⟨text, members, htext, hutf8, hparse, ?_⟩
  have hstrings : matched = pairs.map fun p => (p.1, .string p.2) := by
    rw [List.forall₂_map_left_iff] at hmatched
    clear hperm hsame hagree htext hall hdepth hwf hvalid hnames
    induction hmatched with
    | nil => rfl
    | @cons p m pairs matched hm _ ih =>
        obtain ⟨name, item⟩ := m
        obtain ⟨rfl, hitem⟩ := hm
        obtain ⟨_, rfl, rfl⟩ := agrees_string.mp hitem
        rw [List.map_cons, ih]
  rw [← hstrings]
  exact hperm.symm

/-- An object of strings is read as its strings. -/
theorem ReadsJson.strings {parse : Bytes → Option Fields} (h : ReadsJson parse) {text : Bytes}
    {members : Members} {pairs : List (Bytes × Bytes)} (hvalid : Utf8.Valid text)
    (hparse : Json.parse text = some (.object members))
    (hperm : members.Perm (pairs.map fun p => (p.1, .string p.2)))
    (hnames : (pairs.map Prod.fst).Nodup) :
    ∃ fields, parse text = some fields ∧
      ∀ name, fields.lookup name = (pairs.lookup name).map .string := by
  have hmembers : ∀ m ∈ members, ∃ p ∈ pairs, (p.1, .string p.2) = m := fun m hm =>
    List.mem_map.mp (hperm.subset hm)
  have hnodup : (members.map Prod.fst).Nodup := by
    rw [(hperm.map Prod.fst).nodup_iff]
    simpa [Function.comp_def] using hnames
  have hdistinct : Json.DistinctNames (.object members) := by
    refine ⟨hnodup, Json.distinctMembers_iff.mpr fun m hm => ?_⟩
    obtain ⟨p, -, rfl⟩ := hmembers m hm
    trivial
  have hdepth : Json.depth (.object members) ≤ nestingLimit := by
    have hmembersDepth : Json.membersDepth members ≤ 1 := Json.membersDepth_le fun m hm => by
      obtain ⟨p, -, rfl⟩ := hmembers m hm
      exact le_refl 1
    exact (Nat.succ_le_succ hmembersDepth).trans (by decide)
  have hall : Json.All (fun _ => True) (fun n => ∃ k : ℤ, InInt64 k ∧ n = .ofInt k)
      (.object members) := Json.allMembers_iff.mpr fun m hm => by
    obtain ⟨p, -, rfl⟩ := hmembers m hm
    exact ⟨trivial, trivial⟩
  obtain ⟨fields, hfields, hagree⟩ := h.reads text members hvalid hparse hdistinct hdepth hall
  refine ⟨fields, hfields, fun name => ?_⟩
  have hlookup : members.lookup name = (pairs.lookup name).map .string := by
    rw [AssocList.lookup_perm hperm hnodup, AssocList.lookup_map]
  rcases hagree.lookup hnodup name with ⟨hfield, hmember⟩ | ⟨v, item, hfield, hmember, hv⟩
  · rw [hlookup, Option.map_eq_none_iff] at hmember
    rw [hfield, hmember]
    rfl
  · rw [hlookup] at hmember
    obtain ⟨s, hs, rfl⟩ := Option.map_eq_some_iff.mp hmember
    rw [hfield, hs]
    cases v with
    | string t =>
        obtain rfl : t = s := hv
        rfl
    | _ => exact hv.elim

end Runtime

end LivekitServer

import LivekitServer.Struct
import LivekitServer.EscapeJson
import LivekitServer.JsonUtf8

/-!
# A reference protobuf runtime

`readStruct` and `printStruct` read and print a `Struct` through the JSON reader and the writer of
this development, and they meet `ReadsJson` and `PrintsJson`.
-/

namespace LivekitServer

section Reference
open Value

mutual

def ofJson : Json → Value
  | .null => .null
  | .bool b => .bool b
  | .number n => .number n.value
  | .string s => .string s
  | .array items => .list (ofItems items)
  | .object members => .struct (ofMembers members)

def ofItems : List Json → List Value
  | [] => []
  | item :: items => ofJson item :: ofItems items

def ofMembers : Members → Fields
  | [] => []
  | (name, item) :: members => (name, ofJson item) :: ofMembers members

end

def readStruct (text : Bytes) : Option Fields :=
  match Json.parse text with
  | some (.object members) => some (ofMembers members)
  | _ => none

theorem ofItems_eq (items : List Json) : ofItems items = items.map ofJson := by
  induction items with
  | nil => rfl
  | cons item items ih => rw [ofItems, ih, List.map_cons]

theorem ofMembers_eq (members : Members) :
    ofMembers members = members.map fun m => (m.1, ofJson m.2) := by
  induction members with
  | nil => rfl
  | cons m members ih => rw [ofMembers, ih, List.map_cons]

theorem agrees_ofJson (j : Json) : Agrees (· = ·) ReadAs (ofJson j) j := by
  induction j with
  | null => trivial
  | bool b => rfl
  | number n => exact fun k _ h => h
  | string s => rfl
  | array items ih =>
      change AgreesItems _ _ (ofItems items) items
      induction items with
      | nil => trivial
      | cons item items ihs =>
          exact ⟨ih item List.mem_cons_self,
            ihs fun i hi => ih i (List.mem_cons_of_mem item hi)⟩
  | object members ih =>
      change AgreesFields _ _ (ofMembers members) members
      induction members with
      | nil => rfl
      | cons m members ihs =>
          exact ⟨[], m.1, m.2, members, rfl, rfl, ih m List.mem_cons_self,
            ihs fun i hi => ih i (List.mem_cons_of_mem m hi)⟩

theorem readsJson_readStruct : ReadsJson readStruct where
  reads text members _ hparse _ _ _ := by
    refine ⟨ofMembers members, ?_, agrees_ofJson (.object members)⟩
    simp only [readStruct, hparse]

mutual

/-- The JSON form of a value with integer numbers. -/
def toJson : Value → Json
  | .notSet => .null
  | .null => .null
  | .number q => .number (.ofInt q.num)
  | .string s => .string s
  | .bool b => .bool b
  | .struct fields => .object (toMembers fields)
  | .list values => .array (toItems values)

def toMembers : Fields → Members
  | [] => []
  | (key, v) :: fields => (key, toJson v) :: toMembers fields

def toItems : List Value → List Json
  | [] => []
  | v :: values => toJson v :: toItems values

end

def printStruct (fields : Fields) : Option Bytes :=
  some ((AccessToken.writer Locale.classic).write (.object (toMembers fields)))

theorem toMembers_eq (fields : Fields) :
    toMembers fields = fields.map fun f => (f.1, toJson f.2) := by
  induction fields with
  | nil => rfl
  | cons f fields ih => rw [toMembers, ih, List.map_cons]

theorem toItems_eq (values : List Value) : toItems values = values.map toJson := by
  induction values with
  | nil => rfl
  | cons v values ih => rw [toItems, ih, List.map_cons]

theorem agrees_toJson (v : Value) (h : WellFormed v) : Agrees SameText PrintedAs v (toJson v) := by
  induction v with
  | notSet => exact h.elim
  | null => trivial
  | number q =>
      intro k _ hk
      rw [Number.value_ofInt, hk, Rat.num_intCast]
  | string s => exact fun _ => rfl
  | bool b => rfl
  | struct fields ih =>
      have hf := wellFormedFields_iff.mp h.2
      refine (agreesFields_iff _ _).mpr ⟨toMembers fields, List.Perm.refl _, ?_⟩
      rw [toMembers_eq, List.forall₂_map_right_iff, List.forall₂_same]
      exact fun f hm => ⟨fun _ => rfl, ih f hm (hf f hm)⟩
  | list values ih =>
      have hv := wellFormedValues_iff.mp h
      apply (agreesItems_iff _ _).mpr
      rw [toItems_eq, List.forall₂_map_right_iff, List.forall₂_same]
      exact fun v hm => ih v hm (hv v hm)

theorem all_toJson {S S' : Bytes → Prop} {N : ℚ → Prop} {N' : Number → Prop}
    (hS : ∀ s, S s → S' s) (hN : ∀ k : ℤ, N' (.ofInt k)) {v : Value} (h : All S N v) :
    Json.All S' N' (toJson v) := by
  induction v with
  | notSet => trivial
  | null => trivial
  | number q => exact hN q.num
  | string s => exact hS s h
  | bool b => trivial
  | struct fields ih =>
      have hf := allFields_iff.mp h
      simp only [toJson, Json.All, Json.allMembers_iff, toMembers_eq, List.forall_mem_map]
      exact fun f hm => ⟨hS f.1 (hf f hm).1, ih f hm (hf f hm).2⟩
  | list values ih =>
      have hv := allValues_iff.mp h
      simp only [toJson, Json.All, Json.allItems_iff, toItems_eq, List.forall_mem_map]
      exact fun v hm => ih v hm (hv v hm)

theorem all_true (v : Value) : All (fun _ => True) (fun _ => True) v := by
  induction v with
  | notSet => trivial
  | null => trivial
  | number q => trivial
  | string s => trivial
  | bool b => trivial
  | struct fields ih => exact allFields_iff.mpr fun f hf => ⟨trivial, ih f hf⟩
  | list values ih => exact allValues_iff.mpr ih

/-- A NUL inside a string is escaped. -/
theorem zero_notMem_string (s : Bytes) :
    0 ∉ (AccessToken.writer Locale.classic).token (.string s) := by
  have hbyte : ∀ b : UInt8, 0 ∉ AccessToken.escapeByte Locale.classic b :=
    forall_byte (by decide +kernel)
  rw [AccessToken.token_string]
  simp [AccessToken.escapeJson, hbyte]

theorem zero_notMem_number (k : ℤ) :
    0 ∉ (AccessToken.writer Locale.classic).token (.number (.ofInt k)) := by
  intro h
  change 0 ∈ (AccessToken.writer Locale.classic).number (.ofInt k) at h
  rw [AccessToken.writer_number_ofInt, Locale.classic_insertInteger] at h
  rcases AccessToken.signed_bytes k h with h | h <;> exact absurd h (by decide)

theorem zero_notMem_write (fields : Fields) :
    0 ∉ (AccessToken.writer Locale.classic).write (.object (toMembers fields)) := by
  have hpunct : ∀ text ∈ Json.punctuation, 0 ∉ text := by decide
  have htokens := (Json.forall_tokens
    (P := fun t => 0 ∉ (AccessToken.writer Locale.classic).token t) hpunct _).mpr
      (all_toJson (fun s _ => zero_notMem_string s) zero_notMem_number (all_true (.struct fields)))
  unfold Writer.write
  simpa [toJson] using htokens

theorem printsJson_printStruct : PrintsJson printStruct where
  prints fields text hwf htext := by
    obtain rfl := Option.some.inj htext
    refine ⟨zero_notMem_write fields, toMembers fields, ?_, agrees_toJson (.struct fields) hwf⟩
    apply Writer.parse_write AccessToken.writer_lossless _
    exact all_toJson (fun _ _ => trivial) AccessToken.readsNumber_ofInt (all_true (.struct fields))
  total fields hwf hall _ := by
    refine ⟨_, rfl, Writer.valid_write _ ?_⟩
    exact all_toJson (fun s hs => AccessToken.valid_quoted hs) AccessToken.valid_number hall

/-- The reader on texts that are UTF-8. -/
def readUtf8Struct (text : Bytes) : Option Fields :=
  if Utf8.Valid text then readStruct text else none

theorem readsJson_readUtf8Struct : ReadsJson readUtf8Struct where
  reads text members hvalid hparse hnames hdepth hall := by
    rw [readUtf8Struct, if_pos hvalid]
    exact readsJson_readStruct.reads text members hvalid hparse hnames hdepth hall

theorem all_ofJson {S : Bytes → Prop} {N : Number → Prop} {j : Json} (h : Json.All S N j) :
    All S (fun _ => True) (ofJson j) := by
  induction j with
  | null => trivial
  | bool b => trivial
  | number n => trivial
  | string s => exact h
  | array items ih =>
      have hitems := Json.allItems_iff.mp h
      apply allValues_iff.mpr
      rw [ofItems_eq, List.forall_mem_map]
      exact fun item hm => ih item hm (hitems item hm)
  | object members ih =>
      have hmembers := Json.allMembers_iff.mp h
      apply allFields_iff.mpr
      rw [ofMembers_eq, List.forall_mem_map]
      exact fun m hm => ⟨(hmembers m hm).1, ih m hm (hmembers m hm).2⟩

theorem all_readUtf8Struct {text : Bytes} {fields : Fields} (h : readUtf8Struct text = some fields) :
    All Utf8.Valid (fun _ => True) (.struct fields) := by
  unfold readUtf8Struct readStruct at h
  split_ifs at h with hvalid
  cases hparse : Json.parse text with
  | none => simp [hparse] at h
  | some j =>
      have hstrings := JsonText.validStrings_parse hvalid hparse
      cases j with
      | object members =>
          simp only [hparse, Option.some.injEq] at h
          exact h ▸ all_ofJson hstrings
      | _ => simp [hparse] at h

end Reference
end LivekitServer

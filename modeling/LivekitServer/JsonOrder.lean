import LivekitServer.AssocList
import LivekitServer.JsonWriter
import Mathlib.Data.List.Sort

/-!
# JSON objects as sorted maps

A map that is sorted by name holds the members of a JSON object in an order of its own. `ordered`
sorts the members of every object of a value. What a lookup finds, how deep the value nests and
which names, strings and numbers it has do not change.
-/

namespace LivekitServer.Json

mutual

def ordered : Json → Json
  | .null => .null
  | .bool b => .bool b
  | .number n => .number n
  | .string s => .string s
  | .array items => .array (orderedItems items)
  | .object members => .object ((orderedMembers members).insertionSort fun m n => m.1 ≤ n.1)

def orderedItems : List Json → List Json
  | [] => []
  | item :: items => ordered item :: orderedItems items

def orderedMembers : Members → Members
  | [] => []
  | (name, item) :: members => (name, ordered item) :: orderedMembers members

end

theorem orderedItems_eq (items : List Json) : orderedItems items = items.map ordered := by
  induction items with
  | nil => rfl
  | cons item items ih => rw [orderedItems, ih, List.map_cons]

theorem orderedMembers_eq (members : Members) :
    orderedMembers members = members.map fun m => (m.1, m.2.ordered) := by
  induction members with
  | nil => rfl
  | cons m members ih => rw [orderedMembers, ih, List.map_cons]

/-- The members of an object in the order of its map. -/
def sortedMembers (members : Members) : Members :=
  (orderedMembers members).insertionSort fun m n => m.1 ≤ n.1

theorem ordered_object (members : Members) :
    (object members).ordered = .object (sortedMembers members) := by
  rw [ordered, sortedMembers]

theorem sortedMembers_perm (members : Members) :
    (sortedMembers members).Perm (members.map fun m => (m.1, m.2.ordered)) := by
  rw [← orderedMembers_eq]
  exact List.perm_insertionSort _ _

theorem names_sortedMembers (members : Members) :
    ((sortedMembers members).map Prod.fst).Perm (members.map Prod.fst) := by
  have hperm := (sortedMembers_perm members).map Prod.fst
  rw [List.map_map] at hperm
  exact hperm

theorem mem_sortedMembers {members : Members} {m : Bytes × Json} :
    m ∈ sortedMembers members ↔ ∃ m' ∈ members, (m'.1, m'.2.ordered) = m := by
  rw [(sortedMembers_perm members).mem_iff, List.mem_map]

/-- A name is found in the map as in the object. -/
theorem lookup_sortedMembers {members : Members} (h : (members.map Prod.fst).Nodup) (name : Bytes) :
    (sortedMembers members).lookup name = (members.lookup name).map ordered := by
  rw [AssocList.lookup_perm (sortedMembers_perm members)
    ((names_sortedMembers members).nodup_iff.mpr h), AssocList.lookup_map]

theorem distinctNames_ordered {value : Json} (h : value.DistinctNames) :
    value.ordered.DistinctNames := by
  induction value with
  | null => trivial
  | bool b => trivial
  | number n => trivial
  | string s => trivial
  | array items ih =>
      have hitems := distinctItems_iff.mp h
      apply distinctItems_iff.mpr
      rw [orderedItems_eq, List.forall_mem_map]
      exact fun item hitem => ih item hitem (hitems item hitem)
  | object members ih =>
      obtain ⟨hnames, hmembers⟩ := h
      rw [distinctMembers_iff] at hmembers
      rw [ordered_object]
      refine ⟨(names_sortedMembers members).nodup_iff.mpr hnames, distinctMembers_iff.mpr ?_⟩
      intro m hm
      obtain ⟨m', hm', rfl⟩ := mem_sortedMembers.mp hm
      exact ih m' hm' (hmembers m' hm')

theorem depth_ordered_le (value : Json) : value.ordered.depth ≤ value.depth := by
  induction value with
  | null => exact le_refl _
  | bool b => exact le_refl _
  | number n => exact le_refl _
  | string s => exact le_refl _
  | array items ih =>
      apply Nat.succ_le_succ
      rw [orderedItems_eq]
      apply itemsDepth_le
      rw [List.forall_mem_map]
      exact fun item hitem => (ih item hitem).trans (depth_le_itemsDepth hitem)
  | object members ih =>
      rw [ordered_object]
      apply Nat.succ_le_succ
      apply membersDepth_le
      intro m hm
      obtain ⟨m', hm', rfl⟩ := mem_sortedMembers.mp hm
      exact (ih m' hm').trans (depth_le_membersDepth hm')

theorem all_ordered {S : Bytes → Prop} {N : Number → Prop} {value : Json} (h : value.All S N) :
    value.ordered.All S N := by
  induction value with
  | null => trivial
  | bool b => trivial
  | number n => exact h
  | string s => exact h
  | array items ih =>
      have hitems := allItems_iff.mp h
      apply allItems_iff.mpr
      rw [orderedItems_eq, List.forall_mem_map]
      exact fun item hitem => ih item hitem (hitems item hitem)
  | object members ih =>
      have hmembers := allMembers_iff.mp h
      rw [ordered_object]
      apply allMembers_iff.mpr
      intro m hm
      obtain ⟨m', hm', rfl⟩ := mem_sortedMembers.mp hm
      exact ⟨(hmembers m' hm').1, ih m' hm' (hmembers m' hm').2⟩

theorem All.mono {S S' : Bytes → Prop} {N N' : Number → Prop} (hS : ∀ s, S s → S' s)
    (hN : ∀ n, N n → N' n) {value : Json} (h : value.All S N) : value.All S' N' := by
  induction value with
  | null => trivial
  | bool b => trivial
  | number n => exact hN n h
  | string s => exact hS s h
  | array items ih =>
      have hitems := allItems_iff.mp h
      exact allItems_iff.mpr fun item hitem => ih item hitem (hitems item hitem)
  | object members ih =>
      have hmembers := allMembers_iff.mp h
      exact allMembers_iff.mpr fun m hm =>
        ⟨hS m.1 (hmembers m hm).1, ih m hm (hmembers m hm).2⟩

end LivekitServer.Json

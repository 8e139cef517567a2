import Mathlib.Data.List.Perm.Basic
import Mathlib.Data.List.Nodup

/-!
# Association lists

With distinct keys an association list is a finite map: `lookup` finds exactly the entries of the
list and does not depend on their order.
-/

namespace LivekitServer.AssocList

variable {κ α β : Type} [BEq κ] [LawfulBEq κ]

theorem lookup_of_notMem {entries : List (κ × α)} {key : κ} (h : key ∉ entries.map Prod.fst) :
    entries.lookup key = none := by
  rw [List.lookup_eq_none_iff]
  intro e he
  exact bne_iff_ne.mpr fun hkey => h (hkey ▸ List.mem_map_of_mem he)

theorem mem_of_lookup {entries : List (κ × α)} {key : κ} {a : α}
    (h : entries.lookup key = some a) : (key, a) ∈ entries := by
  obtain ⟨front, back, rfl, _⟩ := List.lookup_eq_some_iff.mp h
  exact List.mem_append_right front List.mem_cons_self

theorem lookup_of_mem {entries : List (κ × α)} (hn : (entries.map Prod.fst).Nodup) {key : κ} {a : α}
    (h : (key, a) ∈ entries) : entries.lookup key = some a := by
  obtain ⟨front, back, rfl⟩ := List.append_of_mem h
  refine List.lookup_eq_some_iff.mpr ⟨front, back, rfl, fun e he => bne_iff_ne.mpr ?_⟩
  rintro rfl
  rw [List.map_append, List.nodup_append] at hn
  exact hn.2.2 _ (List.mem_map_of_mem he) _ (List.mem_map_of_mem List.mem_cons_self) rfl

theorem lookup_eq_some_iff {entries : List (κ × α)} (hn : (entries.map Prod.fst).Nodup) {key : κ}
    {a : α} : entries.lookup key = some a ↔ (key, a) ∈ entries :=
  ⟨mem_of_lookup, lookup_of_mem hn⟩

theorem lookup_perm {entries others : List (κ × α)} (hp : entries.Perm others)
    (hn : (entries.map Prod.fst).Nodup) (key : κ) : entries.lookup key = others.lookup key := by
  have hn' : (others.map Prod.fst).Nodup := ((hp.map Prod.fst).nodup_iff).mp hn
  apply Option.ext
  intro a
  rw [lookup_eq_some_iff hn, lookup_eq_some_iff hn', hp.mem_iff]

omit [LawfulBEq κ] in
theorem lookup_map (f : α → β) (entries : List (κ × α)) (key : κ) :
    (entries.map fun e => (e.1, f e.2)).lookup key = (entries.lookup key).map f := by
  induction entries with
  | nil => rfl
  | cons e entries ih =>
      rw [List.map_cons, List.lookup_cons, List.lookup_cons, ih]
      cases key == e.1 <;> rfl

/-- Lists with the same keys and related entries find related entries. -/
theorem lookup_forall₂ {R : α → β → Prop} {entries : List (κ × α)} {others : List (κ × β)}
    (h : List.Forall₂ (fun e o => e.1 = o.1 ∧ R e.2 o.2) entries others) (key : κ) :
    (entries.lookup key = none ∧ others.lookup key = none) ∨
      ∃ a b, entries.lookup key = some a ∧ others.lookup key = some b ∧ R a b := by
  induction h with
  | nil => exact Or.inl ⟨rfl, rfl⟩
  | @cons e o entries others heo _ ih =>
      obtain ⟨name, a⟩ := e
      obtain ⟨name', b⟩ := o
      obtain ⟨rfl, hab⟩ : name = name' ∧ R a b := heo
      by_cases hk : key = name
      · subst hk
        exact Or.inr ⟨a, b, by simp, by simp, hab⟩
      · have hbeq : (key == name) = false := beq_false_of_ne hk
        simpa only [List.lookup_cons, hbeq] using ih

section Present

/-- The entries of a table that are there. -/
def present (table : List (κ × Option α)) : List (κ × α) :=
  table.filterMap fun e => e.2.map fun item => (e.1, item)

omit [BEq κ] [LawfulBEq κ]

theorem present_append (front back : List (κ × Option α)) :
    present (front ++ back) = present front ++ present back := List.filterMap_append

theorem keys_present (table : List (κ × Option α)) :
    ((present table).map Prod.fst).Sublist (table.map Prod.fst) := by
  induction table with
  | nil => exact List.Sublist.slnil
  | cons e table ih =>
      obtain ⟨name, item⟩ := e
      cases item with
      | none => exact ih.cons name
      | some item => exact ih.cons_cons name

variable [BEq κ] [LawfulBEq κ]

/-- A name of the table is found with what the table has for it. -/
theorem lookup_present {table : List (κ × Option α)} (h : (table.map Prod.fst).Nodup)
    (name : κ) : (present table).lookup name = (table.lookup name).join := by
  induction table with
  | nil => rfl
  | cons e table ih =>
      obtain ⟨key, item⟩ := e
      rw [List.map_cons, List.nodup_cons] at h
      rw [List.lookup_cons]
      by_cases hk : name = key
      · subst hk
        have hrest : (present table).lookup name = none :=
          lookup_of_notMem fun hm => h.1 ((keys_present table).subset hm)
        rw [beq_self_eq_true]
        cases item with
        | none => exact hrest
        | some item => simp [present]
      · rw [beq_false_of_ne hk]
        cases item with
        | none => exact ih h.2
        | some item =>
            change List.lookup name ((key, item) :: present table) = _
            rw [List.lookup_cons, beq_false_of_ne hk]
            exact ih h.2

end Present

end LivekitServer.AssocList

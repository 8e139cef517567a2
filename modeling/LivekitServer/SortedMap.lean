import Mathlib.Data.List.Basic
import Mathlib.Data.List.Perm.Basic
import Mathlib.Data.List.Pairwise
import Mathlib.Tactic.Common

/-!
# Sorted maps

A map is the list of its entries in strict key order, so it is determined by what it contains.
`emplace` keeps the entry that is already there. Building a map entry by entry from any
arrangement of the entries of a map gives that map again.
-/

namespace LivekitServer

/-- A strict total order on the keys. -/
class KeyOrder (κ : Type) [LT κ] : Prop where
  trans : ∀ a b c : κ, a < b → b < c → a < c
  asymm : ∀ a b : κ, a < b → ¬ b < a
  connected : ∀ a b : κ, ¬ a < b → ¬ b < a → a = b

structure SortedMap (κ β : Type) [LT κ] where
  entries : List (κ × β)
  sorted : entries.Pairwise fun a b => a.1 < b.1

namespace SortedMap

theorem keys_nodup {κ β : Type} [LT κ] [KeyOrder κ] (m : SortedMap κ β) : (m.entries.map Prod.fst).Nodup := by
  rw [List.Nodup, List.pairwise_map]
  refine m.sorted.imp fun {a b} hlt heq => ?_
  rw [heq] at hlt
  exact KeyOrder.asymm _ _ hlt hlt

variable {κ β : Type} [LT κ] [DecidableLT κ] [DecidableEq κ]

def insertEntry (key : κ) (v : β) : List (κ × β) → List (κ × β)
  | [] => [(key, v)]
  | e :: entries =>
    if key < e.1 then (key, v) :: e :: entries
    else if key = e.1 then e :: entries
    else e :: insertEntry key v entries

theorem mem_insertEntry {key : κ} {v : β} {entries : List (κ × β)} {e : κ × β}
    (h : e ∈ insertEntry key v entries) : e = (key, v) ∨ e ∈ entries := by
  induction entries with
  | nil => exact Or.inl (by simpa [insertEntry] using h)
  | cons head tail ih =>
      simp only [insertEntry] at h
      split_ifs at h
      · exact List.mem_cons.mp h
      · exact Or.inr h
      · rcases List.mem_cons.mp h with rfl | h
        · exact Or.inr (List.mem_cons_self ..)
        · exact (ih h).imp id (List.mem_cons_of_mem head)

theorem insertEntry_perm {key : κ} {v : β} {entries : List (κ × β)}
    (h : key ∉ entries.map Prod.fst) : (insertEntry key v entries).Perm ((key, v) :: entries) := by
  induction entries with
  | nil => exact List.Perm.refl _
  | cons head tail ih =>
      simp only [List.map_cons, List.mem_cons, not_or] at h
      simp only [insertEntry]
      split_ifs with hlt
      · exact List.Perm.refl _
      · exact absurd ‹key = head.1› h.1
      · exact ((ih h.2).cons head).trans (List.Perm.swap _ _ _)

section Order

variable [KeyOrder κ]

theorem sorted_insertEntry (key : κ) (v : β) {entries : List (κ × β)}
    (h : entries.Pairwise fun a b => a.1 < b.1) :
    (insertEntry key v entries).Pairwise fun a b => a.1 < b.1 := by
  induction entries with
  | nil => simp [insertEntry]
  | cons head tail ih =>
      obtain ⟨hhead, htail⟩ := List.pairwise_cons.mp h
      simp only [insertEntry]
      split_ifs with hlt heq
      · refine List.pairwise_cons.mpr ⟨?_, h⟩
        intro e he
        rcases List.mem_cons.mp he with rfl | he
        · exact hlt
        · exact KeyOrder.trans _ _ _ hlt (hhead e he)
      · exact h
      · refine List.pairwise_cons.mpr ⟨?_, ih htail⟩
        intro e he
        rcases mem_insertEntry he with rfl | he
        · by_contra hnot
          exact heq (KeyOrder.connected _ _ hlt hnot)
        · exact hhead e he

def empty : SortedMap κ β := ⟨[], List.Pairwise.nil⟩

/-- `emplace`: an entry whose key is already there is left alone. -/
def emplace (m : SortedMap κ β) (key : κ) (v : β) : SortedMap κ β :=
  ⟨insertEntry key v m.entries, sorted_insertEntry key v m.sorted⟩

def ofList (entries : List (κ × β)) : SortedMap κ β :=
  entries.foldl (fun m e => m.emplace e.1 e.2) empty

def find (m : SortedMap κ β) (key : κ) : Option β := m.entries.lookup key

theorem ofList_perm (entries : List (κ × β)) (m : SortedMap κ β)
    (h : ((m.entries ++ entries).map Prod.fst).Nodup) :
    ((entries.foldl (fun m e => m.emplace e.1 e.2) m).entries).Perm (m.entries ++ entries) := by
  induction entries generalizing m with
  | nil => simp
  | cons e entries ih =>
      have hnew : e.1 ∉ m.entries.map Prod.fst := by
        simp only [List.map_append, List.map_cons] at h
        intro he
        exact (List.nodup_append.mp h).2.2 _ he _ (List.mem_cons_self ..) rfl
      have hperm : (m.emplace e.1 e.2).entries.Perm (e :: m.entries) := insertEntry_perm hnew
      have hmove : ((m.emplace e.1 e.2).entries ++ entries).Perm (m.entries ++ e :: entries) :=
        (hperm.append_right entries).trans List.perm_middle.symm
      have hi := ih (m.emplace e.1 e.2) (((hmove.map Prod.fst).nodup_iff).mpr h)
      exact hi.trans hmove

/-- A map is recovered from its entries in whatever order they come. -/
theorem ofList_eq (m : SortedMap κ β) {entries : List (κ × β)} (h : entries.Perm m.entries) :
    ofList entries = m := by
  have hperm : (ofList entries).entries.Perm m.entries := by
    have hp := ofList_perm entries empty (by
      simpa [empty] using ((h.map Prod.fst).nodup_iff).mpr m.keys_nodup)
    exact hp.trans (by simpa [empty] using h)
  have heq : (ofList entries).entries = m.entries := by
    refine hperm.eq_of_pairwise ?_ (ofList entries).sorted m.sorted
    intro a b _ _ hab hba
    exact absurd hba (KeyOrder.asymm _ _ hab)
  cases hm : ofList entries
  cases m
  simp_all

end Order
end SortedMap
end LivekitServer

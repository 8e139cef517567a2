import LivekitServer.AssocList

/-!
# A vector of buffers

A vector keeps buffers that it owns and hands out their addresses. When it is full, its storage
moves to another place; the buffers stay. An `Arena` carries the two facts that make this work: the
storage is a block of its own, and every item is a live buffer.
-/

namespace LivekitServer.BufferArena

abbrev Address := ℕ

/-- A live allocation: a buffer, or the storage of the vector. -/
inductive Block (β : Type)
  | buffer (content : β)
  | storage (capacity : ℕ)

abbrev Heap (β : Type) := List (Address × Block β)

/-- An allocator never gives out an address that is in use. -/
structure Allocator where
  pick : List Address → Address
  fresh : ∀ live, pick live ∉ live

variable {β : Type}

section Heaps

def Heap.live (heap : Heap β) : List Address := heap.map Prod.fst

def Heap.free (heap : Heap β) (address : Address) : Heap β :=
  heap.filter fun entry => entry.1 != address

theorem lookup_free {heap : Heap β} {address freed : Address} (h : address ≠ freed) :
    (heap.free freed).lookup address = heap.lookup address := by
  induction heap with
  | nil => rfl
  | cons entry heap ih =>
      rw [Heap.free] at ih ⊢
      rw [List.filter_cons, List.lookup_cons]
      by_cases hfreed : entry.1 = freed
      · rw [if_neg (by simpa using hfreed), ih]
        have hne : (address == entry.1) = false := beq_false_of_ne (hfreed ▸ h)
        rw [hne]
      · rw [if_pos (by simpa using hfreed), List.lookup_cons, ih]

theorem mem_live {heap : Heap β} {address : Address} {block : Block β}
    (h : heap.lookup address = some block) : address ∈ heap.live :=
  List.mem_map_of_mem (AssocList.mem_of_lookup h)

theorem lookup_cons_of_ne {heap : Heap β} {address added : Address} {block : Block β}
    (h : address ≠ added) : ((added, block) :: heap : Heap β).lookup address =
      heap.lookup address := by
  rw [List.lookup_cons, beq_false_of_ne h]

end Heaps

/-- The heap, the storage of the vector with its capacity, and the addresses of its items. -/
structure Arena (β : Type) where
  heap : Heap β
  storage : Option Address
  capacity : ℕ
  items : List Address
  stored : ∀ address, storage = some address → heap.lookup address = some (.storage capacity)
  owned : ∀ item ∈ items, ∃ content, heap.lookup item = some (.buffer content)

namespace Arena

def empty : Arena β where
  heap := []
  storage := none
  capacity := 0
  items := []
  stored := nofun
  owned := nofun

/-- The buffer at an address. -/
def read (arena : Arena β) (address : Address) : Option β :=
  match arena.heap.lookup address with
  | some (.buffer content) => some content
  | _ => none

theorem read_eq_some {arena : Arena β} {address : Address} {content : β} :
    arena.read address = some content ↔
      arena.heap.lookup address = some (.buffer content) := by
  rw [read]
  rcases arena.heap.lookup address with _ | _ | _
  · exact iff_of_false nofun nofun
  · simp
  · exact iff_of_false nofun nofun

/-- What is a buffer in one arena is the same buffer in the next. -/
def Keeps (arena next : Arena β) : Prop :=
  ∀ address content, arena.read address = some content → next.read address = some content

theorem Keeps.refl (arena : Arena β) : Keeps arena arena := fun _ _ h => h

theorem Keeps.trans {a b c : Arena β} (hab : Keeps a b) (hbc : Keeps b c) : Keeps a c :=
  fun address content h => hbc address content (hab address content h)

/-- The place of a new buffer. -/
def place (allocator : Allocator) (arena : Arena β) : Address := allocator.pick arena.heap.live

theorem place_ne {allocator : Allocator} {arena : Arena β} {address : Address} {block : Block β}
    (h : arena.heap.lookup address = some block) : address ≠ arena.place allocator := by
  rintro rfl
  exact allocator.fresh _ (mem_live h)

/-- A new buffer, not yet an item. -/
def allocate (allocator : Allocator) (content : β) (arena : Arena β) : Arena β where
  heap := (arena.place allocator, .buffer content) :: arena.heap
  storage := arena.storage
  capacity := arena.capacity
  items := arena.items
  stored := fun address h => by
    have hlookup := arena.stored address h
    rw [lookup_cons_of_ne (place_ne hlookup), hlookup]
  owned := fun item hitem => by
    obtain ⟨found, hlookup⟩ := arena.owned item hitem
    exact ⟨found, by rw [lookup_cons_of_ne (place_ne hlookup), hlookup]⟩

theorem keeps_allocate (allocator : Allocator) (content : β) (arena : Arena β) :
    Keeps arena (arena.allocate allocator content) := by
  intro address found h
  rw [read_eq_some] at h ⊢
  exact (lookup_cons_of_ne (place_ne h)).trans h

theorem read_allocate (allocator : Allocator) (content : β) (arena : Arena β) :
    (arena.allocate allocator content).read (arena.place allocator) = some content := by
  rw [read_eq_some]
  exact List.lookup_cons_self

/-- The heap without the storage of the vector. -/
def released (arena : Arena β) : Heap β :=
  match arena.storage with
  | none => arena.heap
  | some old => arena.heap.free old

theorem lookup_released {arena : Arena β} {address : Address} {content : β}
    (h : arena.heap.lookup address = some (.buffer content)) :
    arena.released.lookup address = some (.buffer content) := by
  rw [released]
  cases hstorage : arena.storage with
  | none => exact h
  | some old =>
      -- the storage is a block of another kind than the buffer
      have hne : address ≠ old := by
        rintro rfl
        exact nomatch h.symm.trans (arena.stored _ hstorage)
      exact (lookup_free hne).trans h

/-- The storage of a full vector goes to a larger block, here or elsewhere. -/
def grow (allocator : Allocator) (arena : Arena β) : Arena β where
  heap := (allocator.pick arena.released.live, .storage (max 4 (2 * arena.capacity))) ::
    arena.released
  storage := some (allocator.pick arena.released.live)
  capacity := max 4 (2 * arena.capacity)
  items := arena.items
  stored := fun address h => by
    obtain rfl := Option.some.inj h
    exact List.lookup_cons_self
  owned := fun item hitem => by
    obtain ⟨content, hlookup⟩ := arena.owned item hitem
    have hreleased := lookup_released hlookup
    refine ⟨content, (lookup_cons_of_ne ?_).trans hreleased⟩
    rintro rfl
    exact allocator.fresh _ (mem_live hreleased)

theorem keeps_grow (allocator : Allocator) (arena : Arena β) :
    Keeps arena (arena.grow allocator) := by
  intro address content h
  rw [read_eq_some] at h ⊢
  have hreleased := lookup_released h
  refine (lookup_cons_of_ne ?_).trans hreleased
  rintro rfl
  exact allocator.fresh _ (mem_live hreleased)

/-- A buffer becomes an item of a vector with room. -/
def append (item : Address) (arena : Arena β) (h : ∃ content, arena.read item = some content) :
    Arena β where
  heap := arena.heap
  storage := arena.storage
  capacity := arena.capacity
  items := arena.items ++ [item]
  stored := arena.stored
  owned := fun other hother => by
    rcases List.mem_append.mp hother with hother | hother
    · exact arena.owned other hother
    · rw [List.mem_singleton.mp hother]
      obtain ⟨content, hread⟩ := h
      exact ⟨content, read_eq_some.mp hread⟩

/-- Room for one more item. -/
def reserve (allocator : Allocator) (arena : Arena β) : Arena β :=
  if arena.items.length < arena.capacity then arena else arena.grow allocator

theorem keeps_reserve (allocator : Allocator) (arena : Arena β) :
    Keeps arena (arena.reserve allocator) := by
  rw [reserve]
  by_cases hroom : arena.items.length < arena.capacity
  · rw [if_pos hroom]
    exact .refl arena
  · rw [if_neg hroom]
    exact keeps_grow allocator arena

/-- `push` of a new buffer. -/
def push (allocator : Allocator) (content : β) (arena : Arena β) : Arena β :=
  ((arena.allocate allocator content).reserve allocator).append (arena.place allocator)
    ⟨content, keeps_reserve allocator _ _ _ (read_allocate allocator content arena)⟩

theorem keeps_push (allocator : Allocator) (content : β) (arena : Arena β) :
    Keeps arena (arena.push allocator content) :=
  (keeps_allocate allocator content arena).trans (keeps_reserve allocator _)

theorem read_push (allocator : Allocator) (content : β) (arena : Arena β) :
    (arena.push allocator content).read (arena.place allocator) = some content :=
  keeps_reserve allocator _ _ _ (read_allocate allocator content arena)

end Arena

end LivekitServer.BufferArena

import Mathlib.Data.List.Nodup
import Mathlib.Data.List.Perm.Basic
import Mathlib.Tactic.Common

/-!
A heap of blocks, each in use at an address of its own. A block is allocated where none is
in use; reading or freeing an address at which none is in use has no result.
-/

namespace CppRt.Library

structure Heap (Addr Value : Type*) where
  blocks : List (Addr × Value)
  distinct : (blocks.map Prod.fst).Nodup

/-- A choice of the next block's address, which may depend on who allocates. -/
structure Allocator (Thread Addr Value : Type*) where
  pick : Thread → Heap Addr Value → Addr
  fresh : ∀ thread heap, pick thread heap ∉ heap.blocks.map Prod.fst

def beyond (addresses : List Nat) : Nat := addresses.foldr (fun address most => address + most + 1) 0

theorem lt_beyond {address : Nat} {addresses : List Nat} (member : address ∈ addresses) : address < beyond addresses := by
  induction addresses with
  | nil => cases member
  | cons first rest ih =>
    show address < first + beyond rest + 1
    cases member with
    | head => omega
    | tail _ later =>
      have before := ih later
      omega

def Allocator.beyond {Thread Value : Type*} : Allocator Thread Nat Value where
  pick _ heap := Library.beyond (heap.blocks.map Prod.fst)
  fresh _ _ used := absurd (lt_beyond used) (Nat.lt_irrefl _)

namespace Heap
variable {Thread Addr Value : Type*}

def empty : Heap Addr Value := ⟨[], List.nodup_nil⟩

def values (heap : Heap Addr Value) : List Value := heap.blocks.map Prod.snd

def allocate (allocator : Allocator Thread Addr Value) (thread : Thread) (heap : Heap Addr Value) (value : Value) :
    Heap Addr Value where
  blocks := (allocator.pick thread heap, value) :: heap.blocks
  distinct := List.nodup_cons.mpr ⟨allocator.fresh thread heap, heap.distinct⟩

theorem values_allocate {allocator : Allocator Thread Addr Value} {thread : Thread} {heap : Heap Addr Value} {value : Value} :
    (heap.allocate allocator thread value).values = value :: heap.values := rfl

variable [DecidableEq Addr]

def read (heap : Heap Addr Value) (address : Addr) : Option Value :=
  (heap.blocks.find? fun block => block.1 = address).map Prod.snd

def free (heap : Heap Addr Value) (address : Addr) : Option (Heap Addr Value) :=
  if address ∈ heap.blocks.map Prod.fst then
    some ⟨heap.blocks.filter fun block => block.1 ≠ address, heap.distinct.sublist (List.filter_sublist.map _)⟩
  else none

variable {heap later : Heap Addr Value} {allocator : Allocator Thread Addr Value} {thread : Thread} {address other : Addr}
variable {value : Value}

@[simp] theorem read_empty : (empty : Heap Addr Value).read address = none := rfl

theorem mem_of_read (there : heap.read address = some value) : (address, value) ∈ heap.blocks := by
  obtain ⟨block, found, rfl⟩ := Option.map_eq_some_iff.mp there
  have same : block.1 = address := by simpa using List.find?_some found
  rw [← same]
  exact List.mem_of_find?_eq_some found

theorem read_pick : heap.read (allocator.pick thread heap) = none := by
  cases there : heap.read (allocator.pick thread heap) with
  | none => rfl
  | some value => exact absurd (List.mem_map_of_mem (mem_of_read there)) (allocator.fresh thread heap)

theorem read_allocate : (heap.allocate allocator thread value).read address =
    if allocator.pick thread heap = address then some value else heap.read address := by
  unfold read allocate
  rw [List.find?_cons]
  by_cases same : allocator.pick thread heap = address <;> simp [same]

theorem free_isSome (there : heap.read address = some value) : ∃ later, heap.free address = some later :=
  ⟨_, if_pos (List.mem_map_of_mem (mem_of_read there))⟩

theorem free_blocks (freed : heap.free address = some later) :
    later.blocks = heap.blocks.filter fun block => block.1 ≠ address := by
  unfold free at freed
  by_cases used : address ∈ heap.blocks.map Prod.fst
  · rw [if_pos used] at freed
    cases freed
    rfl
  · rw [if_neg used] at freed
    cases freed

theorem read_free (freed : heap.free address = some later) (apart : other ≠ address) :
    later.read other = heap.read other := by
  unfold read
  rw [free_blocks freed, List.find?_filter]
  congr 2
  funext block
  by_cases same : block.1 = other
  · simp [same, apart]
  · simp [same]

theorem perm_filter {blocks : List (Addr × Value)} (distinct : (blocks.map Prod.fst).Nodup)
    (member : (address, value) ∈ blocks) :
    blocks.Perm ((address, value) :: blocks.filter fun block => block.1 ≠ address) := by
  induction blocks with
  | nil => cases member
  | cons block rest ih =>
    rw [List.map_cons, List.nodup_cons] at distinct
    obtain ⟨absent, distinct⟩ := distinct
    cases member with
    | head =>
      have kept : (rest.filter fun block => block.1 ≠ address) = rest := by
        apply List.filter_eq_self.mpr
        intro other there
        rw [decide_eq_true_eq]
        intro same
        have listed : other.1 ∈ rest.map Prod.fst := List.mem_map_of_mem there
        rw [same] at listed
        exact absent listed
      rw [List.filter_cons_of_neg (by simp), kept]
    | tail _ there =>
      have apart : block.1 ≠ address := by
        intro same
        rw [same] at absent
        exact absent (List.mem_map_of_mem there)
      rw [List.filter_cons_of_pos (by simpa using apart)]
      exact ((ih distinct there).cons block).trans (.swap _ _ _)

theorem values_free (there : heap.read address = some value) (freed : heap.free address = some later) :
    heap.values.Perm (value :: later.values) := by
  have parts := (perm_filter heap.distinct (mem_of_read there)).map Prod.snd
  rwa [← free_blocks freed] at parts

end Heap

end CppRt.Library

import CppRt.Library.SearchTree
import Mathlib.Data.Set.Insert

/-!
The node heap of btree. A field that has not been written since its node was
allocated has no value, and an address at which no node is allocated has none of
the fields. What an operation may rely on between two inserts is that the memory
holds a search tree: the nodes reachable from the root are a finite tree, ordered,
each reachable in one way, and all there is.
-/

namespace CppRt.RwlockTree
open Library

variable {Addr : Type*}

structure Node (Addr : Type*) where
  keyValue : Option Int
  left : Option (Option Addr)
  right : Option (Option Addr)

def Node.fresh : Node Addr := ⟨none, none, none⟩

def Node.link (node : Node Addr) : Side → Option (Option Addr)
  | .left => node.left
  | .right => node.right

def Node.setLink (node : Node Addr) (side : Side) (target : Option Addr) : Node Addr :=
  match side with
  | .left => { node with left := some target }
  | .right => { node with right := some target }

@[simp] theorem Node.keyValue_setLink (node : Node Addr) (side : Side) (target : Option Addr) :
    (node.setLink side target).keyValue = node.keyValue := by
  cases side <;> rfl

@[simp] theorem Node.link_setLink (node : Node Addr) (side : Side) (target : Option Addr) :
    (node.setLink side target).link side = some target := by
  cases side <;> rfl

theorem Node.link_setLink_other (node : Node Addr) {side other : Side} (target : Option Addr)
    (different : other ≠ side) : (node.setLink side target).link other = node.link other := by
  cases side <;> cases other <;> first | rfl | exact absurd rfl different

structure Memory (Addr : Type*) where
  root : Option Addr
  heap : Addr → Option (Node Addr)

namespace Memory

def keyValue (memory : Memory Addr) (leaf : Addr) : Option Int :=
  (memory.heap leaf).bind Node.keyValue

def load (memory : Memory Addr) : Place Addr → Option (Option Addr)
  | .root => some memory.root
  | .child leaf side => (memory.heap leaf).bind fun node => node.link side

variable [DecidableEq Addr]

/-- `new node` at an address that is not in use. -/
def allocate (memory : Memory Addr) (target : Addr) : Memory Addr :=
  { memory with heap := Function.update memory.heap target (some .fresh) }

def modify (memory : Memory Addr) (target : Addr) (write : Node Addr → Node Addr) : Option (Memory Addr) :=
  (memory.heap target).map fun node =>
    { memory with heap := Function.update memory.heap target (some (write node)) }

def point (memory : Memory Addr) (place : Place Addr) (target : Option Addr) : Option (Memory Addr) :=
  match place with
  | .root => some { memory with root := target }
  | .child leaf side => memory.modify leaf fun node => node.setLink side target

variable {memory later : Memory Addr} {target other : Addr} {write : Node Addr → Node Addr}

theorem modify_eq (written : memory.modify target write = some later) :
    ∃ node, memory.heap target = some node ∧
      later = { memory with heap := Function.update memory.heap target (some (write node)) } := by
  obtain ⟨node, there, same⟩ := Option.map_eq_some_iff.mp written
  exact ⟨node, there, same.symm⟩

theorem modify_other (written : memory.modify target write = some later) (different : other ≠ target) :
    later.heap other = memory.heap other := by
  obtain ⟨node, _, rfl⟩ := modify_eq written
  exact Function.update_of_ne different _ _

omit [DecidableEq Addr] in
theorem keyValue_congr (same : later.heap other = memory.heap other) :
    later.keyValue other = memory.keyValue other := by
  rw [keyValue, keyValue, same]

omit [DecidableEq Addr] in
theorem load_congr {side : Side} (same : later.heap other = memory.heap other) :
    later.load (.child other side) = memory.load (.child other side) := by
  rw [load, load, same]

end Memory

/-- The fields of the new node in the order in which insert writes them. -/
inductive Field where
  | keyValue
  | left
  | right

def Field.write (key : Int) (field : Field) (node : Node Addr) : Node Addr :=
  match field with
  | .keyValue => { node with keyValue := some key }
  | .left => { node with left := some none }
  | .right => { node with right := some none }

def Field.before (key : Int) : Field → Node Addr
  | .keyValue => .fresh
  | .left => ⟨some key, none, none⟩
  | .right => ⟨some key, some none, none⟩

def Node.leafOf (key : Int) : Node Addr := ⟨some key, some none, some none⟩

end CppRt.RwlockTree

import CppRt.RwlockTree.Btree
import CppRt.RwlockTree.HeldTree

/-!
The discipline of btree. While nobody writes, the memory holds a search tree. A
writer on its way down knows that the tree's place for its key is below the pointer
it stands at; once it has linked its node, it knows the memory from before and how
far the node has been written. A reader knows that the key it looks for is in the
tree exactly when it is below the pointer it stands at.
-/

namespace CppRt.RwlockTree
open Library Concurrent RwLock

variable {Addr : Type*}

def Pc.holds : Pc Addr → Section
  | .outside => .outside
  | .wrlock _ => .outside
  | .rdlock _ => .outside
  | .returning _ => .outside
  | .readRoot _ => .reading
  | .visit _ _ => .reading
  | .equal _ _ => .reading
  | .lessThan _ _ => .reading
  | .follow _ _ _ => .reading
  | .unlockRead _ => .reading
  | _ => .writing

/-- The place for the key in the whole tree is its place below this pointer. -/
def Descending (memory : Memory Addr) (key : Int) (place : Place Addr) (pointer : Option Addr) : Prop :=
  ∃ tree below, memory.Holds tree ∧ memory.Shows pointer below ∧ tree.place key .root = below.place key place

/-- The key is anywhere in the memory only if it is below this pointer. -/
def Searching (memory : Memory Addr) (key : Int) (pointer : Option Addr) : Prop :=
  ∃ below, memory.Shows pointer below ∧ below.Ordered ∧ (key ∈ memory.keys ↔ key ∈ below.keys)

/-- The new node hangs from its place, written up to this field. -/
def Growing (memory : Memory Addr) (key : Int) (place : Place Addr) (field : Field) (target : Addr) : Prop :=
  ∃ old tree, old.Holds tree ∧ tree.place key .root = place ∧ Grown old memory place target (field.before key)

section Positions
variable {memory : Memory Addr} {key : Int} {place : Place Addr} {leaf target : Addr} {field : Field}

theorem Descending.root {tree : SearchTree Addr Int} (holds : memory.Holds tree) :
    Descending memory key .root memory.root :=
  ⟨tree, tree, holds, holds.shows, rfl⟩

theorem Descending.node (descending : Descending memory key place (some leaf)) :
    ∃ at_, memory.keyValue leaf = some at_ ∧
      ∃ next, memory.load (.child leaf (if key < at_ then .left else .right)) = some next ∧
        Descending memory key (.child leaf (if key < at_ then .left else .right)) next := by
  obtain ⟨tree, below, holds, shown, same⟩ := descending
  cases below with
  | empty => cases shown
  | node label at_ left right =>
    obtain ⟨here, own, ⟨toLeft, leftLink, leftShown⟩, toRight, rightLink, rightShown⟩ := shown
    cases here
    refine ⟨at_, own, ?_⟩
    rw [SearchTree.place] at same
    by_cases smaller : key < at_
    · simp only [if_pos smaller] at same ⊢
      exact ⟨toLeft, leftLink, tree, left, holds, leftShown, same⟩
    · simp only [if_neg smaller] at same ⊢
      exact ⟨toRight, rightLink, tree, right, holds, rightShown, same⟩

theorem Descending.null (descending : Descending memory key place none) :
    ∃ tree, memory.Holds tree ∧ tree.place key .root = place := by
  obtain ⟨tree, below, holds, shown, same⟩ := descending
  cases below with
  | empty => exact ⟨tree, holds, same⟩
  | node label at_ left right => cases shown.1

theorem Searching.root {tree : SearchTree Addr Int} (holds : memory.Holds tree) :
    Searching memory key memory.root :=
  ⟨tree, holds.shows, holds.ordered, holds.mem_keys⟩

theorem Searching.null (searching : Searching memory key none) : key ∉ memory.keys := by
  obtain ⟨below, shown, _, same⟩ := searching
  cases below with
  | empty => simp [same]
  | node label at_ left right => cases shown.1

theorem Searching.node (searching : Searching memory key (some leaf)) :
    ∃ at_, memory.keyValue leaf = some at_ ∧ (key = at_ → key ∈ memory.keys) ∧
      (key ≠ at_ → ∃ next, memory.load (.child leaf (if key < at_ then .left else .right)) = some next ∧
        Searching memory key next) := by
  obtain ⟨below, shown, ordered, same⟩ := searching
  cases below with
  | empty => cases shown
  | node label at_ left right =>
    obtain ⟨here, own, ⟨toLeft, leftLink, leftShown⟩, toRight, rightLink, rightShown⟩ := shown
    cases here
    refine ⟨at_, own, ?_, ?_⟩
    · intro found
      subst found
      exact ⟨leaf, own⟩
    · intro different
      rw [ordered.mem_keys different] at same
      by_cases smaller : key < at_
      · simp only [if_pos smaller] at same ⊢
        exact ⟨toLeft, leftLink, left, leftShown, ordered.1, same⟩
      · simp only [if_neg smaller] at same ⊢
        exact ⟨toRight, rightLink, right, rightShown, ordered.2.1, same⟩

theorem Growing.place_owner (growing : Growing memory key place field target) : place.owner ≠ some target := by
  obtain ⟨old, tree, holds, rfl, grown⟩ := growing
  exact holds.place_owner grown.fresh key

theorem Growing.linked (growing : Growing memory key place field target) :
    memory.load place = some (some target) := by
  obtain ⟨old, tree, holds, rfl, grown⟩ := growing
  exact grown.linked

end Positions

section Knows
variable [DecidableEq Addr]

def Knows (memory : Memory Addr) : Pc Addr → Prop
  | .test key place => ∃ pointer, memory.load place = some pointer ∧ Descending memory key place pointer
  | .descend key place => ∃ leaf, memory.load place = some (some leaf) ∧ Descending memory key place (some leaf)
  | .less key leaf => leaf ≠ none ∧ ∃ place, Descending memory key place leaf
  | .notLess key leaf => (∃ place, Descending memory key place (some leaf)) ∧
      ∃ other, memory.keyValue leaf = some other ∧ other ≤ key
  | .allocate key place => ∃ tree, memory.Holds tree ∧ tree.place key .root = place
  | .link key place target => ∃ (old : Memory Addr) (tree : SearchTree Addr Int),
      old.Holds tree ∧ tree.place key .root = place ∧ old.heap target = none ∧
        memory = old.allocate target
  | .locate key place field => ∃ target, Growing memory key place field target
  | .store key place field target => Growing memory key place field target
  | .unlockWrite => ∃ tree, memory.Holds tree
  | .readRoot key => Searching memory key memory.root
  | .visit key leaf => Searching memory key leaf
  | .equal key leaf => Searching memory key (some leaf)
  | .lessThan key leaf => Searching memory key (some leaf) ∧ memory.keyValue leaf ≠ some key
  | .follow key leaf side => ∃ next, memory.load (.child leaf side) = some next ∧ Searching memory key next
  | _ => True

variable {memory later : Memory Addr} {pc after : Pc Addr} {action : Option (Action Call Ret)}
variable {key : Int} {place : Place Addr} {target : Addr} {field : Field}

/-- Writing a field takes the new node to its next field, and after the last one the
memory holds a tree again. -/
theorem Growing.store (growing : Growing memory key place field target)
    (written : memory.modify target (field.write key) = some later) : Knows later (field.next key place) := by
  have owner := growing.place_owner
  obtain ⟨old, tree, holds, rfl, grown⟩ := growing
  have next := grown.write owner written
  cases field with
  | keyValue => exact ⟨target, old, tree, holds, rfl, next⟩
  | left => exact ⟨target, old, tree, holds, rfl, next⟩
  | right => exact ⟨_, Grown.holds_insert holds next⟩

theorem Local.knows (moved : Local memory pc action later after) (knows : Knows memory pc) :
    Knows later after := by
  cases moved with
  | testNull read =>
    obtain ⟨pointer, there, descending⟩ := knows
    cases there.symm.trans read
    exact descending.null
  | testNode read =>
    obtain ⟨pointer, there, descending⟩ := knows
    cases there.symm.trans read
    exact ⟨_, read, descending⟩
  | descend read =>
    obtain ⟨leaf, there, descending⟩ := knows
    cases there.symm.trans read
    exact ⟨Option.some_ne_none _, _, descending⟩
  | less read smaller =>
    obtain ⟨_, place, descending⟩ := knows
    obtain ⟨at_, own, next, link, onward⟩ := descending.node
    cases own.symm.trans read
    rw [if_pos smaller] at link onward
    exact ⟨next, link, onward⟩
  | lessNot read larger =>
    obtain ⟨_, descending⟩ := knows
    exact ⟨descending, _, read, not_lt.mp larger⟩
  | notLess read larger =>
    obtain ⟨⟨place, descending⟩, _⟩ := knows
    obtain ⟨at_, own, next, link, onward⟩ := descending.node
    cases own.symm.trans read
    rw [if_neg (not_lt.mpr larger)] at link onward
    exact ⟨next, link, onward⟩
  | neither read smaller =>
    obtain ⟨_, at_, own, larger⟩ := knows
    cases own.symm.trans read
    exact absurd larger smaller
  | allocate fresh =>
    obtain ⟨tree, holds, same⟩ := knows
    exact ⟨memory, tree, holds, same, fresh, rfl⟩
  | @link key place target _ linked =>
    obtain ⟨old, tree, holds, rfl, fresh, rfl⟩ := knows
    exact ⟨target, old, tree, holds, rfl, Grown.of_link fresh (holds.place_owner fresh key) linked⟩
  | locate read =>
    obtain ⟨target, growing⟩ := knows
    cases growing.linked.symm.trans read
    exact growing
  | store written => exact Growing.store knows written
  | readRoot => exact knows
  | visitNull => trivial
  | visitNode => exact knows
  | equal read => trivial
  | different read different =>
    refine ⟨knows, ?_⟩
    rw [read]
    exact fun same => different (Option.some.inj same).symm
  | lessThan read =>
    obtain ⟨searching, different⟩ := knows
    obtain ⟨at_, own, _, onward⟩ := searching.node
    cases own.symm.trans read
    exact onward fun same => different (same ▸ read)
  | follow read =>
    obtain ⟨next, link, searching⟩ := knows
    cases link.symm.trans read
    exact searching
  | fault fails => exact knows

theorem Knows.not_fails (knows : Knows memory pc) : ¬pc.Fails memory := by
  intro fails
  cases pc with
  | test key place =>
    obtain ⟨pointer, there, _⟩ := knows
    cases there.symm.trans fails
  | descend key place =>
    obtain ⟨leaf, there, _⟩ := knows
    cases there.symm.trans fails
  | less key leaf =>
    obtain ⟨filled, place, descending⟩ := knows
    cases leaf with
    | none => exact filled rfl
    | some leaf =>
      obtain ⟨at_, own, _⟩ := descending.node
      cases own.symm.trans fails
  | notLess key leaf =>
    obtain ⟨_, at_, own, _⟩ := knows
    cases own.symm.trans fails
  | link key place target =>
    obtain ⟨old, tree, holds, rfl, fresh, rfl⟩ := knows
    exact holds.linkable fresh key fails
  | locate key place field =>
    obtain ⟨target, growing⟩ := knows
    rw [Pc.Fails, growing.linked] at fails
    cases fails
  | store key place field target =>
    obtain ⟨old, tree, _, _, grown⟩ := knows
    rw [Pc.Fails, Memory.modify, grown.own] at fails
    cases fails
  | equal key leaf =>
    obtain ⟨at_, own, _⟩ := Searching.node knows
    cases own.symm.trans fails
  | lessThan key leaf =>
    obtain ⟨at_, own, _⟩ := knows.1.node
    cases own.symm.trans fails
  | follow key leaf side =>
    obtain ⟨next, link, _⟩ := knows
    cases link.symm.trans fails
  | _ => exact fails

end Knows

end CppRt.RwlockTree

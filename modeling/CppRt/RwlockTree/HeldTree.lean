import CppRt.RwlockTree.Memory

/-!
The search tree a memory holds, and how an insert changes it. While insert writes
the fields of the node it has linked, the memory holds no tree: a reader would meet
fields without a value. What it is then is said against the memory from before: the
same everywhere but at the new node and at the one pointer to it. When the last
field is written, the memory holds the old tree with the key inserted.
-/

namespace CppRt.RwlockTree
open Library

variable {Addr : Type*}

namespace Memory

def keys (memory : Memory Addr) : Set Int := {key | ∃ leaf, memory.keyValue leaf = some key}

theorem keys_allocate [DecidableEq Addr] {memory : Memory Addr} {target : Addr}
    (fresh : memory.heap target = none) : (memory.allocate target).keys = memory.keys := by
  have same (leaf : Addr) : (memory.allocate target).keyValue leaf = memory.keyValue leaf := by
    by_cases new : leaf = target
    · simp [keyValue, allocate, new, fresh, Node.fresh]
    · exact keyValue_congr (Function.update_of_ne new _ _)
  simp only [keys, same]

/-- The nodes reachable from a pointer are those of a finite tree. -/
def Shows (memory : Memory Addr) : Option Addr → SearchTree Addr Int → Prop
  | pointer, .empty => pointer = none
  | pointer, .node leaf key left right => pointer = some leaf ∧ memory.keyValue leaf = some key ∧
      (∃ first, memory.load (.child leaf .left) = some first ∧ memory.Shows first left) ∧
      ∃ second, memory.load (.child leaf .right) = some second ∧ memory.Shows second right

/-- A tree is reachable from the root in an ordered way, each node in one way, and
no other node is allocated. -/
structure Holds (memory : Memory Addr) (tree : SearchTree Addr Int) : Prop where
  shows : memory.Shows memory.root tree
  distinct : tree.labels.Nodup
  ordered : tree.Ordered
  all : ∀ leaf, memory.heap leaf ≠ none → leaf ∈ tree.labels

section Shows
variable {memory later : Memory Addr} {pointer : Option Addr} {tree : SearchTree Addr Int}

theorem Shows.frame (shown : memory.Shows pointer tree)
    (keys : ∀ leaf ∈ tree.labels, later.keyValue leaf = memory.keyValue leaf)
    (links : ∀ leaf ∈ tree.labels, ∀ side, later.load (.child leaf side) = memory.load (.child leaf side)) :
    later.Shows pointer tree := by
  induction tree generalizing pointer with
  | empty => exact shown
  | node leaf key left right first second =>
    obtain ⟨here, own, ⟨toLeft, leftLink, leftShown⟩, toRight, rightLink, rightShown⟩ := shown
    have inside : leaf ∈ (SearchTree.node leaf key left right).labels := by simp
    refine ⟨here, (keys leaf inside).trans own, ⟨toLeft, (links leaf inside .left).trans leftLink, ?_⟩,
      toRight, (links leaf inside .right).trans rightLink, ?_⟩
    · exact first leftShown (fun other member => keys other (by simp [member]))
        fun other member => links other (by simp [member])
    · exact second rightShown (fun other member => keys other (by simp [member]))
        fun other member => links other (by simp [member])

theorem Shows.keyValue (shown : memory.Shows pointer tree) {leaf : Addr} {key : Int}
    (member : (leaf, key) ∈ tree.entries) : memory.keyValue leaf = some key := by
  induction tree generalizing pointer with
  | empty => cases member
  | node other at_ left right first second =>
    obtain ⟨_, own, ⟨_, _, leftShown⟩, _, _, rightShown⟩ := shown
    rcases List.mem_append.mp member with before | after
    · exact first leftShown before
    · rcases List.mem_cons.mp after with same | after
      · cases same
        exact own
      · exact second rightShown after

theorem Shows.unique {other : SearchTree Addr Int} (shown : memory.Shows pointer tree)
    (also : memory.Shows pointer other) : tree = other := by
  induction tree generalizing pointer other with
  | empty =>
    cases other with
    | empty => rfl
    | node => cases shown.symm.trans also.1
  | node leaf key left right first second =>
    obtain ⟨here, own, ⟨toLeft, leftLink, leftShown⟩, toRight, rightLink, rightShown⟩ := shown
    cases other with
    | empty => cases here.symm.trans also
    | node _ _ left' right' =>
      obtain ⟨here', own', ⟨_, leftLink', leftShown'⟩, _, rightLink', rightShown'⟩ := also
      cases here.symm.trans here'
      cases own.symm.trans own'
      cases leftLink.symm.trans leftLink'
      cases rightLink.symm.trans rightLink'
      rw [first leftShown leftShown', second rightShown rightShown']

theorem Shows.place_null (shown : memory.Shows pointer tree) (key : Int) {here : Place Addr}
    (hangs : memory.load here = some pointer) : memory.load (tree.place key here) = some none := by
  induction tree generalizing here pointer with
  | empty => exact hangs.trans (congrArg some shown)
  | node leaf at_ left right first second =>
    obtain ⟨_, _, ⟨toLeft, leftLink, leftShown⟩, toRight, rightLink, rightShown⟩ := shown
    rw [SearchTree.place]
    split
    · exact first leftShown leftLink
    · exact second rightShown rightLink

end Shows

namespace Holds
variable {memory : Memory Addr} {tree : SearchTree Addr Int}

theorem allocated (holds : memory.Holds tree) {leaf : Addr} (member : leaf ∈ tree.labels) :
    memory.heap leaf ≠ none := by
  obtain ⟨⟨_, key⟩, inside, rfl⟩ := List.mem_map.mp member
  have own := holds.shows.keyValue inside
  intro wrong
  rw [Memory.keyValue, wrong] at own
  cases own

theorem mem_keys (holds : memory.Holds tree) {key : Int} : key ∈ memory.keys ↔ key ∈ tree.keys := by
  constructor
  · intro member
    obtain ⟨leaf, own⟩ := member
    have there : memory.heap leaf ≠ none := by
      intro wrong
      rw [Memory.keyValue, wrong] at own
      cases own
    obtain ⟨⟨_, other⟩, inside, rfl⟩ := List.mem_map.mp (holds.all leaf there)
    have same := (holds.shows.keyValue inside).symm.trans own
    cases same
    exact List.mem_map.mpr ⟨_, inside, rfl⟩
  · intro member
    obtain ⟨⟨leaf, _⟩, inside, rfl⟩ := List.mem_map.mp member
    exact ⟨leaf, holds.shows.keyValue inside⟩

theorem place_owner (holds : memory.Holds tree) {target : Addr} (fresh : memory.heap target = none)
    (key : Int) : (tree.place key .root).owner ≠ some target := by
  rcases tree.place_cases key .root with ⟨_, same⟩ | ⟨parent, member, side, same⟩
  · rw [same]
    intro wrong
    cases wrong
  · rw [same]
    intro wrong
    cases wrong
    exact holds.allocated member fresh

theorem linkable [DecidableEq Addr] (holds : memory.Holds tree) {target : Addr}
    (fresh : memory.heap target = none) (key : Int) :
    (memory.allocate target).point (tree.place key .root) (some target) ≠ none := by
  rcases tree.place_cases key .root with ⟨_, same⟩ | ⟨parent, member, side, same⟩
  · rw [same]
    exact Option.some_ne_none _
  · have alive := holds.allocated member
    have different : parent ≠ target := by
      intro wrong
      exact alive (wrong ▸ fresh)
    have kept : (memory.allocate target).heap parent = memory.heap parent :=
      Function.update_of_ne different _ _
    rw [same]
    intro wrong
    exact alive (kept.symm.trans (Option.map_eq_none_iff.mp wrong))

end Holds

theorem holds_empty : (⟨none, fun _ => none⟩ : Memory Addr).Holds .empty where
  shows := rfl
  distinct := List.nodup_nil
  ordered := trivial
  all _ there := absurd rfl there

end Memory

/-- One more node than before, at `target`, and the pointer at `place` to it. -/
structure Grown (old memory : Memory Addr) (place : Place Addr) (target : Addr) (node : Node Addr) : Prop where
  fresh : old.heap target = none
  own : memory.heap target = some node
  linked : memory.load place = some (some target)
  keys : ∀ leaf, leaf ≠ target → memory.keyValue leaf = old.keyValue leaf
  links : ∀ other, other ≠ place → other.owner ≠ some target → memory.load other = old.load other
  heap : ∀ leaf, leaf ≠ target → memory.heap leaf ≠ none → old.heap leaf ≠ none

namespace Grown
variable {old memory later : Memory Addr} {place : Place Addr} {target : Addr} {node : Node Addr}
variable {tree : SearchTree Addr Int} {key : Int}

theorem mem_keys (grown : Grown old memory place target node) :
    key ∈ memory.keys ↔ node.keyValue = some key ∨ key ∈ old.keys := by
  have own : memory.keyValue target = node.keyValue := by simp [Memory.keyValue, grown.own]
  constructor
  · intro member
    obtain ⟨leaf, read⟩ := member
    by_cases same : leaf = target
    · subst same
      exact .inl (own.symm.trans read)
    · exact .inr ⟨leaf, (grown.keys leaf same).symm.trans read⟩
  · intro either
    rcases either with new | ⟨leaf, read⟩
    · exact ⟨target, own.trans new⟩
    · have different : leaf ≠ target := by
        intro same
        rw [same, Memory.keyValue, grown.fresh] at read
        cases read
      exact ⟨leaf, (grown.keys leaf different).trans read⟩

private theorem hook {here : Place Addr} {pointer : Option Addr} (filled : tree ≠ .empty)
    (grown : Grown old memory (tree.place key here) target node) (hangs : old.load here = some pointer)
    (apart : here.owner ≠ some target) (outside : ∀ leaf ∈ tree.labels, here.owner ≠ some leaf) :
    memory.load here = some pointer := by
  have elsewhere : here ≠ tree.place key here := by
    intro same
    rcases tree.place_cases key here with ⟨wrong, _⟩ | ⟨parent, member, side, inside⟩
    · exact filled wrong
    · rw [← same] at inside
      exact outside parent member (congrArg Place.owner inside)
  rw [grown.links here elsewhere apart, hangs]

private theorem aside {leaf : Addr} {side : Side} (opposite : Side) {pointer : Option Addr}
    {inner rest : SearchTree Addr Int}
    (grown : Grown old memory (inner.place key (.child leaf side)) target node)
    (across : opposite ≠ side) (other : target ≠ leaf) (notInner : leaf ∉ inner.labels)
    (notRest : leaf ∉ rest.labels) (disjoint : ∀ inside ∈ inner.labels, inside ∉ rest.labels)
    (fresh : target ∉ rest.labels) (hangs : old.load (.child leaf opposite) = some pointer)
    (shown : old.Shows pointer rest) :
    memory.load (.child leaf opposite) = some pointer ∧ memory.Shows pointer rest := by
  have elsewhere (parent : Addr) (facing : Side)
      (apart : parent = leaf ∧ facing = opposite ∨ parent ∈ rest.labels) :
      .child parent facing ≠ inner.place key (.child leaf side) := by
    intro same
    rcases inner.place_cases key (.child leaf side) with ⟨_, there⟩ | ⟨owner, member, _, there⟩
    · rw [there] at same
      cases same
      rcases apart with ⟨_, wrong⟩ | inside
      · exact across wrong.symm
      · exact notRest inside
    · rw [there] at same
      cases same
      rcases apart with ⟨rfl, _⟩ | inside
      · exact notInner member
      · exact disjoint _ member inside
  have different : ∀ inside ∈ rest.labels, inside ≠ target := fun inside member same => fresh (same ▸ member)
  constructor
  · rw [grown.links _ (elsewhere leaf opposite (.inl ⟨rfl, rfl⟩)) fun same => other (Option.some.inj same).symm]
    exact hangs
  · refine shown.frame (fun inside member => grown.keys inside (different inside member)) ?_
    intro inside member facing
    exact grown.links _ (elsewhere inside facing (.inr member))
      fun same => different inside member (Option.some.inj same)

theorem shows_insert {here : Place Addr} {pointer : Option Addr}
    (grown : Grown old memory (tree.place key here) target (.leafOf key))
    (shown : old.Shows pointer tree) (distinct : tree.labels.Nodup) (fresh : target ∉ tree.labels)
    (hangs : old.load here = some pointer) (apart : here.owner ≠ some target)
    (outside : ∀ leaf ∈ tree.labels, here.owner ≠ some leaf) :
    ∃ later, memory.load here = some later ∧ memory.Shows later (tree.insert target key) := by
  induction tree generalizing here pointer with
  | empty =>
    refine ⟨some target, grown.linked, rfl, ?_, ⟨none, ?_, rfl⟩, none, ?_, rfl⟩ <;>
      simp [Memory.keyValue, Memory.load, grown.own, Node.leafOf, Node.link]
  | node leaf at_ left right goesLeft goesRight =>
    have kept := grown.hook (fun wrong => by cases wrong) hangs apart outside
    obtain ⟨rfl, own, ⟨toLeft, leftLink, leftShown⟩, toRight, rightLink, rightShown⟩ := shown
    obtain ⟨leftDistinct, rightDistinct, notLeft, notRight, disjoint⟩ := SearchTree.nodup_node distinct
    simp only [SearchTree.labels_node, List.mem_append, List.mem_cons, not_or] at fresh
    obtain ⟨freshLeft, other, freshRight⟩ := fresh
    have key_kept : memory.keyValue leaf = some at_ := (grown.keys leaf (Ne.symm other)).trans own
    have below (side : Side) : (Place.child leaf side).owner ≠ some target :=
      fun same => other (Option.some.inj same).symm
    refine ⟨some leaf, kept, ?_⟩
    by_cases smaller : key < at_
    · simp only [SearchTree.place, if_pos smaller] at grown
      simp only [SearchTree.insert, if_pos smaller]
      obtain ⟨later, link, inserted⟩ := goesLeft grown leftShown leftDistinct freshLeft leftLink (below _)
        fun inside member same => notLeft ((Option.some.inj same) ▸ member)
      obtain ⟨rightKept, rightThere⟩ := grown.aside .right (by decide) other notLeft notRight
        disjoint freshRight rightLink rightShown
      exact ⟨rfl, key_kept, ⟨later, link, inserted⟩, toRight, rightKept, rightThere⟩
    · simp only [SearchTree.place, if_neg smaller] at grown
      simp only [SearchTree.insert, if_neg smaller]
      obtain ⟨later, link, inserted⟩ := goesRight grown rightShown rightDistinct freshRight rightLink (below _)
        fun inside member same => notRight ((Option.some.inj same) ▸ member)
      obtain ⟨leftKept, leftThere⟩ := grown.aside .left (by decide) other notRight notLeft
        (fun inside member also => disjoint inside also member) freshLeft leftLink leftShown
      exact ⟨rfl, key_kept, ⟨toLeft, leftKept, leftThere⟩, later, link, inserted⟩

/-- With the last field of the new node written, the memory holds the tree with the key inserted. -/
theorem holds_insert (holds : old.Holds tree) (grown : Grown old memory (tree.place key .root) target (.leafOf key)) :
    memory.Holds (tree.insert target key) := by
  have fresh : target ∉ tree.labels := fun member => holds.allocated member grown.fresh
  obtain ⟨later, link, shown⟩ := grown.shows_insert holds.shows holds.distinct fresh rfl
    (fun wrong => by cases wrong) fun leaf _ wrong => by cases wrong
  cases link
  refine ⟨shown, SearchTree.insert_labels.nodup_iff.mpr (List.nodup_cons.mpr ⟨fresh, holds.distinct⟩),
    holds.ordered.insert, ?_⟩
  intro leaf there
  rw [SearchTree.insert_labels.mem_iff, List.mem_cons]
  by_cases same : leaf = target
  · exact .inl same
  · exact .inr (holds.all leaf (grown.heap leaf same there))

section Write
variable [DecidableEq Addr]

theorem of_link (fresh : old.heap target = none) (owner : place.owner ≠ some target)
    (linked : (old.allocate target).point place (some target) = some memory) :
    Grown old memory place target .fresh := by
  have before (leaf : Addr) (different : leaf ≠ target) : (old.allocate target).heap leaf = old.heap leaf :=
    Function.update_of_ne different _ _
  have new : (old.allocate target).heap target = some .fresh := Function.update_self _ _ _
  cases place with
  | root =>
    cases linked
    refine ⟨fresh, new, rfl, fun leaf different => Memory.keyValue_congr (before leaf different), ?_,
      fun leaf different there => before leaf different ▸ there⟩
    intro other elsewhere apart
    cases other with
    | root => exact absurd rfl elsewhere
    | child leaf side => exact Memory.load_congr (before leaf fun same => apart (congrArg some same))
  | child parent side =>
    have different : parent ≠ target := fun same => owner (congrArg some same)
    have kept (leaf : Addr) (apart : leaf ≠ parent) : memory.heap leaf = (old.allocate target).heap leaf :=
      Memory.modify_other linked apart
    obtain ⟨node, there, rfl⟩ := Memory.modify_eq linked
    rw [before parent different] at there
    refine ⟨fresh, (kept target (Ne.symm different)).trans new, ?_, ?_, ?_, ?_⟩
    · simp [Memory.load]
    · intro leaf apart
      by_cases same : leaf = parent
      · subst same
        simp [Memory.keyValue, there]
      · exact Memory.keyValue_congr ((kept leaf same).trans (before leaf apart))
    · intro other elsewhere apart
      cases other with
      | root => rfl
      | child leaf facing =>
        by_cases same : leaf = parent
        · subst same
          have across : facing ≠ side := fun same => elsewhere (congrArg _ same)
          simp [Memory.load, there, Node.link_setLink_other node _ across]
        · exact Memory.load_congr ((kept leaf same).trans (before leaf fun same => apart (congrArg some same)))
    · intro leaf apart alive
      by_cases same : leaf = parent
      · subst same
        simp [there]
      · rwa [kept leaf same, before leaf apart] at alive

theorem write (grown : Grown old memory place target node) (owner : place.owner ≠ some target)
    {change : Node Addr → Node Addr} (written : memory.modify target change = some later) :
    Grown old later place target (change node) := by
  have kept (leaf : Addr) (different : leaf ≠ target) : later.heap leaf = memory.heap leaf :=
    Memory.modify_other written different
  obtain ⟨same, there, rfl⟩ := Memory.modify_eq written
  have own : same = node := Option.some.inj (there.symm.trans grown.own)
  subst own
  have links (other : Place Addr) (apart : other.owner ≠ some target) :
      ({ memory with heap := Function.update memory.heap target (some (change same)) } : Memory Addr).load other =
        memory.load other := by
    cases other with
    | root => rfl
    | child leaf side => exact Memory.load_congr (kept leaf fun same => apart (congrArg some same))
  exact ⟨grown.fresh, Function.update_self _ _ _, (links place owner).trans grown.linked,
    fun leaf different => (Memory.keyValue_congr (kept leaf different)).trans (grown.keys leaf different),
    fun other elsewhere apart => (links other apart).trans (grown.links other elsewhere apart),
    fun leaf different there => grown.heap leaf different (kept leaf different ▸ there)⟩

end Write

end Grown

end CppRt.RwlockTree

import Mathlib.Data.List.Nodup
import Mathlib.Data.List.Perm.Basic
import Mathlib.Order.Lattice
import Mathlib.Tactic.Common

/-!
Binary search trees whose nodes have a label besides their key, so that a tree kept
in linked nodes can be named by its addresses. A key equal to a node's own belongs
to the right of it. `place` is the place at which an insertion hangs its new node:
the place the tree itself hangs from, or one side of one of its nodes.
-/

namespace CppRt.Library
open scoped List

inductive Side where
  | left
  | right
  deriving DecidableEq

inductive Place (Label : Type*) where
  | root
  | child (parent : Label) (side : Side)
  deriving DecidableEq

def Place.owner {Label : Type*} : Place Label → Option Label
  | root => none
  | child parent _ => some parent

inductive SearchTree (Label Key : Type*) where
  | empty
  | node (label : Label) (key : Key) (left right : SearchTree Label Key)

namespace SearchTree
variable {Label Key : Type*}

def entries : SearchTree Label Key → List (Label × Key)
  | empty => []
  | node label key left right => left.entries ++ (label, key) :: right.entries

def labels (tree : SearchTree Label Key) : List Label := tree.entries.map Prod.fst

def keys (tree : SearchTree Label Key) : List Key := tree.entries.map Prod.snd

@[simp] theorem entries_empty : (empty : SearchTree Label Key).entries = [] := rfl

@[simp] theorem labels_empty : (empty : SearchTree Label Key).labels = [] := rfl

@[simp] theorem keys_empty : (empty : SearchTree Label Key).keys = [] := rfl

@[simp] theorem labels_node (label : Label) (key : Key) (left right : SearchTree Label Key) :
    (node label key left right).labels = left.labels ++ label :: right.labels := by
  simp [labels, entries]

@[simp] theorem keys_node (label : Label) (key : Key) (left right : SearchTree Label Key) :
    (node label key left right).keys = left.keys ++ key :: right.keys := by
  simp [keys, entries]

theorem nodup_node {label : Label} {key : Key} {left right : SearchTree Label Key}
    (distinct : (node label key left right).labels.Nodup) :
    left.labels.Nodup ∧ right.labels.Nodup ∧ label ∉ left.labels ∧ label ∉ right.labels ∧
      ∀ other ∈ left.labels, other ∉ right.labels := by
  rw [labels_node, List.nodup_middle, List.nodup_cons, List.nodup_append] at distinct
  obtain ⟨apart, first, second, disjoint⟩ := distinct
  rw [List.mem_append, not_or] at apart
  exact ⟨first, second, apart.1, apart.2, fun other here there => disjoint other here other there rfl⟩

variable [LinearOrder Key]

/-- Smaller keys hang to the left of a node, the others to its right. -/
def Ordered : SearchTree Label Key → Prop
  | empty => True
  | node _ key left right => left.Ordered ∧ right.Ordered ∧
      (∀ other ∈ left.keys, other < key) ∧ ∀ other ∈ right.keys, key ≤ other

def insert (label : Label) (key : Key) : SearchTree Label Key → SearchTree Label Key
  | empty => node label key empty empty
  | node other at_ left right =>
    if key < at_ then node other at_ (left.insert label key) right
    else node other at_ left (right.insert label key)

def place (key : Key) : Place Label → SearchTree Label Key → Place Label
  | here, empty => here
  | _, node label at_ left right =>
    if key < at_ then left.place key (.child label .left) else right.place key (.child label .right)

section Insert
variable {label : Label} {key : Key} {tree : SearchTree Label Key}

/-- An insertion adds its node and neither loses nor changes another. -/
theorem insert_entries : (tree.insert label key).entries ~ (label, key) :: tree.entries := by
  induction tree with
  | empty => exact List.Perm.refl _
  | node other at_ left right goesLeft goesRight =>
    by_cases smaller : key < at_
    · rw [insert, if_pos smaller]
      exact goesLeft.append_right _
    · rw [insert, if_neg smaller]
      calc left.entries ++ (other, at_) :: (right.insert label key).entries
        _ ~ left.entries ++ (other, at_) :: (label, key) :: right.entries :=
          (goesRight.cons _).append_left _
        _ ~ left.entries ++ (label, key) :: (other, at_) :: right.entries :=
          (List.Perm.swap _ _ _).append_left _
        _ ~ (label, key) :: (left.entries ++ (other, at_) :: right.entries) :=
          List.perm_middle

theorem insert_labels : (tree.insert label key).labels ~ label :: tree.labels :=
  insert_entries.map Prod.fst

theorem insert_keys : (tree.insert label key).keys ~ key :: tree.keys :=
  insert_entries.map Prod.snd

theorem mem_keys_insert {other : Key} : other ∈ (tree.insert label key).keys ↔ other = key ∨ other ∈ tree.keys := by
  rw [insert_keys.mem_iff, List.mem_cons]

theorem Ordered.insert (ordered : tree.Ordered) : (tree.insert label key).Ordered := by
  induction tree with
  | empty => simp [SearchTree.insert, Ordered]
  | node other at_ left right goesLeft goesRight =>
    obtain ⟨first, second, below, above⟩ := ordered
    by_cases smaller : key < at_
    · rw [SearchTree.insert, if_pos smaller]
      refine ⟨goesLeft first, second, ?_, above⟩
      intro added member
      rcases mem_keys_insert.mp member with rfl | old
      · exact smaller
      · exact below added old
    · rw [SearchTree.insert, if_neg smaller]
      refine ⟨first, goesRight second, below, ?_⟩
      intro added member
      rcases mem_keys_insert.mp member with rfl | old
      · exact not_lt.mp smaller
      · exact above added old

theorem place_cases (tree : SearchTree Label Key) (key : Key) (here : Place Label) :
    tree = empty ∧ tree.place key here = here ∨
      ∃ parent ∈ tree.labels, ∃ side, tree.place key here = .child parent side := by
  induction tree generalizing here with
  | empty => exact .inl ⟨rfl, rfl⟩
  | node other at_ left right goesLeft goesRight =>
    right
    by_cases smaller : key < at_
    · rw [place, if_pos smaller]
      rcases goesLeft (.child other .left) with ⟨_, same⟩ | ⟨parent, member, side, same⟩
      · exact ⟨other, by simp, .left, same⟩
      · exact ⟨parent, by simp [member], side, same⟩
    · rw [place, if_neg smaller]
      rcases goesRight (.child other .right) with ⟨_, same⟩ | ⟨parent, member, side, same⟩
      · exact ⟨other, by simp, .right, same⟩
      · exact ⟨parent, by simp [member], side, same⟩

end Insert

/-- A search that goes to one side of a node misses nothing on the other. -/
theorem Ordered.mem_keys {label : Label} {key at_ : Key} {left right : SearchTree Label Key}
    (ordered : (node label at_ left right).Ordered) (different : key ≠ at_) :
    key ∈ (node label at_ left right).keys ↔ key ∈ if key < at_ then left.keys else right.keys := by
  obtain ⟨_, _, below, above⟩ := ordered
  rw [keys_node, List.mem_append, List.mem_cons]
  by_cases smaller : key < at_
  · rw [if_pos smaller]
    constructor
    · intro member
      rcases member with here | same | there
      · exact here
      · exact absurd same different
      · exact absurd (above key there) (not_le.mpr smaller)
    · exact .inl
  · rw [if_neg smaller]
    constructor
    · intro member
      rcases member with here | same | there
      · exact absurd (below key here) smaller
      · exact absurd same different
      · exact there
    · exact fun there => .inr (.inr there)

theorem Ordered.sorted {tree : SearchTree Label Key} (ordered : tree.Ordered) : tree.keys.Pairwise (· ≤ ·) := by
  induction tree with
  | empty => exact .nil
  | node label at_ left right first second =>
    obtain ⟨leftOrdered, rightOrdered, below, above⟩ := ordered
    rw [keys_node, List.pairwise_append, List.pairwise_cons]
    refine ⟨first leftOrdered, ⟨above, second rightOrdered⟩, ?_⟩
    intro smaller here larger there
    have less := below smaller here
    rcases List.mem_cons.mp there with rfl | right
    · exact less.le
    · exact less.le.trans (above larger right)

end SearchTree

end CppRt.Library

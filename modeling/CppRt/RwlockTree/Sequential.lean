import CppRt.RwlockTree.BtreeCorrect

/-!
The calls of one btree one after the other. A call is what it does between taking and
releasing the lock, which it gets at once; between two calls the memory holds a
search tree whose keys are those inserted, with their multiplicities.
-/

namespace CppRt.RwlockTree
open Library Concurrent RwLock

variable {Addr : Type*} [DecidableEq Addr]

inductive Executes (first : Memory Addr) (entered : Pc Addr) : Memory Addr → Pc Addr → Prop where
  | refl : Executes first entered first entered
  | tail {memory later : Memory Addr} {pc after : Pc Addr} {action : Option (Action Call Ret)}
      (before : Executes first entered memory pc) (moved : Local memory pc action later after) :
      Executes first entered later after

def Call.locked : Call → Pc Addr
  | .insert key => .test key .root
  | .search key => .readRoot key

def Ret.unlocks : Ret → Pc Addr
  | .inserted => .unlockWrite
  | .found result => .unlockRead result

def Returns (memory : Memory Addr) (call : Call) (ret : Ret) (later : Memory Addr) : Prop :=
  Executes memory call.locked later ret.unlocks

/-- Some access of the call is to a field without a value or to no node at all. -/
def Faults (memory : Memory Addr) (call : Call) : Prop :=
  ∃ later pc, Executes memory call.locked later pc ∧ pc.Fails later

inductive Inserted : List Int → Memory Addr → Prop where
  | fresh : Inserted [] ⟨none, fun _ => none⟩
  | insert {keys : List Int} {key : Int} {memory later : Memory Addr} (before : Inserted keys memory)
      (returned : Returns memory (.insert key) .inserted later) : Inserted (keys ++ [key]) later

section Executes
variable {first memory later last : Memory Addr} {entered pc after at_ : Pc Addr} {key : Int}
variable {tree below : SearchTree Addr Int} {place : Place Addr} {pointer : Option Addr} {target : Addr}

theorem Executes.trans (left : Executes first entered memory pc) (right : Executes memory pc later after) :
    Executes first entered later after := by
  induction right with
  | refl => exact left
  | tail _ moved ih => exact ih.tail moved

theorem Executes.single {action : Option (Action Call Ret)} (moved : Local memory pc action later after) :
    Executes memory pc later after := Executes.refl.tail moved

theorem Executes.knows (executes : Executes first entered memory pc) (knows : Knows first entered) :
    Knows memory pc := by
  induction executes with
  | refl => exact knows
  | tail _ moved ih => exact moved.knows ih

theorem knows_locked (holds : memory.Holds tree) (call : Call) : Knows memory call.locked := by
  cases call with
  | insert key => exact ⟨memory.root, rfl, .root holds⟩
  | search key => exact .root holds

/-- On a memory that holds a tree, no access of a call goes wrong. -/
theorem not_faults (holds : memory.Holds tree) (call : Call) : ¬Faults memory call := by
  intro faults
  obtain ⟨later, pc, executes, fails⟩ := faults
  exact (executes.knows (knows_locked holds call)).not_fails fails

theorem Executes.reads (executes : Executes first (.readRoot key) memory pc)
    (knows : Knows first (.readRoot key)) : memory = first ∧ pc.holds = .reading ∧ ReadSection key first.keys first.keys pc := by
  induction executes with
  | refl => exact ⟨rfl, rfl, rfl, rfl⟩
  | @tail memory later pc after action before moved ih =>
    obtain ⟨rfl, reading, inside⟩ := ih
    have same : later = memory := by
      rcases moved.only_writes with writing | same
      · rw [reading] at writing
        cases writing
      · exact same
    subst same
    exact ⟨rfl, moved.holds.2.trans reading, moved.readSection (before.knows knows) inside⟩

def Inserting (old : Memory Addr) (key : Int) (memory : Memory Addr) : Pc Addr → Prop
  | .test held _ => held = key ∧ memory = old
  | .descend held _ => held = key ∧ memory = old
  | .less held _ => held = key ∧ memory = old
  | .notLess held _ => held = key ∧ memory = old
  | .allocate held _ => held = key ∧ memory = old
  | .link held place target => held = key ∧ (∃ tree, old.Holds tree ∧ tree.place key .root = place) ∧
      old.heap target = none ∧ memory = old.allocate target
  | .locate held place field => held = key ∧ (∃ tree, old.Holds tree ∧ tree.place key .root = place) ∧
      ∃ target, Grown old memory place target (field.before key)
  | .store held place field target => held = key ∧ (∃ tree, old.Holds tree ∧ tree.place key .root = place) ∧
      Grown old memory place target (field.before key)
  | .unlockWrite => ∃ tree target, old.Holds tree ∧ Grown old memory (tree.place key .root) target (.leafOf key)
  | _ => False

theorem Local.inserting {old : Memory Addr} {action : Option (Action Call Ret)}
    (moved : Local memory pc action later after) (knows : Knows memory pc)
    (inserting : Inserting old key memory pc) : Inserting old key later after := by
  cases moved with
  | testNull | testNode | descend | less | lessNot | notLess => exact inserting
  | neither read smaller =>
    obtain ⟨_, at_, own, larger⟩ := knows
    cases own.symm.trans read
    exact absurd larger smaller
  | allocate fresh =>
    obtain ⟨rfl, rfl⟩ := inserting
    exact ⟨rfl, knows, fresh, rfl⟩
  | @link held place target _ linked =>
    obtain ⟨rfl, ⟨tree, holds, rfl⟩, fresh, rfl⟩ := inserting
    exact ⟨rfl, ⟨tree, holds, rfl⟩, target, Grown.of_link fresh (holds.place_owner fresh held) linked⟩
  | @locate held place field target read =>
    obtain ⟨rfl, at_place, other, grown⟩ := inserting
    cases grown.linked.symm.trans read
    exact ⟨rfl, at_place, grown⟩
  | @store held place field target _ written =>
    obtain ⟨rfl, ⟨tree, holds, rfl⟩, grown⟩ := inserting
    have next := grown.write (holds.place_owner grown.fresh held) written
    cases field with
    | keyValue => exact ⟨rfl, ⟨tree, holds, rfl⟩, target, next⟩
    | left => exact ⟨rfl, ⟨tree, holds, rfl⟩, target, next⟩
    | right => exact ⟨tree, target, holds, next⟩
  | fault fails => exact absurd fails knows.not_fails
  | _ => exact inserting.elim

theorem Executes.inserting (executes : Executes first (.test key .root) memory pc)
    (knows : Knows first (.test key .root)) : Inserting first key memory pc := by
  induction executes with
  | refl => exact ⟨rfl, rfl⟩
  | tail before moved ih => exact moved.inserting (before.knows knows) ih

theorem grown_of_returns (holds : memory.Holds tree) (returned : Returns memory (.insert key) .inserted later) :
    ∃ target, Grown memory later (tree.place key .root) target (.leafOf key) := by
  obtain ⟨other, target, also, grown⟩ := Executes.inserting returned (knows_locked holds (.insert key))
  obtain rfl : tree = other := holds.shows.unique also.shows
  exact ⟨target, grown⟩

theorem found_of_returns {ret : Ret} (holds : memory.Holds tree) (returned : Returns memory (.search key) ret later) :
    later = memory ∧ ret = .found (decide (key ∈ tree.keys)) := by
  obtain ⟨same, reading, inside⟩ := Executes.reads returned (knows_locked holds (.search key))
  refine ⟨same, ?_⟩
  cases ret with
  | inserted => cases reading
  | found result =>
    have decided : result = true ↔ key ∈ tree.keys := inside.trans holds.mem_keys
    cases result <;> simp_all

theorem executes_place (shown : memory.Shows pointer below) (hangs : memory.load place = some pointer) (key : Int) :
    Executes memory (.test key place) memory (.allocate key (below.place key place)) := by
  induction below generalizing pointer place with
  | empty => exact .single (.testNull (hangs.trans (congrArg some shown)))
  | node leaf at_ left right first second =>
    obtain ⟨rfl, own, ⟨toLeft, leftLink, leftShown⟩, toRight, rightLink, rightShown⟩ := shown
    have enters : Executes memory (.test key place) memory (.less key (some leaf)) :=
      (Executes.single (.testNode hangs)).tail (.descend hangs)
    rw [SearchTree.place]
    by_cases smaller : key < at_
    · rw [if_pos smaller]
      exact (enters.tail (.less own smaller)).trans (first leftShown leftLink)
    · rw [if_neg smaller]
      have turns := (enters.tail (.lessNot own smaller)).tail (.notLess own (not_lt.mp smaller))
      exact turns.trans (second rightShown rightLink)

theorem insert_returns (holds : memory.Holds tree) (fresh : memory.heap target = none) (key : Int) :
    ∃ later, Returns memory (.insert key) .inserted later := by
  have owner := holds.place_owner fresh key
  obtain ⟨linked, link⟩ := Option.ne_none_iff_exists'.mp (holds.linkable fresh key)
  have hung := Grown.of_link fresh owner link
  have writes {memory : Memory Addr} {node : Node Addr} (change : Node Addr → Node Addr)
      (own : memory.heap target = some node) : ∃ later, memory.modify target change = some later := by
    rw [Memory.modify, own]
    exact ⟨_, rfl⟩
  obtain ⟨keyed, key_write⟩ := writes (Field.keyValue.write key) hung.own
  have hasKey := hung.write owner key_write
  obtain ⟨lefted, left_write⟩ := writes (Field.left.write key) hasKey.own
  have hasLeft := hasKey.write owner left_write
  obtain ⟨done, right_write⟩ := writes (Field.right.write key) hasLeft.own
  have reaches : Executes memory (.test key .root) memory (.allocate key (tree.place key .root)) :=
    executes_place holds.shows rfl key
  have creates := (reaches.tail (.allocate fresh)).tail (.link link)
  have keys := (creates.tail (.locate hung.linked)).tail (.store key_write)
  have lefts := (keys.tail (.locate hasKey.linked)).tail (.store left_write)
  exact ⟨done, (lefts.tail (.locate hasLeft.linked)).tail (.store right_write)⟩

theorem visit_returns (shown : memory.Shows pointer below) (key : Int) :
    ∃ result, Executes memory (.visit key pointer) memory (.unlockRead result) := by
  induction below generalizing pointer with
  | empty =>
    obtain rfl : pointer = none := shown
    exact ⟨false, .single .visitNull⟩
  | node leaf at_ left right first second =>
    obtain ⟨rfl, own, ⟨toLeft, leftLink, leftShown⟩, toRight, rightLink, rightShown⟩ := shown
    have visits : Executes memory (.visit key (some leaf)) memory (.equal key leaf) := .single .visitNode
    by_cases same : key = at_
    · subst same
      exact ⟨true, visits.tail (.equal own)⟩
    · have turns := (visits.tail (.different own same)).tail (.lessThan own)
      by_cases smaller : key < at_
      · rw [if_pos smaller] at turns
        obtain ⟨result, rest⟩ := first leftShown
        exact ⟨result, (turns.tail (.follow leftLink)).trans rest⟩
      · rw [if_neg smaller] at turns
        obtain ⟨result, rest⟩ := second rightShown
        exact ⟨result, (turns.tail (.follow rightLink)).trans rest⟩

theorem search_returns (holds : memory.Holds tree) (key : Int) :
    ∃ ret, Returns memory (.search key) ret memory := by
  obtain ⟨result, rest⟩ := visit_returns holds.shows key
  exact ⟨.found result, (Executes.single .readRoot).trans rest⟩

end Executes

/-- After these inserts the nodes are those of an ordered tree with these keys, and each
of the public calls finds and leaves it so. -/
structure SortedMultiset (keys : List Int) (memory : Memory Addr) (tree : SearchTree Addr Int) : Prop where
  holds : memory.Holds tree
  sorted : tree.keys.Pairwise (· ≤ ·)
  inserted : tree.keys.Perm keys
  sound : ∀ call, ¬Faults memory call
  inserts : ∀ key, ∃ later, Returns memory (.insert key) .inserted later
  adds : ∀ key later, Returns memory (.insert key) .inserted later →
    memory.load (tree.place key .root) = some none ∧
      ∃ target, Grown memory later (tree.place key .root) target (.leafOf key)
  searches : ∀ key, ∃ ret, Returns memory (.search key) ret memory
  finds : ∀ key ret later, Returns memory (.search key) ret later →
    later = memory ∧ ret = .found (decide (key ∈ keys))

theorem inserted_holds {keys : List Int} {memory : Memory Addr} (inserted : Inserted keys memory) :
    ∃ tree, memory.Holds tree ∧ tree.keys.Perm keys := by
  induction inserted with
  | fresh => exact ⟨.empty, Memory.holds_empty, .nil⟩
  | @insert keys key memory later before returned ih =>
    obtain ⟨tree, holds, same⟩ := ih
    obtain ⟨target, grown⟩ := grown_of_returns holds returned
    refine ⟨tree.insert target key, grown.holds_insert holds, ?_⟩
    exact SearchTree.insert_keys.trans ((same.cons key).trans (List.perm_append_singleton key keys).symm)

/-- Every sequence of inserts can be carried out, and makes a sorted multiset of its keys. -/
theorem inserts_sort (Addr : Type*) [DecidableEq Addr] [Infinite Addr] (keys : List Int) :
    (∃ memory : Memory Addr, Inserted keys memory) ∧
      ∀ memory : Memory Addr, Inserted keys memory → ∃ tree, SortedMultiset keys memory tree := by
  have all {memory : Memory Addr} {keys : List Int} (inserted : Inserted keys memory) :
      ∃ tree, SortedMultiset keys memory tree := by
    obtain ⟨tree, holds, same⟩ := inserted_holds inserted
    refine ⟨tree, holds, holds.ordered.sorted, same, not_faults holds, ?_, ?_, search_returns holds, ?_⟩
    · intro key
      obtain ⟨target, fresh⟩ := exists_fresh holds
      exact insert_returns holds fresh key
    · intro key later returned
      exact ⟨holds.shows.place_null key rfl, grown_of_returns holds returned⟩
    · intro key ret later returned
      rw [← decide_eq_decide.mpr same.mem_iff]
      exact found_of_returns holds returned
  refine ⟨?_, fun memory => all⟩
  induction keys using List.reverseRecOn with
  | nil => exact ⟨_, .fresh⟩
  | append_singleton keys key ih =>
    obtain ⟨memory, before⟩ := ih
    obtain ⟨tree, sorts⟩ := all before
    obtain ⟨later, returned⟩ := sorts.inserts key
    exact ⟨later, .insert before returned⟩

theorem inserts_sort_nat :
    ∃ memory : Memory Nat, ∃ tree, SortedMultiset [7, -2147483648, 7, 2147483647] memory tree := by
  obtain ⟨memory, inserted⟩ := (inserts_sort Nat [7, -2147483648, 7, 2147483647]).1
  exact ⟨memory, (inserts_sort Nat _).2 memory inserted⟩

end CppRt.RwlockTree

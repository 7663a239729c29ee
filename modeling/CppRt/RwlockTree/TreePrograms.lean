import CppRt.Library.ProgramOrder
import CppRt.RwlockTree.BtreeCorrect
import Mathlib.Data.Set.Card

/-!
What finitely many threads with any programs of insert and search leave behind. Every scheduler
brings them to the end of their programs; the lock is then free, and the tree is in order and has
each key as often as the programs insert it: no insert is lost to another, and none is made twice.

While a node is linked and not yet written the memory holds no tree, so the count that is followed
through a run is that of the nodes with a key in the whole memory. It grows by one at the write
that makes an insert take effect, and at no other step.
-/

namespace CppRt.RwlockTree
open Library Transition Concurrent RwLock Family

variable {Thread Addr : Type*}

namespace Memory

noncomputable def occurrences (memory : Memory Addr) (key : Int) : Nat :=
  Set.ncard {leaf | memory.keyValue leaf = some key}

section Frame
variable {memory later : Memory Addr} {leaf : Addr} {key : Int}

theorem occurrences_congr (same : ∀ leaf, later.keyValue leaf = memory.keyValue leaf) :
    later.occurrences key = memory.occurrences key := by
  simp only [occurrences, same]

variable [DecidableEq Addr] {target : Addr}

theorem keyValue_allocate (fresh : memory.heap target = none) :
    (memory.allocate target).keyValue leaf = memory.keyValue leaf := by
  by_cases new : leaf = target
  · simp [keyValue, allocate, new, fresh, Node.fresh]
  · exact keyValue_congr (Function.update_of_ne new _ _)

theorem keyValue_modify {write : Node Addr → Node Addr} (written : memory.modify target write = some later)
    (keeps : ∀ node, (write node).keyValue = node.keyValue) : later.keyValue leaf = memory.keyValue leaf := by
  by_cases here : leaf = target
  · obtain ⟨node, there, rfl⟩ := modify_eq written
    simp [keyValue, here, there, keeps]
  · exact keyValue_congr (modify_other written here)

theorem keyValue_point {place : Place Addr} {pointer : Option Addr} (pointed : memory.point place pointer = some later) :
    later.keyValue leaf = memory.keyValue leaf := by
  cases place with
  | root =>
    cases pointed
    rfl
  | child other side => exact keyValue_modify pointed fun node => node.keyValue_setLink side pointer

end Frame

section Holds
variable {memory : Memory Addr} {tree : SearchTree Addr Int}

theorem Holds.mem_entries (holds : memory.Holds tree) {leaf : Addr} {key : Int} :
    (leaf, key) ∈ tree.entries ↔ memory.keyValue leaf = some key := by
  constructor
  · exact holds.shows.keyValue
  · intro own
    have there : memory.heap leaf ≠ none := by
      intro wrong
      rw [keyValue, wrong] at own
      cases own
    obtain ⟨⟨_, other⟩, inside, rfl⟩ := List.mem_map.mp (holds.all leaf there)
    cases (holds.shows.keyValue inside).symm.trans own
    exact inside

theorem Holds.occurrences (holds : memory.Holds tree) (key : Int) : memory.occurrences key = tree.keys.count key := by
  classical
  have same : {leaf | memory.keyValue leaf = some key} =
      (((tree.entries.filter fun entry => entry.2 == key).map Prod.fst).toFinset : Set Addr) := by
    ext leaf
    simp [← holds.mem_entries]
  have distinct : ((tree.entries.filter fun entry => entry.2 == key).map Prod.fst).Nodup :=
    holds.distinct.sublist (List.filter_sublist.map Prod.fst)
  rw [Memory.occurrences, same, Set.ncard_coe_finset, List.toFinset_card_of_nodup distinct, List.length_map,
    SearchTree.keys, List.count_eq_countP, List.countP_map, List.countP_eq_length_filter]
  rfl

end Holds

end Memory

def insertions (key : Int) (trace : List (Label Thread Call Ret Empty)) : Nat :=
  ((commits trace).map Prod.snd).countP fun entry => entry.1 = .insert key

theorem insertions_append (key : Int) (before after : List (Label Thread Call Ret Empty)) :
    insertions key (before ++ after) = insertions key before + insertions key after := by
  rw [insertions, commits_append, List.map_append, List.countP_append]
  rfl

section Step
variable {memory later : Memory Addr} {pc after : Pc Addr} {action : Option (Action Call Ret)} [DecidableEq Addr]

theorem Growing.occurrences {place : Place Addr} {target : Addr} {key : Int}
    (growing : Growing memory key place .keyValue target)
    (written : memory.modify target (Field.write key .keyValue) = some later) (other : Int) :
    later.occurrences other = memory.occurrences other + if key = other then 1 else 0 := by
  obtain ⟨old, tree, holds, _, grown⟩ := growing
  have unwritten : memory.keyValue target = none := by
    simp [Memory.keyValue, grown.own, Field.before, Node.fresh]
  have finite : {leaf | memory.keyValue leaf = some other}.Finite := by
    refine tree.labels.toFinset.finite_toSet.subset fun leaf own => ?_
    have different : leaf ≠ target := by
      rintro rfl
      cases unwritten.symm.trans own
    have before : old.keyValue leaf = some other := (grown.keys leaf different).symm.trans own
    exact List.mem_toFinset.mpr (List.mem_map.mpr ⟨_, holds.mem_entries.mpr before, rfl⟩)
  have own : later.keyValue target = some key := by
    obtain ⟨node, _, rfl⟩ := Memory.modify_eq written
    simp [Memory.keyValue, Field.write]
  have others {leaf : Addr} (different : leaf ≠ target) : later.keyValue leaf = memory.keyValue leaf :=
    Memory.keyValue_congr (Memory.modify_other written different)
  by_cases same : key = other
  · subst same
    have more : {leaf | later.keyValue leaf = some key} = insert target {leaf | memory.keyValue leaf = some key} := by
      ext leaf
      by_cases here : leaf = target
      · simp [here, own]
      · simp [here, others here]
    rw [if_pos rfl, Memory.occurrences, more, Set.ncard_insert_of_notMem _ finite]
    · rfl
    · simp [unwritten]
  · rw [if_neg same]
    have kept : {leaf | later.keyValue leaf = some other} = {leaf | memory.keyValue leaf = some other} := by
      ext leaf
      by_cases here : leaf = target
      · simp [here, own, unwritten, same]
      · simp [others here]
    rw [Memory.occurrences, kept]
    rfl

theorem Local.occurrences (moved : Local memory pc action later after) (knows : Knows memory pc) (thread : Thread)
    (key : Int) : later.occurrences key = memory.occurrences key +
      insertions key (action.map (Label.act thread)).toList := by
  cases moved with
  | fault fails => exact absurd fails knows.not_fails
  | allocate fresh => exact Memory.occurrences_congr fun _ => Memory.keyValue_allocate fresh
  | link linked => exact Memory.occurrences_congr fun _ => Memory.keyValue_point linked
  | @store other place field target later written =>
    cases field with
    | keyValue =>
      rw [Growing.occurrences knows written]
      simp [insertions, Field.effect]
    | left | right => exact Memory.occurrences_congr fun _ => Memory.keyValue_modify written fun _ => rfl
  | visitNull | equal => simp [insertions]
  | _ => rfl

end Step

section Programs
variable [DecidableEq Thread] [DecidableEq Addr] {program : Thread → List Call}
variable {trace : List (Label Thread Call Ret Empty)} {state : Joint (State Thread Addr) (Thread → List Call)}

/-- A key has been written as often as its inserts have taken effect. -/
theorem occurrences_of_reaches (reached : (running program).Reaches trace state) (key : Int) :
    state.object.data.occurrences key = insertions key trace := by
  refine reached.invariant (fun trace state => state.object.data.occurrences key = insertions key trace) ?_ ?_
  · rintro ⟨_, _⟩ ⟨rfl, rfl⟩
    exact Memory.holds_empty.occurrences key
  · intro trace ⟨object, remaining⟩ label ⟨later, rest⟩ before kept step
    rw [insertions_append, ← kept]
    rcases programs_cases step with ⟨thread, action, rfl, own⟩ | ⟨_, woken⟩
    · cases own with
      | inside moved => exact moved.occurrences ((running_sound before).knows thread) thread key
      | _ => rfl
    · exact woken.elim

theorem insertions_eq_sum [Fintype Thread] (key : Int) (trace : List (Label Thread Call Ret Empty)) :
    insertions key trace = ∑ thread, (performed thread trace).count (.insert key) := by
  rw [insertions, countP_by_writer _ Function.injective_id fun entry _ _ => ⟨entry.1, rfl⟩]
  refine Finset.sum_congr rfl fun thread _ => ?_
  rw [performed, List.count_eq_countP, List.countP_map]
  rfl

/-- What is so when all threads have come to the end of their programs. -/
structure Finished [Fintype Thread] (program : Thread → List Call) (state : Joint (State Thread Addr) (Thread → List Call)) :
    Prop where
  free : state.object.lock = .shared []
  returned : ∀ thread, state.object.pc thread = .outside ∧ state.client thread = []
  tree : ∃ tree, state.object.data.Holds tree ∧ tree.keys.Pairwise (· ≤ ·) ∧
    ∀ key, tree.keys.count key = ∑ thread, (program thread).count (.insert key)

theorem finished_of_final [Fintype Thread] [Infinite Addr] (reached : (running program).Reaches trace state)
    (final : (running program).Final state) : Finished program state := by
  have sound := running_sound reached
  have stuck : Stuck (btree Thread Addr) (keySet.programs id program) state :=
    fun thread label next step => final label next (.inl ⟨thread, step⟩)
  obtain ⟨free, returned⟩ := Guarded.stuck_done lively sound stuck
  refine ⟨free, returned, ?_⟩
  obtain ⟨tree, holds⟩ : ∃ tree, state.object.data.Holds tree := sound.rests fun thread => by
    rw [(returned thread).1]
    exact Section.noConfusion
  refine ⟨tree, holds, holds.ordered.sorted, fun key => ?_⟩
  have abstractly := ((linearization Thread Addr).reaches (fun _ _ _ _ => trivial) reached).2
  rw [← holds.occurrences, occurrences_of_reaches reached, insertions_eq_sum]
  refine Finset.sum_congr rfl fun thread _ => ?_
  rw [performed_all abstractly (returned thread).2, List.map_id]

/-- Under every scheduler finitely many threads come to the end of their programs, and what they
have inserted is then all in the tree, and nothing else. -/
theorem programs_finish [Fintype Thread] [Infinite Addr] (reached : (running program).Reaches trace state) :
    (∀ run, run 0 = state → ¬(running program).Endless run) ∧
      (∃ more last, (running program).Run state more last ∧ (running program).Final last) ∧
        ((running program).Final state → Finished program state) := by
  obtain ⟨ends, completes⟩ := (ranking Thread Addr).programs_end (refinement Thread) reached
  exact ⟨ends, completes, finished_of_final reached⟩

theorem programs_finish_twice : ∃ trace last tree, (running fun _ : Bool => [.insert 7]).Reaches trace last ∧
    (last : Joint (State Bool Nat) _).object.data.Holds tree ∧ tree.keys.count 7 = 2 := by
  have begins : (running fun _ : Bool => [.insert 7]).Reaches [] (_ : Joint (State Bool Nat) _) := .first (running_start _)
  obtain ⟨_, ⟨more, last, run, final⟩, _⟩ := programs_finish begins
  obtain ⟨_, _, finished⟩ := programs_finish (begins.then run)
  obtain ⟨tree, holds, _, counts⟩ := (finished final).tree
  exact ⟨_, last, tree, begins.then run, holds, counts 7⟩

end Programs

end CppRt.RwlockTree

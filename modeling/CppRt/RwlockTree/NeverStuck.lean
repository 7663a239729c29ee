import CppRt.Library.GuardedLive
import CppRt.RwlockTree.BtreeLinearization
import Mathlib.Data.Fintype.EquivFin

/-!
Threads with any finite programs of insert and search on one btree never keep each other from
going on, and do not go on for ever. Whoever is in a section can make its next access, as long
as addresses do not run out, and with each access the part of the tree below it that it has
still to go through gets smaller.
-/

namespace CppRt.RwlockTree
open Library Transition Concurrent RwLock

variable {Thread Addr : Type*} [DecidableEq Addr]

section Lively
variable {memory : Memory Addr} {pc : Pc Addr}

omit [DecidableEq Addr] in
theorem exists_fresh [Infinite Addr] {memory : Memory Addr} {tree : SearchTree Addr Int} (holds : memory.Holds tree) :
    ∃ target, memory.heap target = none := by
  classical
  obtain ⟨target, outside⟩ := Infinite.exists_notMem_finset tree.labels.toFinset
  refine ⟨target, ?_⟩
  by_contra there
  exact outside (List.mem_toFinset.mpr (holds.all target there))

/-- A reader that knows its position goes on in its section or leaves it. -/
theorem Knows.reads (knows : Knows memory pc) (inside : pc.holds = .reading) :
    (∃ action later after, Local memory pc action later after) ∨ ∃ after, Unlock pc after := by
  have safe := knows.not_fails
  cases pc with
  | unlockRead found => exact .inr ⟨_, .search⟩
  | readRoot key => exact .inl ⟨_, _, _, .readRoot⟩
  | visit key leaf =>
    cases leaf with
    | none => exact .inl ⟨_, _, _, .visitNull⟩
    | some leaf => exact .inl ⟨_, _, _, .visitNode⟩
  | equal key leaf =>
    cases read : memory.keyValue leaf with
    | none => exact absurd read safe
    | some other =>
      by_cases same : key = other
      · rw [← same] at read
        exact .inl ⟨_, _, _, .equal read⟩
      · exact .inl ⟨_, _, _, .different read same⟩
  | lessThan key leaf =>
    cases read : memory.keyValue leaf with
    | none => exact absurd read safe
    | some other => exact .inl ⟨_, _, _, .lessThan read⟩
  | follow key leaf side =>
    obtain ⟨next, read, _⟩ := knows
    exact .inl ⟨_, _, _, .follow read⟩
  | _ => cases inside

theorem Knows.writes [Infinite Addr] (knows : Knows memory pc) (inside : pc.holds = .writing) :
    (∃ action later after, Local memory pc action later after) ∨ ∃ after, Unlock pc after := by
  have safe := knows.not_fails
  cases pc with
  | unlockWrite => exact .inr ⟨_, .insert⟩
  | test key place =>
    cases read : memory.load place with
    | none => exact absurd read safe
    | some pointer =>
      cases pointer with
      | none => exact .inl ⟨_, _, _, .testNull read⟩
      | some leaf => exact .inl ⟨_, _, _, .testNode read⟩
  | descend key place =>
    cases read : memory.load place with
    | none => exact absurd read safe
    | some pointer => exact .inl ⟨_, _, _, .descend read⟩
  | less key leaf =>
    cases leaf with
    | none => exact absurd rfl safe
    | some leaf =>
      cases read : memory.keyValue leaf with
      | none => exact absurd read safe
      | some other =>
        by_cases smaller : key < other
        · exact .inl ⟨_, _, _, .less read smaller⟩
        · exact .inl ⟨_, _, _, .lessNot read smaller⟩
  | notLess key leaf =>
    cases read : memory.keyValue leaf with
    | none => exact absurd read safe
    | some other =>
      by_cases larger : key ≥ other
      · exact .inl ⟨_, _, _, .notLess read larger⟩
      · exact .inl ⟨_, _, _, .neither read larger⟩
  | allocate key place =>
    obtain ⟨tree, holds, _⟩ := knows
    obtain ⟨target, fresh⟩ := exists_fresh holds
    exact .inl ⟨_, _, _, .allocate fresh⟩
  | link key place target =>
    obtain ⟨later, linked⟩ := Option.ne_none_iff_exists'.mp safe
    exact .inl ⟨_, _, _, .link linked⟩
  | locate key place field =>
    obtain ⟨target, growing⟩ := knows
    exact .inl ⟨_, _, _, .locate growing.linked⟩
  | store key place field target =>
    obtain ⟨later, written⟩ := Option.ne_none_iff_exists'.mp safe
    exact .inl ⟨_, _, _, .store written⟩
  | _ => cases inside

theorem Local.inner {later : Memory Addr} {after : Pc Addr} {action : Option (Action Call Ret)} {call : Call}
    (moved : Local memory pc action later after) : action ≠ some (.call call) := by
  cases moved with
  | @store key place field target =>
    cases field with
    | keyValue | left | right => exact fun wrong => by cases wrong
  | _ => exact fun wrong => by cases wrong

theorem lively [Infinite Addr] [DecidableEq Thread] :
    (discipline Thread : (guarded Thread : Guarded _ (Memory Addr) _ _ _).Discipline).Lively where
  inner moved := moved.inner
  goes {memory pc} knows inside := by
    cases at_ : pc.holds with
    | outside => exact absurd at_ inside
    | reading => exact Knows.reads knows at_
    | writing => exact Knows.writes knows at_
  waits {pc} outside := by
    cases pc with
    | outside => exact .inl rfl
    | rdlock key => exact .inr (.inl ⟨_, .search⟩)
    | wrlock key => exact .inr (.inr (.inl ⟨_, .insert⟩))
    | returning ret => exact .inr (.inr (.inr ⟨ret, rfl⟩))
    | _ => cases outside

end Lively

section Size
omit [DecidableEq Addr]
variable {memory : Memory Addr} {pointer : Option Addr} {below : SearchTree Addr Int} {leaf : Addr}

open Classical in
noncomputable def Memory.size (memory : Memory Addr) (pointer : Option Addr) : Nat :=
  if shown : ∃ below, memory.Shows pointer below then shown.choose.entries.length else 0

theorem Memory.Shows.size (shown : memory.Shows pointer below) : memory.size pointer = below.entries.length := by
  have some : ∃ below, memory.Shows pointer below := ⟨below, shown⟩
  rw [Memory.size, dif_pos some, shown.unique some.choose_spec]

theorem Memory.Shows.size_child (shown : memory.Shows (some leaf) below) (side : Side) :
    memory.size (memory.load (.child leaf side)).join < memory.size (some leaf) := by
  cases below with
  | empty => cases shown
  | node label key left right =>
    rw [shown.size, SearchTree.entries, List.length_append, List.length_cons]
    obtain ⟨here, _, ⟨first, leftLink, leftShown⟩, second, rightLink, rightShown⟩ := shown
    cases here
    cases side with
    | left =>
      rw [leftLink, Option.join_some, leftShown.size]
      omega
    | right =>
      rw [rightLink, Option.join_some, rightShown.size]
      omega

end Size

section Work
variable {memory later : Memory Addr} {pc after : Pc Addr} {action : Option (Action Call Ret)}

/-- How many accesses a section has still to make at most. -/
noncomputable def Pc.work (memory : Memory Addr) : Pc Addr → Nat
  | .test _ place => 4 * memory.size (memory.load place).join + 9
  | .descend _ place => 4 * memory.size (memory.load place).join + 8
  | .less _ leaf => 4 * memory.size leaf + 7
  | .notLess _ leaf => 4 * memory.size (some leaf) + 6
  | .allocate _ _ => 8
  | .link _ _ _ => 7
  | .locate _ _ .keyValue => 6
  | .store _ _ .keyValue _ => 5
  | .locate _ _ .left => 4
  | .store _ _ .left _ => 3
  | .locate _ _ .right => 2
  | .store _ _ .right _ => 1
  | .readRoot _ => 4 * memory.size memory.root + 2
  | .visit _ leaf => 4 * memory.size leaf + 1
  | .equal _ leaf => 4 * memory.size (some leaf)
  | .lessThan _ leaf => 4 * memory.size (some leaf) - 1
  | .follow _ leaf side => 4 * memory.size (memory.load (.child leaf side)).join + 2
  | _ => 0

theorem Local.work_lt (moved : Local memory pc action later after) (knows : Knows memory pc) :
    after.work later < pc.work memory := by
  cases moved with
  | testNull | testNode | lessNot | neither | allocate | link | readRoot | visitNull | visitNode =>
    simp only [Pc.work]
    omega
  | descend read | follow read =>
    simp only [Pc.work, read, Option.join_some]
    omega
  | less =>
    obtain ⟨_, place, _, below, _, shown, _⟩ := knows
    have smaller := shown.size_child .left
    simp only [Pc.work]
    omega
  | notLess =>
    obtain ⟨⟨place, _, below, _, shown, _⟩, _⟩ := knows
    have smaller := shown.size_child .right
    simp only [Pc.work]
    omega
  | @locate key place field =>
    cases field <;> simp only [Pc.work] <;> omega
  | @store key place field =>
    cases field <;> simp only [Pc.work, Field.next] <;> omega
  | equal | different =>
    obtain ⟨below, shown, _⟩ := knows
    have smaller := shown.size_child .left
    simp only [Pc.work]
    omega
  | @lessThan key other leaf _ =>
    obtain ⟨⟨below, shown, _⟩, _⟩ := knows
    have smaller := shown.size_child (if key < other then .left else .right)
    simp only [Pc.work]
    omega
  | fault fails => exact absurd fails knows.not_fails

def Pc.stage : Pc Addr → Nat
  | .outside => 3
  | .wrlock _ | .rdlock _ => 2
  | .returning _ => 0
  | _ => 1

theorem Local.stage (moved : Local memory pc action later after) : after.stage = pc.stage := by
  cases moved with
  | @store key place field => cases field <;> rfl
  | fault fails => rfl
  | _ => rfl

noncomputable def ranking (Thread Addr : Type*) [DecidableEq Thread] [DecidableEq Addr] :
    (discipline Thread : (guarded Thread : Guarded _ (Memory Addr) _ _ _).Discipline).Ranking where
  stage := Pc.stage
  work := Pc.work
  entry call := by cases call <;> exact Nat.lt_succ_self 2
  rdlock takes := by
    cases takes
    exact Nat.lt_succ_self 1
  wrlock takes := by
    cases takes
    exact Nat.lt_succ_self 1
  unlock leaves := by cases leaves <;> exact Nat.lt_succ_self 0
  moves moved knows := ⟨moved.stage, moved.work_lt knows⟩

end Work

end CppRt.RwlockTree

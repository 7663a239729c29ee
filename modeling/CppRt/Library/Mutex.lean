import Mathlib.Tactic.Common

/-!
A mutex as the operating system keeps it: nobody's, or one owner's together
with how many further times that owner has locked it. A mutex that has an owner
and no lock cannot be written down. The recursive and the plain kind differ only
in what a lock by the present owner does.
-/

namespace CppRt.Library

inductive Mutex (Thread : Type*) where
  | free
  | held (owner : Thread) (extra : Nat)

namespace Mutex
variable {Thread : Type*} [DecidableEq Thread] {mutex next : Mutex Thread} {thread other : Thread}

def depth : Mutex Thread → Thread → Nat
  | free, _ => 0
  | held owner extra, thread => if thread = owner then extra + 1 else 0

/-- PTHREAD_MUTEX_RECURSIVE: the owner locks again, any other thread waits. -/
def lockRecursive (mutex : Mutex Thread) (thread : Thread) : Option (Mutex Thread) :=
  match mutex with
  | free => some (held thread 0)
  | held owner extra => if thread = owner then some (held owner (extra + 1)) else none

/-- The default kind: every thread waits while there is an owner, the owner included. -/
def lockPlain (mutex : Mutex Thread) (thread : Thread) : Option (Mutex Thread) :=
  match mutex with
  | free => some (held thread 0)
  | held _ _ => none

/-- One unlock by the owner; by any other thread it is undefined. -/
def unlock (mutex : Mutex Thread) (thread : Thread) : Option (Mutex Thread) :=
  match mutex with
  | free => none
  | held owner extra =>
    if thread = owner then
      match extra with
      | 0 => some free
      | extra + 1 => some (held owner extra)
    else none

@[simp] theorem depth_free (thread : Thread) : (free : Mutex Thread).depth thread = 0 := rfl

theorem lockRecursive_held (thread : Thread) (extra : Nat) :
    (held thread extra).lockRecursive thread = some (held thread (extra + 1)) := if_pos rfl

theorem unlock_held (thread : Thread) : (held thread 0).unlock thread = some free := if_pos rfl

theorem unlock_held_succ (thread : Thread) (extra : Nat) :
    (held thread (extra + 1)).unlock thread = some (held thread extra) := if_pos rfl

theorem exclusive (first : 0 < mutex.depth thread) (second : 0 < mutex.depth other) :
    thread = other := by
  cases mutex with
  | free => simp at first
  | held owner extra =>
    simp only [depth] at first second
    split_ifs at first second with same again
    · exact same.trans again.symm
    all_goals omega

theorem free_of_depth (none_holds : ∀ thread, mutex.depth thread = 0) : mutex = free := by
  cases mutex with
  | free => rfl
  | held owner extra => simpa [depth] using none_holds owner

omit [DecidableEq Thread] in
theorem lockPlain_eq (locked : mutex.lockPlain thread = some next) :
    mutex = free ∧ next = held thread 0 := by
  cases mutex with
  | free => exact ⟨rfl, (Option.some.inj locked).symm⟩
  | held owner extra => cases locked

theorem depth_lockRecursive (locked : mutex.lockRecursive thread = some next) :
    next.depth thread = mutex.depth thread + 1 ∧
      ∀ other, other ≠ thread → next.depth other = mutex.depth other := by
  cases mutex with
  | free =>
    cases locked
    exact ⟨by simp [depth], fun other different => by simp [depth, different]⟩
  | held owner extra =>
    simp only [lockRecursive] at locked
    split_ifs at locked with same
    cases locked
    subst same
    exact ⟨by simp [depth], fun other different => by simp [depth, different]⟩

theorem depth_lockPlain (locked : mutex.lockPlain thread = some next) :
    next.depth thread = mutex.depth thread + 1 ∧
      ∀ other, other ≠ thread → next.depth other = mutex.depth other := by
  obtain ⟨rfl, rfl⟩ := lockPlain_eq locked
  exact ⟨by simp [depth], fun other different => by simp [depth, different]⟩

theorem depth_unlock (unlocked : mutex.unlock thread = some next) :
    mutex.depth thread = next.depth thread + 1 ∧
      ∀ other, other ≠ thread → next.depth other = mutex.depth other := by
  cases mutex with
  | free => cases unlocked
  | held owner extra =>
    simp only [unlock] at unlocked
    split_ifs at unlocked with same
    subst same
    cases extra <;> cases unlocked <;>
      exact ⟨by simp [depth], fun other different => by simp [depth, different]⟩

theorem lockRecursive_enabled (others : ∀ other, other ≠ thread → mutex.depth other = 0) :
    ∃ next, mutex.lockRecursive thread = some next := by
  cases mutex with
  | free => exact ⟨_, rfl⟩
  | held owner extra =>
    by_cases same : thread = owner
    · exact ⟨_, if_pos same⟩
    · simpa [depth] using others owner (Ne.symm same)

theorem lockPlain_enabled (nobody : ∀ thread, mutex.depth thread = 0) (thread : Thread) :
    ∃ next, mutex.lockPlain thread = some next := by
  rw [free_of_depth nobody]
  exact ⟨_, rfl⟩

theorem unlock_enabled (locked : 0 < mutex.depth thread) : ∃ next, mutex.unlock thread = some next := by
  cases mutex with
  | free => simp at locked
  | held owner extra =>
    simp only [depth] at locked
    split_ifs at locked with same
    · cases extra <;> simp [unlock, same]
    · omega

end Mutex

end CppRt.Library

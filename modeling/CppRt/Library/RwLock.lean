import Mathlib.Data.List.Count
import Mathlib.Tactic.Common

/-!
A readers-writer lock as the operating system keeps it: the threads that have it
for reading, a thread as often as it has taken it, or the one thread that writes.
Which waiting thread gets the lock is left open. A family of sections says which
threads the lock has been granted to; each operation of the lock moves one thread
from one section to another.
-/

namespace CppRt.Library
inductive RwLock (Thread : Type*) where
  | shared (readers : List Thread)
  | exclusive (writer : Thread)

namespace RwLock

inductive Section where
  | outside
  | reading
  | writing
  deriving DecidableEq

variable {Thread : Type*} [DecidableEq Thread] {lock next : RwLock Thread} {thread other : Thread}

/-- pthread_rwlock_rdlock: waits while there is a writer. -/
def rdlock : RwLock Thread → Thread → Option (RwLock Thread)
  | shared readers, thread => some (shared (thread :: readers))
  | exclusive _, _ => none

/-- pthread_rwlock_wrlock: waits while anybody has the lock. -/
def wrlock : RwLock Thread → Thread → Option (RwLock Thread)
  | shared [], thread => some (exclusive thread)
  | shared (_ :: _), _ => none
  | exclusive _, _ => none

/-- pthread_rwlock_unlock: gives up one lock of the caller, of either kind. -/
def unlock : RwLock Thread → Thread → Option (RwLock Thread)
  | shared readers, thread => if thread ∈ readers then some (shared (readers.erase thread)) else none
  | exclusive writer, thread => if thread = writer then some (shared []) else none

/-- The lock has been taken once by each thread in a section, in the mode of that section. -/
def Grants (lock : RwLock Thread) (sections : Thread → Section) : Prop :=
  match lock with
  | shared readers => ∀ thread, readers.count thread = 0 ∧ sections thread = .outside ∨
      readers.count thread = 1 ∧ sections thread = .reading
  | exclusive writer => ∀ thread, thread ≠ writer ∧ sections thread = .outside ∨
      thread = writer ∧ sections thread = .writing

namespace Grants
variable {sections : Thread → Section}

theorem start : (shared [] : RwLock Thread).Grants fun _ => .outside :=
  fun _ => .inl ⟨rfl, rfl⟩

theorem alone (grants : lock.Grants sections) (writes : sections thread = .writing)
    (inside : sections other ≠ .outside) : thread = other := by
  cases lock with
  | shared readers =>
    rcases grants thread with ⟨_, wrong⟩ | ⟨_, wrong⟩ <;> rw [wrong] at writes <;> cases writes
  | exclusive writer =>
    rcases grants thread with ⟨_, wrong⟩ | ⟨here, _⟩
    · rw [wrong] at writes
      cases writes
    · rcases grants other with ⟨_, out⟩ | ⟨there, _⟩
      · exact absurd out inside
      · exact here.trans there.symm

theorem no_writer (grants : lock.Grants sections) (locked : lock.rdlock thread = some next)
    (other : Thread) : sections other ≠ .writing := by
  cases lock with
  | shared readers =>
    intro wrong
    rcases grants other with ⟨_, out⟩ | ⟨_, reads⟩
    · exact absurd (out.symm.trans wrong) (by decide)
    · exact absurd (reads.symm.trans wrong) (by decide)
  | exclusive writer => cases locked

theorem nobody (grants : lock.Grants sections) (locked : lock.wrlock thread = some next)
    (other : Thread) : sections other = .outside := by
  match lock with
  | shared [] =>
    rcases grants other with ⟨_, out⟩ | ⟨wrong, _⟩
    · exact out
    · cases wrong
  | shared (_ :: _) => cases locked
  | exclusive _ => cases locked

theorem rdlock (grants : lock.Grants sections) (outside : sections thread = .outside)
    (locked : lock.rdlock thread = some next) : next.Grants (Function.update sections thread .reading) := by
  cases lock with
  | exclusive writer => cases locked
  | shared readers =>
    cases locked
    intro other
    by_cases same : other = thread
    · subst same
      rcases grants other with ⟨none, _⟩ | ⟨_, wrong⟩
      · right
        simp [none]
      · exact absurd (outside.symm.trans wrong) (by decide)
    · simpa [same, Ne.symm same] using grants other

theorem wrlock (grants : lock.Grants sections) (locked : lock.wrlock thread = some next) :
    next.Grants (Function.update sections thread .writing) := by
  have out := grants.nobody locked
  match lock with
  | shared [] =>
    cases locked
    intro other
    by_cases same : other = thread
    · subst same
      exact .inr ⟨rfl, Function.update_self _ _ _⟩
    · exact .inl ⟨same, (Function.update_of_ne same _ _).trans (out other)⟩
  | shared (_ :: _) => cases locked
  | exclusive _ => cases locked

theorem unlock (grants : lock.Grants sections) (unlocked : lock.unlock thread = some next) :
    next.Grants (Function.update sections thread .outside) := by
  cases lock with
  | shared readers =>
    simp only [RwLock.unlock] at unlocked
    split_ifs at unlocked with member
    cases unlocked
    intro other
    by_cases same : other = thread
    · subst same
      rcases grants other with ⟨none, _⟩ | ⟨one, _⟩
      · exact absurd member (List.count_eq_zero.mp none)
      · left
        simp [one]
    · simpa [same, Ne.symm same] using grants other
  | exclusive writer =>
    simp only [RwLock.unlock] at unlocked
    split_ifs at unlocked with owner
    cases unlocked
    subst owner
    intro other
    left
    by_cases same : other = thread
    · subst same
      exact ⟨rfl, Function.update_self _ _ _⟩
    · rcases grants other with ⟨_, out⟩ | ⟨wrong, _⟩
      · exact ⟨rfl, (Function.update_of_ne same _ _).trans out⟩
      · exact absurd wrong same

theorem unlock_isSome (grants : lock.Grants sections) (inside : sections thread ≠ .outside) :
    ∃ next, lock.unlock thread = some next := by
  cases lock with
  | shared readers =>
    rcases grants thread with ⟨_, out⟩ | ⟨one, _⟩
    · exact absurd out inside
    · exact ⟨_, if_pos (List.count_pos_iff.mp (by omega))⟩
  | exclusive writer =>
    rcases grants thread with ⟨_, out⟩ | ⟨owner, _⟩
    · exact absurd out inside
    · exact ⟨_, if_pos owner⟩

theorem free (grants : lock.Grants sections) (nobody : ∀ thread, sections thread = .outside) : lock = shared [] := by
  cases lock with
  | shared readers =>
    congr 1
    apply List.eq_nil_iff_forall_not_mem.mpr
    intro reader member
    rcases grants reader with ⟨none, _⟩ | ⟨_, reads⟩
    · exact List.count_eq_zero.mp none member
    · cases (nobody reader).symm.trans reads
  | exclusive writer =>
    rcases grants writer with ⟨wrong, _⟩ | ⟨_, writes⟩
    · exact absurd rfl wrong
    · cases (nobody writer).symm.trans writes

end Grants

end RwLock

end CppRt.Library

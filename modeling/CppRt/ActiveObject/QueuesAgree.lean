import CppRt.ActiveObject.QueueServing
import CppRt.ThreadPool.QueueServing
import CppRt.Queue.Outcomes

/-!
The two queues from outside. Whatever finite programs of pushes and pops their
threads run, the recursive queue and the hand-locked queue end in the same outcomes,
those of the atomic queue.
-/

namespace CppRt
open Library Concurrent Queue

variable {Thread Item : Type*} [DecidableEq Thread] [Fintype Thread]

namespace ThreadPool.ThreadSafeQueue

def queue (state : State Thread Item) : List Item := state.shared.q

def asleep (state : State Thread Item) : Set Thread := { thread | state.pc thread = .asleep }

def observed : Observed (linearization : Linearization (machine False : Object Thread (State Thread Item) _ _) fifo)
    (serving False) where
  queue := queue
  asleep := asleep
  queue_abs _ := rfl
  asleep_abs {state} kept still thread := by
    obtain ⟨_, calm⟩ := refinement.quiet kept.1 still
    change state.pc thread = .asleep ↔ (state.pc thread).status ≠ .idle
    rcases calm thread with out | sleeps
    · rw [out]
      simp [monitor, Pc.status]
    · rw [sleeps]
      simp [monitor, Pc.status]
  queue_resting _ _ := rfl
  asleep_resting q sleeps thread := by
    change position (sleeps thread) = .asleep ↔ _
    cases sleeps thread <;> simp [position]
  still {q sleeps thread action next} step := by
    obtain ⟨outside, called⟩ := calls_at_rest (position_rest (sleeps thread)) step
    refine ⟨?_, called⟩
    have out : position (sleeps thread) = (.outside : Pc Item) := outside
    cases awake : sleeps thread with
    | false => rfl
    | true => simp [awake, position] at out

end ThreadPool.ThreadSafeQueue

namespace ActiveObject.ThreadSafeQueue

def queue (state : State Thread Item) : List Item := state.shared.q

def asleep (state : State Thread Item) : Set Thread := { thread | state.pc thread = .asleep }

def observed : Observed (linearization : Linearization (machine : Object Thread (State Thread Item) _ _) fifo)
    serving where
  queue := queue
  asleep := asleep
  queue_abs _ := rfl
  asleep_abs {state} kept still thread := by
    obtain ⟨_, calm⟩ := refinement.quiet kept.1 still
    change state.pc thread = .asleep ↔ (state.pc thread).status ≠ .idle
    rcases calm thread with out | sleeps
    · rw [out]
      simp [monitor, Pc.status]
    · rw [sleeps]
      simp [monitor, Pc.status]
  queue_resting _ _ := rfl
  asleep_resting q sleeps thread := by
    change position (sleeps thread) = .asleep ↔ _
    cases sleeps thread <;> simp [position]
  still {q sleeps thread action next} step := by
    obtain ⟨outside, called⟩ := calls_at_rest (position_rest (sleeps thread)) step
    refine ⟨?_, called⟩
    have out : position (sleeps thread) = (.outside : Pc Item) := outside
    cases awake : sleeps thread with
    | false => rfl
    | true => simp [awake, position] at out

end ActiveObject.ThreadSafeQueue

/-- The two queues end in the same outcomes, and these are the atomic queue's. -/
theorem queues_agree (program : Thread → List (Request Item)) :
    outcomes ActiveObject.ThreadSafeQueue.machine ActiveObject.ThreadSafeQueue.queue
        ActiveObject.ThreadSafeQueue.asleep program =
      outcomes (ThreadPool.ThreadSafeQueue.machine False) ThreadPool.ThreadSafeQueue.queue
        ThreadPool.ThreadSafeQueue.asleep program ∧
    outcomes (ThreadPool.ThreadSafeQueue.machine False) ThreadPool.ThreadSafeQueue.queue
        ThreadPool.ThreadSafeQueue.asleep program = instantOutcomes program := by
  have hand := ActiveObject.ThreadSafeQueue.observed.outcomes_eq ActiveObject.ThreadSafeQueue.live
    (programs_offer program (fun _ => trivial) trivial)
  have recursive := ThreadPool.ThreadSafeQueue.observed.outcomes_eq ThreadPool.ThreadSafeQueue.live
    (programs_offer program (fun _ => trivial) trivial)
  exact ⟨hand.trans recursive.symm, recursive⟩

end CppRt

import CppRt.ActiveObject.ActiveObject
import CppRt.ThreadPool.Pool

/-!
Tasks that call add_task, or Send, while they run. The destructor's empty tasks mark
the end of the queue for the workers: what is pushed before the last of them is
run, and what a running task pushes after it stays in the queue.
-/

namespace CppRt
open Library Transition Concurrent Queue Workers

def submitsNext : Nat → List (Act Nat Unit)
  | 0 => [.submit 1]
  | _ => []

def lateSubmission : List (Event 1 Unit Nat Unit) :=
  untilStarted 0 ++ [.note .owner .begin] ++ alone .owner (.push none) .pushed ++
    alone lone (.push (some 1)) .pushed ++ [.note lone (.finish 0)] ++ untilJoined ++
    untilDestroyed [.mtx, .cond]

theorem reaches_lateSubmission : (ThreadPool.threadpool 1 (fun _ => [some 0]) submitsNext).Reaches lateSubmission
    ⟨(ThreadPool.ThreadSafeQueue.serving False).resting [some 1] fun _ => false, solo .destroyed .exited []⟩ := by
  refine ⟨⟨_, solo (.constructing 0) .absent [some 0]⟩,
    ⟨(ThreadPool.ThreadSafeQueue.serving False).start, rfl⟩, ?_⟩
  have starts : (ThreadPool.threadpool 1 (fun _ => [some 0]) submitsNext).Run _ _ _ :=
    run_untilStarted (ThreadPool.ThreadSafeQueue.serving False) 0
  have begins := starts.trans (work_alone (.begin rfl fun _ => rfl))
  have pushes := begins.trans (push_alone _ rfl (.pushed rfl))
  have submits := pushes.trans (submit_alone (ThreadPool.ThreadSafeQueue.serving False) 0)
  have finishes := submits.trans (worker_alone 0 (.finish rfl))
  exact (finishes.trans (run_untilJoined _ [some 1])).trans (run_untilDestroyed _)

/-- Not every task whose add_task has returned has been executed when the destructor has. -/
theorem late_submission_lost :
    ¬∀ trace state, (ThreadPool.threadpool 1 (fun _ : Unit => [some 0]) submitsNext).Reaches trace state →
      state.client.owner = .destroyed → ∀ party task, (party, some task) ∈ enqueued trace →
        state.object.pc party = .outside → task ∈ (noted Note.finished trace).map Prod.snd := by
  intro all
  have executed := all _ _ reaches_lateSubmission rfl (.worker 0) 1 (by decide) rfl
  exact absurd executed (by decide)

/-- When the destructor has returned, the tasks that have been executed are exactly those
pushed before its last empty task. -/
theorem executes_what_precedes_shutdown {Sender Task Output : Type*} [DecidableEq Sender] [Fintype Sender]
    (pool_size : Nat) (program : Sender → List (Option Task)) (body : Task → List (Act Task Output))
    (workers : 0 < pool_size) (full : ∀ sender, none ∉ program sender) :
    (∀ trace state, (ThreadPool.threadpool pool_size program body).Reaches trace state →
      state.client.owner = .destroyed →
      ∃ before after, enqueued trace = before ++ (.owner, none) :: after ∧ (.owner, none) ∉ after ∧
        ((noted Note.finished trace).map Prod.snd).Perm (before.filterMap Prod.snd) ∧
        state.object.shared.q = after.map Prod.snd) ∧
    (∀ trace state, (ActiveObject.activeObject program body).Reaches trace state →
      state.client.owner = .destroyed →
      ∃ before after, enqueued trace = before ++ (.owner, none) :: after ∧ (.owner, none) ∉ after ∧
        ((noted Note.finished trace).map Prod.snd).Perm (before.filterMap Prod.snd) ∧
        state.object.shared.q = after.map Prod.snd) := by
  constructor
  · intro trace state reached destroyed
    have joined : state.client.owner.joined = true := by rw [destroyed]; rfl
    exact finished_before_last (ThreadPool.atomically reached) full workers joined
  · intro trace state reached destroyed
    have joined : state.client.owner.joined = true := by rw [destroyed]; rfl
    exact finished_before_last (ActiveObject.atomically reached) full Nat.one_pos joined

theorem executes_what_precedes_shutdown_late :
    ∃ before after, enqueued lateSubmission = before ++ (.owner, none) :: after ∧ (.owner, none) ∉ after ∧
      ((noted Note.finished lateSubmission).map Prod.snd).Perm (before.filterMap Prod.snd) ∧
      [some 1] = after.map Prod.snd :=
  (executes_what_precedes_shutdown 1 (fun _ => [some 0]) submitsNext Nat.one_pos (by simp)).1 _ _
    reaches_lateSubmission rfl

end CppRt

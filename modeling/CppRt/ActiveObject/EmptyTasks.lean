import CppRt.ActiveObject.ActiveObject
import CppRt.ThreadPool.Pool
import CppRt.Workers.EmptyTasks

/-!
add_task and Send take an empty function like any other, and the worker that pops it
prints that it has got an empty task and finishes. A client's empty task so stops a
worker just as the destructor's does.
-/

namespace CppRt
open Library Transition Concurrent Family Queue Workers

def workerStopped : List (Event 1 Unit Nat Unit) :=
  [.note .owner (.launch ⟨0, Nat.one_pos⟩), .note .owner .control] ++ alone (.sender ()) (.push none) .pushed ++
    alone lone .pop (.popped none) ++ [.note lone .exit]

/-- The client's second task and the destructor's empty one stay in the queue. -/
def sentToNobody : List (Event 1 Unit Nat Unit) :=
  workerStopped ++ alone (.sender ()) (.push (some 7)) .pushed ++ [.note .owner .begin] ++
    alone .owner (.push none) .pushed ++
    [.note .owner .control, .note .owner (.join ⟨0, Nat.one_pos⟩), .note .owner .control] ++ untilDestroyed [.mtx, .cond]

theorem reaches_workerStopped : (ThreadPool.threadpool 1 (fun _ => [none, some 7]) fun _ => []).Reaches workerStopped
    ⟨(ThreadPool.ThreadSafeQueue.serving False).resting [] fun _ => false, solo .constructed .exited [some 7]⟩ := by
  refine ⟨⟨_, solo (.constructing 0) .absent [none, some 7]⟩,
    ⟨(ThreadPool.ThreadSafeQueue.serving False).start, rfl⟩, ?_⟩
  have launched : (ThreadPool.threadpool 1 (fun _ => [none, some 7]) fun _ => ([] : List (Act Nat Unit))).Run
      ⟨(ThreadPool.ThreadSafeQueue.serving False).resting [] fun _ => false, solo (.constructing 0) .absent [none, some 7]⟩
      _ _ := run_launched
  have sends := launched.trans (send_alone (ThreadPool.ThreadSafeQueue.serving False))
  have pops := sends.trans (pop_alone (ThreadPool.ThreadSafeQueue.serving False) 0 none)
  exact pops.trans (worker_alone 0 (.exit rfl))

theorem reaches_sentToNobody : (ThreadPool.threadpool 1 (fun _ => [none, some 7]) fun _ => []).Reaches sentToNobody
    ⟨(ThreadPool.ThreadSafeQueue.serving False).resting [some 7, none] fun _ => false, solo .destroyed .exited []⟩ := by
  have sends := reaches_workerStopped.then (send_alone (ThreadPool.ThreadSafeQueue.serving False))
  have begins := sends.then (work_alone (.begin rfl fun _ => rfl))
  have pushes := begins.then (push_alone (ThreadPool.ThreadSafeQueue.serving False) rfl (.pushed rfl))
  have pushed := pushes.then (work_alone (.pushed rfl (Nat.lt_irrefl 1)))
  have joins := pushed.then (work_alone (.join rfl Nat.one_pos rfl))
  have joined := joins.then (work_alone (.joined rfl (Nat.lt_irrefl 1)))
  exact joined.then (run_untilDestroyed _)

/-- Neither do all workers stay in their loops until the destructor starts, nor is every
non-empty task executed. -/
theorem empty_task_stops_worker :
    (¬∀ trace state, (ThreadPool.threadpool 1 (fun _ : Unit => [none, some 7])
        fun _ => ([] : List (Act Nat Unit))).Reaches trace state →
      state.client.owner = .constructed → ∀ index, (state.client.worker index).looping = true) ∧
    ¬∀ trace state, (ThreadPool.threadpool 1 (fun _ : Unit => [none, some 7])
        fun _ => ([] : List (Act Nat Unit))).Reaches trace state →
      state.client.owner = .destroyed → ∀ party task, (party, some task) ∈ enqueued trace →
        task ∈ (noted Note.finished trace).map Prod.snd := by
  constructor
  · intro all
    have loops := all _ _ reaches_workerStopped rfl 0
    exact absurd loops (by decide)
  · intro all
    have executed := all _ _ reaches_sentToNobody rfl (.sender ()) 7 (by decide)
    exact absurd executed (by decide)

/-- A worker stops for every empty task, whoever pushed it, and for nothing else; tasks are
executed as long as they precede the empty task that stops the last worker. -/
theorem stops_once_per_empty_task {Sender Task Output : Type*} [DecidableEq Sender] [Fintype Sender]
    (pool_size : Nat) (program : Sender → List (Option Task)) (body : Task → List (Act Task Output))
    (workers : 0 < pool_size) :
    (∀ trace state, (ThreadPool.threadpool pool_size program body).Reaches trace state →
      StoppedByEmpty program trace state.client state.object.shared.q) ∧
    (∀ trace state, (ActiveObject.activeObject program body).Reaches trace state →
      StoppedByEmpty program trace state.client state.object.shared.q) := by
  constructor
  · intro trace state reached
    exact stopped_by_empty (ThreadPool.atomically reached) workers
  · intro trace state reached
    exact stopped_by_empty (ActiveObject.atomically reached) Nat.one_pos

theorem stops_once_per_empty_task_first : ∃ before writer after,
    enqueued sentToNobody = before ++ (writer, none) :: after ∧ (before.map Prod.snd).countP Option.isNone + 1 = 1 ∧
      [some 7, none] = after.map Prod.snd := by
  have stopped := (stops_once_per_empty_task 1 (fun _ => [none, some 7]) (fun _ => []) Nat.one_pos).1 _ _
    reaches_sentToNobody
  obtain ⟨before, writer, after, shape, nones, _, left, _⟩ := stopped.executed rfl
  exact ⟨before, writer, after, shape, nones, left⟩

end CppRt

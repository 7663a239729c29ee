import CppRt.ThreadPool.QueueServing
import CppRt.Workers.Shutdown
import CppRt.Workers.Solo

/-!
The thread pool: pool_size workers on the recursive queue. Its members are destroyed
after the workers have been joined; the destructor of the queue destroys the mutex
and then the condition variable.
-/

namespace CppRt.ThreadPool
open Library Transition Concurrent Family Queue Workers

variable {pool_size : Nat} {Sender Task Output : Type*} [DecidableEq Sender]

abbrev Pool (pool_size : Nat) (Sender Task Output : Type*) :=
  Joint (ThreadSafeQueue.State (Party pool_size Sender) (Option Task)) (Progress pool_size Sender Task Output)

def plan (program : Sender → List (Option Task)) (body : Task → List (Act Task Output)) :
    Plan Sender Task Output :=
  ⟨program, body, [.mtx, .cond]⟩

/-- The pool with its senders, from its constructor to the end of its destructor; copies
of tasks are taken not to throw. -/
def threadpool (pool_size : Nat) (program : Sender → List (Option Task)) (body : Task → List (Act Task Output)) :
    System (Pool pool_size Sender Task Output) (Event pool_size Sender Task Output) :=
  compose (ThreadSafeQueue.machine False) (crew pool_size (plan program body))

variable [Fintype Sender] {program : Sender → List (Option Task)} {body : Task → List (Act Task Output)}
variable {trace : List (Event pool_size Sender Task Output)} {state : Pool pool_size Sender Task Output}

theorem atomically (reached : (threadpool pool_size program body).Reaches trace state) :
    (compose fifo.atomic (crew pool_size (plan program body))).Reaches trace
      (ThreadSafeQueue.linearization.image state) :=
  (ThreadSafeQueue.linearization.reaches (fun _ _ _ _ => trivial) reached).2

/-- Every task is executed exactly once. -/
theorem executes_exactly_once (workers : 0 < pool_size) (full : ∀ sender, none ∉ program sender)
    (apart : ∀ f task, .submit task ∉ body f)
    (reached : (threadpool pool_size program body).Reaches trace state) :
    ((taken trace).filterMap Prod.snd <+: (enqueued trace).filterMap Prod.snd) ∧
    ((noted Note.started trace).map Prod.snd).Subperm ((enqueued trace).filterMap Prod.snd) ∧
    (state.client.owner = .destroyed →
      (∀ sender, entries (.sender sender) (enqueued trace) = program sender) ∧
      ((noted Note.started trace).map Prod.snd).Perm ((enqueued trace).filterMap Prod.snd) ∧
      ((noted Note.finished trace).map Prod.snd).Perm ((enqueued trace).filterMap Prod.snd) ∧
      (∀ index, (entries (.worker index) (taken trace)).countP Option.isNone = 1) ∧
      state.object.shared.q = []) := by
  have abstractly := atomically reached
  refine ⟨taken_first abstractly, started_subperm abstractly, fun destroyed => ?_⟩
  have joined : state.client.owner.joined = true := by rw [destroyed]; rfl
  have begun : state.client.owner.begun = true := by rw [destroyed]; rfl
  have empty : state.object.shared.q = [] := drained abstractly full apart workers joined
  have order : (taken trace).map Prod.snd = (enqueued trace).map Prod.snd := by
    have order : _ ++ state.object.shared.q = _ := taken_in_order abstractly
    rwa [empty, List.append_nil] at order
  have all : (taken trace).filterMap Prod.snd = (enqueued trace).filterMap Prod.snd := by
    rw [filterMap_snd, filterMap_snd, order]
  have finished := finished_perm abstractly joined
  rw [all] at finished
  refine ⟨sent_all abstractly begun, ?_, finished, fun index => ?_, empty⟩
  · exact ((started_finished abstractly joined).map Prod.snd).trans finished
  · rw [(joined_account abstractly joined index).1, List.countP_append]
    simp [List.countP_eq_zero]

def oneTask : List (Event 1 Unit Nat Unit) :=
  untilStarted 7 ++ [.note lone (.finish 7)] ++ [.note .owner .begin] ++
    alone .owner (.push none) .pushed ++ untilJoined

theorem reaches_oneTask : (threadpool 1 (fun _ => [some 7]) fun _ => []).Reaches oneTask
    ⟨(ThreadSafeQueue.serving False).resting [] fun _ => false, solo (.destroying [.mtx, .cond]) .exited []⟩ := by
  refine ⟨⟨_, solo (.constructing 0) .absent [some 7]⟩, ⟨(ThreadSafeQueue.serving False).start, rfl⟩, ?_⟩
  have starts : (threadpool 1 (fun _ => [some 7]) fun _ => ([] : List (Act Nat Unit))).Run _ _ _ :=
    run_untilStarted (ThreadSafeQueue.serving False) 7
  have finishes := starts.trans (worker_alone 0 (.finish rfl))
  have begins := finishes.trans (work_alone (.begin rfl fun _ => rfl))
  have pushes := begins.trans (push_alone _ rfl (.pushed rfl))
  exact pushes.trans (run_untilJoined _ [])

theorem executes_exactly_once_one : ∃ trace state,
    (threadpool 1 (fun _ : Unit => [some 7]) fun _ => ([] : List (Act Nat Unit))).Reaches trace state ∧
      ((noted Note.finished trace).map Prod.snd).Perm [7] := by
  have ends := reaches_oneTask.then (run_untilDestroyed [.mtx, .cond])
  have all := (executes_exactly_once Nat.one_pos (by simp) (by simp) ends).2.2 rfl
  exact ⟨_, _, ends, all.2.2.1⟩

/-- Shutdown cannot hang, and the mutex and the condition variable are destroyed idle. -/
theorem shutdown_completes (reached : (threadpool pool_size program body).Reaches trace state) :
    (Stuck (ThreadSafeQueue.machine False) (crew pool_size (plan program body)) state →
      state.client.owner.begun = true → state.client.owner = .destroyed) ∧
    (∀ left, state.client.owner = .destroying left → state.object.shared.mtx = .free ∧
      ∀ party, state.object.pc party = .outside) := by
  refine ⟨no_hang ThreadSafeQueue.live (fun _ _ _ _ => trivial) reached, fun left destroying => ?_⟩
  have joined : state.client.owner.joined = true := by rw [destroying]; rfl
  have outside (party : Party pool_size Sender) : state.object.pc party = .outside :=
    ThreadSafeQueue.status_idle
      (idle_of_joined ThreadSafeQueue.linearization (fun _ _ _ _ => trivial) reached joined party)
  refine ⟨Mutex.free_of_depth fun party => ?_, outside⟩
  have sound : (ThreadSafeQueue.locking False).Sound state.object :=
    (ThreadSafeQueue.linearization.reaches (fun _ _ _ _ => trivial) reached).1.1
  have locks := sound.locks party
  rw [outside party] at locks
  exact locks.symm

/-- The moment before the mutex is destroyed. -/
theorem shutdown_completes_one : ∃ trace state,
    (threadpool 1 (fun _ : Unit => [some 7]) fun _ => ([] : List (Act Nat Unit))).Reaches trace state ∧
      state.client.owner = .destroying [.mtx, .cond] ∧ state.object.shared.mtx = .free :=
  ⟨_, _, reaches_oneTask, rfl, ((shutdown_completes reaches_oneTask).2 _ rfl).1⟩

end CppRt.ThreadPool

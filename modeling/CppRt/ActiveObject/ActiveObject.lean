import CppRt.ActiveObject.QueueServing
import CppRt.Workers.Shutdown
import CppRt.Workers.Solo

/-!
The active object: one worker on the hand-locked queue, which has no destructor of
its own. With one worker the tasks run one after another in the order in which they
were pushed.
-/

namespace CppRt.ActiveObject
open Library Transition Concurrent Family Queue Workers

variable {Sender Task Output : Type*} [DecidableEq Sender]

abbrev Active (Sender Task Output : Type*) :=
  Joint (ThreadSafeQueue.State (Party 1 Sender) (Option Task)) (Progress 1 Sender Task Output)

def plan (program : Sender → List (Option Task)) (body : Task → List (Act Task Output)) :
    Plan Sender Task Output :=
  ⟨program, body, []⟩

/-- The active object with its senders, from its constructor to the end of its destructor;
copies of tasks are taken not to throw. -/
def activeObject (program : Sender → List (Option Task)) (body : Task → List (Act Task Output)) :
    System (Active Sender Task Output) (Event 1 Sender Task Output) :=
  compose ThreadSafeQueue.machine (crew 1 (plan program body))

section Single
variable {plan : Plan Sender Task Output} {trace : List (Event 1 Sender Task Output)}
variable {state : Shift 1 Sender Task Output}

theorem values_of_worker {Entry : Type*} {log : List (Party 1 Sender × Entry)}
    (workers : ∀ entry ∈ log, ∃ index, entry.1 = .worker index) :
    log.map Prod.snd = entries (.worker 0) log := by
  refine (entries_alone fun entry member => ?_).symm
  obtain ⟨index, isIndex⟩ := workers entry member
  rw [isIndex, Subsingleton.elim index 0]

theorem started_values (reached : (compose fifo.atomic (crew 1 plan)).Reaches trace state) :
    (noted Note.started trace).map Prod.snd = entries (.worker 0) (noted Note.started trace) :=
  values_of_worker (runners (fun _ _ _ worked => by cases worked <;> rfl) reached)

theorem finished_values (reached : (compose fifo.atomic (crew 1 plan)).Reaches trace state) :
    (noted Note.finished trace).map Prod.snd = entries (.worker 0) (noted Note.finished trace) :=
  values_of_worker (runners (fun _ _ _ worked => by cases worked <;> rfl) reached)

theorem emitted_values (reached : (compose fifo.atomic (crew 1 plan)).Reaches trace state) :
    (noted Note.emitted trace).map Prod.snd = entries (.worker 0) (noted Note.emitted trace) :=
  values_of_worker (runners (fun _ _ _ worked => by cases worked <;> rfl) reached)

/-- One task at a time: all that have been started are finished but the one that is running. -/
theorem one_running (reached : (compose fifo.atomic (crew 1 plan)).Reaches trace state) :
    (noted Note.started trace).map Prod.snd =
      (noted Note.finished trace).map Prod.snd ++ (state.client.worker 0).current := by
  rw [started_values reached, finished_values reached]
  exact (account_of_reaches reached 0).started

theorem taken_values (reached : (compose fifo.atomic (crew 1 plan)).Reaches trace state) :
    (taken trace).filterMap Prod.snd = (noted Note.started trace).map Prod.snd ++
      ((state.client.worker 0).held (state.object.status (.worker 0)).answer).filterMap id := by
  rw [filterMap_snd, values_of_worker (takers reached), (account_of_reaches reached 0).taken,
    List.filterMap_append, filterMap_some, started_values reached]

theorem started_first (reached : (compose fifo.atomic (crew 1 plan)).Reaches trace state) :
    (noted Note.started trace).map Prod.snd <+: (enqueued trace).filterMap Prod.snd := by
  refine List.IsPrefix.trans ?_ (taken_first reached)
  rw [taken_values reached]
  exact List.prefix_append _ _

/-- Once the worker is joined it has run everything it was sent, in order. -/
theorem finished_all (reached : (compose fifo.atomic (crew 1 plan)).Reaches trace state)
    (full : ∀ sender, none ∉ plan.program sender) (apart : ∀ f task, .submit task ∉ plan.body f)
    (joined : state.client.owner.joined = true) :
    (noted Note.finished trace).map Prod.snd = (enqueued trace).filterMap Prod.snd := by
  have order := taken_in_order reached
  rw [drained reached full apart Nat.one_pos joined, List.append_nil] at order
  have own := taken_values reached
  rw [filterMap_snd, order, ← filterMap_snd, exited_of_joined (phases_of_reaches reached) joined 0] at own
  have started := one_running reached
  rw [exited_of_joined (phases_of_reaches reached) joined 0] at started
  rw [own, started]
  simp [Worker.held, Worker.current]

theorem emitted_all (reached : (compose fifo.atomic (crew 1 plan)).Reaches trace state)
    (full : ∀ sender, none ∉ plan.program sender) (apart : ∀ f task, .submit task ∉ plan.body f)
    (joined : state.client.owner.joined = true) :
    (noted Note.emitted trace).map Prod.snd =
      ((enqueued trace).filterMap Prod.snd).flatMap fun f => outputs (plan.body f) := by
  have account := output_account reached 0
  have started := one_running reached
  rw [exited_of_joined (phases_of_reaches reached) joined 0] at account started
  rw [emitted_values reached, ← finished_all reached full apart joined]
  rw [← started_values reached, started] at account
  simpa [Worker.unprinted, Worker.current] using account

end Single

variable [Fintype Sender] {program : Sender → List (Option Task)} {body : Task → List (Act Task Output)}
variable {trace : List (Event 1 Sender Task Output)} {state : Active Sender Task Output}

theorem atomically (reached : (activeObject program body).Reaches trace state) :
    (compose fifo.atomic (crew 1 (plan program body))).Reaches trace
      (ThreadSafeQueue.linearization.image state) :=
  (ThreadSafeQueue.linearization.reaches (crew_offers (fun _ => trivial) trivial) reached).2

end CppRt.ActiveObject

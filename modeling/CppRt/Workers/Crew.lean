import CppRt.Queue.Fifo
import CppRt.Library.Family
import Mathlib.Tactic.DeriveFintype

/-!
What the thread pool and the active object have in common: an owner that launches
workers on a queue of tasks, senders that push tasks, workers that pop and run them
until they pop an empty one, and a destructor that pushes one empty task per worker
and joins them all. A task is an empty or a non-empty function; of a non-empty one
the model keeps what its body hands in to the queue and what it puts out.
-/

namespace CppRt.Workers
open Library Concurrent Family Queue

inductive Party (size : Nat) (Sender : Type*) where
  | owner
  | worker (index : Fin size)
  | sender (sender : Sender)
  deriving DecidableEq, Fintype

inductive Act (Task Output : Type*) where
  | submit (task : Task)
  | emit (output : Output)

/-- The synchronisation objects that a queue's destructor destroys. -/
inductive Sync where
  | mtx
  | cond

/-- The tasks each sender hands in (`none` for an empty function), what the bodies of the
tasks do, and what the destructor of the queue destroys. -/
structure Plan (Sender Task Output : Type*) where
  program : Sender → List (Option Task)
  body : Task → List (Act Task Output)
  destroys : List Sync

inductive Owner where
  | constructing (i : Nat)
  | constructed
  | pushing (i : Nat)
  | joining (i : Nat)
  | destroying (left : List Sync)
  | destroyed

/-- Where a worker is: not created, in its pop, holding what it popped, in the body
of a task, finished. -/
inductive Worker (Task Output : Type*) where
  | absent
  | waiting
  | got (f : Option Task)
  | running (f : Task) (rest : List (Act Task Output))
  | exited

structure Progress (size : Nat) (Sender Task Output : Type*) where
  owner : Owner
  worker : Fin size → Worker Task Output
  unsent : Sender → List (Option Task)

inductive Note (size : Nat) (Task Output : Type*) where
  | launch (i : Fin size)
  | begin
  | join (i : Fin size)
  | destroy (sync : Sync)
  | control
  | start (f : Task)
  | emit (output : Output)
  | finish (f : Task)
  | exit

abbrev Event (size : Nat) (Sender Task Output : Type*) :=
  Label (Party size Sender) (Call (Option Task)) (Ret (Option Task)) (Note size Task Output)

variable {size : Nat} {Sender Task Output : Type*}

def Owner.asks (size : Nat) : Owner → Option (Call (Option Task))
  | .pushing i => if i < size then some (.push none) else none
  | _ => none

def Worker.asks : Worker Task Output → Option (Call (Option Task))
  | .waiting => some .pop
  | .running _ (.submit f :: _) => some (.push (some f))
  | _ => none

def Owner.built : Owner → Bool
  | .constructing _ => false
  | _ => true

def Owner.begun : Owner → Bool
  | .constructing _ => false
  | .constructed => false
  | _ => true

namespace Progress

def asks (progress : Progress size Sender Task Output) : Party size Sender → Option (Call (Option Task))
  | .owner => progress.owner.asks size
  | .worker index => (progress.worker index).asks
  | .sender sender => if progress.owner.built then (progress.unsent sender).head?.map .push else none

def setWorker (progress : Progress size Sender Task Output) (index : Fin size)
    (worker : Worker Task Output) : Progress size Sender Task Output :=
  { progress with worker := Function.update progress.worker index worker }

inductive Resumes [DecidableEq Sender] (progress : Progress size Sender Task Output) :
    Party size Sender → Ret (Option Task) → Progress size Sender Task Output → Prop where
  | pushed {i : Nat} (loops : progress.owner = .pushing i) :
      Resumes progress .owner .pushed { progress with owner := .pushing (i + 1) }
  | popped {index : Fin size} {f : Option Task} (waits : progress.worker index = .waiting) :
      Resumes progress (.worker index) (.popped f) (progress.setWorker index (.got f))
  | submitted {index : Fin size} {f task : Task} {rest : List (Act Task Output)}
      (runs : progress.worker index = .running f (.submit task :: rest)) :
      Resumes progress (.worker index) .pushed (progress.setWorker index (.running f rest))
  | sent {sender : Sender} :
      Resumes progress (.sender sender) .pushed
        { progress with unsent := Function.update progress.unsent sender (progress.unsent sender).tail }

inductive Works (plan : Plan Sender Task Output) (progress : Progress size Sender Task Output) :
    Party size Sender → Note size Task Output → Progress size Sender Task Output → Prop where
  | launch {i : Nat} (loops : progress.owner = .constructing i) (less : i < size)
      (fresh : progress.worker ⟨i, less⟩ = .absent) :
      Works plan progress .owner (.launch ⟨i, less⟩)
        { progress.setWorker ⟨i, less⟩ .waiting with owner := .constructing (i + 1) }
  | launched {i : Nat} (loops : progress.owner = .constructing i) (done : ¬i < size) :
      Works plan progress .owner .control { progress with owner := .constructed }
  -- the destructor starts when every sender's last call has returned
  | begin (built : progress.owner = .constructed) (sent : ∀ sender, progress.unsent sender = []) :
      Works plan progress .owner .begin { progress with owner := .pushing 0 }
  | pushed {i : Nat} (loops : progress.owner = .pushing i) (done : ¬i < size) :
      Works plan progress .owner .control { progress with owner := .joining 0 }
  | join {i : Nat} (loops : progress.owner = .joining i) (less : i < size)
      (exited : progress.worker ⟨i, less⟩ = .exited) :
      Works plan progress .owner (.join ⟨i, less⟩) { progress with owner := .joining (i + 1) }
  | joined {i : Nat} (loops : progress.owner = .joining i) (done : ¬i < size) :
      Works plan progress .owner .control { progress with owner := .destroying plan.destroys }
  | destroy {sync : Sync} {left : List Sync} (next : progress.owner = .destroying (sync :: left)) :
      Works plan progress .owner (.destroy sync) { progress with owner := .destroying left }
  | destroyed (last : progress.owner = .destroying []) :
      Works plan progress .owner .control { progress with owner := .destroyed }
  | start {index : Fin size} {f : Task} (got : progress.worker index = .got (some f)) :
      Works plan progress (.worker index) (.start f) (progress.setWorker index (.running f (plan.body f)))
  | emit {index : Fin size} {f : Task} {output : Output} {rest : List (Act Task Output)}
      (runs : progress.worker index = .running f (.emit output :: rest)) :
      Works plan progress (.worker index) (.emit output) (progress.setWorker index (.running f rest))
  | finish {index : Fin size} {f : Task} (runs : progress.worker index = .running f []) :
      Works plan progress (.worker index) (.finish f) (progress.setWorker index .waiting)
  | exit {index : Fin size} (got : progress.worker index = .got none) :
      Works plan progress (.worker index) .exit (progress.setWorker index .exited)

inductive Asks (progress : Progress size Sender Task Output) :
    Party size Sender → Call (Option Task) → Prop where
  | sentinel {i : Nat} (loops : progress.owner = .pushing i) (less : i < size) : Asks progress .owner (.push none)
  | pop {index : Fin size} (waits : progress.worker index = .waiting) : Asks progress (.worker index) .pop
  | submit {index : Fin size} {f task : Task} {rest : List (Act Task Output)}
      (runs : progress.worker index = .running f (.submit task :: rest)) :
      Asks progress (.worker index) (.push (some task))
  | send {sender : Sender} {f : Option Task} {rest : List (Option Task)} (built : progress.owner.built = true)
      (next : progress.unsent sender = f :: rest) : Asks progress (.sender sender) (.push f)

variable {progress next : Progress size Sender Task Output} {party other : Party size Sender}
variable {call : Call (Option Task)} {ret : Ret (Option Task)}

theorem asks_cases (asked : progress.asks party = some call) : progress.Asks party call := by
  cases party with
  | owner =>
    cases at_ : progress.owner <;> simp only [asks, Owner.asks, at_, reduceCtorEq] at asked
    split at asked
    · cases asked
      exact .sentinel at_ (by assumption)
    · cases asked
  | worker index =>
    cases at_ : progress.worker index with
    | waiting =>
      simp only [asks, at_] at asked
      cases asked
      exact .pop at_
    | running f rest =>
      rcases rest with _ | ⟨_ | _, _⟩ <;> simp only [asks, at_] at asked <;> cases asked
      exact .submit at_
    | _ =>
      simp only [asks, at_] at asked
      cases asked
  | sender sender =>
    simp only [asks] at asked
    split at asked
    · cases next : progress.unsent sender <;> rw [next] at asked <;> cases asked
      exact .send (by assumption) next
    · cases asked

theorem asks_setWorker {index : Fin size} (worker : Worker Task Output) (different : other ≠ .worker index) :
    (progress.setWorker index worker).asks other = progress.asks other := by
  cases other with
  | worker another =>
    have apart : another ≠ index := by
      intro same
      exact different (congrArg Party.worker same)
    simp [asks, setWorker, apart]
  | _ => rfl

section Sender
variable [DecidableEq Sender]

theorem resumes_total (asked : progress.asks party = some call) (answers : fifo.Answers call ret) :
    ∃ next, progress.Resumes party ret next := by
  cases asks_cases asked with
  | sentinel loops =>
    rw [answers_push answers]
    exact ⟨_, .pushed loops⟩
  | pop waits =>
    obtain ⟨f, rfl⟩ := answers_pop answers
    exact ⟨_, .popped waits⟩
  | submit runs =>
    rw [answers_push answers]
    exact ⟨_, .submitted runs⟩
  | send =>
    rw [answers_push answers]
    exact ⟨_, .sent⟩

theorem resumes_frame (resumed : progress.Resumes party ret next) (different : other ≠ party) :
    next.asks other = progress.asks other := by
  cases resumed with
  | pushed loops =>
    cases other with
    | owner => exact absurd rfl different
    | worker => rfl
    | sender => simp [asks, loops, Owner.built]
  | popped => exact asks_setWorker _ different
  | submitted => exact asks_setWorker _ different
  | @sent sender =>
    cases other with
    | sender another =>
      have apart : another ≠ sender := by
        intro same
        exact different (congrArg Party.sender same)
      simp [asks, apart]
    | _ => rfl

end Sender

section Work
variable {plan : Plan Sender Task Output} {note : Note size Task Output}

theorem works_free (worked : progress.Works plan party note next) : progress.asks party = none := by
  cases worked with
  | launch at_ | launched at_ | begin at_ | join at_ | joined at_ | destroy at_ | destroyed at_ =>
    simp [asks, at_, Owner.asks]
  | pushed loops done => simp [asks, loops, Owner.asks, done]
  | start at_ | emit at_ | finish at_ | exit at_ => simp [asks, at_, Worker.asks]

theorem works_frame (worked : progress.Works plan party note next) (different : other ≠ party)
    (asked : progress.asks other = some call) : next.asks other = some call := by
  cases worked with
  | @launch i loops less fresh =>
    cases other with
    | owner => exact absurd rfl different
    | sender => simp [asks, loops, Owner.built] at asked
    | worker index =>
      have apart : index ≠ ⟨i, less⟩ := by
        intro same
        subst same
        simp [asks, fresh, Worker.asks] at asked
      simpa [asks, setWorker, apart] using asked
  | launched loops =>
    cases other with
    | owner => exact absurd rfl different
    | worker => exact asked
    | sender => simp [asks, loops, Owner.built] at asked
  | begin at_ | pushed at_ | join at_ | joined at_ | destroy at_ | destroyed at_ =>
    cases other with
    | owner => exact absurd rfl different
    | worker => exact asked
    | sender => simpa [asks, at_, Owner.built] using asked
  | start | emit | finish | exit =>
    rw [asks_setWorker _ different]
    exact asked

end Work

end Progress

def crew [DecidableEq Sender] (size : Nat) (plan : Plan Sender Task Output) :
    Client (Party size Sender) (Progress size Sender Task Output) (Note size Task Output)
      (fifo : Sequential (List (Option Task)) _ _) where
  start progress := progress = ⟨.constructing 0, fun _ => .absent, plan.program⟩
  asks := Progress.asks
  ret := Progress.Resumes
  work := Progress.Works plan
  ret_total := Progress.resumes_total
  ret_frame := Progress.resumes_frame
  work_free := Progress.works_free
  work_frame := Progress.works_frame

theorem crew_asks [DecidableEq Sender] {plan : Plan Sender Task Output}
    {progress : Progress size Sender Task Output} {party : Party size Sender} {call : Call (Option Task)}
    (asked : (crew size plan).asks progress party = some call) : progress.Asks party call :=
  Progress.asks_cases asked

section Trace
variable {Thread Kept : Type*}

def Note.started : Note size Task Output → Option Task
  | .start f => some f
  | _ => none

def Note.finished : Note size Task Output → Option Task
  | .finish f => some f
  | _ => none

def Note.emitted : Note size Task Output → Option Output
  | .emit output => some output
  | _ => none

/-- What the notes of a run say under one reading, with the threads that made them. -/
def noted (reading : Note size Task Output → Option Kept)
    (trace : List (Label Thread (Call (Option Task)) (Ret (Option Task)) (Note size Task Output))) :
    List (Thread × Kept) :=
  (notes trace).filterMap fun entry => (reading entry.2).map (Prod.mk entry.1)

variable (reading : Note size Task Output → Option Kept)

@[simp] theorem noted_nil :
    noted reading ([] : List (Label Thread (Call (Option Task)) (Ret (Option Task)) _)) = [] := rfl

@[simp] theorem noted_append
    (before after : List (Label Thread (Call (Option Task)) (Ret (Option Task)) (Note size Task Output))) :
    noted reading (before ++ after) = noted reading before ++ noted reading after := by
  simp [noted]

@[simp] theorem noted_act (thread : Thread) (action : Action (Call (Option Task)) (Ret (Option Task))) :
    noted reading [.act thread action] = [] := rfl

@[simp] theorem noted_note (thread : Thread) (note : Note size Task Output) :
    noted reading [(.note thread note : Label _ (Call (Option Task)) (Ret (Option Task)) _)] =
      ((reading note).map (Prod.mk thread)).toList := by
  cases read : reading note <;> simp [noted, read]

theorem entries_noted_other [DecidableEq Thread] {other : Thread}
    {label : Label Thread (Call (Option Task)) (Ret (Option Task)) (Note size Task Output)}
    (different : label.thread ≠ other) : entries other (noted reading [label]) = [] := by
  rcases label with _ | ⟨thread, note⟩
  · rfl
  · rw [noted_note]
    cases reading note with
    | none => rfl
    | some kept => exact entries_other different kept

end Trace

end CppRt.Workers

import CppRt.Library.Concurrent
import CppRt.Library.Family

/-!
What the blocking queues are for: push appends, pop takes the oldest item and
waits while there is none, try_pop does not wait, is_empty looks. The queues of
the thread pool and of the active object are two implementations of this one
sequential object. The projections read off a run which items were put in and
which were taken, by whom and in which order.
-/

namespace CppRt.Queue
open Library Concurrent Family

variable {Thread Item Note : Type*}

/-- `tryPop` carries the value its argument refers to at the call. -/
inductive Call (Item : Type*) where
  | push (item : Item)
  | pop
  | tryPop (item : Item)
  | isEmpty
  deriving DecidableEq

/-- `tried` carries the value the argument refers to at the return, `threw` stands
for an operation left by an exception. -/
inductive Ret (Item : Type*) where
  | pushed
  | popped (item : Item)
  | tried (success : Bool) (item : Item)
  | emptiness (empty : Bool)
  | threw
  deriving DecidableEq

def apply : List Item → Call Item → Option (List Item × Ret Item)
  | q, .push item => some (q ++ [item], .pushed)
  | [], .pop => none
  | front :: rest, .pop => some (rest, .popped front)
  | [], .tryPop item => some ([], .tried false item)
  | front :: rest, .tryPop _ => some (rest, .tried true front)
  | q, .isEmpty => some (q, .emptiness q.isEmpty)

def fifo : Sequential (List Item) (Call Item) (Ret Item) := ⟨[], apply⟩

def enters : Thread × Call Item × Ret Item → Option (Thread × Item)
  | (thread, .push item, _) => some (thread, item)
  | _ => none

def leaves : Thread × Call Item × Ret Item → Option (Thread × Item)
  | (thread, _, .popped item) => some (thread, item)
  | (thread, _, .tried true item) => some (thread, item)
  | _ => none

def enqueued (trace : List (Label Thread (Call Item) (Ret Item) Note)) : List (Thread × Item) :=
  (commits trace).filterMap enters

def taken (trace : List (Label Thread (Call Item) (Ret Item) Note)) : List (Thread × Item) :=
  (commits trace).filterMap leaves

theorem apply_blocked {q : List Item} {call : Call Item} (blocked : apply q call = none) :
    call = .pop ∧ q = [] := by
  cases q <;> cases call <;> simp_all [apply]

theorem apply_conserves (thread : Thread) {q later : List Item} {call : Call Item} {ret : Ret Item}
    (applied : apply q call = some (later, ret)) :
    (leaves (thread, call, ret)).toList.map Prod.snd ++ later =
      q ++ (enters (thread, call, ret)).toList.map Prod.snd := by
  cases call <;> cases q <;> simp only [apply, Option.some.injEq, Prod.mk.injEq, reduceCtorEq] at applied <;>
    obtain ⟨rfl, rfl⟩ := applied <;> simp [leaves, enters]

theorem answers_pop {ret : Ret Item} (answers : fifo.Answers .pop ret) : ∃ item, ret = .popped item := by
  obtain ⟨q, later, applied⟩ := answers
  cases q with
  | nil => cases applied
  | cons front rest =>
    cases applied
    exact ⟨front, rfl⟩

theorem answers_push {item : Item} {ret : Ret Item} (answers : fifo.Answers (.push item) ret) :
    ret = .pushed := by
  obtain ⟨q, later, applied⟩ := answers
  cases q <;> cases applied <;> rfl

section Trace
variable {trace : List (Label Thread (Call Item) (Ret Item) Note)}

@[simp] theorem enqueued_nil : enqueued ([] : List (Label Thread (Call Item) (Ret Item) Note)) = [] := rfl

@[simp] theorem taken_nil : taken ([] : List (Label Thread (Call Item) (Ret Item) Note)) = [] := rfl

@[simp] theorem enqueued_append (before after : List (Label Thread (Call Item) (Ret Item) Note)) :
    enqueued (before ++ after) = enqueued before ++ enqueued after := by
  simp [enqueued]

@[simp] theorem taken_append (before after : List (Label Thread (Call Item) (Ret Item) Note)) :
    taken (before ++ after) = taken before ++ taken after := by
  simp [taken]

@[simp] theorem enqueued_commit (thread : Thread) (call : Call Item) (ret : Ret Item) :
    enqueued [(.act thread (.commit call ret) : Label Thread (Call Item) (Ret Item) Note)] =
      (enters (thread, call, ret)).toList := by
  cases entered : enters (thread, call, ret) <;> simp [enqueued, entered]

@[simp] theorem taken_commit (thread : Thread) (call : Call Item) (ret : Ret Item) :
    taken [(.act thread (.commit call ret) : Label Thread (Call Item) (Ret Item) Note)] =
      (leaves (thread, call, ret)).toList := by
  cases left : leaves (thread, call, ret) <;> simp [taken, left]

@[simp] theorem enqueued_call (thread : Thread) (call : Call Item) :
    enqueued [(.act thread (.call call) : Label Thread (Call Item) (Ret Item) Note)] = [] := rfl

@[simp] theorem enqueued_ret (thread : Thread) (ret : Ret Item) :
    enqueued [(.act thread (.ret ret) : Label Thread (Call Item) (Ret Item) Note)] = [] := rfl

@[simp] theorem enqueued_note (thread : Thread) (note : Note) :
    enqueued [(.note thread note : Label Thread (Call Item) (Ret Item) Note)] = [] := rfl

@[simp] theorem taken_call (thread : Thread) (call : Call Item) :
    taken [(.act thread (.call call) : Label Thread (Call Item) (Ret Item) Note)] = [] := rfl

@[simp] theorem taken_ret (thread : Thread) (ret : Ret Item) :
    taken [(.act thread (.ret ret) : Label Thread (Call Item) (Ret Item) Note)] = [] := rfl

@[simp] theorem taken_note (thread : Thread) (note : Note) :
    taken [(.note thread note : Label Thread (Call Item) (Ret Item) Note)] = [] := rfl

variable [DecidableEq Thread] {label : Label Thread (Call Item) (Ret Item) Note} {other : Thread}

theorem entries_taken_other (different : label.thread ≠ other) : entries other (taken [label]) = [] := by
  rcases label with ⟨thread, _ | ⟨call, ret⟩ | _ | _⟩ | _ <;> try rfl
  rw [taken_commit]
  rcases ret with _ | _ | ⟨_ | _, _⟩ | _ | _ <;>
    simp_all [leaves, entries, Label.thread]

theorem entries_enqueued_other (different : label.thread ≠ other) : entries other (enqueued [label]) = [] := by
  rcases label with ⟨thread, _ | ⟨call, ret⟩ | _ | _⟩ | _ <;> try rfl
  rw [enqueued_commit]
  cases call <;> simp_all [enters, entries, Label.thread]

end Trace

/-- First in, first out, nothing lost and nothing twice: what has been taken, followed
by what is there, is what has been put in. -/
theorem taken_append_contents {history : List (Thread × Call Item × Ret Item)} {q : List Item}
    (valid : fifo.History (history.map Prod.snd) q) :
    (history.filterMap leaves).map Prod.snd ++ q = (history.filterMap enters).map Prod.snd := by
  generalize shape : history.map Prod.snd = calls at valid
  induction valid generalizing history with
  | nil =>
    obtain rfl : history = [] := List.map_eq_nil_iff.mp shape
    rfl
  | @snoc before contents later call ret _ applied ih =>
    obtain ⟨first, last, rfl, earlier, single⟩ := List.map_eq_append_iff.mp shape
    obtain ⟨⟨thread, operation⟩, rfl, rfl⟩ := List.map_eq_singleton_iff.mp single
    have kept := ih earlier
    have step := apply_conserves thread applied
    have last (project : Thread × Call Item × Ret Item → Option (Thread × Item)) :
        [(thread, call, ret)].filterMap project = (project (thread, call, ret)).toList := by
      cases found : project (thread, call, ret) <;> simp [found]
    rw [List.filterMap_append, List.filterMap_append, last, last, List.map_append, List.map_append,
      ← kept, List.append_assoc, List.append_assoc, step]

/-- How an object serves its threads one at a time: while nobody sleeps, a push and a pop
of a non-empty queue run to their end, and on the empty queue a pop goes to sleep. -/
structure Serving [DecidableEq Thread] {State : Type*} (object : Object Thread State (Call Item) (Ret Item)) where
  resting (q : List Item) (asleep : Thread → Bool) : State
  start : object.start (resting [] fun _ => false)
  push (thread : Thread) (q : List Item) (item : Item) :
    object.Completes thread (.push item) .pushed (resting q fun _ => false)
      (resting (q ++ [item]) fun _ => false)
  pop (thread : Thread) (front : Item) (q : List Item) :
    object.Completes thread .pop (.popped front) (resting (front :: q) fun _ => false)
      (resting q fun _ => false)
  park (thread : Thread) {asleep : Thread → Bool} (awake : asleep thread = false) :
    object.Parks thread .pop (resting [] asleep) (resting [] (Function.update asleep thread true))

abbrev programs {Request : Type*} [DecidableEq Thread] (call : Request → Call Item)
    (program : Thread → List Request) : Client Thread (Thread → List Request) Empty
      (fifo : Sequential (List Item) _ _) :=
  fifo.programs call program

end CppRt.Queue

import CppRt.Library.Mutex
import CppRt.Library.Transition
import Mathlib.Algebra.Group.Nat.Defs
import Mathlib.Data.List.Range

/-!
One thread that puts the integers into a queue, in turn and for ever, and one that takes them
out, with a mutex and a condition variable of their own. The producer gives the mutex back
before it signals. Main only waits for both. A std::queue whose front is asked for when it is
empty, and an int that is counted past its greatest value, are undefined.
-/

namespace CppRt.ProdCons
open Library Transition

inductive Party where
  | producent
  | consumer
  deriving DecidableEq

inductive Producent where
  | lock (i : Nat)
  | push (i : Nat)
  | unlock (i : Nat)
  | signal (i : Nat)
  | sleep (i : Nat)
  | overflowed (i : Nat)

/-- Where th_consumer is, with the message it has read; `woken` waits for the mutex again. -/
inductive Consumer where
  | lock
  | test
  | wait
  | asleep
  | woken
  | front
  | pop (message : Int)
  | unlock
  | sleep
  | undefined

structure State where
  cond_mutex : Mutex Party
  q : List Int
  producent : Producent
  consumer : Consumer

inductive Event where
  | push (item : Int)
  | pop (message : Int)
  | undefined
  deriving DecidableEq

def Consumer.wake : Consumer → Consumer
  | .asleep => .woken
  | other => other

inductive Step (state : State) : Option Event → State → Prop where
  | lock {i : Nat} {cond_mutex : Mutex Party} (here : state.producent = .lock i)
      (locked : state.cond_mutex.lockPlain .producent = some cond_mutex) :
      Step state none { state with cond_mutex, producent := .push i }
  | push {i : Nat} (here : state.producent = .push i) (less : i < 2 ^ 31 - 1) :
      Step state (some (.push i)) { state with q := state.q ++ [(i : Int)], producent := .unlock (i + 1) }
  | overflow {i : Nat} (here : state.producent = .push i) (most : ¬i < 2 ^ 31 - 1) :
      Step state none { state with producent := .overflowed i }
  | unlock {i : Nat} {cond_mutex : Mutex Party} (here : state.producent = .unlock i)
      (unlocked : state.cond_mutex.unlock .producent = some cond_mutex) :
      Step state none { state with cond_mutex, producent := .signal i }
  | signal {i : Nat} (here : state.producent = .signal i) :
      Step state none { state with producent := .sleep i, consumer := state.consumer.wake }
  | slept {i : Nat} (here : state.producent = .sleep i) : Step state none { state with producent := .lock i }
  | consumerLock {cond_mutex : Mutex Party} (here : state.consumer = .lock ∨ state.consumer = .woken)
      (locked : state.cond_mutex.lockPlain .consumer = some cond_mutex) :
      Step state none { state with cond_mutex, consumer := .test }
  | test (here : state.consumer = .test) :
      Step state none { state with consumer := if state.q.length = 0 then .wait else .front }
  -- pthread_cond_wait gives the mutex back and falls asleep in one step
  | wait {cond_mutex : Mutex Party} (here : state.consumer = .wait)
      (unlocked : state.cond_mutex.unlock .consumer = some cond_mutex) :
      Step state none { state with cond_mutex, consumer := .asleep }
  | spurious (here : state.consumer = .asleep) : Step state none { state with consumer := state.consumer.wake }
  | front {message : Int} (here : state.consumer = .front) (first : state.q.head? = some message) :
      Step state none { state with consumer := .pop message }
  | frontEmpty (here : state.consumer = .front) (empty : state.q.head? = none) :
      Step state (some .undefined) { state with consumer := .undefined }
  | pop {message : Int} (here : state.consumer = .pop message) :
      Step state (some (.pop message)) { state with q := state.q.tail, consumer := .unlock }
  | consumerUnlock {cond_mutex : Mutex Party} (here : state.consumer = .unlock)
      (unlocked : state.cond_mutex.unlock .consumer = some cond_mutex) :
      Step state none { state with cond_mutex, consumer := .sleep }
  | consumerSlept (here : state.consumer = .sleep) : Step state none { state with consumer := .lock }

def threads : System State Event where
  start state := state = ⟨.free, [], .lock 0, .lock⟩
  step := Step

def Event.pushed : Event → Option Int
  | .push item => some item
  | _ => none

def Event.popped : Event → Option Int
  | .pop message => some message
  | _ => none

def pushed (trace : List Event) : List Int := trace.filterMap Event.pushed

def popped (trace : List Event) : List Int := trace.filterMap Event.popped

def Producent.Pending : Producent → Prop
  | .unlock _ | .signal _ => True
  | _ => False

/-- What the two threads are for. -/
structure Delivers (trace : List Event) (state : State) : Prop where
  ordered : popped trace ++ state.q = (List.range (pushed trace).length).map Int.ofNat
  produced : pushed trace = (List.range (pushed trace).length).map Int.ofNat
  defined : .undefined ∉ trace
  signalled : state.consumer = .asleep → state.q ≠ [] → state.q.length = 1 ∧ state.producent.Pending

def Producent.i : Producent → Nat
  | .lock i | .push i | .unlock i | .signal i | .sleep i | .overflowed i => i

def Producent.holds : Producent → Nat
  | .push _ | .unlock _ | .overflowed _ => 1
  | .lock _ | .signal _ | .sleep _ => 0

def Consumer.holds : Consumer → Nat
  | .test | .wait | .front | .pop _ | .unlock => 1
  | .lock | .asleep | .woken | .sleep | .undefined => 0

/-- What the consumer knows of the queue while it has the mutex, and what it may sleep over. -/
def Consumer.Knows (q : List Int) (pending : Prop) : Consumer → Prop
  | .wait => q = []
  | .front => q ≠ []
  | .pop message => q.head? = some message
  | .asleep => q ≠ [] → q.length = 1 ∧ pending
  | .undefined => False
  | _ => True

structure Sound (trace : List Event) (state : State) : Prop where
  produces : state.cond_mutex.depth .producent = state.producent.holds
  consumes : state.cond_mutex.depth .consumer = state.consumer.holds
  counted : pushed trace = (List.range state.producent.i).map Int.ofNat
  conserved : popped trace ++ state.q = pushed trace
  knows : state.consumer.Knows state.q state.producent.Pending
  defined : .undefined ∉ trace

section Trace
variable {trace : List Event}

@[simp] theorem pushed_append (before after : List Event) :
    pushed (before ++ after) = pushed before ++ pushed after := List.filterMap_append

@[simp] theorem popped_append (before after : List Event) :
    popped (before ++ after) = popped before ++ popped after := List.filterMap_append

@[simp] theorem pushed_push (item : Int) : pushed [.push item] = [item] := rfl

@[simp] theorem popped_push (item : Int) : popped [.push item] = [] := rfl

@[simp] theorem pushed_pop (message : Int) : pushed [.pop message] = [] := rfl

@[simp] theorem popped_pop (message : Int) : popped [.pop message] = [message] := rfl

end Trace

section Sound
variable {trace : List Event} {state : State} {cond_mutex : Mutex Party} {producent : Producent} {consumer : Consumer}

theorem Sound.produce (sound : Sound trace state) (same : producent.i = state.producent.i)
    (own : cond_mutex.depth .producent = producent.holds)
    (others : cond_mutex.depth .consumer = state.cond_mutex.depth .consumer)
    (pends : state.consumer = .asleep → state.producent.Pending → producent.Pending) :
    Sound trace { state with cond_mutex, producent } where
  produces := own
  consumes := others.trans sound.consumes
  counted := by
    rw [same]
    exact sound.counted
  conserved := sound.conserved
  knows := by
    have knows := sound.knows
    cases here : state.consumer with
    | asleep =>
      rw [here] at knows
      intro some
      obtain ⟨one, pending⟩ := knows some
      exact ⟨one, pends here pending⟩
    | lock | test | wait | woken | front | pop | unlock | sleep | undefined =>
      rw [here] at knows
      exact knows
  defined := sound.defined

theorem Sound.consume (sound : Sound trace state) (own : cond_mutex.depth .consumer = consumer.holds)
    (others : cond_mutex.depth .producent = state.cond_mutex.depth .producent)
    (knows : consumer.Knows state.q state.producent.Pending) : Sound trace { state with cond_mutex, consumer } where
  produces := others.trans sound.produces
  consumes := own
  counted := sound.counted
  conserved := sound.conserved
  knows := knows
  defined := sound.defined

theorem Sound.apart (sound : Sound trace state) (holds : state.producent.holds = 1) : state.consumer.holds = 0 := by
  by_contra also
  have first : 0 < state.cond_mutex.depth .producent := by
    rw [sound.produces, holds]
    decide
  have second : 0 < state.cond_mutex.depth .consumer := by
    rw [sound.consumes]
    exact Nat.pos_of_ne_zero also
  cases Mutex.exclusive first second

theorem Sound.push (sound : Sound trace state) {i : Nat} (here : state.producent = .push i) :
    Sound (trace ++ [.push i]) { state with q := state.q ++ [(i : Int)], producent := .unlock (i + 1) } where
  produces := by
    rw [sound.produces, here]
    rfl
  consumes := sound.consumes
  counted := by
    have counted := sound.counted
    rw [here] at counted
    change pushed (trace ++ [.push i]) = (List.range (i + 1)).map Int.ofNat
    rw [pushed_append, counted, List.range_succ, List.map_append]
    rfl
  conserved := by
    rw [popped_append, pushed_append, popped_push, pushed_push, List.append_nil, ← List.append_assoc, sound.conserved]
  knows := by
    have outside : state.consumer.holds = 0 := sound.apart (by rw [here]; rfl)
    have knows := sound.knows
    rw [here] at knows
    cases position : state.consumer with
    | asleep =>
      rw [position] at knows
      intro _
      by_cases empty : state.q = []
      · rw [empty]
        exact ⟨rfl, trivial⟩
      · exact (knows empty).2.elim
    | test | wait | front | pop | unlock =>
      rw [position] at outside
      cases outside
    | lock | woken | sleep => trivial
    | undefined =>
      rw [position] at knows
      exact knows
  defined := by
    have before := sound.defined
    simp [before]

theorem Sound.pop (sound : Sound trace state) {message : Int} (here : state.consumer = .pop message) :
    Sound (trace ++ [.pop message]) { state with q := state.q.tail, consumer := .unlock } where
  produces := sound.produces
  consumes := by
    rw [sound.consumes, here]
    rfl
  counted := by
    rw [pushed_append, pushed_pop, List.append_nil]
    exact sound.counted
  conserved := by
    have knows := sound.knows
    rw [here] at knows
    have whole : message :: state.q.tail = state.q := List.cons_head?_tail knows
    rw [popped_append, pushed_append, popped_pop, pushed_pop, List.append_nil, List.append_assoc, List.singleton_append,
      whole]
    exact sound.conserved
  knows := trivial
  defined := by
    have before := sound.defined
    simp [before]

end Sound

section Runs
variable {trace : List Event} {state next : State}

theorem Sound.quiet (sound : Sound trace state) (step : Step state none next) : Sound trace next := by
  have produces := sound.produces
  have consumes := sound.consumes
  have knows := sound.knows
  cases step with
  | lock here locked =>
    obtain ⟨own, others⟩ := Mutex.depth_lockPlain locked
    rw [produces, here] at own
    exact sound.produce (by rw [here]; rfl) own (others _ (by decide)) (by rw [here]; exact fun _ => id)
  | overflow here most =>
    rw [here] at produces
    exact sound.produce (by rw [here]; rfl) produces rfl (by rw [here]; exact fun _ => id)
  | unlock here unlocked =>
    obtain ⟨own, others⟩ := Mutex.depth_unlock unlocked
    rw [produces, here] at own
    exact sound.produce (by rw [here]; rfl) (Nat.succ.inj own).symm (others _ (by decide)) (fun _ _ => trivial)
  | signal here =>
    rw [here] at produces
    have woken : Sound trace { state with consumer := state.consumer.wake } := by
      cases position : state.consumer with
      | asleep =>
        rw [position] at consumes
        exact sound.consume consumes rfl trivial
      | lock | test | wait | woken | front | pop | unlock | sleep | undefined =>
        rw [position] at consumes knows
        exact sound.consume consumes rfl knows
    have awake : state.consumer.wake ≠ .asleep := by
      cases state.consumer <;> exact fun wrong => by cases wrong
    exact woken.produce (by rw [here]; rfl) produces rfl (fun wrong => absurd wrong awake)
  | slept here =>
    rw [here] at produces
    exact sound.produce (by rw [here]; rfl) produces rfl (by rw [here]; exact fun _ => id)
  | consumerLock here locked =>
    obtain ⟨own, others⟩ := Mutex.depth_lockPlain locked
    have outside : state.consumer.holds = 0 := by
      rcases here with first | again
      · rw [first]
        rfl
      · rw [again]
        rfl
    rw [consumes, outside] at own
    exact sound.consume own (others _ (by decide)) trivial
  | test here =>
    rw [here] at consumes
    by_cases empty : state.q.length = 0
    · rw [if_pos empty]
      exact sound.consume consumes rfl (List.length_eq_zero_iff.mp empty)
    · rw [if_neg empty]
      exact sound.consume consumes rfl (fun wrong => empty (List.length_eq_zero_iff.mpr wrong))
  | wait here unlocked =>
    obtain ⟨own, others⟩ := Mutex.depth_unlock unlocked
    rw [consumes, here] at own
    rw [here] at knows
    exact sound.consume (Nat.succ.inj own).symm (others _ (by decide)) (fun some => absurd knows some)
  | spurious here =>
    rw [here] at consumes ⊢
    exact sound.consume consumes rfl trivial
  | front here first =>
    rw [here] at consumes
    exact sound.consume consumes rfl first
  | consumerUnlock here unlocked =>
    obtain ⟨own, others⟩ := Mutex.depth_unlock unlocked
    rw [consumes, here] at own
    exact sound.consume (Nat.succ.inj own).symm (others _ (by decide)) trivial
  | consumerSlept here =>
    rw [here] at consumes
    exact sound.consume consumes rfl trivial

theorem Sound.shown {event : Event} (sound : Sound trace state) (step : Step state (some event) next) :
    Sound (trace ++ [event]) next := by
  cases step with
  | push here less => exact sound.push here
  | pop here => exact sound.pop here
  | frontEmpty here empty =>
    have knows := sound.knows
    rw [here] at knows
    exact absurd (List.head?_eq_none_iff.mp empty) knows

theorem sound_of_reaches (reached : threads.Reaches trace state) : Sound trace state := by
  apply reached.invariant_apart Sound
  · intro first begins
    obtain rfl := begins
    exact ⟨rfl, rfl, rfl, rfl, trivial, List.not_mem_nil⟩
  · exact fun _ _ _ sound step => sound.quiet step
  · exact fun _ _ _ _ sound step => sound.shown step

/-- Messages come in order, and the consumer sleeps over none whose signal has been sent. -/
theorem delivers_in_order (reached : threads.Reaches trace state) : Delivers trace state := by
  have sound := sound_of_reaches reached
  have length : (pushed trace).length = state.producent.i := by
    rw [sound.counted, List.length_map, List.length_range]
  refine ⟨?_, ?_, sound.defined, ?_⟩
  · rw [sound.conserved, length]
    exact sound.counted
  · rw [length]
    exact sound.counted
  · intro asleep
    have knows := sound.knows
    rw [asleep] at knows
    exact knows

theorem reaches_over_message : threads.Reaches [.push 0] ⟨.free, [0], .signal 1, .asleep⟩ := by
  have begun : threads.Reaches [] ⟨.free, [], .lock 0, .lock⟩ := .first rfl
  have locked := begun.tail (Step.consumerLock (.inl rfl) rfl)
  have waits := (locked.tail (Step.test rfl)).tail (Step.wait rfl rfl)
  have pushes := (waits.tail (Step.lock rfl rfl)).tail (Step.push rfl (by decide))
  exact pushes.tail (Step.unlock rfl rfl)

theorem delivers_in_order_over_message :
    threads.Reaches [.push 0] ⟨.free, [0], .signal 1, .asleep⟩ ∧
      Delivers [.push 0] ⟨.free, [0], .signal 1, .asleep⟩ :=
  ⟨reaches_over_message, delivers_in_order reaches_over_message⟩

end Runs

end CppRt.ProdCons

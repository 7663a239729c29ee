import CppRt.Library.Transition
import Mathlib.Tactic.Common

/-!
A future whose constructor starts a thread with a copy of its task. The copy writes the value
to the future's own result through a reference. Both get and the destructor call pthread_join
on the thread, and to join a thread that has been joined is undefined. The thread is taken to
start, and the future that async returns to be the one it has constructed.
-/

namespace CppRt.PthreadsFuture
open Library.Transition

variable {Value : Type*}

/-- Where the user of the future is, with the calls of get to come. -/
inductive User where
  | constructor
  | live (gets : Nat)
  | joining (gets : Nat)
  | reading (gets : Nat)
  | destroying
  | destroyed
  | undefined

def User.Joins : User → Prop
  | .joining _ | .destroying => True
  | _ => False

inductive Thread (Value : Type*) where
  | absent
  | task
  | result (value : Value)
  | done
  | exit
  | ended

structure Future (Value : Type*) where
  user : User
  thread : Thread Value
  result : Option Value
  done : Bool
  joined : Bool

inductive Event (Value : Type*) where
  | launched
  | wrote
  | join
  | returned (result : Option Value)
  | destroyed
  | undefined

/-- The thread's task returns the value, and the user calls get so often before the end. -/
inductive Step (value : Value) (gets : Nat) (future : Future Value) :
    Option (Event Value) → Future Value → Prop where
  | constructor (here : future.user = .constructor) :
      Step value gets future (some .launched) { future with user := .live gets, thread := .task }
  | get {left : Nat} (here : future.user = .live (left + 1)) :
      Step value gets future (some .join) { future with user := .joining left }
  | joined {left : Nat} (here : future.user = .joining left) (ended : future.thread = .ended)
      (first : future.joined = false) :
      Step value gets future none { future with user := .reading left, joined := true }
  | read {left : Nat} (here : future.user = .reading left) :
      Step value gets future (some (.returned future.result)) { future with user := .live left }
  | destroy (here : future.user = .live 0) : Step value gets future (some .join) { future with user := .destroying }
  | destroyed (here : future.user = .destroying) (ended : future.thread = .ended) (first : future.joined = false) :
      Step value gets future (some .destroyed) { future with user := .destroyed, joined := true }
  | again (here : future.user.Joins) (joined : future.joined = true) :
      Step value gets future (some .undefined) { future with user := .undefined }
  | task (here : future.thread = .task) : Step value gets future none { future with thread := .result value }
  | result {returned : Value} (here : future.thread = .result returned) :
      Step value gets future (some .wrote) { future with thread := .done, result := some returned }
  | done (here : future.thread = .done) : Step value gets future none { future with thread := .exit, done := true }
  | exit (here : future.thread = .exit) : Step value gets future none { future with thread := .ended }

def life (value : Value) (gets : Nat) : System (Future Value) (Event Value) where
  start future := future = ⟨.constructor, .absent, none, false, false⟩
  step := Step value gets

def Event.joins : Event Value → Bool
  | .join => true
  | _ => false

def Gets (value : Value) : List (Event Value) → Event Value → Prop :=
  fun before event => ∀ result, event = .returned result → result = some value ∧ .wrote ∈ before

/-- What a future is for, and what it owes to its thread. -/
structure JoinsOnce (value : Value) (gets : Nat) : Prop where
  returns : ∀ trace future, (life value gets).Reaches trace future → Throughout (Gets value) trace
  once : ∀ trace future, (life value gets).Reaches trace future →
    trace.countP Event.joins ≤ 1 ∧ (future.user = .destroyed → trace.countP Event.joins = 1)
  defined : ∀ trace future, (life value gets).Reaches trace future → .undefined ∉ trace

def Thread.Written : Thread Value → Prop
  | .absent | .task | .result _ => False
  | .done | .exit | .ended => True

structure Sound (value : Value) (trace : List (Event Value)) (future : Future Value) : Prop where
  written : future.thread.Written → future.result = some value ∧ .wrote ∈ trace
  returned : ∀ returned, future.thread = .result returned → returned = value
  joined : future.joined = true → future.thread.Written
  reads : ∀ left, future.user = .reading left → future.joined = true
  fresh : future.user = .constructor → future.thread = .absent
  gets : Throughout (Gets value) trace

section Sound
variable {value : Value} {gets : Nat} {trace : List (Event Value)} {future next : Future Value}
variable {event : Event Value} {user : User} {thread : Thread Value}

theorem Sound.extend (sound : Sound value trace future) (other : ∀ result, event ≠ .returned result) :
    Throughout (Gets value) (trace ++ [event]) :=
  (throughout_snoc event).mpr ⟨sound.gets, fun result same => absurd same (other result)⟩

theorem Sound.use (sound : Sound value trace future) {more : List (Event Value)} {joined : Bool}
    (kept : trace ⊆ more) (ended : joined = true → future.thread.Written)
    (reads : ∀ left, user = .reading left → joined = true) (later : user ≠ .constructor)
    (gets : Throughout (Gets value) more) : Sound value more { future with user, joined } where
  written := by
    intro written
    obtain ⟨result, wrote⟩ := sound.written written
    exact ⟨result, kept wrote⟩
  returned := sound.returned
  joined := ended
  reads := reads
  fresh := fun wrong => absurd wrong later
  gets := gets

theorem Sound.work (sound : Sound value trace future) {done : Bool} (before : future.thread ≠ .absent)
    (same : thread.Written ↔ future.thread.Written)
    (returned : ∀ returned, thread = .result returned → returned = value) :
    Sound value trace { future with thread, done } where
  written := fun written => sound.written (same.mp written)
  returned := returned
  joined := fun joined => same.mpr (sound.joined joined)
  reads := sound.reads
  fresh := fun wrong => absurd (sound.fresh wrong) before
  gets := sound.gets

theorem Sound.quiet (sound : Sound value trace future) (step : Step value gets future none next) :
    Sound value trace next := by
  cases step with
  | joined here ended first =>
    have written : future.thread.Written := by
      rw [ended]
      trivial
    exact sound.use (List.Subset.refl trace) (fun _ => written) (fun _ _ => rfl) (fun wrong => by cases wrong)
      sound.gets
  | task here =>
    apply sound.work
    · rw [here]
      exact fun wrong => by cases wrong
    · rw [here]
      rfl
    · intro returned same
      cases same
      rfl
  | done here | exit here =>
    apply sound.work
    · rw [here]
      exact fun wrong => by cases wrong
    · rw [here]
      rfl
    · exact fun _ wrong => by cases wrong

theorem Sound.shown (sound : Sound value trace future) (step : Step value gets future (some event) next) :
    Sound value (trace ++ [event]) next := by
  cases step with
  | constructor here =>
    have fresh := sound.fresh here
    have unjoined : ¬future.joined = true := by
      intro joined
      have written := sound.joined joined
      rw [fresh] at written
      exact written
    exact ⟨fun wrong => wrong.elim, (fun _ wrong => by cases wrong), fun wrong => absurd wrong unjoined,
      (fun _ wrong => by cases wrong), (fun wrong => by cases wrong), sound.extend fun _ wrong => by cases wrong⟩
  | get here | destroy here =>
    exact sound.use (List.subset_append_left trace _) sound.joined (fun _ wrong => by cases wrong)
      (fun wrong => by cases wrong) (sound.extend fun _ wrong => by cases wrong)
  | read here =>
    have joined := sound.reads _ here
    obtain ⟨result, wrote⟩ := sound.written (sound.joined joined)
    have gets : Gets value trace (.returned future.result) := by
      intro returned same
      cases same
      exact ⟨result, wrote⟩
    exact sound.use (List.subset_append_left trace _) sound.joined (fun _ wrong => by cases wrong)
      (fun wrong => by cases wrong) ((throughout_snoc _).mpr ⟨sound.gets, gets⟩)
  | destroyed here ended first =>
    have written : future.thread.Written := by
      rw [ended]
      trivial
    exact sound.use (List.subset_append_left trace _) (fun _ => written) (fun _ wrong => by cases wrong)
      (fun wrong => by cases wrong) (sound.extend fun _ wrong => by cases wrong)
  | again here joined =>
    exact sound.use (List.subset_append_left trace _) sound.joined (fun _ wrong => by cases wrong)
      (fun wrong => by cases wrong) (sound.extend fun _ wrong => by cases wrong)
  | @result returned here =>
    obtain rfl := sound.returned returned here
    have unjoined : ¬future.joined = true := by
      intro joined
      have written := sound.joined joined
      rw [here] at written
      exact written
    have later : future.user ≠ .constructor := by
      intro wrong
      have fresh := sound.fresh wrong
      rw [here] at fresh
      cases fresh
    exact ⟨fun _ => ⟨rfl, by simp⟩, (fun _ wrong => by cases wrong), fun wrong => absurd wrong unjoined, sound.reads,
      fun wrong => absurd wrong later, sound.extend fun _ wrong => by cases wrong⟩

theorem sound_of_reaches (reached : (life value gets).Reaches trace future) : Sound value trace future := by
  apply reached.invariant_apart (Sound value)
  · intro first begins
    obtain rfl := begins
    exact ⟨fun wrong => wrong.elim, (fun _ wrong => by cases wrong), (fun wrong => by cases wrong),
      (fun _ wrong => by cases wrong), fun _ => rfl, throughout_nil⟩
  · exact fun _ _ _ sound step => sound.quiet step
  · exact fun _ _ _ _ sound step => sound.shown step

theorem get_returns_value (reached : (life value gets).Reaches trace future) : Throughout (Gets value) trace :=
  (sound_of_reaches reached).gets

end Sound

def User.calls : User → Nat
  | .destroying | .destroyed => 1
  | _ => 0

structure Ungot (trace : List (Event Value)) (future : Future Value) : Prop where
  calls : trace.countP Event.joins = future.user.calls
  user : future.user = .constructor ∨ future.user = .live 0 ∨ future.user = .destroying ∨ future.user = .destroyed
  joined : future.joined = true → future.user = .destroyed
  defined : .undefined ∉ trace

section Joins
variable {value : Value} {trace : List (Event Value)} {future next : Future Value}
variable {event : Event Value}

theorem Ungot.quiet (ungot : Ungot trace future) (step : Step value 0 future none next) : Ungot trace next := by
  obtain ⟨calls, user, joined, defined⟩ := ungot
  cases step with
  | joined here ended first =>
    rw [here] at user
    rcases user with wrong | wrong | wrong | wrong <;> cases wrong
  | task here | done here | exit here => exact ⟨calls, user, joined, defined⟩

theorem Ungot.shown (ungot : Ungot trace future) (step : Step value 0 future (some event) next) :
    Ungot (trace ++ [event]) next := by
  obtain ⟨calls, user, joined, defined⟩ := ungot
  cases step with
  | constructor here =>
    rw [here] at calls joined
    refine ⟨?_, .inr (.inl rfl), (fun wrong => by cases joined wrong), by simp [defined]⟩
    rw [List.countP_append, calls]
    rfl
  | get here | read here =>
    rw [here] at user
    rcases user with wrong | wrong | wrong | wrong <;> cases wrong
  | destroy here =>
    rw [here] at calls joined
    refine ⟨?_, .inr (.inr (.inl rfl)), (fun wrong => by cases joined wrong), by simp [defined]⟩
    rw [List.countP_append, calls]
    rfl
  | destroyed here ended first =>
    rw [here] at calls
    refine ⟨?_, .inr (.inr (.inr rfl)), fun _ => rfl, by simp [defined]⟩
    rw [List.countP_append, calls]
    rfl
  | again here twice =>
    rw [joined twice] at here
    exact here.elim
  | result here =>
    refine ⟨?_, user, joined, by simp [defined]⟩
    rw [List.countP_append, calls]
    rfl

theorem ungot_of_reaches (reached : (life value 0).Reaches trace future) : Ungot trace future := by
  apply reached.invariant_apart Ungot
  · intro first begins
    obtain rfl := begins
    exact ⟨rfl, .inl rfl, (fun wrong => by cases wrong), List.not_mem_nil⟩
  · exact fun _ _ _ ungot step => ungot.quiet step
  · exact fun _ _ _ _ ungot step => ungot.shown step

theorem reaches_again (value : Value) (left : Nat) : ∃ trace future,
    (life value (left + 1)).Reaches trace future ∧ trace.countP Event.joins = 2 := by
  have begun : (life value (left + 1)).Reaches [] ⟨.constructor, .absent, none, false, false⟩ := .first rfl
  have started := (begun.tail (Step.constructor rfl)).tail (Step.get rfl)
  have worked := ((started.tail (Step.task rfl)).tail (Step.result rfl)).tail (Step.done rfl)
  have got := ((worked.tail (Step.exit rfl)).tail (Step.joined rfl rfl rfl)).tail (Step.read rfl)
  cases left with
  | zero => exact ⟨_, _, got.tail (Step.destroy rfl), rfl⟩
  | succ left => exact ⟨_, _, got.tail (Step.get rfl), rfl⟩

/-- The thread is joined exactly once if and only if get is never called. -/
theorem joins_once_iff (value : Value) (gets : Nat) : JoinsOnce value gets ↔ gets = 0 := by
  constructor
  · intro once
    cases gets with
    | zero => rfl
    | succ left =>
      obtain ⟨trace, future, reached, twice⟩ := reaches_again value left
      have most := (once.once trace future reached).1
      rw [twice] at most
      exact absurd most (by decide)
  · intro none
    subst none
    refine ⟨fun _ _ => get_returns_value, ?_, fun _ _ reached => (ungot_of_reaches reached).defined⟩
    intro trace future reached
    obtain ⟨calls, user, _, _⟩ := ungot_of_reaches reached
    constructor
    · rw [calls]
      rcases user with here | here | here | here <;> rw [here] <;> decide
    · intro destroyed
      rw [calls, destroyed]
      rfl

/-- The first future of main: one get, and the end of main. -/
theorem joins_twice : ¬JoinsOnce (42 : Int) 1 := by
  intro once
  obtain ⟨trace, future, reached, twice⟩ := reaches_again (42 : Int) 0
  have most := (once.once trace future reached).1
  rw [twice] at most
  exact absurd most (by decide)

end Joins

end CppRt.PthreadsFuture

import CppRt.Library.Transition
import Mathlib.Logic.Function.Basic

/-!
Concurrent objects, the threads that use them, and linearization.

A sequential object says what an operation does when it runs alone. A concurrent
object runs the operations of many threads in small steps, and marks the step at
which an operation takes effect. The atomic object is the concurrent object whose
operations take effect in one step; an implementation is linearizable when a map
of its states to the atomic object's states turns each of its steps into an
atomic step or into none. A client says which operation each thread is at, so the
results about the composed system hold for every program.
-/

namespace CppRt.Library.Concurrent
open Transition

/-- What an operation does to the contents and what it answers; `none` while it must wait. -/
structure Sequential (Contents Call Ret : Type*) where
  initial : Contents
  apply : Contents → Call → Option (Contents × Ret)

inductive Action (Call Ret : Type*) where
  | call (call : Call)
  | commit (call : Call) (ret : Ret)
  | ret (ret : Ret)
  | fault

/-- `wake` holds the steps that are not any thread's own. -/
structure Object (Thread State Call Ret : Type*) where
  start : State → Prop
  step : State → Thread → Option (Action Call Ret) → State → Prop
  wake : State → State → Prop

section Sequential
variable {Contents Call Ret : Type*} (spec : Sequential Contents Call Ret)

def Sequential.Answers (call : Call) (ret : Ret) : Prop :=
  ∃ contents later, spec.apply contents call = some (later, ret)

inductive Sequential.History : List (Call × Ret) → Contents → Prop where
  | nil : History [] spec.initial
  | snoc {history : List (Call × Ret)} {contents later : Contents} {call : Call} {ret : Ret}
      (before : History history contents) (applied : spec.apply contents call = some (later, ret)) :
      History (history ++ [(call, ret)]) later

end Sequential

/-- The threads around an object. A thread that asks for an operation does nothing
else until the operation has returned, and no other thread makes it stop asking. -/
structure Client (Thread State Note : Type*) {Contents Call Ret : Type*}
    (spec : Sequential Contents Call Ret) where
  start : State → Prop
  asks : State → Thread → Option Call
  ret : State → Thread → Ret → State → Prop
  work : State → Thread → Note → State → Prop
  ret_total : ∀ {state thread call answer}, asks state thread = some call → spec.Answers call answer →
    ∃ next, ret state thread answer next
  ret_frame : ∀ {state thread answer next other}, ret state thread answer next → other ≠ thread →
    asks next other = asks state other
  work_free : ∀ {state thread note next}, work state thread note next → asks state thread = none
  work_frame : ∀ {state thread note next other call}, work state thread note next → other ≠ thread →
    asks state other = some call → asks next other = some call

def Sequential.programs {Thread Contents Call Ret Request : Type*} [DecidableEq Thread]
    (spec : Sequential Contents Call Ret) (call : Request → Call) (program : Thread → List Request) :
    Client Thread (Thread → List Request) Empty spec where
  start remaining := remaining = program
  asks remaining thread := (remaining thread).head?.map call
  ret remaining thread _ next := next = Function.update remaining thread (remaining thread).tail
  work _ _ _ _ := False
  ret_total _ _ := ⟨_, rfl⟩
  ret_frame := by
    intro _ _ _ _ other same different
    rw [same, Function.update_of_ne different]
  work_free := False.elim
  work_frame := False.elim

structure Joint (State Progress : Type*) where
  object : State
  client : Progress

inductive Label (Thread Call Ret Note : Type*) where
  | act (thread : Thread) (action : Action Call Ret)
  | note (thread : Thread) (note : Note)

section Commits
variable {Thread Call Ret Note : Type*}

def Label.thread : Label Thread Call Ret Note → Thread
  | .act thread _ => thread
  | .note thread _ => thread

def Label.committed : Label Thread Call Ret Note → Option (Thread × Call × Ret)
  | .act thread (.commit call ret) => some (thread, call, ret)
  | _ => none

def commits (trace : List (Label Thread Call Ret Note)) : List (Thread × Call × Ret) :=
  trace.filterMap Label.committed

@[simp] theorem commits_nil : commits ([] : List (Label Thread Call Ret Note)) = [] := rfl

@[simp] theorem commits_append (before after : List (Label Thread Call Ret Note)) :
    commits (before ++ after) = commits before ++ commits after := List.filterMap_append

@[simp] theorem commits_call (thread : Thread) (call : Call) :
    commits [(.act thread (.call call) : Label Thread Call Ret Note)] = [] := rfl

@[simp] theorem commits_commit (thread : Thread) (call : Call) (ret : Ret) :
    commits [(.act thread (.commit call ret) : Label Thread Call Ret Note)] = [(thread, call, ret)] := rfl

@[simp] theorem commits_ret (thread : Thread) (ret : Ret) :
    commits [(.act thread (.ret ret) : Label Thread Call Ret Note)] = [] := rfl

@[simp] theorem commits_note (thread : Thread) (note : Note) :
    commits [(.note thread note : Label Thread Call Ret Note)] = [] := rfl

def Label.noted : Label Thread Call Ret Note → Option (Thread × Note)
  | .note thread what => some (thread, what)
  | _ => none

def notes (trace : List (Label Thread Call Ret Note)) : List (Thread × Note) :=
  trace.filterMap Label.noted

@[simp] theorem notes_nil : notes ([] : List (Label Thread Call Ret Note)) = [] := rfl

@[simp] theorem notes_append (before after : List (Label Thread Call Ret Note)) :
    notes (before ++ after) = notes before ++ notes after := List.filterMap_append

@[simp] theorem notes_act (thread : Thread) (action : Action Call Ret) :
    notes [(.act thread action : Label Thread Call Ret Note)] = [] := rfl

@[simp] theorem notes_note (thread : Thread) (note : Note) :
    notes [(.note thread note : Label Thread Call Ret Note)] = [(thread, note)] := rfl

/-- What a thread's operation in progress has settled, after one more label. -/
def Label.settles [DecidableEq Thread] (thread : Thread) (settled : List (Call × Ret)) :
    Label Thread Call Ret Note → List (Call × Ret)
  | .act other (.call _) => if other = thread then [] else settled
  | .act other (.commit call ret) => if other = thread then settled ++ [(call, ret)] else settled
  | _ => settled

def sinceCall [DecidableEq Thread] (thread : Thread) (trace : List (Label Thread Call Ret Note)) :
    List (Call × Ret) :=
  trace.foldl (Label.settles thread) []

@[simp] theorem sinceCall_nil [DecidableEq Thread] (thread : Thread) :
    sinceCall thread ([] : List (Label Thread Call Ret Note)) = [] := rfl

@[simp] theorem sinceCall_snoc [DecidableEq Thread] (thread : Thread)
    (trace : List (Label Thread Call Ret Note)) (label : Label Thread Call Ret Note) :
    sinceCall thread (trace ++ [label]) = label.settles thread (sinceCall thread trace) := by
  simp [sinceCall]

theorem settles_other [DecidableEq Thread] {thread : Thread} {label : Label Thread Call Ret Note}
    (different : label.thread ≠ thread) (settled : List (Call × Ret)) :
    label.settles thread settled = settled := by
  rcases label with ⟨other, _ | _ | _ | _⟩ | _
  · exact if_neg different
  · exact if_neg different
  all_goals rfl

end Commits

section Compose
variable {Thread State Progress Note Contents Call Ret : Type*} {spec : Sequential Contents Call Ret}
variable (object : Object Thread State Call Ret) (client : Client Thread Progress Note spec)

inductive Step : Joint State Progress → Thread → Option (Label Thread Call Ret Note) →
    Joint State Progress → Prop where
  | call {state next : State} {progress : Progress} {thread : Thread} {call : Call}
      (asked : client.asks progress thread = some call)
      (step : object.step state thread (some (.call call)) next) :
      Step ⟨state, progress⟩ thread (some (.act thread (.call call))) ⟨next, progress⟩
  | silent {state next : State} {progress : Progress} {thread : Thread}
      (step : object.step state thread none next) :
      Step ⟨state, progress⟩ thread none ⟨next, progress⟩
  | commit {state next : State} {progress : Progress} {thread : Thread} {call : Call} {ret : Ret}
      (step : object.step state thread (some (.commit call ret)) next) :
      Step ⟨state, progress⟩ thread (some (.act thread (.commit call ret))) ⟨next, progress⟩
  | fault {state next : State} {progress : Progress} {thread : Thread}
      (step : object.step state thread (some .fault) next) :
      Step ⟨state, progress⟩ thread (some (.act thread .fault)) ⟨next, progress⟩
  | ret {state next : State} {progress later : Progress} {thread : Thread} {ret : Ret}
      (step : object.step state thread (some (.ret ret)) next)
      (resumed : client.ret progress thread ret later) :
      Step ⟨state, progress⟩ thread (some (.act thread (.ret ret))) ⟨next, later⟩
  | work {state : State} {progress later : Progress} {thread : Thread} {note : Note}
      (worked : client.work progress thread note later) :
      Step ⟨state, progress⟩ thread (some (.note thread note)) ⟨state, later⟩

def compose : System (Joint State Progress) (Label Thread Call Ret Note) where
  start joint := object.start joint.object ∧ client.start joint.client
  step joint label next := (∃ thread, Step object client joint thread label next) ∨
    label = none ∧ object.wake joint.object next.object ∧ next.client = joint.client

theorem object_cases {object : Object Thread State Call Ret} {client : Client Thread Progress Note spec}
    {state next : Joint State Progress} {label : Option (Label Thread Call Ret Note)}
    (step : (compose object client).step state label next) :
    (∃ thread action, label = action.map (Label.act thread) ∧
      object.step state.object thread action next.object) ∨
    object.wake state.object next.object ∨ next.object = state.object := by
  rcases step with ⟨thread, step⟩ | ⟨-, woken, -⟩
  · cases step with
    | call _ step => exact .inl ⟨thread, some _, rfl, step⟩
    | silent step => exact .inl ⟨thread, none, rfl, step⟩
    | commit step => exact .inl ⟨thread, some _, rfl, step⟩
    | fault step => exact .inl ⟨thread, some _, rfl, step⟩
    | ret step _ => exact .inl ⟨thread, some _, rfl, step⟩
    | work _ => exact .inr (.inr rfl)
  · exact .inr (.inl woken)

theorem programs_cases {Request : Type*} [DecidableEq Thread] {object : Object Thread State Call Ret}
    {call : Request → Call} {program : Thread → List Request} {label : Option (Label Thread Call Ret Empty)}
    {state next : Joint State (Thread → List Request)}
    (step : (compose object (spec.programs call program)).step state label next) :
    (∃ thread action, label = action.map (Label.act thread) ∧
      object.step state.object thread action next.object) ∨
    label = none ∧ object.wake state.object next.object := by
  rcases step with ⟨thread, step⟩ | ⟨silent, woken, -⟩
  · cases step with
    | call _ step => exact .inl ⟨thread, some _, rfl, step⟩
    | silent step => exact .inl ⟨thread, none, rfl, step⟩
    | commit step => exact .inl ⟨thread, some _, rfl, step⟩
    | fault step => exact .inl ⟨thread, some _, rfl, step⟩
    | ret step _ => exact .inl ⟨thread, some _, rfl, step⟩
    | work worked => exact worked.elim
  · exact .inr ⟨silent, woken⟩

def Stuck (joint : Joint State Progress) : Prop :=
  ∀ thread label next, ¬Step object client joint thread label next

theorem programs_stuck {Request : Type*} [DecidableEq Thread] {object : Object Thread State Call Ret}
    {call : Request → Call} {program : Thread → List Request} {state : Joint State (Thread → List Request)}
    (stuck : Stuck object (spec.programs call program) state) {thread : Thread}
    {action : Option (Action Call Ret)} {next : State} (step : object.step state.object thread action next) :
    ∃ call, action = some (.call call) :=
  match action with
  | some (.call call) => ⟨call, rfl⟩
  | none => absurd (.silent step) (stuck thread none ⟨next, state.client⟩)
  | some (.commit _ _) => absurd (.commit step) (stuck thread _ ⟨next, state.client⟩)
  | some .fault => absurd (.fault step) (stuck thread _ ⟨next, state.client⟩)
  | some (.ret _) => absurd (.ret step rfl) (stuck thread _ ⟨next, _⟩)

theorem stuck_of_done {Request : Type*} [DecidableEq Thread] {object : Object Thread State Call Ret}
    {call : Request → Call} {program : Thread → List Request} {state : Joint State (Thread → List Request)}
    (done : ∀ thread action next, object.step state.object thread action next →
      (∃ call, action = some (.call call)) ∧ state.client thread = []) :
    Stuck object (spec.programs call program) state := by
  intro thread label next step
  cases step with
  | @call _ _ progress _ _ asked step =>
    have empty : progress thread = [] := (done thread _ _ step).2
    simp [Sequential.programs, empty] at asked
  | silent step | commit step | fault step | ret step _ =>
    obtain ⟨⟨called, same⟩, -⟩ := done thread _ _ step
    cases same
  | work worked => exact worked

inductive Object.Quietly (object : Object Thread State Call Ret) (thread : Thread) : State → State → Prop where
  | refl {state : State} : Quietly object thread state state
  | head {state middle last : State} (step : object.step state thread none middle)
      (rest : Quietly object thread middle last) : Quietly object thread state last

def Object.Completes (object : Object Thread State Call Ret) (thread : Thread) (call : Call) (ret : Ret)
    (first last : State) : Prop :=
  ∃ called ready settled leaving, object.step first thread (some (.call call)) called ∧
    object.Quietly thread called ready ∧ object.step ready thread (some (.commit call ret)) settled ∧
    object.Quietly thread settled leaving ∧ object.step leaving thread (some (.ret ret)) last

def Object.Parks (object : Object Thread State Call Ret) (thread : Thread) (call : Call)
    (first last : State) : Prop :=
  ∃ called, object.step first thread (some (.call call)) called ∧ object.Quietly thread called last

section Runs
variable {object : Object Thread State Call Ret} {client : Client Thread Progress Note spec}
variable {first last : State} {progress later : Progress} {thread : Thread} {call : Call} {ret : Ret}

theorem Step.run {state next : Joint State Progress} {label : Option (Label Thread Call Ret Note)}
    (step : Step object client state thread label next) :
    (compose object client).Run state label.toList next :=
  .single (.inl ⟨thread, step⟩)

theorem Object.Quietly.trans {middle : State} (left : object.Quietly thread first middle)
    (right : object.Quietly thread middle last) : object.Quietly thread first last := by
  induction left with
  | refl => exact right
  | head step _ ih => exact .head step (ih right)

theorem Object.Quietly.run (quietly : object.Quietly thread first last) :
    (compose object client).Run ⟨first, progress⟩ [] ⟨last, progress⟩ := by
  induction quietly with
  | refl => exact .refl
  | head step _ ih => exact (Step.run (.silent step)).trans ih

theorem Object.Completes.run (completes : object.Completes thread call ret first last)
    (asked : client.asks progress thread = some call) (resumed : client.ret progress thread ret later) :
    (compose object client).Run ⟨first, progress⟩
      [.act thread (.call call), .act thread (.commit call ret), .act thread (.ret ret)] ⟨last, later⟩ := by
  obtain ⟨called, ready, settled, leaving, enters, before, commits, after, leaves⟩ := completes
  exact (Step.run (.call asked enters)).trans (before.run.trans ((Step.run (.commit commits)).trans
    (after.run.trans (Step.run (.ret leaves resumed)))))

theorem Object.Parks.run (parks : object.Parks thread call first last)
    (asked : client.asks progress thread = some call) :
    (compose object client).Run ⟨first, progress⟩ [.act thread (.call call)] ⟨last, progress⟩ := by
  obtain ⟨called, enters, before⟩ := parks
  exact (Step.run (.call asked enters)).trans before.run

end Runs

end Compose

inductive Status (Call Ret : Type*) where
  | idle
  | pending (call : Call)
  | done (ret : Ret)

def Status.answer {Call Ret : Type*} : Status Call Ret → Option Ret
  | .done ret => some ret
  | _ => none

structure Atomic (Thread Contents Call Ret : Type*) where
  contents : Contents
  status : Thread → Status Call Ret

section Atomic
variable {Thread Contents Call Ret : Type*} [DecidableEq Thread] (spec : Sequential Contents Call Ret)

inductive AtomicStep (state : Atomic Thread Contents Call Ret) (thread : Thread) :
    Option (Action Call Ret) → Atomic Thread Contents Call Ret → Prop where
  | call {call : Call} (idle : state.status thread = .idle) :
      AtomicStep state thread (some (.call call))
        ⟨state.contents, Function.update state.status thread (.pending call)⟩
  | commit {call : Call} {ret : Ret} {later : Contents} (pending : state.status thread = .pending call)
      (applied : spec.apply state.contents call = some (later, ret)) :
      AtomicStep state thread (some (.commit call ret))
        ⟨later, Function.update state.status thread (.done ret)⟩
  | ret {ret : Ret} (done : state.status thread = .done ret) :
      AtomicStep state thread (some (.ret ret))
        ⟨state.contents, Function.update state.status thread .idle⟩

theorem AtomicStep.finished {spec : Sequential Contents Call Ret} {thread : Thread} {ret : Ret}
    {state next : Atomic Thread Contents Call Ret}
    (step : AtomicStep spec state thread (some (.ret ret)) next) : state.status thread = .done ret := by
  cases step with
  | ret done => exact done

def Sequential.atomic : Object Thread (Atomic Thread Contents Call Ret) Call Ret where
  start state := state = ⟨spec.initial, fun _ => .idle⟩
  step := AtomicStep spec
  wake _ _ := False

end Atomic

/-- A map of an implementation to the atomic object, under an invariant, for the
operations on the menu. -/
structure Linearization {Thread State Contents Call Ret : Type*} [DecidableEq Thread]
    (object : Object Thread State Call Ret) (spec : Sequential Contents Call Ret) where
  menu : Call → Prop
  inv : State → Prop
  abs : State → Atomic Thread Contents Call Ret
  start : ∀ {state}, object.start state → inv state ∧ abs state = ⟨spec.initial, fun _ => .idle⟩
  step : ∀ {state thread action next}, inv state → (∀ call, action = some (.call call) → menu call) →
    object.step state thread action next →
    inv next ∧ (AtomicStep spec (abs state) thread action (abs next) ∨ action = none ∧ abs next = abs state)
  wake : ∀ {state next}, inv state → object.wake state next → inv next ∧ abs next = abs state

section Lift
variable {Thread State Progress Note Contents Call Ret : Type*} [DecidableEq Thread]
variable {spec : Sequential Contents Call Ret} {object : Object Thread State Call Ret}
variable {client : Client Thread Progress Note spec}

def Offers (menu : Call → Prop) (client : Client Thread Progress Note spec) : Prop :=
  ∀ progress thread call, client.asks progress thread = some call → menu call

def Linearization.image (linear : Linearization object spec) (state : Joint State Progress) :
    Joint (Atomic Thread Contents Call Ret) Progress :=
  ⟨linear.abs state.object, state.client⟩

theorem Linearization.answers (linear : Linearization object spec) (offers : Offers linear.menu client)
    {state next : Joint State Progress} {label : Option (Label Thread Call Ret Note)}
    (kept : linear.inv state.object) (step : (compose object client).step state label next) :
    linear.inv next.object ∧
      (compose spec.atomic client).Run (linear.image state) label.toList (linear.image next) := by
  rcases step with ⟨thread, step⟩ | ⟨rfl, woken, same⟩
  · cases step with
    | call asked step =>
      obtain ⟨kept, done | ⟨silent, _⟩⟩ := linear.step kept
        (fun call same => by cases same; exact offers _ _ _ asked) step
      · exact ⟨kept, Step.run (.call asked done)⟩
      · cases silent
    | silent step =>
      obtain ⟨kept, done | ⟨_, same⟩⟩ := linear.step kept (fun _ same => by cases same) step
      · cases done
      · simp only [image, same]
        exact ⟨kept, .refl⟩
    | commit step =>
      obtain ⟨kept, done | ⟨silent, _⟩⟩ := linear.step kept (fun _ same => by cases same) step
      · exact ⟨kept, Step.run (.commit done)⟩
      · cases silent
    | fault step =>
      obtain ⟨kept, done | ⟨silent, _⟩⟩ := linear.step kept (fun _ same => by cases same) step
      · cases done
      · cases silent
    | ret step resumed =>
      obtain ⟨kept, done | ⟨silent, _⟩⟩ := linear.step kept (fun _ same => by cases same) step
      · exact ⟨kept, Step.run (.ret done resumed)⟩
      · cases silent
    | work worked => exact ⟨kept, Step.run (.work worked)⟩
  · obtain ⟨kept, unchanged⟩ := linear.wake kept woken
    simp only [image, unchanged, same]
    exact ⟨kept, .refl⟩

/-- A program around a linearizable object does what it does around the atomic object. -/
theorem Linearization.reaches (linear : Linearization object spec) (offers : Offers linear.menu client)
    {trace : List (Label Thread Call Ret Note)} {state : Joint State Progress}
    (reached : (compose object client).Reaches trace state) :
    linear.inv state.object ∧ (compose spec.atomic client).Reaches trace (linear.image state) := by
  have simulated : ∃ image, (compose spec.atomic client).Reaches trace image ∧
      linear.inv state.object ∧ image = linear.image state := by
    refine reached.simulates (fun state image => linear.inv state.object ∧ image = linear.image state)
      ?_ ?_
    · intro first begins
      obtain ⟨kept, same⟩ := linear.start begins.1
      exact ⟨linear.image first, ⟨same, begins.2⟩, kept, rfl⟩
    · rintro state _ label next ⟨kept, rfl⟩ step
      obtain ⟨kept, run⟩ := linear.answers offers kept step
      exact ⟨_, run, kept, rfl⟩
  obtain ⟨_, abstractly, kept, rfl⟩ := simulated
  exact ⟨kept, abstractly⟩

end Lift

section AtomicClient
variable {Thread Progress Note Contents Call Ret : Type*} [DecidableEq Thread]
variable {spec : Sequential Contents Call Ret} {client : Client Thread Progress Note spec}

def Agrees (spec : Sequential Contents Call Ret) (asked : Option Call) : Status Call Ret → Prop
  | .idle => True
  | .pending call => asked = some call
  | .done ret => ∃ call, asked = some call ∧ spec.Answers call ret

theorem Agrees.idle {status : Status Call Ret} (agrees : Agrees spec none status) : status = .idle := by
  cases status with
  | idle => rfl
  | pending call => cases agrees
  | done ret =>
    obtain ⟨_, asked, _⟩ := agrees
    cases asked

def AgreesAll (client : Client Thread Progress Note spec)
    (state : Joint (Atomic Thread Contents Call Ret) Progress) : Prop :=
  ∀ thread, Agrees spec (client.asks state.client thread) (state.object.status thread)

inductive Move (client : Client Thread Progress Note spec)
    (state : Joint (Atomic Thread Contents Call Ret) Progress) :
    Option (Label Thread Call Ret Note) → Joint (Atomic Thread Contents Call Ret) Progress → Prop where
  | call (thread : Thread) (call : Call) (asked : client.asks state.client thread = some call)
      (idle : state.object.status thread = .idle) :
      Move client state (some (.act thread (.call call)))
        ⟨⟨state.object.contents, Function.update state.object.status thread (.pending call)⟩, state.client⟩
  | commit (thread : Thread) (call : Call) (ret : Ret) (later : Contents)
      (asked : client.asks state.client thread = some call)
      (pending : state.object.status thread = .pending call)
      (applied : spec.apply state.object.contents call = some (later, ret)) :
      Move client state (some (.act thread (.commit call ret)))
        ⟨⟨later, Function.update state.object.status thread (.done ret)⟩, state.client⟩
  | ret (thread : Thread) (call : Call) (ret : Ret) (later : Progress)
      (asked : client.asks state.client thread = some call) (answers : spec.Answers call ret)
      (done : state.object.status thread = .done ret) (resumed : client.ret state.client thread ret later) :
      Move client state (some (.act thread (.ret ret)))
        ⟨⟨state.object.contents, Function.update state.object.status thread .idle⟩, later⟩
  | work (thread : Thread) (note : Note) (later : Progress)
      (free : client.asks state.client thread = none) (idle : state.object.status thread = .idle)
      (worked : client.work state.client thread note later) :
      Move client state (some (.note thread note)) ⟨state.object, later⟩

theorem Move.other {state next : Joint (Atomic Thread Contents Call Ret) Progress}
    {label : Option (Label Thread Call Ret Note)} (move : Move client state label next) :
    ∃ shown, label = some shown ∧
      ∀ other, shown.thread ≠ other → next.object.status other = state.object.status other := by
  cases move with
  | call | commit | ret => exact ⟨_, rfl, fun other different => Function.update_of_ne (Ne.symm different) _ _⟩
  | work => exact ⟨_, rfl, fun _ _ => rfl⟩

theorem moves {state next : Joint (Atomic Thread Contents Call Ret) Progress}
    {label : Option (Label Thread Call Ret Note)} (agrees : AgreesAll client state)
    (step : (compose spec.atomic client).step state label next) : Move client state label next := by
  rcases step with ⟨thread, step⟩ | ⟨-, woken, -⟩
  · cases step with
    | call asked step =>
      cases step with
      | call idle => exact .call thread _ asked idle
    | silent step => cases step
    | commit step =>
      cases step with
      | commit pending applied =>
        have asked := agrees thread
        rw [pending] at asked
        exact .commit thread _ _ _ asked pending applied
    | fault step => cases step
    | ret step resumed =>
      cases step with
      | ret done =>
        have asked := agrees thread
        rw [done] at asked
        obtain ⟨call, asked, answers⟩ := asked
        exact .ret thread call _ _ asked answers done resumed
    | work worked =>
      have asked := agrees thread
      rw [client.work_free worked] at asked
      exact .work thread _ _ (client.work_free worked) asked.idle worked
  · cases woken

private theorem agrees_update {asks later : Thread → Option Call} {status : Thread → Status Call Ret}
    (agrees : ∀ thread, Agrees spec (asks thread) (status thread)) (thread : Thread)
    (value : Status Call Ret) (own : Agrees spec (later thread) value)
    (others : ∀ other, other ≠ thread → later other = asks other) (other : Thread) :
    Agrees spec (later other) (Function.update status thread value other) := by
  by_cases same : other = thread
  · subst same
    rwa [Function.update_self]
  · rw [Function.update_of_ne same, others other same]
    exact agrees other

theorem Move.agrees {state next : Joint (Atomic Thread Contents Call Ret) Progress}
    {label : Option (Label Thread Call Ret Note)} (move : Move client state label next)
    (agrees : AgreesAll client state) : AgreesAll client next := by
  cases move with
  | call thread call asked idle => exact agrees_update agrees thread _ asked (fun _ _ => rfl)
  | commit thread call ret later asked pending applied =>
    exact agrees_update agrees thread _ ⟨call, asked, _, _, applied⟩ (fun _ _ => rfl)
  | ret thread call ret later asked answers done resumed =>
    exact agrees_update agrees thread _ trivial (fun _ different => client.ret_frame resumed different)
  | work thread note later free idle worked =>
    intro other
    by_cases same : other = thread
    · subst same
      change Agrees spec _ (state.object.status other)
      rw [idle]
      trivial
    · have before := agrees other
      change Agrees spec _ (state.object.status other)
      cases asked : client.asks state.client other with
      | none =>
        rw [asked] at before
        rw [before.idle]
        trivial
      | some call =>
        rw [asked] at before
        rwa [client.work_frame worked same asked]

theorem agreesAll {trace : List (Label Thread Call Ret Note)}
    {state : Joint (Atomic Thread Contents Call Ret) Progress}
    (reached : (compose spec.atomic client).Reaches trace state) : AgreesAll client state := by
  refine reached.invariant (fun _ => AgreesAll client) ?_ (fun _ _ _ _ _ agrees step => (moves agrees step).agrees agrees)
  rintro ⟨_, progress⟩ ⟨rfl, -⟩ thread
  trivial

/-- The induction rule for programs around the atomic object, step by step as `Move`s. -/
theorem invariant_of_moves (property : List (Label Thread Call Ret Note) →
      Joint (Atomic Thread Contents Call Ret) Progress → Prop)
    {trace : List (Label Thread Call Ret Note)} {state : Joint (Atomic Thread Contents Call Ret) Progress}
    (reached : (compose spec.atomic client).Reaches trace state)
    (begins : ∀ progress, client.start progress → property [] ⟨⟨spec.initial, fun _ => .idle⟩, progress⟩)
    (keeps : ∀ trace state label next, (compose spec.atomic client).Reaches trace state →
      property trace state → Move client state label next → property (trace ++ label.toList) next) :
    property trace state := by
  refine reached.invariant property ?_ (fun trace state label next before kept step =>
    keeps trace state label next before kept (moves (agreesAll before) step))
  rintro ⟨_, progress⟩ ⟨rfl, starts⟩
  exact begins progress starts

theorem history_of_reaches {trace : List (Label Thread Call Ret Note)}
    {state : Joint (Atomic Thread Contents Call Ret) Progress}
    (reached : (compose spec.atomic client).Reaches trace state) :
    spec.History ((commits trace).map Prod.snd) state.object.contents := by
  refine invariant_of_moves (fun trace state => spec.History ((commits trace).map Prod.snd) state.object.contents)
    reached ?_ ?_
  · intro progress _
    exact .nil
  intro trace state label next _ kept move
  cases move with
  | commit thread call ret later asked pending applied =>
    simpa using kept.snoc applied
  | call | ret | work => simpa using kept

theorem no_fault_of_reaches {trace : List (Label Thread Call Ret Note)}
    {state : Joint (Atomic Thread Contents Call Ret) Progress}
    (reached : (compose spec.atomic client).Reaches trace state) (thread : Thread) :
    .act thread .fault ∉ trace := by
  refine invariant_of_moves (fun trace _ => .act thread .fault ∉ trace) reached (by simp) ?_
  intro trace state label next _ kept move
  cases move <;> simpa using kept

end AtomicClient

section Live
variable {Thread State Progress Note Contents Call Ret : Type*} [DecidableEq Thread]
variable {spec : Sequential Contents Call Ret} {object : Object Thread State Call Ret}
variable {client : Client Thread Progress Note spec}

/-- The implementation itself strands no thread: it takes a call of any idle thread,
and when no operation in it can move, each waits for what the atomic object would
make it wait for too. -/
structure Linearization.Live (linear : Linearization object spec) : Prop where
  accepts : ∀ {state thread call}, linear.inv state → (linear.abs state).status thread = .idle →
    linear.menu call → ∃ next, object.step state thread (some (.call call)) next
  quiet : ∀ {state}, linear.inv state →
    (∀ thread action next, object.step state thread action next → ∃ call, action = some (.call call)) →
    ∀ thread, (linear.abs state).status thread = .idle ∨
      ∃ call, (linear.abs state).status thread = .pending call ∧
        spec.apply (linear.abs state).contents call = none

theorem Linearization.stuck_calls {linear : Linearization object spec} (offers : Offers linear.menu client)
    {trace : List (Label Thread Call Ret Note)} {state : Joint State Progress}
    (reached : (compose object client).Reaches trace state) (stuck : Stuck object client state)
    {thread : Thread} {action : Option (Action Call Ret)} {next : State}
    (step : object.step state.object thread action next) : ∃ call, action = some (.call call) := by
  obtain ⟨kept, abstractly⟩ := linear.reaches offers reached
  match action with
  | some (.call call) => exact ⟨call, rfl⟩
  | none => exact absurd (.silent step) (stuck thread none ⟨next, state.client⟩)
  | some (.commit call ret) => exact absurd (.commit step) (stuck thread _ ⟨next, state.client⟩)
  | some .fault => exact absurd (.fault step) (stuck thread _ ⟨next, state.client⟩)
  | some (.ret ret) =>
    obtain ⟨_, done | ⟨silent, _⟩⟩ := linear.step kept (fun _ same => by cases same) step
    · have asked := agreesAll abstractly thread
      change Agrees spec _ ((linear.abs state.object).status thread) at asked
      rw [done.finished] at asked
      obtain ⟨call, asked, answers⟩ := asked
      obtain ⟨later, resumed⟩ := client.ret_total asked answers
      exact absurd (.ret step resumed) (stuck thread _ ⟨next, later⟩)
    · cases silent

/-- Around a live implementation, when no thread can step every thread either asks
for nothing or waits for an operation that the atomic object cannot serve. -/
theorem Linearization.Live.waits {linear : Linearization object spec} (live : linear.Live)
    (offers : Offers linear.menu client) {trace : List (Label Thread Call Ret Note)}
    {state : Joint State Progress} (reached : (compose object client).Reaches trace state)
    (stuck : Stuck object client state) (thread : Thread) :
    client.asks state.client thread = none ∧ (linear.abs state.object).status thread = .idle ∨
      ∃ call, client.asks state.client thread = some call ∧
        (linear.abs state.object).status thread = .pending call ∧
        spec.apply (linear.abs state.object).contents call = none := by
  obtain ⟨kept, abstractly⟩ := linear.reaches offers reached
  have asked := agreesAll abstractly thread
  change Agrees spec (client.asks state.client thread) ((linear.abs state.object).status thread) at asked
  rcases live.quiet kept (fun _ _ _ => linear.stuck_calls offers reached stuck) thread with
    idle | ⟨call, pending, blocked⟩
  · left
    refine ⟨?_, idle⟩
    cases wants : client.asks state.client thread with
    | none => rfl
    | some call =>
      obtain ⟨next, step⟩ := live.accepts kept idle (offers _ _ _ wants)
      exact absurd (.call wants step) (stuck thread _ ⟨next, state.client⟩)
  · rw [pending] at asked
    exact .inr ⟨call, asked, pending, blocked⟩

end Live

end CppRt.Library.Concurrent

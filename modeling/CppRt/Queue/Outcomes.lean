import CppRt.Queue.Fifo
import Mathlib.Data.Fintype.Basic

/-!
What finite programs of pushes and pops can end in. The atomic queue does a push in
one step and a pop in one step that is enabled when there is something to take. A
live linearizable queue that also serves its threads one at a time ends in exactly
the outcomes of the atomic queue.
-/

namespace CppRt.Queue
open Library Transition Concurrent Family

variable {Thread Item : Type*}

inductive Request (Item : Type*) where
  | push (item : Item)
  | pop

def Request.call : Request Item → Call Item
  | .push item => .push item
  | .pop => .pop

/-- What each thread has popped, what is left, and who is left waiting in a pop. -/
structure Outcome (Thread Item : Type*) where
  popped : Thread → List Item
  queue : List Item
  blocked : Set Thread

structure Instant (Thread Item : Type*) where
  queue : List Item
  remaining : Thread → List (Request Item)

variable [DecidableEq Thread]

inductive Instant.Step (state : Instant Thread Item) (thread : Thread) :
    Option (Thread × Item) → Instant Thread Item → Prop where
  | push {item : Item} {rest : List (Request Item)} (next : state.remaining thread = .push item :: rest) :
      Step state thread none ⟨state.queue ++ [item], Function.update state.remaining thread rest⟩
  | pop {front : Item} {behind : List Item} {rest : List (Request Item)}
      (next : state.remaining thread = .pop :: rest) (shape : state.queue = front :: behind) :
      Step state thread (some (thread, front)) ⟨behind, Function.update state.remaining thread rest⟩

def instantly (program : Thread → List (Request Item)) : System (Instant Thread Item) (Thread × Item) where
  start state := state = ⟨[], program⟩
  step state label next := ∃ thread, Instant.Step state thread label next

def instantOutcomes (program : Thread → List (Request Item)) : Set (Outcome Thread Item) :=
  { outcome | ∃ trace state, (instantly program).Reaches trace state ∧
    (∀ thread label next, ¬Instant.Step state thread label next) ∧
    outcome = ⟨fun thread => entries thread trace, state.queue,
      { thread | (state.remaining thread).head?.map Request.call = some .pop }⟩ }

def outcomes {State : Type*} (object : Object Thread State (Call Item) (Ret Item)) (queue : State → List Item)
    (asleep : State → Set Thread) (program : Thread → List (Request Item)) : Set (Outcome Thread Item) :=
  { outcome | ∃ trace state, (compose object (programs Request.call program)).Reaches trace state ∧
    Stuck object (programs Request.call program) state ∧
    outcome = ⟨fun thread => entries thread (taken trace), queue state.object, asleep state.object⟩ }

theorem programs_offer {menu : Call Item → Prop} (program : Thread → List (Request Item))
    (push : ∀ item, menu (.push item)) (pop : menu .pop) : Offers menu (programs Request.call program) := by
  intro remaining thread call asked
  obtain ⟨request, _, rfl⟩ := Option.map_eq_some_iff.mp asked
  cases request with
  | push item => exact push item
  | pop => exact pop

section Forward
variable {program : Thread → List (Request Item)} {trace : List (Label Thread (Call Item) (Ret Item) Empty)}
variable {state : Joint (Atomic Thread (List Item) (Call Item) (Ret Item)) (Thread → List (Request Item))}

/-- What a thread has still to do, not counting an operation that has taken effect. -/
def outstanding (state : Joint (Atomic Thread (List Item) (Call Item) (Ret Item)) (Thread → List (Request Item)))
    (thread : Thread) : List (Request Item) :=
  (state.client thread).drop (state.object.status thread).answer.toList.length

theorem outstanding_other
    (state next : Joint (Atomic Thread (List Item) (Call Item) (Ret Item)) (Thread → List (Request Item)))
    (thread : Thread) (left : List (Request Item)) (own : outstanding next thread = left)
    (others : ∀ other, other ≠ thread → next.object.status other = state.object.status other ∧
      next.client other = state.client other) :
    outstanding next = Function.update (outstanding state) thread left := by
  funext other
  by_cases same : other = thread
  · subst same
    rw [own, Function.update_self]
  · obtain ⟨status, client⟩ := others other same
    rw [Function.update_of_ne same, outstanding, outstanding, status, client]

theorem instant_of_reaches (reached : (compose fifo.atomic (programs Request.call program)).Reaches trace state) :
    (instantly program).Reaches (taken trace) ⟨state.object.contents, outstanding state⟩ := by
  refine invariant_of_moves (fun trace state =>
    (instantly program).Reaches (taken trace) ⟨state.object.contents, outstanding state⟩) reached ?_ ?_
  · intro first begins
    obtain rfl := begins
    exact .first rfl
  · intro trace state label next _ done move
    cases move with
    | call thread call asked idle =>
      have same := outstanding_other state
        ⟨⟨state.object.contents, Function.update state.object.status thread (.pending call)⟩, state.client⟩
        thread (outstanding state thread) (by simp [outstanding, idle, Status.answer])
        (fun other different => ⟨Function.update_of_ne different _ _, rfl⟩)
      rw [Function.update_eq_self] at same
      simpa [same] using done
    | commit thread call ret later asked pending applied =>
      obtain ⟨request, head, rfl⟩ := Option.map_eq_some_iff.mp asked
      obtain ⟨rest, shape⟩ := List.head?_eq_some_iff.mp head
      have upcoming : outstanding state thread = request :: rest := by
        rw [outstanding, pending, shape]
        rfl
      have same := outstanding_other state
        ⟨⟨later, Function.update state.object.status thread (.done ret)⟩, state.client⟩
        thread rest (by simp [outstanding, shape, Status.answer])
        (fun other different => ⟨Function.update_of_ne different _ _, rfl⟩)
      rw [same]
      cases request with
      | push item =>
        cases applied
        simpa [leaves] using done.tail ⟨thread, .push upcoming⟩
      | pop =>
        cases contents : state.object.contents with
        | nil =>
          rw [contents] at applied
          cases applied
        | cons front behind =>
          rw [contents] at applied
          cases applied
          simpa [leaves] using done.tail ⟨thread, .pop upcoming contents⟩
    | ret thread call ret later asked answers finished resumed =>
      obtain rfl : later = Function.update state.client thread (state.client thread).tail := resumed
      have same := outstanding_other state
        ⟨⟨state.object.contents, Function.update state.object.status thread .idle⟩,
          Function.update state.client thread (state.client thread).tail⟩
        thread (outstanding state thread) (by simp [outstanding, finished, Status.answer])
        (fun other different => ⟨Function.update_of_ne different _ _, Function.update_of_ne different _ _⟩)
      rw [Function.update_eq_self] at same
      simpa [same] using done
    | work thread note later free idle worked => exact worked.elim

end Forward

section Serving
variable {State : Type*} {object : Object Thread State (Call Item) (Ret Item)} (serving : Serving object)
variable {program : Thread → List (Request Item)}

theorem reaches_of_instant {trace : List (Thread × Item)} {state : Instant Thread Item}
    (reached : (instantly program).Reaches trace state) :
    ∃ events, (compose object (programs Request.call program)).Reaches events
      ⟨serving.resting state.queue fun _ => false, state.remaining⟩ ∧ taken events = trace := by
  refine reached.invariant (fun trace state => ∃ events,
    (compose object (programs Request.call program)).Reaches events
      ⟨serving.resting state.queue fun _ => false, state.remaining⟩ ∧ taken events = trace) ?_ ?_
  · intro first begins
    obtain rfl := begins
    exact ⟨[], .first ⟨serving.start, rfl⟩, rfl⟩
  · rintro trace state label next _ ⟨events, before, rfl⟩ ⟨thread, step⟩
    have goes {request : Request Item} {rest : List (Request Item)} {ret : Ret Item} {q : List Item}
        (upcoming : state.remaining thread = request :: rest)
        (completes : object.Completes thread request.call ret (serving.resting state.queue fun _ => false)
          (serving.resting q fun _ => false)) :
        (compose object (programs Request.call program)).Reaches
          (events ++ [.act thread (.call request.call), .act thread (.commit request.call ret),
            .act thread (.ret ret)])
          ⟨serving.resting q fun _ => false, Function.update state.remaining thread rest⟩ := by
      refine before.then (completes.run ?_ ?_)
      · simp [programs, Sequential.programs, upcoming]
      · simp [programs, Sequential.programs, upcoming]
    cases step with
    | @push item rest upcoming =>
      refine ⟨_, goes upcoming (serving.push thread state.queue item), ?_⟩
      rw [taken_append]
      rfl
    | @pop front behind rest upcoming shape =>
      have serves := serving.pop thread front behind
      rw [← shape] at serves
      refine ⟨_, goes upcoming serves, ?_⟩
      rw [taken_append]
      rfl

theorem parks_all [Fintype Thread] (remaining : Thread → List (Request Item))
    (waiting : ∀ thread, remaining thread = [] ∨ ∃ rest, remaining thread = .pop :: rest) :
    ∃ events, (compose object (programs Request.call program)).Run
      ⟨serving.resting [] fun _ => false, remaining⟩ events
      ⟨serving.resting [] fun thread => !(remaining thread).isEmpty, remaining⟩ ∧ taken events = [] := by
  have some (threads : Finset Thread) : ∃ events, (compose object (programs Request.call program)).Run
      ⟨serving.resting [] fun _ => false, remaining⟩ events
      ⟨serving.resting [] fun thread => decide (thread ∈ threads) && !(remaining thread).isEmpty, remaining⟩ ∧
        taken events = [] := by
    induction threads using Finset.induction_on with
    | empty => exact ⟨[], by simpa using .refl, rfl⟩
    | insert thread threads fresh ih =>
      obtain ⟨events, run, nothing⟩ := ih
      rcases waiting thread with done | ⟨rest, upcoming⟩
      · refine ⟨events, ?_, nothing⟩
        convert run using 4 with other
        by_cases same : other = thread
        · simp [same, done]
        · simp [same]
      · have parks : object.Parks thread .pop
            (serving.resting [] fun other => decide (other ∈ threads) && !(remaining other).isEmpty) _ :=
          serving.park thread (by simp [fresh])
        have asked : (programs Request.call program).asks remaining thread = some .pop := by
          simp [programs, Sequential.programs, upcoming, Request.call]
        refine ⟨events ++ [.act thread (.call .pop)], ?_, by simp [nothing]⟩
        convert run.trans (parks.run asked) using 4 with other
        by_cases same : other = thread
        · simp [same, upcoming]
        · simp [same]
  simpa using some Finset.univ

end Serving

/-- What is seen of a queue object from outside: its contents and who sleeps in a pop.
A resting object takes calls of those awake and does nothing else. -/
structure Observed {State : Type*} {object : Object Thread State (Call Item) (Ret Item)}
    (linear : Linearization object fifo) (serving : Serving object) where
  queue : State → List Item
  asleep : State → Set Thread
  queue_abs : ∀ state, (linear.abs state).contents = queue state
  asleep_abs : ∀ {state}, linear.inv state →
    (∀ thread action next, object.step state thread action next → ∃ call, action = some (.call call)) →
    ∀ thread, thread ∈ asleep state ↔ (linear.abs state).status thread ≠ .idle
  queue_resting : ∀ q sleeps, queue (serving.resting q sleeps) = q
  asleep_resting : ∀ q sleeps thread, thread ∈ asleep (serving.resting q sleeps) ↔ sleeps thread = true
  still : ∀ {q sleeps thread action next}, object.step (serving.resting q sleeps) thread action next →
    sleeps thread = false ∧ ∃ call, action = some (.call call)

namespace Observed
variable {State : Type*} {object : Object Thread State (Call Item) (Ret Item)}
variable {linear : Linearization object fifo} {serving : Serving object}
variable (observed : Observed linear serving) {program : Thread → List (Request Item)}

theorem outcomes_subset (live : linear.Live) (offers : Offers linear.menu (programs Request.call program)) :
    outcomes object observed.queue observed.asleep program ⊆ instantOutcomes program := by
  rintro _ ⟨trace, state, reached, stuck, rfl⟩
  obtain ⟨kept, abstractly⟩ := linear.reaches offers reached
  have waits (thread : Thread) : state.client thread = [] ∧ (linear.abs state.object).status thread = .idle ∨
      ∃ rest, state.client thread = .pop :: rest ∧ (linear.abs state.object).status thread = .pending .pop ∧
        observed.queue state.object = [] := by
    rcases live.waits offers reached stuck thread with ⟨free, idle⟩ | ⟨call, asked, pending, blocked⟩
    · left
      refine ⟨?_, idle⟩
      cases left : state.client thread with
      | nil => rfl
      | cons => simp [programs, Sequential.programs, left] at free
    · right
      obtain ⟨rfl, empty⟩ := apply_blocked blocked
      obtain ⟨request, head, same⟩ := Option.map_eq_some_iff.mp asked
      obtain ⟨rest, shape⟩ := List.head?_eq_some_iff.mp head
      cases request with
      | push => cases same
      | pop => exact ⟨rest, shape, pending, observed.queue_abs _ ▸ empty⟩
  have settled : outstanding (linear.image state) = state.client := by
    funext thread
    simp only [outstanding, Linearization.image]
    rcases waits thread with ⟨_, idle⟩ | ⟨_, _, pending, _⟩
    · rw [idle]
      rfl
    · rw [pending]
      rfl
  have instant := instant_of_reaches abstractly
  rw [settled] at instant
  change (instantly program).Reaches _ ⟨(linear.abs state.object).contents, state.client⟩ at instant
  rw [observed.queue_abs] at instant
  refine ⟨_, _, instant, ?_, ?_⟩
  · intro thread label next step
    rcases waits thread with ⟨done, _⟩ | ⟨rest, upcoming, _, empty⟩
    · cases step with
      | push more | pop more => cases done.symm.trans more
    · cases step with
      | push more => cases upcoming.symm.trans more
      | pop _ shape => cases empty.symm.trans shape
  · have sleepers : observed.asleep state.object =
        { thread | (state.client thread).head?.map Request.call = some .pop } := by
      ext thread
      rw [observed.asleep_abs kept fun _ _ _ => linear.stuck_calls offers reached stuck, Set.mem_ofPred_eq]
      rcases waits thread with ⟨done, idle⟩ | ⟨rest, upcoming, pending, _⟩
      · simp [done, idle]
      · simp [upcoming, pending, Request.call]
    rw [sleepers]

theorem subset_outcomes [Fintype Thread] :
    instantOutcomes program ⊆ outcomes object observed.queue observed.asleep program := by
  rintro _ ⟨trace, state, reached, stuck, rfl⟩
  obtain ⟨events, run, rfl⟩ := reaches_of_instant serving reached
  have waiting (thread : Thread) : state.remaining thread = [] ∨
      ∃ rest, state.remaining thread = .pop :: rest ∧ state.queue = [] := by
    rcases left : state.remaining thread with _ | ⟨_ | _, rest⟩
    · exact .inl rfl
    · exact absurd (.push left) (stuck thread none _)
    · cases shape : state.queue with
      | nil => exact .inr ⟨rest, rfl, rfl⟩
      | cons front behind => exact absurd (.pop left shape) (stuck thread _ _)
  have ends : ∃ events', (compose object (programs Request.call program)).Reaches events'
      ⟨serving.resting state.queue fun thread => !(state.remaining thread).isEmpty, state.remaining⟩ ∧
        taken events' = taken events := by
    cases shape : state.queue with
    | nil =>
      obtain ⟨more, parks, nothing⟩ := parks_all serving state.remaining fun thread =>
        (waiting thread).imp_right fun ⟨rest, upcoming, _⟩ => ⟨rest, upcoming⟩
      rw [shape] at run
      exact ⟨_, run.then parks, by simp [nothing]⟩
    | cons front behind =>
      have done (thread : Thread) : state.remaining thread = [] :=
        (waiting thread).resolve_right fun ⟨_, _, empty⟩ => by simp [shape] at empty
      exact ⟨events, by simpa [done, shape] using run, rfl⟩
  obtain ⟨final, finally_, same⟩ := ends
  refine ⟨final, _, finally_, ?_, ?_⟩
  · intro thread label next step
    cases step with
    | call asked step =>
      have awake := (observed.still step).1
      rcases waiting thread with done | ⟨rest, upcoming, _⟩
      · simp [programs, Sequential.programs, done] at asked
      · simp [upcoming] at awake
    | silent step | commit step | fault step | ret step =>
      obtain ⟨_, wrong⟩ := (observed.still step).2
      cases wrong
    | work worked => exact worked
  · have sleepers : { thread | (state.remaining thread).head?.map Request.call = some .pop } =
        observed.asleep (serving.resting state.queue fun thread => !(state.remaining thread).isEmpty) := by
      ext thread
      rw [observed.asleep_resting, Set.mem_ofPred_eq]
      rcases waiting thread with done | ⟨rest, upcoming, _⟩
      · simp [done]
      · simp [upcoming, Request.call]
    rw [sleepers, same, observed.queue_resting]

theorem outcomes_eq [Fintype Thread] (live : linear.Live)
    (offers : Offers linear.menu (programs Request.call program)) :
    outcomes object observed.queue observed.asleep program = instantOutcomes program :=
  (observed.outcomes_subset live offers).antisymm observed.subset_outcomes

end Observed

end CppRt.Queue

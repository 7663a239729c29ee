import CppRt.Library.Guarded
import Mathlib.Algebra.Order.BigOperators.Group.Finset
import Mathlib.Data.Prod.Lex

/-!
An object guarded by a readers-writer lock strands no thread: where nothing but a call can be
made, the lock is free, and no thread is in an operation. With it, threads whose programs cannot
go on have come to the end of them.

A ranking counts the calls, locks, unlocks and returns that are still to come and, below them,
bounds what is left of the sections that threads are in. Every step of finitely many threads
lowers it, whoever takes it, so their programs come to an end under every scheduler.
-/

namespace CppRt.Library.Guarded
open Transition Concurrent RwLock

variable {Thread Data Pc Call Ret : Type*} {guarded : Guarded Thread Data Pc Call Ret}

/-- Who is in a section goes on in it or leaves it; who is in none is outside, waits for the lock
or returns. -/
structure Discipline.Lively (discipline : guarded.Discipline) : Prop where
  inner : ∀ {data pc action later after call}, guarded.moves data pc action later after → action ≠ some (.call call)
  goes : ∀ {data pc}, discipline.Knows data pc → discipline.holds pc ≠ .outside →
    (∃ action later after, guarded.moves data pc action later after) ∨ ∃ after, guarded.unlock pc after
  waits : ∀ {pc}, discipline.holds pc = .outside → pc = guarded.outside ∨ (∃ after, guarded.rdlock pc after) ∨
    (∃ after, guarded.wrlock pc after) ∨ ∃ ret, pc = guarded.returning ret

variable [DecidableEq Thread] {discipline : guarded.Discipline} {state : State Thread Data Pc}

def Quiet (guarded : Guarded Thread Data Pc Call Ret) (state : State Thread Data Pc) : Prop :=
  ∀ thread action next, guarded.Step state thread action next → ∃ call, action = some (.call call)

theorem Quiet.section_empty (quiet : guarded.Quiet state) (lively : discipline.Lively) (sound : discipline.Sound state)
    (thread : Thread) : discipline.holds (state.pc thread) = .outside := by
  by_contra inside
  rcases lively.goes (sound.knows thread) inside with ⟨action, later, after, moved⟩ | ⟨after, leaves⟩
  · obtain ⟨call, called⟩ := quiet thread _ _ (.inside moved)
    exact lively.inner moved called
  · obtain ⟨lock, unlocked⟩ := sound.grants.unlock_isSome inside
    obtain ⟨call, called⟩ := quiet thread _ _ (.unlock leaves unlocked)
    cases called

theorem Quiet.outside (quiet : guarded.Quiet state) (lively : discipline.Lively) (sound : discipline.Sound state) :
    state.lock = .shared [] ∧ ∀ thread, state.pc thread = guarded.outside := by
  have empty := quiet.section_empty lively sound
  have free : state.lock = .shared [] := sound.grants.free empty
  refine ⟨free, fun thread => ?_⟩
  have reads : state.lock.rdlock thread = some (.shared [thread]) := by
    rw [free]
    rfl
  have writes : state.lock.wrlock thread = some (.exclusive thread) := by
    rw [free]
    rfl
  rcases lively.waits (empty thread) with outside | ⟨after, waits⟩ | ⟨after, waits⟩ | ⟨ret, returns⟩
  · exact outside
  · obtain ⟨call, called⟩ := quiet thread _ _ (.rdlock waits reads)
    cases called
  · obtain ⟨call, called⟩ := quiet thread _ _ (.wrlock waits writes)
    cases called
  · obtain ⟨call, called⟩ := quiet thread _ _ (.ret returns)
    cases called

theorem stuck_done {Contents Request : Type*} {spec : Sequential Contents Call Ret} {call : Request → Call}
    {program : Thread → List Request} {joint : Joint (State Thread Data Pc) (Thread → List Request)}
    (lively : discipline.Lively) (sound : discipline.Sound joint.object)
    (stuck : Stuck guarded.object (spec.programs call program) joint) :
    joint.object.lock = .shared [] ∧ ∀ thread, joint.object.pc thread = guarded.outside ∧ joint.client thread = [] := by
  have quiet : guarded.Quiet joint.object := fun _ _ _ step => programs_stuck stuck step
  obtain ⟨free, outside⟩ := quiet.outside lively sound
  refine ⟨free, fun thread => ⟨outside thread, ?_⟩⟩
  cases left : joint.client thread with
  | nil => rfl
  | cons request rest =>
    have asks : (spec.programs call program).asks joint.client thread = some (call request) := by
      simp [Sequential.programs, left]
    have calls : guarded.object.step joint.object thread (some (.call (call request)))
        { joint.object with pc := Function.update joint.object.pc thread (guarded.entry (call request)) } :=
      Step.call (outside thread)
    exact absurd (.call asks calls) (stuck thread _ ⟨_, joint.client⟩)

/-- `stage` falls with each call, lock, unlock and return of an operation, `work` with each step
inside its section. -/
structure Discipline.Ranking (discipline : guarded.Discipline) where
  stage : Pc → Nat
  work : Data → Pc → Nat
  entry : ∀ call, stage (guarded.entry call) < stage guarded.outside
  rdlock : ∀ {pc after}, guarded.rdlock pc after → stage after < stage pc
  wrlock : ∀ {pc after}, guarded.wrlock pc after → stage after < stage pc
  unlock : ∀ {pc after}, guarded.unlock pc after → stage after < stage pc
  moves : ∀ {data pc action later after}, guarded.moves data pc action later after → discipline.Knows data pc →
    stage after = stage pc ∧ work later after < work data pc

namespace Discipline.Ranking
variable (ranking : discipline.Ranking) {next : State Thread Data Pc} {thread : Thread}
variable {action : Option (Action Call Ret)}

def left (state : State Thread Data Pc) (thread : Thread) : Nat :=
  if discipline.holds (state.pc thread) = .outside then 0 else ranking.work state.data (state.pc thread)

theorem left_other (sound : discipline.Sound state) (step : guarded.Step state thread action next) {other : Thread}
    (different : other ≠ thread) : ranking.left next other = ranking.left state other := by
  have own : next.pc other = state.pc other := by
    cases step <;> exact Function.update_of_ne different _ _
  unfold left
  rw [own]
  split
  · rfl
  · rename_i inside
    rw [sound.data_kept step (Ne.symm different) inside]

theorem step_falls (sound : discipline.Sound state) (step : guarded.Step state thread action next)
    (goes : ∀ ret, action ≠ some (.ret ret)) :
    ranking.stage (next.pc thread) < ranking.stage (state.pc thread) ∨
      ranking.stage (next.pc thread) = ranking.stage (state.pc thread) ∧
        ranking.left next thread < ranking.left state thread := by
  cases step with
  | call outside =>
    simp only [Function.update_self, outside]
    exact .inl (ranking.entry _)
  | rdlock waits =>
    simp only [Function.update_self]
    exact .inl (ranking.rdlock waits)
  | wrlock waits =>
    simp only [Function.update_self]
    exact .inl (ranking.wrlock waits)
  | unlock leaves =>
    simp only [Function.update_self]
    exact .inl (ranking.unlock leaves)
  | inside moved =>
    obtain ⟨same, lower⟩ := ranking.moves moved (sound.knows thread)
    obtain ⟨inside, kept⟩ := discipline.holds_moves moved
    have still := inside
    rw [← kept] at still
    simp only [left, Function.update_self, if_neg inside, if_neg still]
    exact .inr ⟨same, lower⟩
  | ret => exact absurd rfl (goes _)

section Rank
variable [Fintype Thread] {Request : Type*} {joint later : Joint (State Thread Data Pc) (Thread → List Request)}

def cost (joint : Joint (State Thread Data Pc) (Thread → List Request)) (thread : Thread) : Nat :=
  (joint.client thread).length * (ranking.stage guarded.outside + 1) + ranking.stage (joint.object.pc thread)

def rank (joint : Joint (State Thread Data Pc) (Thread → List Request)) : Nat ×ₗ Nat :=
  toLex (∑ thread, ranking.cost joint thread, ∑ thread, ranking.left joint.object thread)

theorem rank_lt_of_cost (own : ranking.cost later thread < ranking.cost joint thread)
    (others : ∀ other, other ≠ thread → ranking.cost later other = ranking.cost joint other) :
    ranking.rank later < ranking.rank joint := by
  rw [rank, rank, Prod.Lex.toLex_lt_toLex]
  left
  refine Finset.sum_lt_sum (fun other _ => ?_) ⟨thread, Finset.mem_univ _, own⟩
  by_cases here : other = thread
  · rw [here]
    exact own.le
  · exact (others other here).le

theorem rank_lt_of_step (sound : discipline.Sound state) (step : guarded.Step state thread action next)
    (goes : ∀ ret, action ≠ some (.ret ret)) (client : Thread → List Request) :
    ranking.rank ⟨next, client⟩ < ranking.rank ⟨state, client⟩ := by
  have others (other : Thread) (different : other ≠ thread) :
      ranking.cost ⟨next, client⟩ other = ranking.cost ⟨state, client⟩ other := by
    have own : next.pc other = state.pc other := by
      cases step <;> exact Function.update_of_ne different _ _
    simp only [cost, own]
  rcases ranking.step_falls sound step goes with falls | ⟨same, falls⟩
  · exact ranking.rank_lt_of_cost (Nat.add_lt_add_left falls _) others
  · rw [rank, rank, Prod.Lex.toLex_lt_toLex]
    right
    constructor
    · refine Finset.sum_congr rfl fun other _ => ?_
      by_cases here : other = thread
      · simp only [here, cost, same]
      · exact others other here
    · refine Finset.sum_lt_sum (fun other _ => ?_) ⟨thread, Finset.mem_univ _, falls⟩
      by_cases here : other = thread
      · rw [here]
        exact falls.le
      · exact (ranking.left_other sound step here).le

end Rank

section Ends
variable [Fintype Thread] {Contents Request : Type*} {spec : Sequential Contents Call Ret} {call : Request → Call}
variable {program : Thread → List Request} {trace : List (Label Thread Call Ret Empty)}
variable {joint later : Joint (State Thread Data Pc) (Thread → List Request)}

theorem rank_lt_of_ret (refinement : guarded.Refinement discipline spec) (sound : discipline.Sound state)
    {client : Thread → List Request} {ret : Ret} (step : guarded.Step state thread (some (.ret ret)) next)
    (asked : client thread ≠ []) :
    ranking.rank ⟨next, Function.update client thread (client thread).tail⟩ < ranking.rank ⟨state, client⟩ := by
  obtain ⟨request, rest, shape⟩ := List.exists_cons_of_ne_nil asked
  cases step with
  | ret returns =>
    have own : ranking.cost ⟨{ state with pc := Function.update state.pc thread guarded.outside },
        Function.update client thread (client thread).tail⟩ thread < ranking.cost ⟨state, client⟩ thread := by
      simp only [cost, Function.update_self, shape, List.tail_cons, List.length_cons, Nat.succ_mul]
      omega
    refine ranking.rank_lt_of_cost own fun other different => ?_
    simp only [cost, Function.update_of_ne different]
  | inside moved =>
    rcases refinement.moves_refine moved (sound.knows thread) with ⟨wrong, _⟩ | ⟨_, _, wrong, _⟩ <;> cases wrong

theorem lowers (refinement : guarded.Refinement discipline spec)
    (reached : (compose guarded.object (spec.programs call program)).Reaches trace joint)
    {label : Option (Label Thread Call Ret Empty)}
    (step : (compose guarded.object (spec.programs call program)).step joint label later) :
    ranking.rank later < ranking.rank joint := by
  obtain ⟨sound, abstractly⟩ := refinement.linearization.reaches (fun _ _ _ _ => trivial) reached
  rcases step with ⟨thread, step⟩ | ⟨_, woken, _⟩
  · cases step with
    | call _ step | silent step | commit step | fault step =>
      exact ranking.rank_lt_of_step sound step (fun _ wrong => by cases wrong) _
    | @ret state next client _ _ ret step resumed =>
      obtain rfl : _ = Function.update client thread (client thread).tail := resumed
      have asked := agreesAll abstractly thread
      have finished : (refinement.abs state).status thread = .done ret := by
        rcases refinement.abs_step sound step with done | ⟨wrong, _⟩
        · exact done.finished
        · cases wrong
      change Agrees spec _ ((refinement.abs state).status thread) at asked
      rw [finished] at asked
      obtain ⟨answered, asks, _⟩ := asked
      refine ranking.rank_lt_of_ret refinement sound step fun empty => ?_
      simp [Sequential.programs, Linearization.image, empty] at asks
    | work worked => exact worked.elim
  · exact woken.elim

/-- Finitely many threads do not go on for ever, and can always be brought to the end. -/
theorem programs_end (ranking : discipline.Ranking) (refinement : guarded.Refinement discipline spec)
    (reached : (compose guarded.object (spec.programs call program)).Reaches trace joint) :
    (∀ run, run 0 = joint → ¬(compose guarded.object (spec.programs call program)).Endless run) ∧
      ∃ more last, (compose guarded.object (spec.programs call program)).Run joint more last ∧
        (compose guarded.object (spec.programs call program)).Final last := by
  constructor
  · rintro run rfl
    exact reached.not_endless ranking.rank fun reached step => ranking.lowers refinement reached step
  · obtain ⟨more, last, run, _, final⟩ :=
      reached.ends ranking.rank fun reached step => ranking.lowers refinement reached step
    exact ⟨more, last, run, final⟩

end Ends

end Discipline.Ranking

end CppRt.Library.Guarded

import CppRt.Library.Family
import CppRt.Library.ForkJoin

/-!
A fork and join comes to its end: when every step of a worker lowers what it has left to do,
and workers that have something left are never all kept waiting, then whatever the workers
have done so far, the run can only go on to the last join.
-/

namespace CppRt.Library.ForkJoin
open Transition

variable {count : Nat} {Memory Pc Note : Type*} {job : ForkJoin count Memory Pc Note}
variable {trace : List (Event count Note)} {state : State count Memory Pc}

theorem created_of_reaches (reached : job.system.Reaches trace state) :
    (∀ i : Nat, state.main = .creating i → ∀ index : Fin count, index.val < i → state.pc index ≠ none) ∧
      ((∀ i, state.main ≠ .creating i) → ∀ index, state.pc index ≠ none) := by
  refine reached.invariant (fun _ state =>
    (∀ i : Nat, state.main = .creating i → ∀ index : Fin count, index.val < i → state.pc index ≠ none) ∧
      ((∀ i, state.main ≠ .creating i) → ∀ index, state.pc index ≠ none)) ?_ ?_
  · intro first begins
    obtain rfl := begins
    refine ⟨fun i at_ index early => ?_, fun other => absurd rfl (other 0)⟩
    obtain rfl : 0 = i := Main.creating.inj at_
    exact absurd early (Nat.not_lt_zero _)
  · intro trace state label next _ kept step
    obtain ⟨created, all⟩ := kept
    cases step with
    | @create i loops less =>
      refine ⟨fun j at_ index early => ?_, fun other => absurd rfl (other (i + 1))⟩
      obtain rfl : i + 1 = j := Main.creating.inj at_
      change Function.update state.pc _ _ index ≠ none
      by_cases same : index = ⟨i, less⟩
      · subst same
        rw [Function.update_self]
        exact Option.some_ne_none _
      · rw [Function.update_of_ne same]
        have apart : (index : Nat) ≠ i := fun equal => same (Fin.ext equal)
        exact created i loops index (by omega)
    | @created i loops done =>
      refine ⟨(fun j wrong => by cases wrong), fun _ index => ?_⟩
      exact created i loops index (Nat.lt_of_lt_of_le index.isLt (Nat.le_of_not_lt done))
    | @act worker pc after note memory runs step =>
      have moved {index : Fin count} (there : state.pc index ≠ none) :
          Function.update state.pc worker (some after) index ≠ none := by
        by_cases same : index = worker
        · subst same
          rw [Function.update_self]
          exact Option.some_ne_none _
        · rwa [Function.update_of_ne same]
      exact ⟨fun i at_ index early => moved (created i at_ index early), fun other index => moved (all other index)⟩
    | @join i loops less ended =>
      exact ⟨(fun j wrong => by cases wrong), fun _ => all fun j wrong => by cases loops.symm.trans wrong⟩
    | @merge i joined less =>
      exact ⟨(fun j wrong => by cases wrong), fun _ => all fun j wrong => by cases joined.symm.trans wrong⟩
    | @joined i loops done =>
      exact ⟨(fun j wrong => by cases wrong), fun _ => all fun j wrong => by cases loops.symm.trans wrong⟩

theorem merging_lt (reached : job.system.Reaches trace state) : ∀ i, state.main = .merging i → i < count := by
  refine reached.invariant (fun _ state => ∀ i, state.main = .merging i → i < count) ?_ ?_
  · intro first begins
    obtain rfl := begins
    exact fun i wrong => by cases wrong
  · intro trace state label next _ inside step i at_
    cases step with
    | act runs stepped => exact inside i at_
    | @join j loops less ended =>
      obtain rfl : j = i := Main.merging.inj at_
      exact less
    | create | created | merge | joined => cases at_

/-- Workers that have not come to their end are not all kept waiting. -/
def Moves (job : ForkJoin count Memory Pc Note) (state : State count Memory Pc) : Prop :=
  ∀ index pc, state.pc index = some pc → pc ≠ job.exited →
    ∃ other here note later after, state.pc other = some here ∧
      job.step other state.memory here = some (note, later, after)

theorem joined_of_final (reached : job.system.Reaches trace state)
    (moves : (∀ index, state.pc index ≠ none) → job.Moves state) (final : job.system.Final state) :
    state.main = .joined := by
  cases at_ : state.main with
  | creating i =>
    by_cases less : i < count
    · exact absurd (Step.create at_ less) (final _ _)
    · exact absurd (Step.created at_ less) (final _ _)
  | joining i =>
    by_cases less : i < count
    · have everywhere := (created_of_reaches reached).2 fun j wrong => by cases at_.symm.trans wrong
      cases here : state.pc ⟨i, less⟩ with
      | none => exact absurd here (everywhere _)
      | some pc =>
        by_cases ended : pc = job.exited
        · rw [ended] at here
          exact absurd (Step.join at_ less here) (final _ _)
        · obtain ⟨other, there, note, later, after, runs, step⟩ := moves everywhere ⟨i, less⟩ pc here ended
          exact absurd (Step.act runs step) (final _ _)
    · exact absurd (Step.joined at_ less) (final _ _)
  | merging i => exact absurd (Step.merge at_ (merging_lt reached i at_)) (final _ _)
  | joined => rfl

def Main.rank (count : Nat) : Main → Nat
  | .creating i => (count - i) + (2 * count + 3)
  | .joining i => 2 * (count - i) + 1
  | .merging i => 2 * (count - i)
  | .joined => 0

def workerRank (job : ForkJoin count Memory Pc Note) (rank : Pc → Nat) (position : Option Pc) : Nat :=
  position.elim (rank job.entry) rank

def State.rank (job : ForkJoin count Memory Pc Note) (rank : Pc → Nat) (state : State count Memory Pc) : Nat :=
  state.main.rank count + ∑ index, job.workerRank rank (state.pc index)

theorem rank_lt {rank : Pc → Nat} (lowers : ∀ {index memory pc note later after},
    job.step index memory pc = some (note, later, after) → rank after < rank pc)
    (reached : job.system.Reaches trace state) {label : Option (Event count Note)} {next : State count Memory Pc}
    (step : job.system.step state label next) : next.rank job rank < state.rank job rank := by
  unfold State.rank
  cases step with
  | @create i loops less =>
    have fresh := uncreated_of_reaches reached i loops ⟨i, less⟩ (Nat.le_refl i)
    have moved := Family.sum_update (job.workerRank rank) state.pc ⟨i, less⟩ (some job.entry)
    have same : job.workerRank rank (some job.entry) = job.workerRank rank none := rfl
    rw [fresh, same] at moved
    rw [loops]
    simp only [Main.rank]
    omega
  | @created i loops done =>
    rw [loops]
    simp only [Main.rank]
    omega
  | @act index pc after note memory runs step =>
    have moved := Family.sum_update (job.workerRank rank) state.pc index (some after)
    have less : job.workerRank rank (some after) < job.workerRank rank (state.pc index) := by
      rw [runs]
      exact lowers step
    dsimp only
    omega
  | @join i loops less ended =>
    rw [loops]
    simp only [Main.rank]
    omega
  | @merge i joined less =>
    rw [joined]
    simp only [Main.rank]
    omega
  | @joined i loops done =>
    rw [loops]
    simp only [Main.rank]
    omega

theorem not_endless {rank : Pc → Nat} (lowers : ∀ {index memory pc note later after},
    job.step index memory pc = some (note, later, after) → rank after < rank pc) {run : Nat → State count Memory Pc}
    (reached : job.system.Reaches trace (run 0)) : ¬job.system.Endless run :=
  reached.not_endless (State.rank job rank) fun reached step => rank_lt lowers reached step

/-- Wherever a run has come to, it goes on to the last join. -/
theorem reaches_last {rank : Pc → Nat} (lowers : ∀ {index memory pc note later after},
    job.step index memory pc = some (note, later, after) → rank after < rank pc)
    (moves : ∀ {trace state}, job.system.Reaches trace state → (∀ index, state.pc index ≠ none) → job.Moves state)
    (reached : job.system.Reaches trace state) :
    ∃ more last, job.system.Run state more last ∧ job.system.Reaches (trace ++ more) last ∧ last.main = .joined := by
  obtain ⟨more, last, run, reaches, final⟩ := reached.ends (State.rank job rank)
    (fun reached step => rank_lt lowers reached step)
  exact ⟨more, last, run, reaches, joined_of_final reaches (moves reaches) final⟩

end CppRt.Library.ForkJoin

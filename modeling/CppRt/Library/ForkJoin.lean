import CppRt.Library.Transition
import Mathlib.Logic.Function.Basic

/-!
Fork and join: one thread creates workers that run the same routine on a common
memory, then joins them in the order of their creation and after each join does
something with what that worker has left. When every worker keeps to what is its
own, what the last join leaves is what the workers' ends add up to, whatever the
interleaving.
-/

namespace CppRt.Library
open Transition

/-- The workers' routine, one step at a time from `entry` to `exited`, and what the joining
thread does to the memory after it has joined a worker. -/
structure ForkJoin (count : Nat) (Memory Pc Note : Type*) where
  memory : Memory
  entry : Pc
  exited : Pc
  step : Fin count → Memory → Pc → Option (Note × Memory × Pc)
  merge : Fin count → Memory → Memory

namespace ForkJoin
variable {count : Nat} {Memory Pc Note : Type*}

inductive Main where
  | creating (i : Nat)
  | joining (i : Nat)
  | merging (i : Nat)
  | joined

inductive Event (count : Nat) (Note : Type*) where
  | create (index : Fin count)
  | act (index : Fin count) (note : Note)
  | join (index : Fin count)
  | merge (index : Fin count)

structure State (count : Nat) (Memory Pc : Type*) where
  main : Main
  memory : Memory
  pc : Fin count → Option Pc

variable (job : ForkJoin count Memory Pc Note)

inductive Step (state : State count Memory Pc) : Option (Event count Note) → State count Memory Pc → Prop where
  | create {i : Nat} (loops : state.main = .creating i) (less : i < count) :
      Step state (some (.create ⟨i, less⟩))
        ⟨.creating (i + 1), state.memory, Function.update state.pc ⟨i, less⟩ (some job.entry)⟩
  | created {i : Nat} (loops : state.main = .creating i) (done : ¬i < count) :
      Step state none { state with main := .joining 0 }
  | act {index : Fin count} {pc after : Pc} {note : Note} {memory : Memory} (runs : state.pc index = some pc)
      (step : job.step index state.memory pc = some (note, memory, after)) :
      Step state (some (.act index note)) ⟨state.main, memory, Function.update state.pc index (some after)⟩
  | join {i : Nat} (loops : state.main = .joining i) (less : i < count)
      (ended : state.pc ⟨i, less⟩ = some job.exited) :
      Step state (some (.join ⟨i, less⟩)) { state with main := .merging i }
  | merge {i : Nat} (joined : state.main = .merging i) (less : i < count) :
      Step state (some (.merge ⟨i, less⟩))
        { state with main := .joining (i + 1), memory := job.merge ⟨i, less⟩ state.memory }
  | joined {i : Nat} (loops : state.main = .joining i) (done : ¬i < count) :
      Step state none { state with main := .joined }

def system : System (State count Memory Pc) (Event count Note) where
  start state := state = ⟨.creating 0, job.memory, fun _ => none⟩
  step := job.Step

def Main.merged (count : Nat) : Main → Nat
  | .creating _ => 0
  | .joining i => i
  | .merging i => i
  | .joined => count

/-- What each worker keeps to at each of its positions (`none` before it is created), and
what the memory holds after the first so many merges. -/
structure Discipline where
  Own : Fin count → Memory → Option Pc → Prop
  Merged : Nat → Memory → Prop
  own_start : ∀ index, Own index job.memory none
  own_create : ∀ {index memory}, Own index memory none → Own index memory (some job.entry)
  own_step : ∀ {index memory pc note later after}, Own index memory (some pc) →
    job.step index memory pc = some (note, later, after) → Own index later (some after)
  own_frame : ∀ {index other memory pc note later after position}, other ≠ index →
    job.step index memory pc = some (note, later, after) → Own other memory position →
    Own other later position
  own_merge : ∀ {index other memory position}, Own other memory position →
    Own other (job.merge index memory) position
  merged_start : Merged 0 job.memory
  merged_step : ∀ {index memory pc note later after done}, Merged done memory →
    job.step index memory pc = some (note, later, after) → Merged done later
  merged_merge : ∀ {index : Fin count} {memory}, Merged index memory →
    Own index memory (some job.exited) → Merged (index + 1) (job.merge index memory)

variable {job} (discipline : job.Discipline) {trace : List (Event count Note)} {state : State count Memory Pc}

theorem uncreated_of_reaches (reached : job.system.Reaches trace state) :
    ∀ i, state.main = .creating i → ∀ index : Fin count, i ≤ index.val → state.pc index = none := by
  refine reached.invariant (fun _ state => ∀ i, state.main = .creating i →
    ∀ index : Fin count, i ≤ index.val → state.pc index = none) ?_ ?_
  · intro first begins
    obtain rfl := begins
    exact fun _ _ _ _ => rfl
  · intro trace state label next _ uncreated step i at_ index late
    cases step with
    | @create j loops less =>
      obtain rfl : j + 1 = i := Main.creating.inj at_
      have different : index ≠ ⟨j, less⟩ := by
        intro same
        subst same
        exact absurd late (Nat.not_succ_le_self j)
      change Function.update state.pc _ _ index = none
      rw [Function.update_of_ne different]
      exact uncreated j loops index (Nat.le_of_succ_le late)
    | @act worker pc after note memory runs step =>
      have before := uncreated i at_ index late
      have different : index ≠ worker := by
        intro same
        subst same
        cases runs.symm.trans before
      change Function.update state.pc _ _ index = none
      rwa [Function.update_of_ne different]
    | created | join | merge | joined => cases at_

theorem invariant_of_reaches (property : List (Event count Note) → Memory → (Fin count → Option Pc) → Prop)
    (reached : job.system.Reaches trace state) (begins : property [] job.memory fun _ => none)
    (create : ∀ trace memory family index, property trace memory family → family index = none →
      property (trace ++ [.create index]) memory (Function.update family index (some job.entry)))
    (act : ∀ trace memory family index pc note later after, property trace memory family →
      family index = some pc → job.step index memory pc = some (note, later, after) →
      property (trace ++ [.act index note]) later (Function.update family index (some after)))
    (join : ∀ trace memory family index, property trace memory family →
      property (trace ++ [.join index]) memory family)
    (merge : ∀ trace memory family index, property trace memory family →
      property (trace ++ [.merge index]) (job.merge index memory) family) :
    property trace state.memory state.pc := by
  refine reached.invariant (fun trace state => property trace state.memory state.pc) ?_ ?_
  · intro first starts
    obtain rfl := starts
    exact begins
  · intro trace state label next before kept step
    cases step with
    | @create i loops less =>
      exact create _ _ _ _ kept (uncreated_of_reaches before i loops ⟨i, less⟩ (Nat.le_refl i))
    | act runs stepped => exact act _ _ _ _ _ _ _ _ kept runs stepped
    | join => exact join _ _ _ _ kept
    | merge => exact merge _ _ _ _ kept
    | created | joined => simpa using kept

structure JoinedExited (job : ForkJoin count Memory Pc Note) (state : State count Memory Pc) : Prop where
  merged : ∀ index : Fin count, index.val < state.main.merged count → state.pc index = some job.exited
  merging : ∀ i (less : i < count), state.main = .merging i → state.pc ⟨i, less⟩ = some job.exited

theorem joinedExited_of_reaches (still : ∀ index memory, job.step index memory job.exited = none)
    (reached : job.system.Reaches trace state) : job.JoinedExited state := by
  refine reached.invariant (fun _ state => job.JoinedExited state) ?_ ?_
  · intro first begins
    obtain rfl := begins
    exact ⟨fun index early => absurd early (Nat.not_lt_zero _), fun _ _ wrong => by cases wrong⟩
  · intro trace state label next _ kept step
    obtain ⟨exited, ended⟩ := kept
    cases step with
    | create | created =>
      exact ⟨fun index early => absurd early (Nat.not_lt_zero _), fun _ _ wrong => by cases wrong⟩
    | @act index pc after note memory runs step =>
      have stays (other : Fin count) (gone : state.pc other = some job.exited) :
          Function.update state.pc index (some after) other = some job.exited := by
        by_cases same : other = index
        · subst same
          obtain rfl := Option.some.inj (runs.symm.trans gone)
          cases (still _ _).symm.trans step
        · rwa [Function.update_of_ne same]
      exact ⟨fun other early => stays other (exited other early), fun i less at_ => stays _ (ended i less at_)⟩
    | @join i loops less finished =>
      rw [loops] at exited
      refine ⟨exited, fun j _ at_ => ?_⟩
      obtain rfl : i = j := Main.merging.inj at_
      exact finished
    | @merge i at_ less =>
      rw [at_] at exited
      refine ⟨fun index early => ?_, fun _ _ wrong => by cases wrong⟩
      rcases Nat.lt_succ_iff_lt_or_eq.mp early with before | now
      · exact exited index before
      · have same : index = ⟨i, less⟩ := Fin.ext now
        rw [same]
        exact ended i less at_
    | @joined i loops done =>
      rw [loops] at exited
      exact ⟨fun index _ => exited index (Nat.lt_of_lt_of_le index.isLt (Nat.le_of_not_lt done)),
        fun _ _ wrong => by cases wrong⟩

theorem exited_of_joined (still : ∀ index memory, job.step index memory job.exited = none)
    (reached : job.system.Reaches trace state) (joined : state.main = .joined) (index : Fin count) :
    state.pc index = some job.exited := by
  apply (joinedExited_of_reaches still reached).merged
  rw [joined]
  exact index.isLt

structure Discipline.Holds (state : State count Memory Pc) : Prop where
  own : ∀ index, discipline.Own index state.memory (state.pc index)
  merged : discipline.Merged (state.main.merged count) state.memory
  bound : state.main.merged count ≤ count
  uncreated : ∀ i, state.main = .creating i → ∀ index : Fin count, i ≤ index → state.pc index = none
  ended : ∀ i (less : i < count), state.main = .merging i → state.pc ⟨i, less⟩ = some job.exited
  inert : ∀ i, state.main = .merging i → i < count

/-- Whatever the interleaving, every worker keeps its own and the merges add up. -/
theorem Discipline.holds (still : ∀ index memory, job.step index memory job.exited = none)
    (reached : job.system.Reaches trace state) : discipline.Holds state := by
  have kept : (∀ index, discipline.Own index state.memory (state.pc index)) ∧
      discipline.Merged (state.main.merged count) state.memory ∧ state.main.merged count ≤ count ∧
      ∀ i, state.main = .merging i → i < count := by
    refine reached.invariant (fun _ state => (∀ index, discipline.Own index state.memory (state.pc index)) ∧
      discipline.Merged (state.main.merged count) state.memory ∧ state.main.merged count ≤ count ∧
      ∀ i, state.main = .merging i → i < count) ?_ ?_
    · intro first begins
      obtain rfl := begins
      exact ⟨discipline.own_start, discipline.merged_start, Nat.zero_le _, fun _ wrong => by cases wrong⟩
    · intro trace state label next before kept step
      obtain ⟨own, merged, bound, inert⟩ := kept
      cases step with
      | @create i loops less =>
        refine ⟨fun index => ?_, by simpa [loops, Main.merged] using merged, Nat.zero_le _,
          fun _ wrong => by cases wrong⟩
        by_cases same : index = ⟨i, less⟩
        · subst same
          have fresh := own ⟨i, less⟩
          rw [uncreated_of_reaches before i loops _ (Nat.le_refl i)] at fresh
          simpa using discipline.own_create fresh
        · simpa [same] using own index
      | created loops done =>
        exact ⟨own, by simpa [loops, Main.merged] using merged, Nat.zero_le _, fun _ wrong => by cases wrong⟩
      | @act index pc after note memory runs step =>
        refine ⟨fun other => ?_, discipline.merged_step merged step, bound, inert⟩
        by_cases same : other = index
        · subst same
          have mine := own other
          rw [runs] at mine
          simpa using discipline.own_step mine step
        · simpa [same] using discipline.own_frame same step (own other)
      | @join i loops less finished =>
        refine ⟨own, by simpa [loops, Main.merged] using merged, Nat.le_of_lt less, fun j at_ => ?_⟩
        obtain rfl : i = j := Main.merging.inj at_
        exact less
      | @merge i at_ less =>
        refine ⟨fun other => discipline.own_merge (own other), ?_, less, fun _ wrong => by cases wrong⟩
        have ended := own ⟨i, less⟩
        rw [(joinedExited_of_reaches still before).merging i less at_] at ended
        rw [at_] at merged
        exact discipline.merged_merge merged ended
      | @joined i loops done =>
        refine ⟨own, ?_, Nat.le_refl _, fun _ wrong => by cases wrong⟩
        rw [loops] at merged bound
        rwa [show i = count from Nat.le_antisymm bound (Nat.le_of_not_lt done)] at merged
  obtain ⟨own, merged, bound, inert⟩ := kept
  exact ⟨own, merged, bound, uncreated_of_reaches reached, (joinedExited_of_reaches still reached).merging, inert⟩

section Notes

def Event.noteOf (index : Fin count) : Event count Note → Option Note
  | .act worker note => if worker = index then some note else none
  | .create _ | .join _ | .merge _ => none

def notes (index : Fin count) (trace : List (Event count Note)) : List Note := trace.filterMap (Event.noteOf index)

variable {index worker : Fin count} {note : Note}

theorem notes_append (before after : List (Event count Note)) :
    notes index (before ++ after) = notes index before ++ notes index after :=
  List.filterMap_append

theorem notes_act_self : notes index (trace ++ [.act index note]) = notes index trace ++ [note] := by
  rw [notes_append]
  simp [notes, Event.noteOf]

theorem notes_act_other (different : index ≠ worker) : notes index (trace ++ [.act worker note]) = notes index trace := by
  rw [notes_append]
  simp [notes, Event.noteOf, Ne.symm different]

theorem notes_aside {event : Event count Note} (aside : ∀ worker note, event ≠ .act worker note) :
    notes index (trace ++ [event]) = notes index trace := by
  rw [notes_append]
  cases event with
  | act worker note => exact absurd rfl (aside worker note)
  | create | join | merge => simp [notes, Event.noteOf]

end Notes

section Alone

inductive Alone (job : ForkJoin count Memory Pc Note) (index : Fin count) :
    Memory → Pc → Memory → Pc → Prop where
  | refl {memory : Memory} {pc : Pc} : Alone job index memory pc memory pc
  | head {memory later last : Memory} {pc after final : Pc} {note : Note}
      (step : job.step index memory pc = some (note, later, after))
      (rest : Alone job index later after last final) : Alone job index memory pc last final

theorem Alone.trans {index : Fin count} {memory middle last : Memory} {pc between final : Pc}
    (left : Alone job index memory pc middle between) (right : Alone job index middle between last final) :
    Alone job index memory pc last final := by
  induction left with
  | refl => exact right
  | head step rest ih => exact .head step (ih right)

theorem Alone.run {main : Main} {index : Fin count} {memory last : Memory} {pc final : Pc}
    {family : Fin count → Option Pc} (alone : Alone job index memory pc last final) (at_ : family index = some pc) :
    ∃ trace, job.system.Run ⟨main, memory, family⟩ trace
      ⟨main, last, Function.update family index (some final)⟩ := by
  induction alone generalizing family with
  | @refl memory pc =>
    rw [← at_, Function.update_eq_self]
    exact ⟨[], .refl⟩
  | head step rest ih =>
    have moved : job.system.step ⟨main, _, family⟩ _ _ := Step.act at_ step
    obtain ⟨trace, run⟩ := @ih (Function.update family index (some _)) (Function.update_self _ _ _)
    rw [Function.update_idem] at run
    exact ⟨_, (System.Run.single moved).trans run⟩

def split (i : Nat) (before after : Option Pc) (index : Fin count) : Option Pc :=
  if index < i then before else after

theorem split_zero (before after : Option Pc) : (split 0 before after : Fin count → Option Pc) = fun _ => after :=
  funext fun _ => if_neg (Nat.not_lt_zero _)

theorem split_all (before after : Option Pc) : (split count before after : Fin count → Option Pc) = fun _ => before :=
  funext fun index => if_pos index.isLt

theorem split_succ {i : Nat} (less : i < count) (before after : Option Pc) :
    Function.update (split i before after) ⟨i, less⟩ before = split (i + 1) before after := by
  funext index
  by_cases same : index = ⟨i, less⟩
  · subst same
    simp [split]
  · have apart : (index : Nat) ≠ i := fun equal => same (Fin.ext equal)
    simp only [Function.update_of_ne same, split]
    split <;> split <;> first | rfl | omega

theorem reaches_creating (job : ForkJoin count Memory Pc Note) (i : Nat) (bound : i ≤ count) :
    ∃ trace, job.system.Reaches trace ⟨.creating i, job.memory, split i (some job.entry) none⟩ := by
  induction i with
  | zero =>
    rw [split_zero]
    exact ⟨[], .first rfl⟩
  | succ i ih =>
    obtain ⟨trace, reached⟩ := ih (Nat.le_of_succ_le bound)
    have moved : job.system.step ⟨.creating i, job.memory, split i (some job.entry) none⟩ _ _ :=
      Step.create rfl bound
    rw [split_succ] at moved
    exact ⟨_, reached.tail moved⟩

/-- When each worker by itself comes to its end from the memory that those before it leave, some
run joins them all. -/
theorem reaches_joined_of (job : ForkJoin count Memory Pc Note) (Left : Nat → Memory → Prop)
    (first : Left 0 job.memory) (ends : ∀ (index : Fin count) memory, Left index memory →
      ∃ last, job.Alone index memory job.entry last job.exited ∧ Left (index + 1) (job.merge index last)) :
    ∃ trace state, job.system.Reaches trace state ∧ state.main = .joined ∧ Left count state.memory := by
  have upto (i : Nat) (bound : i ≤ count) : ∃ trace memory, Left i memory ∧ job.system.Reaches trace
      ⟨.joining i, memory, split i (some job.exited) (some job.entry)⟩ := by
    induction i with
    | zero =>
      obtain ⟨trace, reached⟩ := reaches_creating job count (Nat.le_refl count)
      have moved : job.system.step ⟨.creating count, job.memory, split count (some job.entry) none⟩ _ _ :=
        Step.created rfl (Nat.lt_irrefl count)
      rw [split_all, ← split_zero (some job.exited)] at moved reached
      exact ⟨_, _, first, reached.tail moved⟩
    | succ i ih =>
      obtain ⟨trace, memory, left, reached⟩ := ih (Nat.le_of_succ_le bound)
      obtain ⟨last, alone, leaves⟩ := ends ⟨i, bound⟩ memory left
      have entry : split i (some job.exited) (some job.entry) ⟨i, bound⟩ = some job.entry :=
        if_neg (Nat.lt_irrefl i)
      obtain ⟨more, run⟩ := alone.run entry
      rw [split_succ] at run
      have joined : job.system.step ⟨.joining i, last, split (i + 1) (some job.exited) (some job.entry)⟩ _ _ :=
        Step.join rfl bound (if_pos (Nat.lt_succ_self i))
      exact ⟨_, _, leaves, ((reached.then run).tail joined).tail (.merge rfl bound)⟩
  obtain ⟨trace, memory, left, reached⟩ := upto count (Nat.le_refl count)
  exact ⟨_, _, reached.tail (.joined rfl (Nat.lt_irrefl count)), rfl, left⟩

theorem reaches_joined (job : ForkJoin count Memory Pc Note)
    (ends : ∀ index memory, ∃ last, job.Alone index memory job.entry last job.exited) :
    ∃ trace state, job.system.Reaches trace state ∧ state.main = .joined := by
  have always (index : Fin count) (memory : Memory) (_ : True) :
      ∃ last, job.Alone index memory job.entry last job.exited ∧ True := by
    obtain ⟨last, alone⟩ := ends index memory
    exact ⟨last, alone, trivial⟩
  obtain ⟨trace, state, reached, joined, _⟩ := reaches_joined_of job (fun _ _ => True) trivial always
  exact ⟨trace, state, reached, joined⟩

end Alone

end ForkJoin

end CppRt.Library

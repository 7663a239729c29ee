import Mathlib.Data.List.Infix
import Mathlib.Order.OrderIsoNat
import Mathlib.Tactic.Common

/-!
Labelled transition systems and their finite runs. A step either shows a label
or is silent, and a run carries the list of labels it has shown. Invariants and
simulations are stated over that list and the state together, so a property may
speak about what has happened as well as about where the system is.
-/

namespace CppRt.Library.Transition

structure System (State Label : Type*) where
  start : State → Prop
  step : State → Option Label → State → Prop

variable {State Abstract Label : Type*}

/-- A finite run from a fixed first state, with the labels shown on the way. -/
inductive System.Run (system : System State Label) (first : State) : List Label → State → Prop where
  | refl : Run system first [] first
  | tail {trace : List Label} {state next : State} {label : Option Label}
      (before : Run system first trace state) (step : system.step state label next) :
      Run system first (trace ++ label.toList) next

def System.Reaches (system : System State Label) (trace : List Label) (state : State) : Prop :=
  ∃ first, system.start first ∧ system.Run first trace state

variable {system : System State Label} {abstract : System Abstract Label}

theorem System.Run.single {first next : State} {label : Option Label}
    (step : system.step first label next) : system.Run first label.toList next := by
  simpa using System.Run.refl.tail step

theorem System.Run.trans {first middle last : State} {before after : List Label}
    (left : system.Run first before middle) (right : system.Run middle after last) :
    system.Run first (before ++ after) last := by
  induction right with
  | refl => simpa using left
  | tail _ step ih => simpa only [List.append_assoc] using ih.tail step

theorem System.Reaches.first {state : State} (begins : system.start state) :
    system.Reaches [] state :=
  ⟨state, begins, .refl⟩

theorem System.Reaches.then {state next : State} {trace more : List Label}
    (reached : system.Reaches trace state) (run : system.Run state more next) :
    system.Reaches (trace ++ more) next := by
  obtain ⟨first, begins, before⟩ := reached
  exact ⟨first, begins, before.trans run⟩

theorem System.Reaches.tail {state next : State} {trace : List Label} {label : Option Label}
    (reached : system.Reaches trace state) (step : system.step state label next) :
    system.Reaches (trace ++ label.toList) next :=
  reached.then (.single step)

theorem System.Run.split {first last : State} {before after : List Label}
    (run : system.Run first (before ++ after) last) :
    ∃ middle, system.Run first before middle ∧ system.Run middle after last := by
  generalize shown : before ++ after = trace at run
  induction run generalizing after with
  | refl =>
    obtain ⟨rfl, rfl⟩ := List.append_eq_nil_iff.mp shown
    exact ⟨first, .refl, .refl⟩
  | @tail trace state next label run step ih =>
    rcases List.eq_nil_or_concat after with rfl | ⟨rest, final, rfl⟩
    · rw [List.append_nil] at shown
      subst shown
      exact ⟨next, run.tail step, .refl⟩
    · cases label with
      | none =>
        rw [Option.toList_none, List.append_nil] at shown
        obtain ⟨middle, left, right⟩ := ih shown
        exact ⟨middle, left, by simpa using right.tail step⟩
      | some label =>
        rw [List.concat_eq_append, ← List.append_assoc] at shown
        obtain ⟨same, own⟩ := List.append_inj' shown rfl
        obtain rfl := List.singleton_inj.mp own
        obtain ⟨middle, left, right⟩ := ih same
        exact ⟨middle, left, by simpa using right.tail step⟩

theorem System.Run.last_step {first last : State} {before : List Label} {label : Label}
    (run : system.Run first (before ++ [label]) last) :
    ∃ middle next, system.Run first before middle ∧ system.step middle (some label) next ∧ system.Run next [] last := by
  generalize shown : before ++ [label] = trace at run
  induction run with
  | refl => exact absurd shown (by simp)
  | @tail trace state next own run step ih =>
    cases own with
    | none =>
      rw [Option.toList_none, List.append_nil] at shown
      obtain ⟨middle, later, left, here, right⟩ := ih shown
      exact ⟨middle, later, left, here, by simpa using right.tail step⟩
    | some own =>
      obtain ⟨rfl, same⟩ := List.append_inj' shown rfl
      obtain rfl := List.singleton_inj.mp same
      exact ⟨state, next, run, step, .refl⟩

def System.within (system : System State Label) (guard : State → Option Label → Prop) : System State Label where
  start := system.start
  step state label next := guard state label ∧ system.step state label next

theorem System.Run.within {guard : State → Option Label → Prop} {first last : State} {trace : List Label}
    (run : system.Run first trace last) (silent : ∀ state, guard state none)
    (shown : ∀ state, ∀ label ∈ trace, guard state (some label)) : (system.within guard).Run first trace last := by
  induction run with
  | refl => exact .refl
  | @tail trace state next label run step ih =>
    have before := ih fun state label member => shown state label (List.mem_append_left _ member)
    cases label with
    | none => exact before.tail ⟨silent _, step⟩
    | some label => exact before.tail ⟨shown _ _ (List.mem_append_right _ (by simp)), step⟩

def System.restricted (system : System State Label) (admits : State → Option Label → State → Prop) :
    System State Label where
  start := system.start
  step state label next := admits state label next ∧ system.step state label next

theorem System.Reaches.of_restricted {admits : State → Option Label → State → Prop} {trace : List Label} {state : State}
    (reached : (system.restricted admits).Reaches trace state) : system.Reaches trace state := by
  obtain ⟨first, begins, run⟩ := reached
  refine ⟨first, begins, ?_⟩
  induction run with
  | refl => exact .refl
  | tail _ step ih => exact ih.tail step.2

/-- Each label of a trace stands in this relation to the labels before it. -/
def Throughout (relation : List Label → Label → Prop) (trace : List Label) : Prop :=
  ∀ before label after, trace = before ++ label :: after → relation before label

section Throughout
variable {relation : List Label → Label → Prop} {trace : List Label}

@[simp] theorem throughout_nil : Throughout relation [] := by
  intro before label after shape
  exact absurd shape (by simp)

@[simp] theorem throughout_snoc (label : Label) :
    Throughout relation (trace ++ [label]) ↔ Throughout relation trace ∧ relation trace label := by
  constructor
  · intro all
    refine ⟨fun before earlier after shape => ?_, all trace label [] rfl⟩
    exact all before earlier (after ++ [label]) (by simp [shape])
  · intro both before last after shape
    obtain ⟨all, now⟩ := both
    rcases List.eq_nil_or_concat after with empty | ⟨rest, final, ends⟩
    · subst empty
      obtain ⟨rfl, same⟩ := List.append_inj' shape rfl
      obtain rfl := List.singleton_inj.mp same
      exact now
    · rw [ends, List.concat_eq_append, ← List.cons_append, ← List.append_assoc] at shape
      exact all before last rest (List.append_inj' shape rfl).1

end Throughout

theorem System.Run.invariant (property : List Label → State → Prop) {first last : State}
    {trace : List Label} (run : system.Run first trace last) (begins : property [] first)
    (keeps : ∀ trace state label next, system.Run first trace state → property trace state →
      system.step state label next → property (trace ++ label.toList) next) :
    property trace last := by
  induction run with
  | refl => exact begins
  | tail before step ih => exact keeps _ _ _ _ before ih step

/-- The induction rule for reachable states; earlier invariants are available at the step. -/
theorem System.Reaches.invariant (property : List Label → State → Prop) {trace : List Label}
    {state : State} (reached : system.Reaches trace state)
    (begins : ∀ first, system.start first → property [] first)
    (keeps : ∀ trace state label next, system.Reaches trace state → property trace state →
      system.step state label next → property (trace ++ label.toList) next) :
    property trace state := by
  obtain ⟨first, starts, run⟩ := reached
  exact run.invariant property (begins first starts) (fun trace state label next before kept step =>
    keeps trace state label next ⟨first, starts, before⟩ kept step)

theorem System.Reaches.throughout {relation : List Label → Label → Prop} {trace : List Label} {state : State}
    (reached : system.Reaches trace state) (each : ∀ trace state label next, system.Reaches trace state →
      system.step state (some label) next → relation trace label) : Throughout relation trace := by
  refine reached.invariant (fun trace _ => Throughout relation trace) (fun _ _ => throughout_nil) ?_
  intro trace state label next before all step
  cases label with
  | none => rwa [Option.toList_none, List.append_nil]
  | some label => exact throughout_snoc label |>.mpr ⟨all, each trace state label next before step⟩

theorem System.Reaches.invariant_apart (property : List Label → State → Prop) {trace : List Label}
    {state : State} (reached : system.Reaches trace state)
    (begins : ∀ first, system.start first → property [] first)
    (quiet : ∀ trace state next, property trace state → system.step state none next → property trace next)
    (shown : ∀ trace state label next, property trace state → system.step state (some label) next →
      property (trace ++ [label]) next) :
    property trace state := by
  apply reached.invariant property begins
  intro trace state label next _ kept step
  cases label with
  | none =>
    rw [Option.toList_none, List.append_nil]
    exact quiet trace state next kept step
  | some label => exact shown trace state label next kept step

def System.Final (system : System State Label) (state : State) : Prop :=
  ∀ label next, ¬system.step state label next

theorem System.run_final (rank : State → Nat)
    (lowers : ∀ {state label next}, system.step state label next → rank next < rank state) (first : State) :
    ∃ trace last, system.Run first trace last ∧ system.Final last := by
  induction height : rank first using Nat.strong_induction_on generalizing first with
  | h height ih =>
    by_cases final : system.Final first
    · exact ⟨[], first, .refl, final⟩
    · simp only [Final, not_forall, not_not] at final
      obtain ⟨label, next, step⟩ := final
      obtain ⟨trace, last, run, ends⟩ := ih (rank next) (by have := lowers step; omega) next rfl
      exact ⟨_, last, (Run.single step).trans run, ends⟩

section Rank
variable {Order : Type*} [Preorder Order] [WellFoundedLT Order]

theorem System.Reaches.ends (rank : State → Order) (lowers : ∀ {trace state label next},
    system.Reaches trace state → system.step state label next → rank next < rank state) {trace : List Label}
    {state : State} (reached : system.Reaches trace state) :
    ∃ more last, system.Run state more last ∧ system.Reaches (trace ++ more) last ∧ system.Final last := by
  induction height : rank state using WellFoundedLT.induction generalizing trace state with
  | ind height ih =>
    by_cases final : system.Final state
    · refine ⟨[], state, .refl, ?_, final⟩
      rwa [List.append_nil]
    · simp only [Final, not_forall, not_not] at final
      obtain ⟨label, next, step⟩ := final
      have lower := lowers reached step
      rw [height] at lower
      obtain ⟨more, last, run, reaches, ends⟩ := ih (rank next) lower (reached.tail step) rfl
      refine ⟨label.toList ++ more, last, (Run.single step).trans run, ?_, ends⟩
      rwa [← List.append_assoc]

def System.Endless (system : System State Label) (run : Nat → State) : Prop :=
  ∀ index, ∃ label, system.step (run index) label (run (index + 1))

theorem System.Endless.reaches {run : Nat → State} {trace : List Label} (endless : system.Endless run)
    (reached : system.Reaches trace (run 0)) (index : Nat) : ∃ trace, system.Reaches trace (run index) := by
  induction index with
  | zero => exact ⟨trace, reached⟩
  | succ index ih =>
    obtain ⟨trace, reached⟩ := ih
    obtain ⟨label, step⟩ := endless index
    exact ⟨_, reached.tail step⟩

theorem System.Reaches.not_endless (rank : State → Order) (lowers : ∀ {trace state label next},
    system.Reaches trace state → system.step state label next → rank next < rank state) {run : Nat → State}
    {trace : List Label} (reached : system.Reaches trace (run 0)) : ¬system.Endless run := by
  intro endless
  apply not_strictAnti_of_wellFoundedLT (rank ∘ run)
  apply strictAnti_nat_of_succ_lt
  intro index
  obtain ⟨trace, reached⟩ := endless.reaches reached index
  obtain ⟨label, step⟩ := endless index
  exact lowers reached step

end Rank

/-- Forward simulation: every step is answered by an abstract run showing the same label. -/
theorem System.Reaches.simulates (related : State → Abstract → Prop) {trace : List Label}
    {state : State} (reached : system.Reaches trace state)
    (begins : ∀ first, system.start first → ∃ image, abstract.start image ∧ related first image)
    (answers : ∀ state image label next, related state image → system.step state label next →
      ∃ later, abstract.Run image label.toList later ∧ related next later) :
    ∃ image, abstract.Reaches trace image ∧ related state image := by
  obtain ⟨first, starts, run⟩ := reached
  induction run with
  | refl =>
    obtain ⟨image, starts, agree⟩ := begins first starts
    exact ⟨image, .first starts, agree⟩
  | tail _ step ih =>
    obtain ⟨image, abstractly, agree⟩ := ih
    obtain ⟨later, run, agree⟩ := answers _ image _ _ agree step
    exact ⟨later, abstractly.then run, agree⟩

end CppRt.Library.Transition

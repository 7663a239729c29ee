import CppRt.Library.Family
import CppRt.Library.Transition
import Mathlib.Data.List.Count

/-!
The exercise's producer thread and the consumers that main calls one after another.
The queue they share neither locks nor waits, so that each operation is taken as one
step here, and pop takes the front of a std::queue, which is undefined when there is
none. num_iterations and num_consumers are below 2^31: no loop counter overflows.
-/

namespace CppRt.ExTsq
open Library Transition Family

def push (q : List Int) (item : Int) : List Int := q ++ [item]

/-- `none` where front() and pop() of the empty std::queue are undefined. -/
def pop : List Int → Option (Int × List Int)
  | [] => none
  | item :: q => some (item, q)

inductive Producer where
  | iterations (i : Nat)
  | consumers (i : Nat)
  | returned

/-- `i` is the counter of main's loop: how many calls of consumer have returned. -/
structure State where
  q : List Int
  producer : Producer
  i : Nat

inductive Event where
  | push (item : Int)
  | pop (consumer : Nat) (item : Int)
  | undefined (consumer : Nat)
  deriving DecidableEq

inductive Step (num_iterations num_consumers : Nat) (state : State) : Option Event → State → Prop where
  | value {i : Nat} (loops : state.producer = .iterations i) (less : i < num_iterations) :
      Step num_iterations num_consumers state (some (.push i))
        { state with q := push state.q i, producer := .iterations (i + 1) }
  | valuesDone {i : Nat} (loops : state.producer = .iterations i) (done : ¬i < num_iterations) :
      Step num_iterations num_consumers state none { state with producer := .consumers 0 }
  | sentinel {i : Nat} (loops : state.producer = .consumers i) (less : i < num_consumers) :
      Step num_iterations num_consumers state (some (.push (-1)))
        { state with q := push state.q (-1), producer := .consumers (i + 1) }
  | sentinelsDone {i : Nat} (loops : state.producer = .consumers i) (done : ¬i < num_consumers) :
      Step num_iterations num_consumers state none { state with producer := .returned }
  -- after a -1 consumer returns and main calls the next one
  | pop {item : Int} {q : List Int} (calls : state.i < num_consumers) (popped : pop state.q = some (item, q)) :
      Step num_iterations num_consumers state (some (.pop state.i item))
        { state with q, i := if item = -1 then state.i + 1 else state.i }
  | undefined (calls : state.i < num_consumers) (popped : pop state.q = none) :
      Step num_iterations num_consumers state (some (.undefined state.i)) state

def protocol (num_iterations num_consumers : Nat) : System State Event where
  start state := state = ⟨[], .iterations 0, 0⟩
  step := Step num_iterations num_consumers

def Event.pushed : Event → Option Int
  | .push item => some item
  | _ => none

def Event.popped : Event → Option (Nat × Int)
  | .pop consumer item => some (consumer, item)
  | _ => none

def Event.pops : Event → Bool
  | .push _ => false
  | _ => true

def pushed (trace : List Event) : List Int := trace.filterMap Event.pushed

def popped (trace : List Event) : List (Nat × Int) := trace.filterMap Event.popped

structure Delivers (num_iterations num_consumers : Nat) (trace : List Event) (state : State) : Prop where
  defined : ∀ consumer, .undefined consumer ∉ trace
  delivered : state.i = num_consumers →
    ((popped trace).map Prod.snd).filter (· ≠ -1) = (List.range num_iterations).map Int.ofNat ∧
    (∀ consumer < num_consumers, (entries consumer (popped trace)).count (-1) = 1) ∧
    state.q = []

/-- The producer is ahead of the consumers: before each pop there have been more pushes than pops. -/
def Ahead (trace : List Event) : Prop :=
  Throughout (fun before event => event.pops = true → before.countP Event.pops < (pushed before).length) trace

section Trace
variable {trace : List Event}

@[simp] theorem pushed_append (before after : List Event) :
    pushed (before ++ after) = pushed before ++ pushed after := List.filterMap_append

@[simp] theorem popped_append (before after : List Event) :
    popped (before ++ after) = popped before ++ popped after := List.filterMap_append

@[simp] theorem pushed_push (item : Int) : pushed [.push item] = [item] := rfl

@[simp] theorem pushed_pop (consumer : Nat) (item : Int) : pushed [.pop consumer item] = [] := rfl

@[simp] theorem pushed_undefined (consumer : Nat) : pushed [.undefined consumer] = [] := rfl

@[simp] theorem popped_push (item : Int) : popped [.push item] = [] := rfl

@[simp] theorem popped_pop (consumer : Nat) (item : Int) : popped [.pop consumer item] = [(consumer, item)] := rfl

@[simp] theorem popped_undefined (consumer : Nat) : popped [.undefined consumer] = [] := rfl

theorem length_popped (defined : ∀ consumer, .undefined consumer ∉ trace) :
    (popped trace).length = trace.countP Event.pops := by
  induction trace with
  | nil => rfl
  | cons event trace ih =>
    have rest := ih fun consumer member => defined consumer (List.mem_cons_of_mem _ member)
    cases event with
    | push item => simpa [popped, List.filterMap_cons, Event.popped, List.countP_cons, Event.pops] using rest
    | pop consumer item => simpa [popped, List.filterMap_cons, Event.popped, List.countP_cons, Event.pops] using rest
    | undefined consumer => exact absurd List.mem_cons_self (defined consumer)

end Trace

variable {num_iterations num_consumers : Nat} {trace : List Event} {state : State}

def Producer.produced (num_iterations num_consumers : Nat) : Producer → List Int
  | .iterations i => (List.range i).map Int.ofNat
  | .consumers i => (List.range num_iterations).map Int.ofNat ++ List.replicate i (-1)
  | .returned => (List.range num_iterations).map Int.ofNat ++ List.replicate num_consumers (-1)

def Producer.Bounded (num_iterations num_consumers : Nat) : Producer → Prop
  | .iterations i => i ≤ num_iterations
  | .consumers i => i ≤ num_consumers
  | .returned => True

theorem pushed_produced (reached : (protocol num_iterations num_consumers).Reaches trace state) :
    pushed trace = state.producer.produced num_iterations num_consumers ∧
      state.producer.Bounded num_iterations num_consumers := by
  refine reached.invariant (fun trace state => pushed trace = state.producer.produced num_iterations num_consumers ∧
    state.producer.Bounded num_iterations num_consumers) ?_ ?_
  · intro first begins
    obtain rfl := begins
    exact ⟨rfl, Nat.zero_le _⟩
  · intro trace state label next _ kept step
    obtain ⟨produced, bounded⟩ := kept
    cases step with
    | value loops less =>
      rw [loops] at produced
      refine ⟨?_, less⟩
      simp [produced, Producer.produced, List.range_succ]
    | @valuesDone i loops done =>
      rw [loops] at produced bounded
      obtain rfl : i = num_iterations := Nat.le_antisymm bounded (Nat.le_of_not_lt done)
      exact ⟨by simpa [Producer.produced] using produced, Nat.zero_le _⟩
    | sentinel loops less =>
      rw [loops] at produced
      refine ⟨?_, less⟩
      simp [produced, Producer.produced, List.replicate_succ']
    | @sentinelsDone i loops done =>
      rw [loops] at produced bounded
      obtain rfl : i = num_consumers := Nat.le_antisymm bounded (Nat.le_of_not_lt done)
      exact ⟨by simpa [Producer.produced] using produced, trivial⟩
    | pop | undefined => exact ⟨by simpa using produced, bounded⟩

/-- As long as every pop has found something, what has been popped followed by what is there
is what has been pushed, and each consumer that has returned has popped one -1. -/
structure Flows (trace : List Event) (state : State) : Prop where
  order : (popped trace).map Prod.snd ++ state.q = pushed trace
  quits : ∀ consumer, (entries consumer (popped trace)).count (-1) = if consumer < state.i then 1 else 0
  total : ((popped trace).map Prod.snd).count (-1) = state.i

theorem flows_of_defined (reached : (protocol num_iterations num_consumers).Reaches trace state)
    (defined : ∀ consumer, .undefined consumer ∉ trace) : Flows trace state := by
  refine reached.invariant (fun trace state => (∀ consumer, .undefined consumer ∉ trace) → Flows trace state)
    ?_ ?_ defined
  · intro first begins _
    obtain rfl := begins
    exact ⟨rfl, fun _ => rfl, rfl⟩
  · intro trace state label next _ kept step defined
    obtain ⟨order, quits, total⟩ := kept fun consumer member => defined consumer (List.mem_append_left _ member)
    cases step with
    | value | sentinel => exact ⟨by simp [← order, push], by simpa using quits, by simpa using total⟩
    | valuesDone | sentinelsDone => exact ⟨by simpa using order, by simpa using quits, by simpa using total⟩
    | @pop item q calls found =>
      have shape : state.q = item :: q := by
        unfold pop at found
        split at found
        · cases found
        · cases found
          assumption
      refine ⟨by simpa [shape] using order, fun consumer => ?_, ?_⟩
      · have before := quits consumer
        by_cases quit : item = -1
        · by_cases own : state.i = consumer
          · subst own
            simp [quit, before]
          · have same : consumer < state.i + 1 ↔ consumer < state.i := by omega
            simp [entries_other own, before, quit, same]
        · by_cases own : state.i = consumer
          · subst own
            simp [quit, before]
          · simp [entries_other own, before, quit]
      · by_cases quit : item = -1
        · simp [quit, total]
        · simp [quit, total]
    | undefined calls found => exact absurd (by simp) (defined state.i)

theorem called_le (reached : (protocol num_iterations num_consumers).Reaches trace state) :
    state.i ≤ num_consumers ∧ ∀ entry ∈ popped trace, entry.1 < num_consumers := by
  refine reached.invariant (fun trace state => state.i ≤ num_consumers ∧
    ∀ entry ∈ popped trace, entry.1 < num_consumers) ?_ ?_
  · intro first begins
    obtain rfl := begins
    exact ⟨Nat.zero_le _, by simp [popped]⟩
  · intro trace state label next _ kept step
    obtain ⟨bound, callers⟩ := kept
    cases step with
    | pop calls =>
      refine ⟨by simp only; split <;> omega, fun entry member => ?_⟩
      rcases List.mem_append.mp (popped_append _ _ ▸ member) with before | now
      · exact callers entry before
      · obtain rfl := List.mem_singleton.mp now
        exact calls
    | _ => exact ⟨bound, by simpa using callers⟩

theorem defined_iff_ahead (reached : (protocol num_iterations num_consumers).Reaches trace state) :
    (∀ consumer, .undefined consumer ∉ trace) ↔ Ahead trace := by
  refine reached.invariant (fun trace _ => (∀ consumer, .undefined consumer ∉ trace) ↔ Ahead trace) ?_ ?_
  · intro first _
    simp [Ahead]
  · intro trace state label next earlier kept step
    have behind : (∀ consumer, .undefined consumer ∉ trace) →
        trace.countP Event.pops + state.q.length = (pushed trace).length := by
      intro defined
      rw [← (flows_of_defined earlier defined).order, ← length_popped defined]
      simp
    cases step with
    | value | sentinel => simpa [Ahead, Event.pops] using kept
    | valuesDone | sentinelsDone => simpa using kept
    | @pop item q calls found =>
      simp only [Option.toList_some, Ahead, throughout_snoc]
      rw [← Ahead, ← kept]
      constructor
      · intro defined
        have before := fun consumer member => defined consumer (List.mem_append_left _ member)
        refine ⟨before, fun _ => ?_⟩
        have count := behind before
        cases shape : state.q with
        | nil => simp [shape, pop] at found
        | cons front rest =>
          rw [shape, List.length_cons] at count
          omega
      · intro both consumer member
        rcases List.mem_append.mp member with before | now
        · exact both.1 consumer before
        · simp at now
    | undefined calls found =>
      simp only [Option.toList_some, Ahead, throughout_snoc]
      rw [← Ahead, ← kept]
      constructor
      · intro defined
        exact absurd (by simp) (defined state.i)
      · intro both
        have count := behind both.1
        have ahead := both.2 rfl
        cases shape : state.q with
        | nil =>
          rw [shape, List.length_nil] at count
          omega
        | cons front rest => simp [shape, pop] at found

theorem count_values (num_iterations : Nat) : ((List.range num_iterations).map Int.ofNat).count (-1) = 0 := by
  apply List.count_eq_zero_of_not_mem
  intro member
  obtain ⟨i, _, same⟩ := List.mem_map.mp member
  exact absurd same (by simp)

theorem all_pushed (reached : (protocol num_iterations num_consumers).Reaches trace state)
    (flows : Flows trace state) (quit : state.i = num_consumers) (served : num_iterations = 0 ∨ 0 < num_consumers) :
    pushed trace = (List.range num_iterations).map Int.ofNat ++ List.replicate num_consumers (-1) ∧ state.q = [] := by
  obtain ⟨produced, bounded⟩ := pushed_produced reached
  have sentinels : num_consumers + state.q.count (-1) = (pushed trace).count (-1) := by
    rw [← flows.order, List.count_append, flows.total, quit]
  have all : pushed trace = (List.range num_iterations).map Int.ofNat ++ List.replicate num_consumers (-1) := by
    rw [produced] at sentinels ⊢
    cases at_ : state.producer with
    | iterations i =>
      simp only [at_, Producer.produced, Producer.Bounded, count_values] at sentinels bounded ⊢
      obtain rfl : num_consumers = 0 := by omega
      obtain rfl : num_iterations = 0 := by omega
      obtain rfl : i = 0 := by omega
      rfl
    | consumers i =>
      simp only [at_, Producer.produced, Producer.Bounded, List.count_append, count_values,
        List.count_replicate_self] at sentinels bounded ⊢
      obtain rfl : i = num_consumers := by omega
      rfl
    | returned => rfl
  refine ⟨all, ?_⟩
  rw [all, List.count_append, count_values, List.count_replicate_self] at sentinels
  have left : state.q.count (-1) = 0 := by omega
  have order := flows.order
  rw [all] at order
  rcases List.eq_nil_or_concat state.q with empty | ⟨rest, last, shape⟩
  · exact empty
  · cases num_consumers with
    | zero =>
      obtain rfl : num_iterations = 0 := by omega
      simp [shape] at order
    | succ num_consumers =>
      rw [shape, List.concat_eq_append, List.replicate_succ', ← List.append_assoc, ← List.append_assoc] at order
      have sentinel : last = -1 := List.singleton_inj.mp (List.append_inj' order rfl).2
      simp [shape, sentinel] at left

/-- The protocol delivers in the runs in which the producer is ahead of the consumers, and in
no others. -/
theorem delivers_iff_ahead (num_iterations num_consumers : Nat) {trace : List Event} {state : State}
    (reached : (protocol num_iterations num_consumers).Reaches trace state) :
    Delivers num_iterations num_consumers trace state ↔
      (num_iterations = 0 ∨ 0 < num_consumers) ∧ Ahead trace := by
  obtain ⟨bound, callers⟩ := called_le reached
  constructor
  · intro delivers
    refine ⟨?_, (defined_iff_ahead reached).mp delivers.defined⟩
    by_contra unserved
    obtain rfl : num_consumers = 0 := by omega
    have nothing : popped trace = [] := List.eq_nil_iff_forall_not_mem.mpr fun entry member =>
      absurd (callers entry member) (Nat.not_lt_zero _)
    have delivered := (delivers.delivered (by omega)).1
    rw [nothing] at delivered
    have length := congrArg List.length delivered
    simp at length
    omega
  · intro both
    obtain ⟨served, ahead⟩ := both
    have defined := (defined_iff_ahead reached).mpr ahead
    have flows := flows_of_defined reached defined
    refine ⟨defined, fun quit => ?_⟩
    obtain ⟨all, empty⟩ := all_pushed reached flows quit served
    refine ⟨?_, fun consumer less => ?_, empty⟩
    · have order := flows.order
      rw [empty, List.append_nil, all] at order
      have kept : ((List.range num_iterations).map Int.ofNat).filter (· ≠ -1) = (List.range num_iterations).map Int.ofNat := by
        apply List.filter_eq_self.mpr
        intro item member
        have absent := List.count_eq_zero.mp (count_values num_iterations)
        have different : item ≠ -1 := fun same => absent (same ▸ member)
        simpa using different
      rw [order, List.filter_append, kept]
      simp
    · rw [flows.quits consumer, if_pos (by omega)]

/-- With the numbers of main.cpp, the first consumer can pop before anything has been pushed. -/
theorem consumer_overtakes :
    ¬∀ trace state, (protocol 20000 5).Reaches trace state → Delivers 20000 5 trace state := by
  intro all
  have pops : (protocol 20000 5).step ⟨[], .iterations 0, 0⟩ (some (.undefined 0)) ⟨[], .iterations 0, 0⟩ :=
    Step.undefined (by decide) rfl
  have reached := (System.Reaches.first rfl).tail pops
  exact (all _ _ reached).defined 0 List.mem_cons_self

theorem delivers_in_time : ∃ trace state, (protocol 1 1).Reaches trace state ∧
    Delivers 1 1 trace state ∧ state.i = 1 ∧ popped trace = [(0, 0), (0, -1)] := by
  have value : (protocol 1 1).step ⟨[], .iterations 0, 0⟩ (some (.push 0)) ⟨[0], .iterations 1, 0⟩ :=
    Step.value rfl Nat.one_pos
  have done : (protocol 1 1).step ⟨[0], .iterations 1, 0⟩ none ⟨[0], .consumers 0, 0⟩ :=
    Step.valuesDone rfl (Nat.lt_irrefl 1)
  have first : (protocol 1 1).step ⟨[0], .consumers 0, 0⟩ (some (.pop 0 0)) ⟨[], .consumers 0, 0⟩ :=
    Step.pop Nat.one_pos rfl
  have sentinel : (protocol 1 1).step ⟨[], .consumers 0, 0⟩ (some (.push (-1))) ⟨[-1], .consumers 1, 0⟩ :=
    Step.sentinel rfl Nat.one_pos
  have last : (protocol 1 1).step ⟨[-1], .consumers 1, 0⟩ (some (.pop 0 (-1))) ⟨[], .consumers 1, 1⟩ :=
    Step.pop Nat.one_pos rfl
  have reached := (((((System.Reaches.first rfl).tail value).tail done).tail first).tail sentinel).tail last
  have ahead := (defined_iff_ahead reached).mp (by simp)
  exact ⟨_, _, reached, (delivers_iff_ahead 1 1 reached).mpr ⟨.inr Nat.one_pos, ahead⟩, rfl, rfl⟩

end CppRt.ExTsq

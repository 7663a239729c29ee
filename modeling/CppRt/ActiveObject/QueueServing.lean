import CppRt.ActiveObject.QueueInvariant

/-!
Runs of the hand-locked queue in which one thread carries out one operation while
the others stand still.
-/

namespace CppRt.ActiveObject.ThreadSafeQueue
open Library Concurrent Monitor Queue

variable {Thread Item : Type*} [DecidableEq Thread] {thread : Thread}
variable {base : Thread → Pc Item}

theorem push_completes (outside : base thread = .outside) (awake : ∀ other, base other ≠ .asleep)
    (q : List Item) (item : Item) :
    machine.Completes thread (.push item) .pushed ⟨⟨q, .free⟩, base⟩ ⟨⟨q ++ [item], .free⟩, base⟩ := by
  refine ⟨_, .with base thread ⟨q, .held thread 0⟩ (.pushEnqueue item), _, _, call_alone _ outside, ?_,
    inside_alone .pushEnqueue, ?_, ret_alone _ outside⟩
  · exact .head (inside_alone (.pushLock rfl)) .refl
  · exact .head (signal_alone awake (by simp [monitor]))
      (.head (inside_alone (.pushUnlock (Mutex.unlock_held thread))) .refl)

theorem pop_completes (outside : base thread = .outside) (front : Item) (rest : List Item) :
    machine.Completes thread .pop (.popped front) ⟨⟨front :: rest, .free⟩, base⟩ ⟨⟨rest, .free⟩, base⟩ := by
  have takes : Local thread ⟨front :: rest, .held thread 0⟩ (.take (.pop false))
      (some (.commit .pop (.popped front))) ⟨rest, .held thread 0⟩ (.unlock (.popped front)) := .take rfl
  refine ⟨_, .with base thread _ _, _, _, call_alone _ outside, ?_, inside_alone takes, ?_,
    ret_alone _ outside⟩
  · exact .head (inside_alone (.popLock rfl)) (.head (inside_alone .popTest) .refl)
  · exact .head (inside_alone (.unlock (Mutex.unlock_held thread))) .refl

theorem pop_parks (outside : base thread = .outside) :
    machine.Parks thread .pop ⟨⟨([] : List Item), .free⟩, base⟩
      ⟨⟨[], .free⟩, Function.update base thread .asleep⟩ := by
  refine ⟨_, call_alone _ outside, .head (inside_alone (.popLock rfl)) ?_⟩
  exact .head (inside_alone .popTest) (.head (inside_alone (.condWait (Mutex.unlock_held thread))) .refl)

theorem calls_at_rest {state next : State Thread Item} {action : Option (Action (Call Item) (Ret Item))}
    (rest : state.pc thread = .outside ∨ state.pc thread = .asleep)
    (step : monitor.Step state thread action next) :
    state.pc thread = .outside ∧ ∃ call, action = some (.call call) := by
  refine calls_only (fun later after moved => ?_) (fun signals => ?_) (fun ret returns => ?_) step
  · rcases rest with outside | asleep
    · rw [outside] at moved
      cases moved
    · rw [asleep] at moved
      cases moved
  · rcases rest with outside | asleep
    · cases outside.symm.trans signals
    · cases asleep.symm.trans signals
  · rcases rest with outside | asleep
    · cases outside.symm.trans returns
    · cases asleep.symm.trans returns

def position : Bool → Pc Item
  | true => .asleep
  | false => .outside

theorem position_rest (sleeps : Bool) : (position sleeps : Pc Item) = .outside ∨ (position sleeps : Pc Item) = .asleep := by
  cases sleeps with
  | false => exact .inl rfl
  | true => exact .inr rfl

def serving : Serving (machine : Object Thread (State Thread Item) _ _) where
  resting q asleep := ⟨⟨q, .free⟩, position ∘ asleep⟩
  start := rfl
  push _ q item := push_completes rfl (fun _ => by simp [position]) q item
  pop _ front q := pop_completes rfl front q
  park thread asleep awake := by
    rw [Function.comp_update]
    exact pop_parks (congrArg position awake)

end CppRt.ActiveObject.ThreadSafeQueue

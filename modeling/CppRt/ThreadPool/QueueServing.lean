import CppRt.ThreadPool.QueueLinearization

/-!
Runs of the recursive queue in which one thread carries out one operation while
the others stand still: a push and a pop that complete, and a pop that goes to
sleep on the empty queue. They give the runs by which the queue can do whatever
the atomic queue does.
-/

namespace CppRt.ThreadPool.ThreadSafeQueue
open Library Concurrent Monitor Queue

variable {Thread Item : Type*} [DecidableEq Thread] {thread : Thread}
variable {base : Thread → Pc Item}

theorem push_completes (throws : Prop) (outside : base thread = .outside)
    (awake : ∀ other, base other ≠ .asleep) (q : List Item) (item : Item) :
    (machine throws).Completes thread (.push item) .pushed ⟨⟨q, .free⟩, base⟩ ⟨⟨q ++ [item], .free⟩, base⟩ := by
  refine ⟨_, .with base thread ⟨q, .held thread 0⟩ (.pushEnqueue item), _, _, call_alone _ outside, ?_,
    inside_alone .pushEnqueue, ?_, ret_alone _ outside⟩
  · exact .head (inside_alone (.pushLock rfl)) .refl
  · exact .head (inside_alone (.pushUnlock (Mutex.unlock_held thread)))
      (.head (signal_alone awake (by simp [monitor])) .refl)

theorem push_wakes (throws : Prop) {sleeper : Thread} (outside : base thread = .outside) (sleeps : base sleeper = .asleep)
    (q : List Item) (item : Item) :
    (machine throws).Completes thread (.push item) .pushed ⟨⟨q, .free⟩, base⟩
      ⟨⟨q ++ [item], .free⟩, Function.update base sleeper .woken⟩ := by
  have apart : sleeper ≠ thread := by
    rintro rfl
    cases outside.symm.trans sleeps
  refine ⟨_, .with base thread ⟨q, .held thread 0⟩ (.pushEnqueue item), _, _, call_alone _ outside, ?_,
    inside_alone .pushEnqueue, ?_, ret_alone _ ((Function.update_of_ne (Ne.symm apart) _ _).trans outside)⟩
  · exact .head (inside_alone (.pushLock rfl)) .refl
  · exact .head (inside_alone (.pushUnlock (Mutex.unlock_held thread))) (.head (signal_wakes sleeps apart) .refl)

/-- From a locked pop or the wait's re-lock to the end of the emptiness test. -/
theorem test_alone (throws : Prop) (q : List Item) (woken : Bool) :
    (machine throws).Quietly thread (.with base thread ⟨q, .held thread 0⟩ (.emptyLock (.within (.pop woken))))
      (.with base thread ⟨q, .held thread 0⟩ (Caller.resume (.within (.pop woken)) q.isEmpty)) :=
  .head (inside_alone (.emptyLock (Mutex.lockRecursive_held thread 0)))
    (.head (inside_alone .emptyTest) (.head (inside_alone (.emptyUnlock (Mutex.unlock_held_succ thread 0))) .refl))

theorem pop_completes (throws : Prop) (outside : base thread = .outside) (front : Item) (rest : List Item) :
    (machine throws).Completes thread .pop (.popped front) ⟨⟨front :: rest, .free⟩, base⟩
      ⟨⟨rest, .free⟩, base⟩ := by
  have takes : Local throws thread ⟨front :: rest, .held thread 0⟩ (.take (.pop false))
      (some (.commit .pop (.popped front))) ⟨rest, .held thread 0⟩ (.unlock (.popped front)) := .take rfl
  refine ⟨_, .with base thread _ _, _, _, call_alone _ outside, ?_, inside_alone takes, ?_,
    ret_alone _ outside⟩
  · exact .head (inside_alone (.popLock rfl)) (test_alone throws (front :: rest) false)
  · exact .head (inside_alone (.unlock (Mutex.unlock_held thread))) .refl

theorem pop_parks (throws : Prop) (outside : base thread = .outside) :
    (machine throws).Parks thread .pop ⟨⟨([] : List Item), .free⟩, base⟩
      ⟨⟨[], .free⟩, Function.update base thread .asleep⟩ := by
  refine ⟨_, call_alone _ outside, .head (inside_alone (.popLock rfl)) ?_⟩
  exact (test_alone throws [] false).trans (.head (inside_alone (.condWait (Mutex.unlock_held thread))) .refl)

theorem calls_at_rest {throws : Prop} {state next : State Thread Item} {action : Option (Action (Call Item) (Ret Item))}
    (rest : state.pc thread = .outside ∨ state.pc thread = .asleep)
    (step : (monitor throws).Step state thread action next) :
    state.pc thread = .outside ∧ ∃ call, action = some (.call call) := by
  refine calls_only (fun later after moved => ?_) (fun signals => ?_) (fun ret returns => ?_) step
  · rcases rest with outside | asleep
    · rw [outside] at moved
      cases moved
    · rw [asleep] at moved
      cases moved
  · rcases rest with outside | asleep
    · cases outside.symm.trans signals
    · cases asleep.symm.trans signals
  · rcases rest with outside | asleep
    · cases outside.symm.trans returns
    · cases asleep.symm.trans returns

def position : Bool → Pc Item
  | true => .asleep
  | false => .outside

theorem position_rest (sleeps : Bool) : (position sleeps : Pc Item) = .outside ∨ (position sleeps : Pc Item) = .asleep := by
  cases sleeps with
  | false => exact .inl rfl
  | true => exact .inr rfl

def serving (throws : Prop) : Serving (machine throws : Object Thread (State Thread Item) _ _) where
  resting q asleep := ⟨⟨q, .free⟩, position ∘ asleep⟩
  start := rfl
  push _ q item := push_completes throws rfl (fun _ => by simp [position]) q item
  pop _ front q := pop_completes throws rfl front q
  park thread asleep awake := by
    rw [Function.comp_update]
    exact pop_parks throws (congrArg position awake)

end CppRt.ThreadPool.ThreadSafeQueue

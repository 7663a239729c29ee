import CppRt.ActiveObject.QueueServing

/-!
The hand-locked queue when its threads use try_pop too. The try_pop that finds the queue
empty returns without an unlock: its thread goes on outside the queue with the mutex held,
and whoever locks it next waits for good. Up to the first such try_pop every operation
gives the mutex back.
-/

namespace CppRt.ActiveObject.ThreadSafeQueue
open Library Concurrent Family Monitor Queue Transition

variable {Thread Item : Type*}

/-- Blocked in pthread_mutex_lock or in the end of pthread_cond_wait while another holds the mutex. -/
def Pc.Acquires : Pc Item → Prop
  | .popLock => True
  | .woken => True
  | .tryLock _ => True
  | .pushLock _ => True
  | _ => False

variable [DecidableEq Thread]

def handLocked (program : Thread → List (Call Item)) :
    System (Joint (State Thread Item) (Thread → List (Call Item)))
      (Label Thread (Call Item) (Ret Item) Empty) :=
  compose machine (programs id program)

structure Released (program : Thread → List (Call Item))
    (state : Joint (State Thread Item) (Thread → List (Call Item))) : Prop where
  free : ∀ thread, (state.object.pc thread = .outside ∨ ∃ ret, state.object.pc thread = .returning ret) →
    state.object.shared.mtx.depth thread = 0
  acquires : Stuck machine (programs id program) state → ∀ thread, ¬(state.object.pc thread).Acquires

/-- No try_pop takes effect on an empty queue. -/
def Finds (state : Joint (State Thread Item) (Thread → List (Call Item)))
    (label : Option (Label Thread (Call Item) (Ret Item) Empty)) : Prop :=
  ∀ thread item ret, label = some (.act thread (.commit (.tryPop item) ret)) → state.object.shared.q ≠ []

def releasing : Monitor Thread (Shared Thread Item) (Pc Item) (Call Item) (Ret Item) where
  initial := ⟨[], .free⟩
  outside := .outside
  entry := entry
  returning := .returning
  asleep := .asleep
  woken := .woken
  signals := .pushSignal
  signalled := .pushUnlock
  moves thread shared pc action later after := Local thread shared pc action later after ∧ ¬Fails action

def releasingLocking : (releasing : Monitor Thread (Shared Thread Item) _ _ _).Locking fun _ => True where
  mutex shared := shared.mtx
  depth := Pc.depth
  Knows _ _ := True
  free_initial := rfl
  depth_outside := rfl
  depth_entry call := by cases call <;> rfl
  depth_returning _ := rfl
  depth_asleep := rfl
  depth_woken := rfl
  depth_signals := rfl
  depth_moves moved _ := moved.1.depth moved.2
  knows_outside _ := trivial
  knows_entry _ _ _ := trivial
  knows_woken _ := trivial
  knows_signalled _ := trivial
  knows_moves _ _ := trivial
  knows_frame _ _ _ := trivial

section Step
variable {thread : Thread} {shared later : Shared Thread Item} {pc after : Pc Item}
variable {action : Option (Action (Call Item) (Ret Item))} {state next : State Thread Item}

theorem releasing_step (step : monitor.Step state thread action next) (served : ¬Fails action) :
    releasing.Step state thread action next := by
  cases step with
  | call outside => exact .call outside
  | inside moved => exact .inside ⟨moved, served⟩
  | signal signals signal => exact .signal signals signal
  | ret returns => exact .ret returns

theorem Local.not_calls (moved : Local thread shared pc action later after) (call : Call Item) :
    action ≠ some (.call call) := by
  intro called
  cases moved <;> cases called

theorem Local.of_failure {item : Item} {ret : Ret Item}
    (moved : Local thread shared pc (some (.commit (.tryPop item) ret)) later after) (empty : shared.q = []) :
    pc = .tryTest item ∧ later = shared ∧ after = .returning (.tried false item) := by
  generalize committed : some (Action.commit (Call.tryPop item) ret) = action at moved
  cases moved with
  | tryFails =>
    cases committed
    exact ⟨rfl, rfl, rfl⟩
  | take shape => cases empty.symm.trans shape
  | _ => cases committed

theorem keeps_of_failure {item : Item} {ret : Ret Item}
    (step : monitor.Step state thread (some (.commit (.tryPop item) ret)) next) (empty : state.shared.q = [])
    (locks : (state.pc thread).depth = state.shared.mtx.depth thread) :
    next.pc thread = .returning (.tried false item) ∧ next.shared.mtx.depth thread = 1 := by
  cases step with
  | inside moved =>
    obtain ⟨tests, same, returns⟩ := moved.of_failure empty
    rw [tests] at locks
    subst same returns
    exact ⟨Function.update_self _ _ _, locks.symm⟩

theorem found_of_fails (step : monitor.Step state thread action next) (fails : Fails action) :
    state.shared.q = [] := by
  obtain ⟨item, rfl⟩ := fails
  cases step with
  | inside moved =>
    generalize committed : some (Action.commit (Call.tryPop item) (Ret.tried false item)) = action at moved
    generalize state.pc thread = pc at moved
    cases moved with
    | tryFails shape => exact shape
    | @take taker => cases taker <;> cases committed
    | _ => cases committed

end Step

section Run
variable {program : Thread → List (Call Item)} {trace : List (Label Thread (Call Item) (Ret Item) Empty)}
variable {label : Option (Label Thread (Call Item) (Ret Item) Empty)}
variable {state next : Joint (State Thread Item) (Thread → List (Call Item))}

theorem sound_step (sound : releasingLocking.Sound state.object)
    (step : (handLocked program).step state label next) (finds : Finds state label) :
    releasingLocking.Sound next.object := by
  rcases programs_cases step with ⟨thread, action, shown, moved⟩ | ⟨-, woken⟩
  · refine sound.step (fun _ _ => trivial) (releasing_step moved fun fails => ?_)
    have empty := found_of_fails moved fails
    obtain ⟨item, committed⟩ := fails
    exact finds thread item _ (by rw [shown, committed]; rfl) empty
  · exact sound.wake woken

theorem sound_of_finds (reached : ((handLocked program).within Finds).Reaches trace state) :
    releasingLocking.Sound state.object := by
  refine reached.invariant (fun _ state => releasingLocking.Sound state.object) ?_
    (fun _ _ _ _ _ sound step => sound_step sound step.2 step.1)
  rintro ⟨_, progress⟩ ⟨rfl, -⟩
  exact Locking.Sound.start

theorem released_of_sound (sound : releasingLocking.Sound state.object) : Released program state := by
  constructor
  case free =>
    intro thread out
    have locks : (state.object.pc thread).depth = state.object.shared.mtx.depth thread := sound.locks thread
    rw [← locks]
    rcases out with outside | ⟨ret, returns⟩
    · rw [outside]
      rfl
    · rw [returns]
      rfl
  case acquires =>
    intro stuck thread acquires
    have still {thread : Thread} {action : Option (Action (Call Item) (Ret Item))} {next : State Thread Item}
        (step : monitor.Step state.object thread action next) : ∃ call, action = some (.call call) :=
      programs_stuck stuck step
    have calm := (sound.quiet (fun thread outside asleep signals returns free => ?_)
      (fun thread action next step => ?_)).2 thread
    · rcases calm with outside | asleep
      · have out : state.object.pc thread = .outside := outside
        rw [out] at acquires
        exact acquires
      · have sleeps : state.object.pc thread = .asleep := asleep
        rw [sleeps] at acquires
        exact acquires
    · obtain ⟨action, later, after, moved⟩ :=
        Local.enabled outside asleep signals returns (sound.locks thread) free
      obtain ⟨call, called⟩ := still (.inside moved)
      exact absurd called (moved.not_calls call)
    · cases step with
      | call outside => exact ⟨_, rfl⟩
      | inside moved => exact still (.inside moved.1)
      | signal signals signal => exact still (.signal signals signal)
      | ret returns => exact still (.ret returns)

theorem not_released (sound : releasingLocking.Sound state.object)
    (step : (handLocked program).step state label next) (missing : ¬Finds state label) :
    ¬Released program next := by
  intro released
  simp only [Finds, not_forall, not_not] at missing
  obtain ⟨thread, item, ret, shown, empty⟩ := missing
  rcases programs_cases step with ⟨mover, action, moved, inside⟩ | ⟨silent, -⟩
  · obtain ⟨rfl, rfl⟩ : thread = mover ∧ action = some (.commit (.tryPop item) ret) := by
      rw [shown] at moved
      cases action with
      | none => cases moved
      | some action => simpa [eq_comm] using moved
    obtain ⟨returns, keeps⟩ := keeps_of_failure inside empty (sound.locks thread)
    have free := released.free thread (.inr ⟨_, returns⟩)
    omega
  · cases shown.symm.trans silent

/-- Until a try_pop finds the queue empty every operation gives the mutex back and nobody
waits for it for good; and the first that does is the end of that. -/
theorem released_while_found (reached : ((handLocked program).within Finds).Reaches trace state) :
    Released program state ∧
    ∀ label next, (handLocked program).step state label next → (Released program next ↔ Finds state label) := by
  have sound := sound_of_finds reached
  refine ⟨released_of_sound sound, fun label next step => ⟨fun released => ?_, fun finds => ?_⟩⟩
  · by_contra missing
    exact not_released sound step missing released
  · exact released_of_sound (sound_step sound step finds)

end Run

theorem reaches_kept : ∃ trace state,
    (handLocked fun | true => [Call.tryPop 5] | false => [.push 7]).Reaches trace state ∧
    state.object.pc true = .outside ∧ state.object.shared.mtx = .held true 0 ∧
    state.object.pc false = .pushLock 7 ∧ state.client true = [] := by
  let program : Bool → List (Call Nat) := fun | true => [.tryPop 5] | false => [.push 7]
  let base : Bool → Pc Nat := fun _ => .outside
  have called : monitor.object.step ⟨⟨[], .free⟩, base⟩ true (some (.call (.tryPop 5)))
      (.with base true ⟨[], .free⟩ (.tryLock 5)) := call_alone (Call.tryPop 5) rfl
  have locked : monitor.object.step (.with base true ⟨[], .free⟩ (.tryLock 5)) true none
      (.with base true ⟨[], .held true 0⟩ (.tryTest 5)) := inside_alone (.tryLock rfl)
  have failed : monitor.object.step (.with base true ⟨[], .held true 0⟩ (.tryTest 5)) true
      (some (.commit (.tryPop 5) (.tried false 5))) (.with base true ⟨[], .held true 0⟩ (.returning (.tried false 5))) :=
    inside_alone (.tryFails rfl)
  have left : monitor.object.step (.with base true ⟨[], .held true 0⟩ (.returning (.tried false 5))) true
      (some (.ret (.tried false 5))) ⟨⟨[], .held true 0⟩, base⟩ := ret_alone (Ret.tried false 5) rfl
  have blocked : monitor.object.step ⟨⟨[], .held true 0⟩, base⟩ false (some (.call (.push 7)))
      (.with base false ⟨[], .held true 0⟩ (.pushLock 7)) := call_alone (Call.push 7) rfl
  have run : (handLocked program).Run ⟨_, program⟩ _ ⟨_, Function.update program true []⟩ :=
    (Step.run (.call rfl called)).trans ((Step.run (.silent locked)).trans ((Step.run (.commit failed)).trans
      ((Step.run (.ret left rfl)).trans (Step.run (.call rfl blocked)))))
  refine ⟨_, _, ⟨⟨⟨⟨[], .free⟩, base⟩, program⟩, ⟨rfl, rfl⟩, run⟩, rfl, rfl, rfl, rfl⟩

/-- The mutex is held from outside, and the pusher waits for it where nobody can step. -/
theorem tryPop_keeps_mutex : ∃ trace state,
    (handLocked fun | true => [Call.tryPop 5] | false => [.push 7]).Reaches trace state ∧
    state.object.pc true = .outside ∧ state.object.shared.mtx.depth true = 1 ∧
    Stuck machine (programs id fun | true => [Call.tryPop 5] | false => [.push 7]) state ∧
    (state.object.pc false).Acquires ∧
    ¬Released (fun | true => [Call.tryPop 5] | false => [.push 7]) state := by
  obtain ⟨trace, state, reached, outside, kept, waits, done⟩ := reaches_kept
  have owns : state.object.shared.mtx.depth true = 1 := by rw [kept]; rfl
  have stuck : Stuck machine (programs id fun | true => [Call.tryPop 5] | false => [.push 7]) state := by
    refine stuck_of_done fun thread action next step => ?_
    cases thread with
    | true => exact ⟨(calls_at_rest (.inl outside) step).2, done⟩
    | false =>
      have out : state.object.pc false = .outside :=
        (calls_only (fun later after moved => ?_) (fun at_ => ?_) (fun ret at_ => ?_) step).1
      · cases waits.symm.trans out
      · rw [waits] at moved
        cases moved with
        | pushLock locked =>
          rw [kept] at locked
          cases locked
      · cases waits.symm.trans at_
      · cases waits.symm.trans at_
  have acquires : (state.object.pc false).Acquires := by
    rw [waits]
    trivial
  exact ⟨trace, state, reached, outside, owns, stuck, acquires, fun released => released.acquires stuck _ acquires⟩

theorem released_after_found : ∃ trace state next last,
    ((handLocked fun | true => [Call.push 7] | false => [.tryPop 5]).within Finds).Reaches trace state ∧
    .act true (.ret .pushed) ∈ trace ∧
    (handLocked fun | true => [Call.push 7] | false => [.tryPop 5]).step state
      (some (.act false (.commit (.tryPop 5) (.tried true 7)))) next ∧
    Released (fun | true => [Call.push 7] | false => [.tryPop 5]) next ∧
    (handLocked fun | true => [Call.push 7] | false => [.tryPop 5]).Run next [.act false (.ret (.tried true 7))] last ∧
    Released (fun | true => [Call.push 7] | false => [.tryPop 5]) last ∧
    last.object.shared.mtx = .free ∧ last.client = fun _ => [] := by
  let program : Bool → List (Call Nat) := fun | true => [.push 7] | false => [.tryPop 5]
  let base : Bool → Pc Nat := fun _ => .outside
  have pushes : machine.Completes true (.push 7) .pushed ⟨⟨[], .free⟩, base⟩ ⟨⟨[7], .free⟩, base⟩ :=
    push_completes rfl (by simp [base]) [] 7
  have tests : machine.Parks false (.tryPop 5) ⟨⟨[7], .free⟩, base⟩
      (.with base false ⟨[7], .held false 0⟩ (.take (.tryPop 5))) :=
    ⟨_, call_alone (Call.tryPop 5) rfl, .head (inside_alone (.tryLock rfl)) (.head (inside_alone (.tryTest (by simp))) .refl)⟩
  have takes : Local false ⟨[7], .held false 0⟩ (.take (.tryPop 5)) (some (.commit (.tryPop 5) (.tried true 7)))
      ⟨[], .held false 0⟩ (.unlock (.tried true 7)) := .take rfl
  have taken : monitor.object.step (.with base false ⟨[7], .held false 0⟩ (.take (.tryPop 5))) false
      (some (.commit (.tryPop 5) (.tried true 7))) (.with base false ⟨[], .held false 0⟩ (.unlock (.tried true 7))) :=
    inside_alone takes
  have unlocked : monitor.object.step (.with base false ⟨[], .held false 0⟩ (.unlock (.tried true 7))) false none
      (.with base false ⟨[], .free⟩ (.returning (.tried true 7))) := inside_alone (.unlock (Mutex.unlock_held false))
  have left : monitor.object.step (.with base false ⟨[], .free⟩ (.returning (.tried true 7))) false
      (some (.ret (.tried true 7))) ⟨⟨[], .free⟩, base⟩ := ret_alone (Ret.tried true 7) rfl
  have before : (handLocked program).Run ⟨_, program⟩ _ ⟨_, Function.update program true []⟩ :=
    (pushes.run rfl rfl).trans (tests.run rfl)
  have reached : ((handLocked program).within Finds).Reaches _ _ :=
    ⟨⟨⟨⟨[], .free⟩, base⟩, program⟩, ⟨rfl, rfl⟩, before.within (fun _ _ _ _ wrong => by cases wrong) (by simp [Finds])⟩
  have step : (handLocked program).step ⟨_, Function.update program true []⟩ _ ⟨_, Function.update program true []⟩ :=
    .inl ⟨false, .commit taken⟩
  have finds : Finds (⟨.with base false ⟨[7], .held false 0⟩ (.take (.tryPop 5)), Function.update program true []⟩ :
      Joint (State Bool Nat) _) (some (.act false (.commit (.tryPop 5) (.tried true 7)))) := fun _ _ _ _ => by simp [State.with]
  have onward : ((handLocked program).within Finds).Reaches _ _ := reached.tail ⟨finds, step⟩
  have after : (handLocked program).Run ⟨_, Function.update program true []⟩ _
      ⟨⟨⟨[], .free⟩, base⟩, Function.update (Function.update program true []) false []⟩ :=
    (Step.run (.silent unlocked)).trans (Step.run (.ret left rfl))
  have ended := onward.then (after.within (fun _ _ _ _ wrong => by cases wrong) (by simp [Finds]))
  refine ⟨_, _, _, _, reached, by simp, step, ((released_while_found reached).2 _ _ step).mpr finds, after,
    (released_while_found ended).1, rfl, ?_⟩
  funext thread
  cases thread <;> rfl

end CppRt.ActiveObject.ThreadSafeQueue

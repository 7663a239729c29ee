import CppRt.ThreadPool.QueueServing

/-!
The recursive queue when copying an item may throw. The exception leaves through the
lock_guard, whose destructor unlocks, so an operation left by an exception has let go of
the mutex and has neither put an item in nor taken one out. The lock_guard of a pop that
waits stays alive while pthread_cond_wait has given the mutex away.
-/

namespace CppRt.ThreadPool.ThreadSafeQueue
open Library Concurrent Family Monitor Queue Transition

variable {Thread Item : Type*}

def Caller.guards : Caller Item → Nat
  | .client => 0
  | .within _ => 1

/-- The lock_guard objects alive in the frames of a thread at this position. -/
def Pc.guards : Pc Item → Nat
  | .outside => 0
  | .popLock => 0
  | .tryLock _ => 0
  | .emptyLock caller => caller.guards
  | .emptyTest caller => caller.guards + 1
  | .emptyUnlock caller _ => caller.guards + 1
  | .condWait _ => 1
  | .asleep => 1
  | .woken => 1
  | .take _ => 1
  | .unlock _ => 1
  | .pushLock _ => 0
  | .pushEnqueue _ => 1
  | .pushUnlock => 1
  | .pushSignal => 0
  | .returning _ => 0

def Pc.Waits (pc : Pc Item) : Prop := pc = .asleep ∨ pc = .woken

theorem Pc.depth_guards (pc : Pc Item) : pc.depth = pc.guards ∨ pc.Waits ∧ pc.depth = 0 := by
  cases pc with
  | asleep => exact .inr ⟨.inl rfl, rfl⟩
  | woken => exact .inr ⟨.inr rfl, rfl⟩
  | emptyLock caller | emptyTest caller | emptyUnlock caller => cases caller <;> exact .inl rfl
  | _ => exact .inl rfl

/-- A step of the atomic queue whose operations may be given up with an exception, or none. -/
inductive MayThrow [DecidableEq Thread] (state : Atomic Thread (List Item) (Call Item) (Ret Item))
    (thread : Thread) : Option (Action (Call Item) (Ret Item)) →
      Atomic Thread (List Item) (Call Item) (Ret Item) → Prop where
  | atomic {action : Option (Action (Call Item) (Ret Item))}
      {next : Atomic Thread (List Item) (Call Item) (Ret Item)}
      (step : AtomicStep fifo state thread action next) : MayThrow state thread action next
  | nothing : MayThrow state thread none state
  | threw {call : Call Item} (pending : state.status thread = .pending call) :
      MayThrow state thread none ⟨state.contents, Function.update state.status thread (.done .threw)⟩

def Accounts (settled : List (Call Item × Ret Item)) : Status (Call Item) (Ret Item) → Prop
  | .idle => True
  | .pending _ => settled = []
  | .done .threw => settled = []
  | .done ret => ∃ call, settled = [(call, ret)]

theorem accounts_done {q later : List Item} {call : Call Item} {ret : Ret Item}
    (applied : apply q call = some (later, ret)) : Accounts [(call, ret)] (.done ret) := by
  cases ret with
  | threw => cases call <;> cases q <;> simp [apply] at applied
  | _ => exact ⟨call, rfl⟩

section Atomic
variable [DecidableEq Thread] {state next : Atomic Thread (List Item) (Call Item) (Ret Item)} {thread : Thread}
variable {action : Option (Action (Call Item) (Ret Item))}
variable {trace : List (Label Thread (Call Item) (Ret Item) Empty)}

theorem MayThrow.history (step : MayThrow state thread action next)
    (history : fifo.History ((commits trace).map Prod.snd) state.contents) :
    fifo.History ((commits (trace ++ (action.map (Label.act thread)).toList)).map Prod.snd) next.contents := by
  cases step with
  | nothing | threw => simpa using history
  | atomic step =>
    cases step with
    | call | ret => simpa using history
    | commit pending applied => simpa using history.snoc applied

theorem MayThrow.contents (step : MayThrow state thread action next)
    (changed : next.contents ≠ state.contents) : ∃ call ret, action = some (.commit call ret) := by
  cases step with
  | nothing | threw => exact absurd rfl changed
  | atomic step =>
    cases step with
    | call | ret => exact absurd rfl changed
    | commit => exact ⟨_, _, rfl⟩

theorem MayThrow.accounts (step : MayThrow state thread action next)
    (accounts : ∀ thread, Accounts (sinceCall thread trace) (state.status thread)) (other : Thread) :
    Accounts (sinceCall other (trace ++ (action.map (Label.act thread)).toList)) (next.status other) := by
  by_cases same : other = thread
  · subst same
    have before := accounts other
    cases step with
    | nothing => simpa using before
    | threw pending =>
      rw [pending] at before
      have nothing : sinceCall other trace = [] := before
      simp [nothing, Accounts]
    | atomic step =>
      cases step with
      | call => simp [Label.settles, Accounts]
      | ret => simp [Accounts]
      | @commit call ret later pending applied =>
        rw [pending] at before
        have nothing : sinceCall other trace = [] := before
        simpa [Label.settles, nothing] using accounts_done applied
  · have kept : sinceCall other (trace ++ (action.map (Label.act thread)).toList) = sinceCall other trace := by
      cases action with
      | none => simp
      | some action =>
        have different : (Label.act thread action : Label Thread (Call Item) (Ret Item) Empty).thread ≠ other :=
          Ne.symm same
        simp [settles_other different]
    have status : next.status other = state.status other := by
      cases step with
      | nothing => rfl
      | threw => exact Function.update_of_ne same _ _
      | atomic step => cases step <;> exact Function.update_of_ne same _ _
    rw [kept, status]
    exact accounts other

theorem MayThrow.finished {ret : Ret Item} (step : MayThrow state thread (some (.ret ret)) next) :
    state.status thread = .done ret := by
  cases step with
  | atomic step => exact step.finished

end Atomic

section Step
variable [DecidableEq Thread] {throws : Prop} {thread : Thread} {state next : State Thread Item}
variable {shared later : Shared Thread Item} {pc after : Pc Item}
variable {action : Option (Action (Call Item) (Ret Item))}

def Pc.Copies (pc : Pc Item) : Prop := (∃ taker, pc = .take taker) ∨ ∃ item, pc = .pushEnqueue item

/-- The step by which an exception leaves the critical section. -/
structure Threw (state : State Thread Item) (thread : Thread) (action : Option (Action (Call Item) (Ret Item)))
    (next : State Thread Item) : Prop where
  copies : (state.pc thread).Copies
  silent : action = none
  left : next = ⟨state.shared, Function.update state.pc thread (.unlock .threw)⟩

theorem Local.safe_or_threw (moved : Local throws thread shared pc action later after) :
    Local False thread shared pc action later after ∨
      pc.Copies ∧ action = none ∧ later = shared ∧ after = .unlock .threw := by
  cases moved with
  | @takeThrows taker => exact .inr ⟨.inl ⟨taker, rfl⟩, rfl, rfl, rfl⟩
  | @pushThrows item => exact .inr ⟨.inr ⟨item, rfl⟩, rfl, rfl, rfl⟩
  | popLock locked => exact .inl (.popLock locked)
  | tryLock locked => exact .inl (.tryLock locked)
  | emptyLock locked => exact .inl (.emptyLock locked)
  | emptyTest => exact .inl .emptyTest
  | emptyUnlock unlocked => exact .inl (.emptyUnlock unlocked)
  | condWait unlocked => exact .inl (.condWait unlocked)
  | relock locked => exact .inl (.relock locked)
  | take shape => exact .inl (.take shape)
  | takeEmpty shape => exact .inl (.takeEmpty shape)
  | unlock unlocked => exact .inl (.unlock unlocked)
  | pushLock locked => exact .inl (.pushLock locked)
  | pushEnqueue => exact .inl .pushEnqueue
  | pushUnlock unlocked => exact .inl (.pushUnlock unlocked)

theorem safe_or_threw (step : (monitor throws).Step state thread action next) :
    (monitor False).Step state thread action next ∨ Threw state thread action next := by
  cases step with
  | call outside => exact .inl (.call outside)
  | signal signals signal => exact .inl (.signal signals signal)
  | ret returns => exact .inl (.ret returns)
  | inside moved =>
    rcases moved.safe_or_threw with safe | ⟨copies, silent, same, left⟩
    · exact .inl (.inside safe)
    · subst same left
      exact .inr ⟨copies, silent, rfl⟩

theorem Local.not_calls (moved : Local throws thread shared pc action later after) (call : Call Item) :
    action ≠ some (.call call) := by
  intro called
  cases moved with
  | @emptyTest caller =>
    generalize shared.q.isEmpty = empty at called
    rcases caller with _ | _ | _ <;> cases empty <;> cases called
  | _ => cases called

theorem sound_safe (sound : (locking throws).Sound state) : (locking False).Sound state :=
  ⟨sound.locks, sound.knows⟩

theorem mayThrow_step (sound : (locking throws).Sound state)
    (step : (monitor throws).Step state thread action next) :
    MayThrow (refinement.abs state) thread action (refinement.abs next) := by
  rcases safe_or_threw step with safe | threw
  · rcases refinement.abs_step (sound_safe sound) safe with atomic | ⟨silent, same⟩
    · exact .atomic atomic
    · rw [silent, same]
      exact .nothing
  · obtain ⟨copies, silent, left⟩ := threw
    have pending : ∃ call, (refinement.abs state).status thread = .pending call := by
      change ∃ call, (state.pc thread).status = .pending call
      rcases copies with ⟨taker, takes⟩ | ⟨item, pushes⟩
      · exact ⟨taker.call, by rw [takes]; rfl⟩
      · exact ⟨.push item, by rw [pushes]; rfl⟩
    obtain ⟨call, pending⟩ := pending
    rw [silent, left]
    simp only [Refinement.abs, Function.comp_update]
    exact .threw pending

theorem Caller.resume_guards (caller : Caller Item) (empty : Bool) :
    (caller.resume empty).guards = caller.guards := by
  rcases caller with _ | _ | _ <;> cases empty <;> rfl

/-- A lock_guard is made by a lock and goes with an unlock; only the wait gives the mutex away
and takes it back behind a lock_guard that stays. -/
theorem Local.guards (moved : Local throws thread shared pc action later after) :
    (shared.mtx.lockRecursive thread = some later.mtx ∧ after.guards = pc.guards + 1) ∨
    (shared.mtx.unlock thread = some later.mtx ∧ pc.guards = after.guards + 1) ∨
    after.guards = pc.guards ∧ (later.mtx = shared.mtx ∨ after = .asleep ∨ pc = .woken) := by
  cases moved with
  | popLock locked | tryLock locked | emptyLock locked | pushLock locked => exact .inl ⟨locked, rfl⟩
  | emptyUnlock unlocked => exact .inr (.inl ⟨unlocked, by rw [Caller.resume_guards]; rfl⟩)
  | unlock unlocked | pushUnlock unlocked => exact .inr (.inl ⟨unlocked, rfl⟩)
  | condWait => exact .inr (.inr ⟨rfl, .inr (.inl rfl)⟩)
  | relock => exact .inr (.inr ⟨rfl, .inr (.inr rfl)⟩)
  | emptyTest | take | takeEmpty | takeThrows | pushEnqueue | pushThrows => exact .inr (.inr ⟨rfl, .inl rfl⟩)

theorem Local.of_condWait {woken : Bool}
    (moved : Local throws thread shared (.condWait woken) action later after)
    (once : shared.mtx.depth thread = 1) : after = .asleep ∧ later.mtx = .free := by
  cases moved with
  | @condWait _ mtx unlocked =>
    refine ⟨rfl, Mutex.free_of_depth fun other => ?_⟩
    obtain ⟨own, others⟩ := Mutex.depth_unlock unlocked
    change mtx.depth other = 0
    by_cases same : other = thread
    · subst same
      omega
    · rw [others other same]
      by_contra also
      exact same (Mutex.exclusive (Nat.pos_of_ne_zero also) (once ▸ Nat.one_pos))

end Step

def throwing [DecidableEq Thread] (program : Thread → List (Call Item)) :
    System (Joint (State Thread Item) (Thread → List (Call Item)))
      (Label Thread (Call Item) (Ret Item) Empty) :=
  compose (machine True) (programs id program)

variable [DecidableEq Thread] {program : Thread → List (Call Item)}
variable {trace : List (Label Thread (Call Item) (Ret Item) Empty)}
variable {label : Option (Label Thread (Call Item) (Ret Item) Empty)}
variable {state next : Joint (State Thread Item) (Thread → List (Call Item))}

/-- The discipline of the lock, and what an exception leaves behind, at a moment of a run. -/
structure Disciplined (program : Thread → List (Call Item))
    (trace : List (Label Thread (Call Item) (Ret Item) Empty))
    (state : Joint (State Thread Item) (Thread → List (Call Item))) : Prop where
  owner : ∀ thread, 0 < state.object.shared.mtx.depth thread →
    state.object.shared.mtx.depth thread = (state.object.pc thread).guards
  guarded : ∀ thread, 0 < (state.object.pc thread).guards →
    0 < state.object.shared.mtx.depth thread ∨ (state.object.pc thread).Waits
  waits : ∀ thread woken, state.object.pc thread = .condWait woken →
    state.object.shared.mtx.depth thread = 1 ∧
    ∀ action next, (machine True).step state.object thread action next →
      next.pc thread = .asleep ∧ next.shared.mtx = .free
  exits : ∀ thread, (state.object.pc thread = .outside ∨ ∃ ret, state.object.pc thread = .returning ret) →
    state.object.shared.mtx.depth thread = 0
  conserves : (taken trace).map Prod.snd ++ state.object.shared.q = (enqueued trace).map Prod.snd
  changes : ∀ label next, (throwing program).step state label next →
    next.object.shared.q ≠ state.object.shared.q →
    ∃ thread call ret, label = some (.act thread (.commit call ret))
  threw : ∀ thread, Throughout (fun before label => label = .act thread (.ret .threw) →
    sinceCall thread before = []) trace

theorem throwing_sound (sound : (locking True).Sound state.object)
    (step : (throwing program).step state label next) : (locking True).Sound next.object := by
  rcases programs_cases step with ⟨thread, action, -, step⟩ | ⟨-, woken⟩
  · exact sound.step (fun _ _ => trivial) step
  · exact sound.wake woken

theorem throwing_mayThrow (sound : (locking True).Sound state.object)
    (step : (throwing program).step state label next) :
    (∃ thread action, label = action.map (Label.act thread) ∧
      MayThrow (refinement.abs state.object) thread action (refinement.abs next.object)) ∨
    label = none ∧ refinement.abs next.object = refinement.abs state.object := by
  rcases programs_cases step with ⟨thread, action, shown, step⟩ | ⟨silent, woken⟩
  · exact .inl ⟨thread, action, shown, mayThrow_step sound step⟩
  · exact .inr ⟨silent, refinement.abs_wake woken⟩

structure Kept (trace : List (Label Thread (Call Item) (Ret Item) Empty))
    (state : Joint (State Thread Item) (Thread → List (Call Item))) : Prop where
  sound : (locking True).Sound state.object
  history : fifo.History ((commits trace).map Prod.snd) (refinement.abs state.object).contents
  accounts : ∀ thread, Accounts (sinceCall thread trace) ((refinement.abs state.object).status thread)
  threw : ∀ thread, Throughout (fun before label => label = .act thread (.ret .threw) →
    sinceCall thread before = []) trace

theorem Kept.step (kept : Kept trace state) (step : (throwing program).step state label next) :
    Kept (trace ++ label.toList) next := by
  have sound := throwing_sound kept.sound step
  rcases throwing_mayThrow kept.sound step with ⟨thread, action, rfl, moved⟩ | ⟨rfl, same⟩
  · refine ⟨sound, moved.history kept.history, moved.accounts kept.accounts, fun other => ?_⟩
    cases action with
    | none => simpa using kept.threw other
    | some action =>
      refine (throughout_snoc _).mpr ⟨kept.threw other, fun exits => ?_⟩
      have returned : thread = other ∧ action = .ret .threw := by simpa using exits
      obtain ⟨rfl, rfl⟩ := returned
      have accounts := kept.accounts thread
      rw [moved.finished] at accounts
      exact accounts
  · refine ⟨sound, ?_, ?_, ?_⟩
    · simpa [same] using kept.history
    · simpa [same] using kept.accounts
    · simpa using kept.threw

theorem kept_of_reaches (reached : (throwing program).Reaches trace state) : Kept trace state := by
  refine reached.invariant Kept ?_ (fun _ _ _ _ _ kept step => kept.step step)
  rintro ⟨_, progress⟩ ⟨rfl, -⟩
  exact ⟨Locking.Sound.start, .nil, fun _ => trivial, fun _ => throughout_nil⟩

/-- Whatever the copies do, the lock is held by exactly the live lock_guards of its owner,
the wait gives it away, every exit lets go of it, and an exception undoes its operation. -/
theorem disciplined (reached : (throwing program).Reaches trace state) : Disciplined program trace state := by
  have kept := kept_of_reaches reached
  have locks (thread : Thread) : (state.object.pc thread).depth = state.object.shared.mtx.depth thread :=
    kept.sound.locks thread
  constructor
  case owner =>
    intro thread holds
    rw [← locks thread] at holds ⊢
    rcases (state.object.pc thread).depth_guards with same | ⟨-, released⟩
    · exact same
    · omega
  case guarded =>
    intro thread alive
    rw [← locks thread]
    rcases (state.object.pc thread).depth_guards with same | ⟨waits, -⟩
    · exact .inl (same ▸ alive)
    · exact .inr waits
  case waits =>
    intro thread woken at_
    have once : state.object.shared.mtx.depth thread = 1 := by
      rw [← locks thread, at_]
      rfl
    refine ⟨once, fun action next step => ?_⟩
    cases step with
    | inside moved =>
      rw [at_] at moved
      obtain ⟨asleep, free⟩ := moved.of_condWait once
      exact ⟨(Function.update_self _ _ _).trans asleep, free⟩
    | call outside => cases at_.symm.trans outside
    | signal signals => cases at_.symm.trans signals
    | ret returns => cases at_.symm.trans returns
  case exits =>
    intro thread exits
    rw [← locks thread]
    rcases exits with outside | ⟨ret, returns⟩
    · rw [outside]
      rfl
    · rw [returns]
      rfl
  case conserves => exact taken_append_contents kept.history
  case changes =>
    intro label next step changed
    rcases throwing_mayThrow kept.sound step with ⟨thread, action, rfl, moved⟩ | ⟨rfl, same⟩
    · obtain ⟨call, ret, rfl⟩ := moved.contents changed
      exact ⟨thread, call, ret, rfl⟩
    · exact absurd (congrArg Atomic.contents same) changed
  case threw => exact kept.threw

theorem disciplined_push_throws : ∃ trace state, (throwing fun _ : Unit => [Call.push 7]).Reaches trace state ∧
    .act () (.ret .threw) ∈ trace ∧ Disciplined (fun _ : Unit => [Call.push 7]) trace state := by
  let base : Unit → Pc Nat := fun _ => .outside
  have leaves : (machine True).Quietly () (.with base () ⟨[], .free⟩ (.pushLock 7))
      (.with base () ⟨[], .free⟩ (.returning .threw)) :=
    .head (inside_alone (.pushLock rfl)) (.head (inside_alone (.pushThrows trivial))
      (.head (inside_alone (.unlock (Mutex.unlock_held ()))) .refl))
  have called : (monitor True).object.step ⟨⟨[], .free⟩, base⟩ () (some (.call (.push 7)))
      (.with base () ⟨[], .free⟩ (.pushLock 7)) := call_alone (Call.push 7) rfl
  have left : (monitor True).object.step (.with base () ⟨[], .free⟩ (.returning .threw)) () (some (.ret .threw))
      ⟨⟨[], .free⟩, base⟩ := ret_alone Ret.threw rfl
  have reached : (throwing fun _ : Unit => [Call.push 7]).Reaches _ ⟨_, _⟩ :=
    ⟨⟨_, fun _ => [.push 7]⟩, ⟨rfl, rfl⟩,
      (Step.run (.call rfl called)).trans (leaves.run.trans (Step.run (.ret left rfl)))⟩
  exact ⟨_, _, reached, by simp, disciplined reached⟩

end CppRt.ThreadPool.ThreadSafeQueue

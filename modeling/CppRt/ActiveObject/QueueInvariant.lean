import CppRt.ActiveObject.ThreadSafeQueue

/-!
The invariants of the hand-locked queue among threads that push and pop, and its
refinement of the atomic queue. try_pop is off the menu: the mutex it keeps when it
fails would leave a thread outside that still holds it.
-/

namespace CppRt.ActiveObject.ThreadSafeQueue
open Library Concurrent Queue

variable {Thread Item : Type*}

def Balanced : Call Item → Prop
  | .tryPop _ => False
  | _ => True

def Pc.depth : Pc Item → Nat
  | .popTest _ => 1
  | .condWait _ => 1
  | .tryTest _ => 1
  | .take _ => 1
  | .unlock _ => 1
  | .pushEnqueue _ => 1
  | .pushSignal => 1
  | .pushUnlock => 1
  | _ => 0

/-- What a thread knows about the queue, and that it is not in a try_pop. -/
def Knows (q : List Item) : Pc Item → Prop
  | .condWait _ => q = []
  | .take (.pop _) => q ≠ []
  | .take (.tryPop _) => False
  | .tryLock _ => False
  | .tryTest _ => False
  | _ => True

def Pc.signalling : Pc Item → Bool
  | .pushSignal => true
  | _ => false

def Pc.awakened : Pc Item → Bool
  | .woken => true
  | .popTest again => again
  | .condWait again => again
  | .take (.pop again) => again
  | _ => false

def Pc.status : Pc Item → Status (Call Item) (Ret Item)
  | .outside => .idle
  | .popLock => .pending .pop
  | .popTest _ => .pending .pop
  | .condWait _ => .pending .pop
  | .asleep => .pending .pop
  | .woken => .pending .pop
  | .tryLock item => .pending (.tryPop item)
  | .tryTest item => .pending (.tryPop item)
  | .take taker => .pending taker.call
  | .unlock ret => .done ret
  | .pushLock item => .pending (.push item)
  | .pushEnqueue item => .pending (.push item)
  | .pushSignal => .done .pushed
  | .pushUnlock => .done .pushed
  | .emptyTest => .pending .isEmpty
  | .returning ret => .done ret

variable [DecidableEq Thread] {thread : Thread} {shared later : Shared Thread Item}
variable {pc after : Pc Item} {action : Option (Action (Call Item) (Ret Item))}

/-- What a try_pop that finds nothing returns without the unlock. -/
def Fails (action : Option (Action (Call Item) (Ret Item))) : Prop :=
  ∃ item, action = some (.commit (.tryPop item) (.tried false item))

theorem Local.depth (moved : Local thread shared pc action later after) (served : ¬Fails action)
    (locks : pc.depth = shared.mtx.depth thread) :
    after.depth = later.mtx.depth thread ∧
      ∀ other, other ≠ thread → later.mtx.depth other = shared.mtx.depth other := by
  cases moved with
  | popLock locked | relock locked | tryLock locked | pushLock locked =>
    obtain ⟨own, others⟩ := Mutex.depth_lockPlain locked
    exact ⟨by simp only [Pc.depth] at locks ⊢; omega, others⟩
  | condWait unlocked | unlock unlocked | pushUnlock unlocked =>
    obtain ⟨own, others⟩ := Mutex.depth_unlock unlocked
    exact ⟨by simp only [Pc.depth] at locks ⊢; omega, others⟩
  | popTest =>
    refine ⟨?_, fun _ _ => rfl⟩
    split <;> exact locks
  | @tryFails item => exact absurd ⟨item, rfl⟩ served
  | tryTest | take | takeEmpty | pushEnqueue | emptyTest => exact ⟨locks, fun _ _ => rfl⟩

theorem Local.not_fails (moved : Local thread shared pc action later after) (knows : Knows shared.q pc) :
    ¬Fails action := by
  rintro ⟨item, fails⟩
  cases moved with
  | tryFails => exact knows.elim
  | @take taker => cases taker <;> cases fails
  | _ => cases fails

theorem Local.knows (moved : Local thread shared pc action later after) (knows : Knows shared.q pc) :
    Knows later.q after := by
  cases moved with
  | popTest =>
    split
    · exact List.isEmpty_iff.mp (by assumption)
    · intro empty
      simp [empty] at *
  | tryLock | tryTest => exact knows.elim
  | takeEmpty => exact knows
  | _ => trivial

/-- Only a thread that holds the mutex changes the queue, and what others know outside
the mutex does not depend on it. -/
theorem Local.frame {other : Pc Item} (moved : Local thread shared pc action later after)
    (apart : 0 < pc.depth → other.depth = 0) (knows : Knows shared.q other) : Knows later.q other := by
  have same : later.q = shared.q ∨ 0 < pc.depth := by
    cases moved with
    | take | pushEnqueue => exact .inr Nat.one_pos
    | _ => exact .inl rfl
  rcases same with kept | holds
  · rw [kept]
    exact knows
  · have free := apart holds
    cases other <;> simp_all [Pc.depth, Knows]

theorem Local.owed (moved : Local thread shared pc action later after) (knows : Knows shared.q pc) :
    later.q = [] ∨ after ≠ .asleep ∧
      later.q.length + pc.signalling.toNat + pc.awakened.toNat ≤
        shared.q.length + after.signalling.toNat + after.awakened.toNat := by
  cases moved with
  | condWait => exact .inl knows
  | popTest =>
    right
    split <;> simp [Pc.awakened, Pc.signalling]
  | @take taker front rest shape =>
    right
    rcases taker with woken | item
    · have := woken.toNat_le
      simp only [shape, Pc.awakened, Pc.signalling, List.length_cons, Bool.toNat_false]
      refine ⟨by simp, ?_⟩
      omega
    · exact knows.elim
  | _ =>
    right
    simp [Pc.awakened, Pc.signalling]

theorem Local.refines (moved : Local thread shared pc action later after) (knows : Knows shared.q pc) :
    action = none ∧ later.q = shared.q ∧ after.status = pc.status ∨
      ∃ call ret, action = some (.commit call ret) ∧ pc.status = .pending call ∧
        apply shared.q call = some (later.q, ret) ∧ after.status = .done ret := by
  cases moved with
  | popTest =>
    refine .inl ⟨rfl, rfl, ?_⟩
    split <;> rfl
  | tryFails | tryTest => exact knows.elim
  | @take taker front rest shape =>
    right
    refine ⟨taker.call, taker.answer front, rfl, rfl, ?_, rfl⟩
    rw [shape]
    cases taker <;> rfl
  | @takeEmpty taker shape =>
    cases taker with
    | pop => exact absurd shape knows
    | tryPop => exact knows.elim
  | @pushEnqueue item => exact .inr ⟨.push item, .pushed, rfl, rfl, by cases shared.q <;> rfl, rfl⟩
  | emptyTest => exact .inr ⟨.isEmpty, _, rfl, rfl, by cases shared.q <;> rfl, rfl⟩
  | _ => exact .inl ⟨rfl, rfl, rfl⟩

theorem Local.enabled (outside : pc ≠ .outside) (asleep : pc ≠ .asleep)
    (signals : pc ≠ .pushSignal) (returns : ∀ ret, pc ≠ .returning ret)
    (locks : pc.depth = shared.mtx.depth thread)
    (free : ∀ other, other ≠ thread → shared.mtx.depth other = 0) :
    ∃ action later after, Local thread shared pc action later after := by
  have canLock (calm : pc.depth = 0) : ∃ mtx, shared.mtx.lockPlain thread = some mtx := by
    refine Mutex.lockPlain_enabled (fun other => ?_) thread
    by_cases same : other = thread
    · rw [same, ← locks, calm]
    · exact free other same
  have canUnlock (deep : 0 < pc.depth) : ∃ mtx, shared.mtx.unlock thread = some mtx :=
    Mutex.unlock_enabled (locks ▸ deep)
  cases pc with
  | outside => exact absurd rfl outside
  | asleep => exact absurd rfl asleep
  | pushSignal => exact absurd rfl signals
  | returning ret => exact absurd rfl (returns ret)
  | popTest => exact ⟨_, _, _, .popTest⟩
  | pushEnqueue => exact ⟨_, _, _, .pushEnqueue⟩
  | emptyTest => exact ⟨_, _, _, .emptyTest⟩
  | popLock =>
    obtain ⟨mtx, locked⟩ := canLock rfl
    exact ⟨_, _, _, .popLock locked⟩
  | woken =>
    obtain ⟨mtx, locked⟩ := canLock rfl
    exact ⟨_, _, _, .relock locked⟩
  | tryLock =>
    obtain ⟨mtx, locked⟩ := canLock rfl
    exact ⟨_, _, _, .tryLock locked⟩
  | pushLock =>
    obtain ⟨mtx, locked⟩ := canLock rfl
    exact ⟨_, _, _, .pushLock locked⟩
  | condWait =>
    obtain ⟨mtx, unlocked⟩ := canUnlock Nat.one_pos
    exact ⟨_, _, _, .condWait unlocked⟩
  | unlock =>
    obtain ⟨mtx, unlocked⟩ := canUnlock Nat.one_pos
    exact ⟨_, _, _, .unlock unlocked⟩
  | pushUnlock =>
    obtain ⟨mtx, unlocked⟩ := canUnlock Nat.one_pos
    exact ⟨_, _, _, .pushUnlock unlocked⟩
  | tryTest =>
    by_cases shape : shared.q = []
    · exact ⟨_, _, _, .tryFails shape⟩
    · exact ⟨_, _, _, .tryTest shape⟩
  | take taker =>
    cases shape : shared.q with
    | nil => exact ⟨_, _, _, .takeEmpty shape⟩
    | cons front rest => exact ⟨_, _, _, .take shape⟩

def locking : (monitor : Monitor Thread (Shared Thread Item) _ _ _).Locking Balanced where
  mutex shared := shared.mtx
  depth := Pc.depth
  Knows shared := Knows shared.q
  free_initial := rfl
  depth_outside := rfl
  depth_entry call := by cases call <;> rfl
  depth_returning _ := rfl
  depth_asleep := rfl
  depth_woken := rfl
  depth_signals := rfl
  depth_moves moved knows := moved.depth (moved.not_fails knows)
  knows_outside _ := trivial
  knows_entry _ call balanced := by cases call <;> exact balanced
  knows_woken _ := trivial
  knows_signalled _ := trivial
  knows_moves moved := moved.knows
  knows_frame moved := moved.frame

def accounting : (monitor : Monitor Thread (Shared Thread Item) _ _ _).Accounting locking where
  size shared := shared.q.length
  signalling := Pc.signalling
  awakened := Pc.awakened
  outside_calm := ⟨rfl, rfl⟩
  entry_calm call := by cases call <;> exact ⟨rfl, rfl, by simp [monitor, entry]⟩
  asleep_calm := ⟨rfl, rfl⟩
  woken_counts := ⟨rfl, rfl⟩
  signals_counts := ⟨rfl, rfl, by simp [monitor]⟩
  signalled_calm := ⟨rfl, rfl, by simp [monitor]⟩
  returning_calm _ := ⟨rfl, rfl⟩
  outside_awake := by simp [monitor]
  moves_owed moved knows := (moved.owed knows).imp_left List.length_eq_zero_iff.mpr

def refinement : (monitor : Monitor Thread (Shared Thread Item) _ _ _).Refinement accounting fifo where
  contents shared := shared.q
  status := Pc.status
  contents_initial := rfl
  status_idle {pc} := by cases pc <;> simp [Pc.status, monitor]
  status_entry call := by cases call <;> rfl
  status_returning _ := rfl
  status_woken := rfl
  status_signalled := rfl
  moves_refine moved knows := moved.refines knows
  moves_enabled _ outside asleep signals returns locks free :=
    Local.enabled outside asleep signals returns locks free
  starved {shared} empty := ⟨.pop, rfl, by
    rw [show shared.q = [] from List.length_eq_zero_iff.mp empty]
    rfl⟩

section Linear
variable [Fintype Thread]

def linearization : Linearization (machine : Object Thread (State Thread Item) _ _) fifo :=
  refinement.linearization

theorem live : (linearization : Linearization (machine : Object Thread (State Thread Item) _ _) fifo).Live :=
  refinement.live

end Linear

end CppRt.ActiveObject.ThreadSafeQueue

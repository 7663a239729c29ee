import CppRt.ThreadPool.QueueInvariant

/-!
The recursive queue refines the atomic queue: an insertion takes effect when it
enqueues, a removal when it takes the front item, and a try_pop that fails and an
is_empty when they test. It also strands no thread. A thread inside the critical
section can always step, so when nobody can, the mutex is free and every thread is
outside or asleep; and then the invariant on wake-ups leaves no item to wait for.
-/

namespace CppRt.ThreadPool.ThreadSafeQueue
open Library Concurrent Queue

variable {Thread Item : Type*}

def Caller.call : Caller Item → Call Item
  | .client => .isEmpty
  | .within taker => taker.call

/-- Where the operation stands once its emptiness test has been made. -/
def Caller.settled : Caller Item → Bool → Status (Call Item) (Ret Item)
  | .client, empty => .done (.emptiness empty)
  | .within (.tryPop item), true => .done (.tried false item)
  | .within taker, _ => .pending taker.call

def Pc.status : Pc Item → Status (Call Item) (Ret Item)
  | .outside => .idle
  | .popLock => .pending .pop
  | .tryLock item => .pending (.tryPop item)
  | .emptyLock caller => .pending caller.call
  | .emptyTest caller => .pending caller.call
  | .emptyUnlock caller empty => caller.settled empty
  | .condWait _ => .pending .pop
  | .asleep => .pending .pop
  | .woken => .pending .pop
  | .take taker => .pending taker.call
  | .unlock ret => .done ret
  | .pushLock item => .pending (.push item)
  | .pushEnqueue item => .pending (.push item)
  | .pushUnlock => .done .pushed
  | .pushSignal => .done .pushed
  | .returning ret => .done ret

theorem Caller.resume_status (caller : Caller Item) (empty : Bool) :
    (caller.resume empty).status = caller.settled empty := by
  rcases caller with _ | _ | _ <;> cases empty <;> rfl

theorem status_idle {pc : Pc Item} (idle : pc.status = .idle) : pc = .outside := by
  cases pc with
  | outside => rfl
  | emptyUnlock caller empty => rcases caller with _ | _ | _ <;> cases empty <;> cases idle
  | _ => cases idle

section Refine
variable [DecidableEq Thread] {throws : Prop} {thread : Thread} {shared later : Shared Thread Item}
variable {pc after : Pc Item} {action : Option (Action (Call Item) (Ret Item))}

/-- A step inside an operation either is silent or is the one by which it takes effect. -/
theorem Local.refines (safe : ¬throws) (moved : Local throws thread shared pc action later after)
    (knows : Knows shared.q pc) :
    action = none ∧ later.q = shared.q ∧ after.status = pc.status ∨
      ∃ call ret, action = some (.commit call ret) ∧ pc.status = .pending call ∧
        apply shared.q call = some (later.q, ret) ∧ after.status = .done ret := by
  cases moved with
  | takeThrows may | pushThrows may => exact absurd may safe
  | takeEmpty shape => exact absurd shape knows
  | @emptyTest caller =>
    rcases caller with _ | woken | item
    · exact .inr ⟨.isEmpty, _, rfl, rfl, by cases shared.q <;> rfl, rfl⟩
    · exact .inl ⟨rfl, rfl, by cases shared.q <;> rfl⟩
    · cases shape : shared.q with
      | nil => exact .inr ⟨.tryPop item, _, rfl, rfl, rfl, rfl⟩
      | cons front rest => exact .inl ⟨rfl, rfl, rfl⟩
  | emptyUnlock => exact .inl ⟨rfl, rfl, Caller.resume_status _ _⟩
  | @take taker front rest shape =>
    right
    refine ⟨taker.call, taker.answer front, rfl, rfl, ?_, rfl⟩
    rw [shape]
    cases taker <;> rfl
  | @pushEnqueue item => exact .inr ⟨.push item, .pushed, rfl, rfl, by cases shared.q <;> rfl, rfl⟩
  | _ => exact .inl ⟨rfl, rfl, rfl⟩

theorem Local.enabled (throws : Prop) (knows : Knows shared.q pc) (asleep : pc ≠ .asleep)
    (outside : pc ≠ .outside) (signals : pc ≠ .pushSignal) (returns : ∀ ret, pc ≠ .returning ret)
    (locks : pc.depth = shared.mtx.depth thread)
    (free : ∀ other, other ≠ thread → shared.mtx.depth other = 0) :
    ∃ action later after, Local throws thread shared pc action later after := by
  obtain ⟨locked, canLock⟩ := Mutex.lockRecursive_enabled free
  have canUnlock (deep : 0 < pc.depth) : ∃ mtx, shared.mtx.unlock thread = some mtx :=
    Mutex.unlock_enabled (locks ▸ deep)
  cases pc with
  | outside => exact absurd rfl outside
  | asleep => exact absurd rfl asleep
  | pushSignal => exact absurd rfl signals
  | returning ret => exact absurd rfl (returns ret)
  | popLock => exact ⟨_, _, _, .popLock canLock⟩
  | tryLock => exact ⟨_, _, _, .tryLock canLock⟩
  | emptyLock => exact ⟨_, _, _, .emptyLock canLock⟩
  | woken => exact ⟨_, _, _, .relock canLock⟩
  | pushLock => exact ⟨_, _, _, .pushLock canLock⟩
  | emptyTest => exact ⟨_, _, _, .emptyTest⟩
  | pushEnqueue => exact ⟨_, _, _, .pushEnqueue⟩
  | emptyUnlock =>
    obtain ⟨mtx, unlocked⟩ := canUnlock (Nat.succ_pos _)
    exact ⟨_, _, _, .emptyUnlock unlocked⟩
  | condWait =>
    obtain ⟨mtx, unlocked⟩ := canUnlock Nat.one_pos
    exact ⟨_, _, _, .condWait unlocked⟩
  | unlock =>
    obtain ⟨mtx, unlocked⟩ := canUnlock Nat.one_pos
    exact ⟨_, _, _, .unlock unlocked⟩
  | pushUnlock =>
    obtain ⟨mtx, unlocked⟩ := canUnlock Nat.one_pos
    exact ⟨_, _, _, .pushUnlock unlocked⟩
  | take taker =>
    cases shape : shared.q with
    | nil => exact absurd shape knows
    | cons front rest => exact ⟨_, _, _, .take shape⟩

end Refine

def refinement [DecidableEq Thread] :
    (monitor False : Monitor Thread (Shared Thread Item) _ _ _).Refinement accounting fifo where
  contents shared := shared.q
  status := Pc.status
  contents_initial := rfl
  status_idle := ⟨status_idle, fun same => same ▸ rfl⟩
  status_entry call := by cases call <;> rfl
  status_returning _ := rfl
  status_woken := rfl
  status_signalled := rfl
  moves_refine moved knows := moved.refines not_false knows
  moves_enabled knows outside asleep signals returns locks free :=
    Local.enabled False knows asleep outside signals returns locks free
  starved {shared} empty := ⟨.pop, rfl, by
    rw [show shared.q = [] from List.length_eq_zero_iff.mp empty]
    rfl⟩

section Linear
variable [DecidableEq Thread] [Fintype Thread]

def linearization : Linearization (machine False : Object Thread (State Thread Item) _ _) fifo :=
  refinement.linearization

theorem live :
    (linearization : Linearization (machine False : Object Thread (State Thread Item) _ _) fifo).Live :=
  refinement.live

end Linear

end CppRt.ThreadPool.ThreadSafeQueue

import CppRt.ThreadPool.ThreadSafeQueue

/-!
The invariants of the recursive queue. A position determines how often its thread
has locked the mutex and what it knows about the queue's contents; while some
thread sleeps, every queued item is owed to a signal still to be sent or to a
thread already woken. Under them the queue is linearizable and strands nobody.
-/

namespace CppRt.ThreadPool.ThreadSafeQueue
open Library Concurrent Queue

variable {Thread Item : Type*}

def Caller.depth : Caller Item → Nat
  | .client => 0
  | .within _ => 1

def Pc.depth : Pc Item → Nat
  | .emptyLock caller => caller.depth
  | .emptyTest caller => caller.depth + 1
  | .emptyUnlock caller _ => caller.depth + 1
  | .condWait _ => 1
  | .take _ => 1
  | .unlock _ => 1
  | .pushEnqueue _ => 1
  | .pushUnlock => 1
  | _ => 0

/-- What a thread inside its critical section has found out about the queue. -/
def Knows (q : List Item) : Pc Item → Prop
  | .emptyUnlock _ empty => empty = q.isEmpty
  | .condWait _ => q = []
  | .take _ => q ≠ []
  | _ => True

theorem Caller.resume_depth (caller : Caller Item) (empty : Bool) :
    (caller.resume empty).depth = caller.depth := by
  rcases caller with _ | _ | _ <;> cases empty <;> rfl

theorem Caller.resume_knows (caller : Caller Item) (q : List Item) : Knows q (caller.resume q.isEmpty) := by
  rcases caller with _ | _ | _ <;> cases q <;> simp [resume, Knows]

theorem knows_outside {pc : Pc Item} (outside : pc.depth = 0) (q : List Item) : Knows q pc := by
  cases pc <;> simp_all [Pc.depth, Knows]

section Step
variable [DecidableEq Thread] {throws : Prop} {thread : Thread} {shared later : Shared Thread Item}
variable {pc after : Pc Item} {action : Option (Action (Call Item) (Ret Item))}

theorem Local.depth (moved : Local throws thread shared pc action later after)
    (locks : pc.depth = shared.mtx.depth thread) :
    after.depth = later.mtx.depth thread ∧
      ∀ other, other ≠ thread → later.mtx.depth other = shared.mtx.depth other := by
  cases moved with
  | popLock locked | tryLock locked | relock locked | pushLock locked =>
    obtain ⟨own, others⟩ := Mutex.depth_lockRecursive locked
    exact ⟨by simp only [Pc.depth, Caller.depth] at locks ⊢; omega, others⟩
  | emptyLock locked =>
    obtain ⟨own, others⟩ := Mutex.depth_lockRecursive locked
    exact ⟨by simp only [Pc.depth] at locks ⊢; omega, others⟩
  | emptyUnlock unlocked =>
    obtain ⟨own, others⟩ := Mutex.depth_unlock unlocked
    rw [Caller.resume_depth]
    exact ⟨by simp only [Pc.depth] at locks; dsimp only; omega, others⟩
  | condWait unlocked | unlock unlocked | pushUnlock unlocked =>
    obtain ⟨own, others⟩ := Mutex.depth_unlock unlocked
    exact ⟨by simp only [Pc.depth] at locks ⊢; omega, others⟩
  | emptyTest | take | takeEmpty | takeThrows | pushEnqueue | pushThrows => exact ⟨locks, fun _ _ => rfl⟩

theorem Local.contents (moved : Local throws thread shared pc action later after) :
    later.q = shared.q ∨ 0 < pc.depth := by
  cases moved with
  | take | pushEnqueue => exact .inr (by simp [Pc.depth])
  | _ => exact .inl rfl

theorem Local.knows (moved : Local throws thread shared pc action later after)
    (knows : Knows shared.q pc) : Knows later.q after := by
  cases moved with
  | emptyUnlock unlocked =>
    rw [show _ = shared.q.isEmpty from knows]
    exact Caller.resume_knows _ _
  | emptyTest => rfl
  | takeEmpty => exact knows
  | _ => trivial

def locking (throws : Prop) :
    (monitor throws : Monitor Thread (Shared Thread Item) _ _ _).Locking fun _ => True where
  mutex shared := shared.mtx
  depth := Pc.depth
  Knows shared := Knows shared.q
  free_initial := rfl
  depth_outside := rfl
  depth_entry call := by cases call <;> rfl
  depth_returning _ := rfl
  depth_asleep := rfl
  depth_woken := rfl
  depth_signals := rfl
  depth_moves moved _ := moved.depth
  knows_outside _ := trivial
  knows_entry _ call _ := by cases call <;> trivial
  knows_woken _ := trivial
  knows_signalled _ := trivial
  knows_moves moved := moved.knows
  knows_frame moved apart knows := by
    rcases moved.contents with kept | holds
    · rw [kept]
      exact knows
    · exact knows_outside (apart holds) _

end Step

/-- A push that has enqueued and not yet signalled. -/
def Pc.signalling : Pc Item → Bool
  | .pushUnlock => true
  | .pushSignal => true
  | _ => false

def Caller.awakened : Caller Item → Bool
  | .within (.pop again) => again
  | _ => false

/-- A pop that has been woken and has neither taken an item nor gone back to sleep. -/
def Pc.awakened : Pc Item → Bool
  | .woken => true
  | .emptyLock caller => caller.awakened
  | .emptyTest caller => caller.awakened
  | .emptyUnlock caller _ => caller.awakened
  | .condWait again => again
  | .take (.pop again) => again
  | _ => false

theorem Caller.resume_awakened (caller : Caller Item) (empty : Bool) :
    (caller.resume empty).awakened = caller.awakened ∧ (caller.resume empty).signalling = false ∧
      caller.resume empty ≠ .asleep := by
  rcases caller with _ | _ | _ <;> cases empty <;> simp [resume, awakened, Pc.awakened, Pc.signalling]

theorem entry_awakened (call : Call Item) :
    (entry call).awakened = false ∧ (entry call).signalling = false ∧ entry call ≠ .asleep := by
  cases call <;> simp [entry, Caller.awakened, Pc.awakened, Pc.signalling]

section Owed
variable [DecidableEq Thread] {throws : Prop} {thread : Thread}
variable {shared later : Shared Thread Item} {pc after : Pc Item}
variable {action : Option (Action (Call Item) (Ret Item))}

theorem Local.owed (safe : ¬throws) (moved : Local throws thread shared pc action later after)
    (knows : Knows shared.q pc) :
    later.q = [] ∨ after ≠ .asleep ∧
      later.q.length + pc.signalling.toNat + pc.awakened.toNat ≤
        shared.q.length + after.signalling.toNat + after.awakened.toNat := by
  cases moved with
  | takeThrows may | pushThrows may => exact absurd may safe
  | condWait => exact .inl knows
  | @emptyUnlock caller empty mtx unlocked =>
    obtain ⟨same, calm, awake⟩ := caller.resume_awakened empty
    refine .inr ⟨awake, ?_⟩
    rw [same, calm]
    simp [Pc.awakened, Pc.signalling]
  | @take taker front rest shape =>
    right
    rcases taker with woken | item <;> simp [shape, Pc.awakened, Pc.signalling]
    have := woken.toNat_le
    omega
  | pushEnqueue =>
    right
    simp [Pc.awakened, Pc.signalling]
  | _ =>
    right
    simp [Pc.awakened, Pc.signalling, Caller.awakened]

def accounting :
    (monitor False : Monitor Thread (Shared Thread Item) _ _ _).Accounting (locking False) where
  size shared := shared.q.length
  signalling := Pc.signalling
  awakened := Pc.awakened
  outside_calm := ⟨rfl, rfl⟩
  entry_calm call := ⟨(entry_awakened call).2.1, (entry_awakened call).1, (entry_awakened call).2.2⟩
  asleep_calm := ⟨rfl, rfl⟩
  woken_counts := ⟨rfl, rfl⟩
  signals_counts := ⟨rfl, rfl, by simp [monitor]⟩
  signalled_calm := ⟨rfl, rfl, by simp [monitor]⟩
  returning_calm _ := ⟨rfl, rfl⟩
  outside_awake := by simp [monitor]
  moves_owed moved knows := (moved.owed not_false knows).imp_left List.length_eq_zero_iff.mpr

end Owed

end CppRt.ThreadPool.ThreadSafeQueue

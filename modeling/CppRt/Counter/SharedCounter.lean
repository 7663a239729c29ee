import CppRt.Library.Family
import CppRt.Library.ForkJoin
import CppRt.Library.Mutex
import Mathlib.Algebra.Order.BigOperators.Group.Finset

/-!
Threads that add one to a global counter, so many times each. The addition is a read and a
write of its own, between the lock and the unlock of a mutex or of a spinlock: the first
program takes a mutex through a lock_guard and yields before it gives it back, the second is
compiled with either lock. Adding one to the greatest value of the counter's type is
undefined, and so it is for the int that counts the turns.
-/

namespace CppRt.Counter
open Library Transition ForkJoin

/-- The greatest value of the counter's type, whether a thread that waits for the lock spins,
and whether it calls sched_yield after the addition. -/
structure Program where
  greatest : Int
  spins : Bool
  yields : Bool

def pthreadMutexPerf : Program := ⟨2 ^ 63 - 1, false, true⟩
def pthreadSpinlockMutex : Program := ⟨2 ^ 31 - 1, false, false⟩
def pthreadSpinlock : Program := ⟨2 ^ 31 - 1, true, false⟩

inductive Pc where
  | test (i : Nat)
  | lock (i : Nat)
  | read (i : Nat)
  | write (i : Nat) (value : Int)
  | yield (i : Nat)
  | unlock (i : Nat)
  | next (i : Nat)
  | exited
  | overflowed (i : Nat)
  | undefined

inductive Note where
  | tested
  | locked
  | spun
  | read
  | wrote
  | yielded
  | unlocked
  | counted
  | overflowed
  deriving DecidableEq

structure Memory (Thread : Type*) where
  lock : Mutex Thread
  counter : Int

variable {n k : Nat} {program : Program}

def worker (program : Program) (k : Nat) (thread : Fin n) (memory : Memory (Fin n)) :
    Pc → Option (Note × Memory (Fin n) × Pc)
  | .test i => some (.tested, memory, if i < k then .lock i else .exited)
  | .lock i =>
    match memory.lock.lockPlain thread with
    | some lock => some (.locked, { memory with lock }, .read i)
    | none => if program.spins then some (.spun, memory, .lock i) else none
  | .read i => some (.read, memory, .write i memory.counter)
  | .write i value =>
    if value < program.greatest then
      some (.wrote, { memory with counter := value + 1 }, if program.yields then .yield i else .unlock i)
    else some (.overflowed, memory, .undefined)
  | .yield i => some (.yielded, memory, .unlock i)
  | .unlock i => (memory.lock.unlock thread).map fun lock => (.unlocked, { memory with lock }, .next i)
  | .next i =>
    if i < 2 ^ 31 - 1 then some (.counted, memory, .test (i + 1)) else some (.overflowed, memory, .overflowed i)
  | .exited => none
  | .overflowed _ => none
  | .undefined => none

def counting (program : Program) (n k : Nat) : ForkJoin n (Memory (Fin n)) Pc Note where
  memory := ⟨.free, 0⟩
  entry := .test 0
  exited := .exited
  step := worker program k
  merge _ memory := memory

def Pc.holds : Pc → Nat
  | .read _ | .write _ _ | .yield _ | .unlock _ => 1
  | .test _ | .lock _ | .next _ | .exited | .overflowed _ | .undefined => 0

def Pc.written (k : Nat) : Pc → Nat
  | .test i | .lock i | .read i | .write i _ => i
  | .yield i | .unlock i | .next i | .overflowed i => i + 1
  | .exited => k
  | .undefined => 0

def Pc.Within (k : Nat) : Pc → Prop
  | .test i => i ≤ k
  | .lock i | .read i | .write i _ | .yield i | .unlock i | .next i | .overflowed i => i < k
  | .exited => True
  | .undefined => False

def holds (position : Option Pc) : Nat := position.elim 0 Pc.holds
def written (k : Nat) (position : Option Pc) : Nat := position.elim 0 (Pc.written k)

def Event.writes : Event n Note → Bool
  | .act _ .wrote => true
  | _ => false

def Adding (position : Option Pc) : Prop := ∃ i value, position = some (.write i value)

structure NoLostUpdate (program : Program) (n k : Nat) : Prop where
  exclusive : ∀ trace state, (counting program n k).system.Reaches trace state →
    ∀ thread other, Adding (state.pc thread) → Adding (state.pc other) → thread = other
  counts : ∀ trace state, (counting program n k).system.Reaches trace state →
    state.memory.counter = trace.countP Event.writes
  total : ∀ trace state, (counting program n k).system.Reaches trace state → state.main = .joined →
    state.memory.counter = n * k

/-- What a step of a thread does, from its own position. -/
structure Effect (k : Nat) (thread : Fin n) (memory : Memory (Fin n)) (pc : Pc) (note : Note)
    (later : Memory (Fin n)) (after : Pc) : Prop where
  own : later.lock.depth thread = after.holds
  others : ∀ other, other ≠ thread → later.lock.depth other = memory.lock.depth other
  counter : later.counter = memory.counter + if note = .wrote then 1 else 0
  written : after.written k = pc.written k + if note = .wrote then 1 else 0
  inside : note = .wrote → pc.holds = 1
  seen : ∀ i value, after = .write i value → value = later.counter
  within : after.Within k

section Worker
variable {thread : Fin n} {memory later : Memory (Fin n)} {pc after : Pc} {note : Note}

theorem Effect.quiet (silent : note ≠ .wrote) (own : later.lock.depth thread = after.holds)
    (others : ∀ other, other ≠ thread → later.lock.depth other = memory.lock.depth other)
    (same : later.counter = memory.counter) (kept : after.written k = pc.written k) (within : after.Within k)
    (unread : ∀ i value, after ≠ .write i value) : Effect k thread memory pc note later after where
  own := own
  others := others
  counter := by rw [if_neg silent, same, Int.add_zero]
  written := by rw [if_neg silent, kept, Nat.add_zero]
  inside := fun wrong => absurd wrong silent
  seen := fun i value wrong => absurd wrong (unread i value)
  within := within

theorem worker_effect (locks : memory.lock.depth thread = pc.holds) (within : pc.Within k)
    (seen : ∀ i value, pc = .write i value → value = memory.counter ∧ value < program.greatest)
    (stepped : worker program k thread memory pc = some (note, later, after)) :
    Effect k thread memory pc note later after := by
  cases pc with
  | test i =>
    cases stepped
    by_cases less : i < k
    · rw [if_pos less]
      exact .quiet (by decide) locks (fun _ _ => rfl) rfl rfl less (fun _ _ wrong => by cases wrong)
    · have last : k = i := Nat.le_antisymm (Nat.le_of_not_lt less) within
      rw [if_neg less]
      exact .quiet (by decide) locks (fun _ _ => rfl) rfl last trivial (fun _ _ wrong => by cases wrong)
  | lock i =>
    unfold worker at stepped
    cases locked : memory.lock.lockPlain thread with
    | some lock =>
      simp only [locked] at stepped
      cases stepped
      obtain ⟨own, others⟩ := Mutex.depth_lockPlain locked
      rw [locks] at own
      exact .quiet (by decide) own others rfl rfl within (fun _ _ wrong => by cases wrong)
    | none =>
      simp only [locked] at stepped
      by_cases spins : program.spins = true
      · rw [if_pos spins] at stepped
        cases stepped
        exact .quiet (by decide) locks (fun _ _ => rfl) rfl rfl within (fun _ _ wrong => by cases wrong)
      · rw [if_neg spins] at stepped
        cases stepped
  | read i =>
    cases stepped
    refine ⟨locks, fun _ _ => rfl, (Int.add_zero _).symm, rfl, (fun wrong => by cases wrong), ?_, within⟩
    intro j value same
    cases same
    rfl
  | write i value =>
    obtain ⟨same, room⟩ := seen i value rfl
    simp only [worker, if_pos room] at stepped
    cases stepped
    subst same
    cases program.yields with
    | true => exact ⟨locks, fun _ _ => rfl, rfl, rfl, fun _ => rfl, (fun _ _ wrong => by cases wrong), within⟩
    | false => exact ⟨locks, fun _ _ => rfl, rfl, rfl, fun _ => rfl, (fun _ _ wrong => by cases wrong), within⟩
  | yield i =>
    cases stepped
    exact .quiet (by decide) locks (fun _ _ => rfl) rfl rfl within (fun _ _ wrong => by cases wrong)
  | unlock i =>
    obtain ⟨lock, unlocked, same⟩ := Option.map_eq_some_iff.mp stepped
    cases same
    obtain ⟨own, others⟩ := Mutex.depth_unlock unlocked
    rw [locks] at own
    exact .quiet (by decide) (Nat.succ.inj own).symm others rfl rfl within (fun _ _ wrong => by cases wrong)
  | next i =>
    by_cases less : i < 2 ^ 31 - 1
    · simp only [worker, if_pos less] at stepped
      cases stepped
      exact .quiet (by decide) locks (fun _ _ => rfl) rfl rfl within (fun _ _ wrong => by cases wrong)
    · simp only [worker, if_neg less] at stepped
      cases stepped
      exact .quiet (by decide) locks (fun _ _ => rfl) rfl rfl within (fun _ _ wrong => by cases wrong)
  | exited | overflowed | undefined => cases stepped

end Worker

structure Sound (k : Nat) (trace : List (Event n Note)) (memory : Memory (Fin n)) (family : Fin n → Option Pc) :
    Prop where
  locks : ∀ thread, memory.lock.depth thread = holds (family thread)
  seen : ∀ thread i value, family thread = some (.write i value) → value = memory.counter
  within : ∀ thread pc, family thread = some pc → pc.Within k
  counted : memory.counter = trace.countP Event.writes
  summed : trace.countP Event.writes = ∑ thread, written k (family thread)

section Sound
variable {trace more : List (Event n Note)} {memory later : Memory (Fin n)} {family : Fin n → Option Pc}
variable {thread other : Fin n} {pc after : Pc} {note : Note}

theorem Sound.alone (sound : Sound k trace memory family) (first : holds (family thread) = 1)
    (second : holds (family other) = 1) : thread = other := by
  have one : 0 < memory.lock.depth thread := by
    rw [sound.locks, first]
    decide
  have two : 0 < memory.lock.depth other := by
    rw [sound.locks, second]
    decide
  exact Mutex.exclusive one two

theorem written_le (within : pc.Within k) : pc.written k ≤ k := by
  cases pc with
  | test i => exact within
  | lock i | read i | write i => exact Nat.le_of_lt within
  | yield i | unlock i | next i | overflowed i => exact within
  | exited => exact Nat.le_refl k
  | undefined => exact within.elim

theorem Sound.room (sound : Sound k trace memory family) {greatest : Int} (fits : (n * k : Int) ≤ greatest) {i : Nat}
    {value : Int} (here : family thread = some (.write i value)) : value < greatest := by
  have less : ∑ thread, written k (family thread) < ∑ _thread : Fin n, k := by
    apply Finset.sum_lt_sum
    · intro other _
      cases position : family other with
      | none => exact Nat.zero_le k
      | some pc => exact written_le (sound.within other pc position)
    · refine ⟨thread, Finset.mem_univ thread, ?_⟩
      rw [here]
      exact sound.within thread _ here
  rw [Family.sum_same fun _ => rfl, ← sound.summed] at less
  have counted := sound.counted
  rw [← sound.seen thread i value here] at counted
  have bound : ((trace.countP Event.writes : Nat) : Int) < (n * k : Nat) := Int.ofNat_lt.mpr less
  rw [Int.natCast_mul] at bound
  omega

theorem Sound.move (sound : Sound k trace memory family) (writes : Nat)
    (own : later.lock.depth thread = after.holds)
    (others : ∀ other, other ≠ thread → later.lock.depth other = memory.lock.depth other)
    (counter : later.counter = memory.counter + writes)
    (adds : after.written k = written k (family thread) + writes) (inside : writes ≠ 0 → holds (family thread) = 1)
    (seen : ∀ i value, after = .write i value → value = later.counter) (within : after.Within k)
    (shown : more.countP Event.writes = trace.countP Event.writes + writes) :
    Sound k more later (Function.update family thread (some after)) where
  locks := by
    intro other
    by_cases same : other = thread
    · rw [same, Function.update_self]
      exact own
    · rw [Function.update_of_ne same, others other same]
      exact sound.locks other
  seen := by
    intro other i value at_
    by_cases same : other = thread
    · rw [same, Function.update_self] at at_
      exact seen i value (Option.some.inj at_)
    · rw [Function.update_of_ne same] at at_
      have quiet : writes = 0 := by
        by_contra wrote
        have holder : holds (family other) = 1 := by
          rw [at_]
          rfl
        exact same (sound.alone holder (inside wrote))
      rw [counter, quiet, sound.seen other i value at_]
      exact (Int.add_zero _).symm
  within := by
    intro other pc at_
    by_cases same : other = thread
    · rw [same, Function.update_self] at at_
      exact Option.some.inj at_ ▸ within
    · rw [Function.update_of_ne same] at at_
      exact sound.within other pc at_
  counted := by
    rw [counter, shown, sound.counted, Int.natCast_add]
  summed := by
    have moved := Family.sum_update (written k) family thread (some after)
    have weight : written k (some after) = after.written k := rfl
    rw [weight, adds] at moved
    rw [shown, sound.summed]
    omega

theorem Sound.act (sound : Sound k trace memory family) (fits : (n * k : Int) ≤ program.greatest)
    (runs : family thread = some pc) (stepped : worker program k thread memory pc = some (note, later, after)) :
    Sound k (trace ++ [.act thread note]) later (Function.update family thread (some after)) := by
  have locks : memory.lock.depth thread = pc.holds := by
    rw [sound.locks, runs]
    rfl
  have knows : ∀ i value, pc = .write i value → value = memory.counter ∧ value < program.greatest := by
    intro i value at_
    rw [at_] at runs
    exact ⟨sound.seen thread i value runs, sound.room fits runs⟩
  have effect := worker_effect locks (sound.within thread pc runs) knows stepped
  by_cases wrote : note = .wrote
  · have counter := effect.counter
    have adds := effect.written
    rw [if_pos wrote] at counter adds
    refine sound.move 1 effect.own effect.others counter ?_ (fun _ => ?_) effect.seen effect.within ?_
    · rw [runs]
      exact adds
    · rw [runs]
      exact effect.inside wrote
    · subst wrote
      simp [Event.writes]
  · have counter := effect.counter
    have adds := effect.written
    rw [if_neg wrote] at counter adds
    refine sound.move 0 effect.own effect.others counter ?_ (fun wrong => absurd rfl wrong) effect.seen
      effect.within ?_
    · rw [runs]
      exact adds
    · cases note <;> simp [Event.writes] at wrote ⊢

theorem Sound.aside (sound : Sound k trace memory family)
    (quiet : more.countP Event.writes = trace.countP Event.writes) : Sound k more memory family where
  locks := sound.locks
  seen := sound.seen
  within := sound.within
  counted := by rw [quiet, sound.counted]
  summed := by rw [quiet, sound.summed]

end Sound

section Runs
variable {trace : List (Event n Note)} {state : State n (Memory (Fin n)) Pc}

theorem sound_of_reaches (fits : (n * k : Int) ≤ program.greatest)
    (reached : (counting program n k).system.Reaches trace state) : Sound k trace state.memory state.pc := by
  apply invariant_of_reaches (Sound k) reached
  · refine ⟨fun _ => rfl, (fun _ _ _ wrong => by cases wrong), (fun _ _ wrong => by cases wrong), rfl, ?_⟩
    exact (Finset.sum_eq_zero fun _ _ => rfl).symm
  · intro trace memory family thread sound fresh
    have free := sound.locks thread
    rw [fresh] at free
    refine sound.move 0 free (fun _ _ => rfl) (Int.add_zero _).symm ?_ (fun wrong => absurd rfl wrong)
      (fun _ _ wrong => by cases wrong) (Nat.zero_le k) (by simp [Event.writes])
    rw [fresh]
    rfl
  · intro trace memory family thread pc note later after sound runs stepped
    exact sound.act fits runs stepped
  · intro trace memory family thread sound
    exact sound.aside (by simp [Event.writes])
  · intro trace memory family thread sound
    exact sound.aside (by simp [Event.writes])

theorem worker_alone (small : k < 2 ^ 31) (thread : Fin n) {i left : Nat} (turns : i + left = k) {counter : Int}
    (room : counter + left ≤ program.greatest) :
    (counting program n k).Alone thread ⟨.free, counter⟩ (.test i) ⟨.free, counter + left⟩ .exited := by
  induction left generalizing i counter with
  | zero =>
    have done : worker program k thread ⟨.free, counter⟩ (.test i) = some (.tested, ⟨.free, counter⟩, .exited) := by
      have last : ¬i < k := by omega
      simp only [worker, if_neg last]
    rw [show counter + (0 : Nat) = counter from Int.add_zero counter]
    exact .head done .refl
  | succ left ih =>
    have less : i < k := by omega
    have fits : counter < program.greatest := by omega
    have loops : worker program k thread ⟨.free, counter⟩ (.test i) = some (.tested, ⟨.free, counter⟩, .lock i) := by
      simp only [worker, if_pos less]
    have writes : worker program k thread ⟨.held thread 0, counter⟩ (.write i counter) =
        some (.wrote, ⟨.held thread 0, counter + 1⟩, if program.yields then .yield i else .unlock i) := if_pos fits
    have unlocks : worker program k thread ⟨.held thread 0, counter + 1⟩ (.unlock i) =
        some (.unlocked, ⟨.free, counter + 1⟩, .next i) := by
      simp only [worker, Mutex.unlock_held, Option.map_some]
    have counts : worker program k thread ⟨.free, counter + 1⟩ (.next i) =
        some (.counted, ⟨.free, counter + 1⟩, .test (i + 1)) := if_pos (by omega)
    have rest : (counting program n k).Alone thread ⟨.free, counter + 1⟩ (.test (i + 1)) ⟨.free, counter + 1 + left⟩
        .exited := ih (by omega) (by omega)
    rw [show counter + 1 + (left : Int) = counter + (left + 1 : Nat) by omega] at rest
    have locks : worker program k thread ⟨.free, counter⟩ (.lock i) =
        some (.locked, ⟨.held thread 0, counter⟩, .read i) := rfl
    have reads : worker program k thread ⟨.held thread 0, counter⟩ (.read i) =
        some (.read, ⟨.held thread 0, counter⟩, .write i counter) := rfl
    apply Alone.head loops (.head locks (.head reads (.head writes _)))
    cases program.yields with
    | true =>
      have yields : worker program k thread ⟨.held thread 0, counter + 1⟩ (.yield i) =
          some (.yielded, ⟨.held thread 0, counter + 1⟩, .unlock i) := rfl
      exact .head yields (.head unlocks (.head counts rest))
    | false => exact .head unlocks (.head counts rest)

theorem joins_all (small : k < 2 ^ 31) (fits : (n * k : Int) ≤ program.greatest) :
    ∃ trace state, (counting program n k).system.Reaches trace state ∧ state.main = .joined := by
  have ends (thread : Fin n) (memory : Memory (Fin n)) (left : memory = ⟨.free, (thread * k : Nat)⟩) :
      ∃ last, (counting program n k).Alone thread memory (.test 0) last .exited ∧
        last = ⟨.free, ((thread + 1) * k : Nat)⟩ := by
    subst left
    have total : (thread + 1) * k ≤ n * k := Nat.mul_le_mul_right k thread.isLt
    have bound : (((thread + 1) * k : Nat) : Int) ≤ (n * k : Nat) := Int.ofNat_le.mpr total
    rw [Nat.succ_mul, Int.natCast_add, Int.natCast_mul n k] at bound
    rw [Nat.succ_mul, Int.natCast_add]
    exact ⟨_, worker_alone small thread (Nat.zero_add k) (bound.trans fits), rfl⟩
  have first : (counting program n k).memory = ⟨.free, (0 * k : Nat)⟩ := by
    rw [Nat.zero_mul]
    rfl
  obtain ⟨trace, state, reached, joined, _⟩ := reaches_joined_of (counting program n k)
    (fun threads memory => memory = ⟨.free, (threads * k : Nat)⟩) first ends
  exact ⟨trace, state, reached, joined⟩

/-- With the product of threads and turns within the counter's type, no update is lost. -/
theorem no_lost_update (program : Program) (n k : Nat) (fits : (n * k : Int) ≤ program.greatest) :
    NoLostUpdate program n k where
  exclusive := by
    intro trace state reached thread other adding also
    obtain ⟨i, value, at_⟩ := adding
    obtain ⟨j, seen, there⟩ := also
    have sound := sound_of_reaches fits reached
    apply sound.alone
    · rw [at_]
      rfl
    · rw [there]
      rfl
  counts := fun trace state reached => (sound_of_reaches fits reached).counted
  total := by
    intro trace state reached joined
    have sound := sound_of_reaches fits reached
    have all (thread : Fin n) : written k (state.pc thread) = k := by
      rw [exited_of_joined (fun _ _ => rfl) reached joined thread]
      rfl
    rw [sound.counted, sound.summed, Family.sum_same all, Int.natCast_mul]

theorem no_lost_update_programs :
    (NoLostUpdate pthreadMutexPerf 10 10000 ∧
      ∃ trace state, (counting pthreadMutexPerf 10 10000).system.Reaches trace state ∧ state.main = .joined) ∧
    (NoLostUpdate pthreadSpinlockMutex 25 100000 ∧
      ∃ trace state, (counting pthreadSpinlockMutex 25 100000).system.Reaches trace state ∧ state.main = .joined) ∧
    (NoLostUpdate pthreadSpinlock 25 100000 ∧
      ∃ trace state, (counting pthreadSpinlock 25 100000).system.Reaches trace state ∧ state.main = .joined) :=
  ⟨⟨no_lost_update pthreadMutexPerf 10 10000 (by decide), joins_all (by decide) (by decide)⟩,
    ⟨no_lost_update pthreadSpinlockMutex 25 100000 (by decide), joins_all (by decide) (by decide)⟩,
    ⟨no_lost_update pthreadSpinlock 25 100000 (by decide), joins_all (by decide) (by decide)⟩⟩

end Runs

end CppRt.Counter

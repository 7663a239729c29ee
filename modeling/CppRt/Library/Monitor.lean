import CppRt.Library.Mutex
import CppRt.Library.Family
import CppRt.Library.Concurrent

/-!
Monitors: data behind one mutex with one condition variable. The operations are
given by the steps of a single thread on the shared data and its own position;
the monitor adds calls and returns, signals, and wake-ups without a signal.

Three readings of the positions carry the general theory. A locking reading says
how often a thread at a position has locked the mutex and what it knows there; an
accounting reading says which threads a sleeper may still expect something of; a
refinement reading says which atomic operation a thread is in. Each asks only for
laws about single local steps, and together they make a live linearization.
-/

namespace CppRt.Library
open Concurrent Family

structure Monitor (Thread Shared Pc Call Ret : Type*) where
  initial : Shared
  outside : Pc
  entry : Call → Pc
  returning : Ret → Pc
  asleep : Pc
  woken : Pc
  signals : Pc
  signalled : Pc
  moves : Thread → Shared → Pc → Option (Action Call Ret) → Shared → Pc → Prop

namespace Monitor
variable {Thread Shared Pc Call Ret : Type*}

structure State (Thread Shared Pc : Type*) where
  shared : Shared
  pc : Thread → Pc

variable [DecidableEq Thread] (monitor : Monitor Thread Shared Pc Call Ret)

inductive Step (state : State Thread Shared Pc) (thread : Thread) :
    Option (Action Call Ret) → State Thread Shared Pc → Prop where
  | call {call : Call} (outside : state.pc thread = monitor.outside) :
      Step state thread (some (.call call))
        ⟨state.shared, Function.update state.pc thread (monitor.entry call)⟩
  | inside {action : Option (Action Call Ret)} {shared : Shared} {pc : Pc}
      (moved : monitor.moves thread state.shared (state.pc thread) action shared pc) :
      Step state thread action ⟨shared, Function.update state.pc thread pc⟩
  | signal {family : Thread → Pc} (signals : state.pc thread = monitor.signals)
      (signal : Signal monitor.asleep monitor.woken state.pc family) :
      Step state thread none ⟨state.shared, Function.update family thread monitor.signalled⟩
  | ret {ret : Ret} (returns : state.pc thread = monitor.returning ret) :
      Step state thread (some (.ret ret)) ⟨state.shared, Function.update state.pc thread monitor.outside⟩

def Spurious (state next : State Thread Shared Pc) : Prop :=
  ∃ thread, state.pc thread = monitor.asleep ∧
    next = ⟨state.shared, Function.update state.pc thread monitor.woken⟩

def object : Object Thread (State Thread Shared Pc) Call Ret where
  start state := state = ⟨monitor.initial, fun _ => monitor.outside⟩
  step := monitor.Step
  wake := monitor.Spurious

/-- How often a thread at a position holds the mutex, and what it knows there. -/
structure Locking (menu : Call → Prop) where
  mutex : Shared → Mutex Thread
  depth : Pc → Nat
  Knows : Shared → Pc → Prop
  free_initial : mutex monitor.initial = .free
  depth_outside : depth monitor.outside = 0
  depth_entry : ∀ call, depth (monitor.entry call) = 0
  depth_returning : ∀ ret, depth (monitor.returning ret) = 0
  depth_asleep : depth monitor.asleep = 0
  depth_woken : depth monitor.woken = 0
  depth_signals : depth monitor.signalled = depth monitor.signals
  depth_moves : ∀ {thread shared pc action later after},
    monitor.moves thread shared pc action later after → Knows shared pc →
    depth pc = (mutex shared).depth thread →
    depth after = (mutex later).depth thread ∧
      ∀ other, other ≠ thread → (mutex later).depth other = (mutex shared).depth other
  knows_outside : ∀ shared, Knows shared monitor.outside
  knows_entry : ∀ shared {call}, menu call → Knows shared (monitor.entry call)
  knows_woken : ∀ shared, Knows shared monitor.woken
  knows_signalled : ∀ {shared}, Knows shared monitor.signals → Knows shared monitor.signalled
  knows_moves : ∀ {thread shared pc action later after},
    monitor.moves thread shared pc action later after → Knows shared pc → Knows later after
  knows_frame : ∀ {thread shared pc action later after other},
    monitor.moves thread shared pc action later after → (0 < depth pc → depth other = 0) →
    Knows shared other → Knows later other

namespace Locking
variable {monitor} {menu : Call → Prop} (locking : monitor.Locking menu)
variable {thread : Thread} {action : Option (Action Call Ret)} {state next : State Thread Shared Pc}

structure Sound (state : State Thread Shared Pc) : Prop where
  locks : ∀ thread, locking.depth (state.pc thread) = (locking.mutex state.shared).depth thread
  knows : ∀ thread, locking.Knows state.shared (state.pc thread)

variable {locking}

theorem Sound.start : locking.Sound ⟨monitor.initial, fun _ => monitor.outside⟩ :=
  ⟨fun _ => by rw [locking.free_initial]; exact locking.depth_outside, fun _ => locking.knows_outside _⟩

theorem Sound.exclusive (sound : locking.Sound state) {first second : Thread}
    (holds : 0 < locking.depth (state.pc first)) (also : 0 < locking.depth (state.pc second)) :
    first = second := by
  rw [sound.locks] at holds also
  exact Mutex.exclusive holds also

private theorem Sound.update {pc : Pc} (sound : locking.Sound state) (thread : Thread)
    (same : locking.depth pc = locking.depth (state.pc thread)) (knows : locking.Knows state.shared pc) :
    locking.Sound ⟨state.shared, Function.update state.pc thread pc⟩ where
  locks := (Function.forall_update_iff _ fun other (pc : Pc) =>
      locking.depth pc = (locking.mutex state.shared).depth other).mpr
    ⟨same.trans (sound.locks thread), fun other _ => sound.locks other⟩
  knows := (Function.forall_update_iff _ fun _ (pc : Pc) => locking.Knows state.shared pc).mpr
    ⟨knows, fun other _ => sound.knows other⟩

private theorem Sound.signal {family : Thread → Pc} (sound : locking.Sound state)
    (signal : Signal monitor.asleep monitor.woken state.pc family) :
    locking.Sound ⟨state.shared, family⟩ where
  locks thread := (signal.view_eq locking.depth
    (locking.depth_asleep.trans locking.depth_woken.symm) thread).trans (sound.locks thread)
  knows thread := by
    change locking.Knows state.shared (family thread)
    rcases signal.frame thread with kept | ⟨_, now⟩
    · rw [kept]
      exact sound.knows thread
    · rw [now]
      exact locking.knows_woken _

theorem Sound.step (sound : locking.Sound state) (offered : ∀ call, action = some (.call call) → menu call)
    (step : monitor.Step state thread action next) : locking.Sound next := by
  cases step with
  | @call call outside =>
    refine sound.update thread ?_ (locking.knows_entry _ (offered call rfl))
    rw [outside, locking.depth_entry, locking.depth_outside]
  | @inside _ shared pc moved =>
    obtain ⟨own, others⟩ := locking.depth_moves moved (sound.knows thread) (sound.locks thread)
    constructor
    · exact (Function.forall_update_iff _ fun other (pc : Pc) =>
          locking.depth pc = (locking.mutex shared).depth other).mpr
        ⟨own, fun other different => (sound.locks other).trans (others other different).symm⟩
    · refine (Function.forall_update_iff _ fun _ (pc : Pc) => locking.Knows shared pc).mpr
        ⟨locking.knows_moves moved (sound.knows thread), fun other different => ?_⟩
      refine locking.knows_frame moved (fun holds => ?_) (sound.knows other)
      by_contra deep
      exact different (sound.exclusive (Nat.pos_of_ne_zero deep) holds)
  | @signal family signals signal =>
    have later := sound.signal signal
    have own : locking.depth (family thread) = locking.depth monitor.signals := by
      rw [later.locks thread, ← signals, sound.locks thread]
    refine later.update thread (locking.depth_signals.trans own.symm) (locking.knows_signalled ?_)
    exact signals ▸ sound.knows thread
  | @ret ret returns =>
    refine sound.update thread ?_ (locking.knows_outside _)
    rw [returns, locking.depth_returning, locking.depth_outside]

theorem Sound.wake (sound : locking.Sound state) (woken : monitor.Spurious state next) :
    locking.Sound next := by
  obtain ⟨thread, sleeps, rfl⟩ := woken
  refine sound.update thread ?_ (locking.knows_woken _)
  rw [sleeps, locking.depth_woken, locking.depth_asleep]

/-- When no operation can move, the mutex is free and every thread is outside or asleep, provided
that a thread inside can move whenever it alone may hold the mutex. -/
theorem Sound.quiet (sound : locking.Sound state)
    (enabled : ∀ thread, state.pc thread ≠ monitor.outside → state.pc thread ≠ monitor.asleep →
      state.pc thread ≠ monitor.signals → (∀ ret, state.pc thread ≠ monitor.returning ret) →
      (∀ other, other ≠ thread → (locking.mutex state.shared).depth other = 0) →
      ∃ action later after, monitor.moves thread state.shared (state.pc thread) action later after ∧
        ∀ call, action ≠ some (.call call))
    (still : ∀ thread action next, monitor.Step state thread action next → ∃ call, action = some (.call call)) :
    (∀ thread, (locking.mutex state.shared).depth thread = 0) ∧
      ∀ thread, state.pc thread = monitor.outside ∨ state.pc thread = monitor.asleep := by
  have blocked (thread : Thread)
      (free : ∀ other, other ≠ thread → (locking.mutex state.shared).depth other = 0) :
      state.pc thread = monitor.outside ∨ state.pc thread = monitor.asleep := by
    by_contra neither
    push Not at neither
    by_cases signals : state.pc thread = monitor.signals
    · obtain ⟨family, signal⟩ := Signal.exists_after monitor.asleep monitor.woken state.pc
      obtain ⟨call, same⟩ := still thread _ _ (.signal signals signal)
      cases same
    · by_cases returns : ∃ ret, state.pc thread = monitor.returning ret
      · obtain ⟨ret, returns⟩ := returns
        obtain ⟨call, same⟩ := still thread _ _ (.ret returns)
        cases same
      · obtain ⟨action, later, after, moved, inside⟩ :=
          enabled thread neither.1 neither.2 signals (not_exists.mp returns) free
        obtain ⟨call, same⟩ := still thread _ _ (.inside moved)
        exact inside call same
  have free (thread : Thread) : (locking.mutex state.shared).depth thread = 0 := by
    by_contra deep
    have alone (other : Thread) (different : other ≠ thread) :
        (locking.mutex state.shared).depth other = 0 := by
      by_contra also
      exact different (Mutex.exclusive (Nat.pos_of_ne_zero also) (Nat.pos_of_ne_zero deep))
    have own := sound.locks thread
    rcases blocked thread alone with out | sleeps
    · rw [out, locking.depth_outside] at own
      exact deep own.symm
    · rw [sleeps, locking.depth_asleep] at own
      exact deep own.symm
  exact ⟨free, fun thread => blocked thread fun other _ => free other⟩

end Locking

/-- What a sleeper may still expect: `size` counts what is there to be taken,
`signalling` the threads that have added to it and not yet signalled, `awakened`
the threads woken from their sleep that have neither taken nor gone back to it. -/
structure Accounting {menu : Call → Prop} (locking : monitor.Locking menu) where
  size : Shared → Nat
  signalling : Pc → Bool
  awakened : Pc → Bool
  outside_calm : signalling monitor.outside = false ∧ awakened monitor.outside = false
  entry_calm : ∀ call, signalling (monitor.entry call) = false ∧ awakened (monitor.entry call) = false ∧
    monitor.entry call ≠ monitor.asleep
  asleep_calm : signalling monitor.asleep = false ∧ awakened monitor.asleep = false
  woken_counts : signalling monitor.woken = false ∧ awakened monitor.woken = true
  signals_counts : signalling monitor.signals = true ∧ awakened monitor.signals = false ∧
    monitor.signals ≠ monitor.asleep
  signalled_calm : signalling monitor.signalled = false ∧ awakened monitor.signalled = false ∧
    monitor.signalled ≠ monitor.asleep
  returning_calm : ∀ ret, signalling (monitor.returning ret) = false ∧
    awakened (monitor.returning ret) = false
  outside_awake : monitor.outside ≠ monitor.asleep
  moves_owed : ∀ {thread shared pc action later after},
    monitor.moves thread shared pc action later after → locking.Knows shared pc →
    size later = 0 ∨ after ≠ monitor.asleep ∧
      size later + (signalling pc).toNat + (awakened pc).toNat ≤
        size shared + (signalling after).toNat + (awakened after).toNat

namespace Accounting
variable {monitor} [Fintype Thread] {menu : Call → Prop} {locking : monitor.Locking menu}
variable (accounting : monitor.Accounting locking)
variable {thread : Thread} {action : Option (Action Call Ret)} {state next : State Thread Shared Pc}

/-- While a thread sleeps, there is a signal to come or a thread on its way for all there is. -/
def Owed (state : State Thread Shared Pc) : Prop :=
  (∃ thread, state.pc thread = monitor.asleep) →
    accounting.size state.shared ≤
      tally accounting.signalling state.pc + tally accounting.awakened state.pc

variable {accounting}

theorem Owed.start : accounting.Owed ⟨monitor.initial, fun _ => monitor.outside⟩ :=
  fun ⟨_, sleeps⟩ => absurd sleeps accounting.outside_awake

theorem Owed.update {shared : Shared} {pc : Pc} (thread : Thread)
    (owed : accounting.Owed state) (awake : pc ≠ monitor.asleep)
    (balance : accounting.size shared + (accounting.signalling (state.pc thread)).toNat +
        (accounting.awakened (state.pc thread)).toNat ≤
      accounting.size state.shared + (accounting.signalling pc).toNat + (accounting.awakened pc).toNat) :
    accounting.Owed ⟨shared, Function.update state.pc thread pc⟩ := by
  rintro ⟨sleeper, sleeps⟩
  have different : sleeper ≠ thread := by
    intro same
    subst same
    exact awake (by simpa using sleeps)
  have before := owed ⟨sleeper, by simpa [different] using sleeps⟩
  have signals := tally_update accounting.signalling state.pc thread pc
  have wakes := tally_update accounting.awakened state.pc thread pc
  change accounting.size shared ≤ _
  dsimp only
  omega

theorem Owed.step (sound : locking.Sound state) (owed : accounting.Owed state)
    (step : monitor.Step state thread action next) : accounting.Owed next := by
  cases step with
  | @call call outside =>
    obtain ⟨calm, quiet⟩ := accounting.outside_calm
    obtain ⟨alsoCalm, alsoQuiet, awake⟩ := accounting.entry_calm call
    exact owed.update thread awake (by rw [outside, calm, quiet, alsoCalm, alsoQuiet])
  | @inside _ shared pc moved =>
    rcases accounting.moves_owed moved (sound.knows thread) with empty | ⟨awake, balance⟩
    · intro _
      simp [empty]
    · exact owed.update thread awake balance
  | @signal family signals signal =>
    obtain ⟨calm, quiet, awake⟩ := accounting.signalled_calm
    obtain ⟨pays, idle, own⟩ := accounting.signals_counts
    have kept : family thread = monitor.signals := by rw [signal.awake (signals ▸ own), signals]
    rintro ⟨sleeper, sleeps⟩
    have different : sleeper ≠ thread := by
      intro same
      subst same
      exact awake (by simpa using sleeps)
    have slept : state.pc sleeper = monitor.asleep := by
      rcases signal.frame sleeper with same | ⟨slept, _⟩
      · rw [← same]
        simpa [different] using sleeps
      · exact slept
    have before := owed ⟨sleeper, slept⟩
    have paid := signal.tally_le accounting.signalling (fun wrong => by simp [accounting.asleep_calm] at wrong)
    have risen := signal.tally_lt accounting.awakened ⟨sleeper, slept⟩ accounting.asleep_calm.2
      accounting.woken_counts.2
    have ends := tally_update accounting.signalling family thread monitor.signalled
    have wakes := tally_update accounting.awakened family thread monitor.signalled
    rw [kept, pays, calm] at ends
    rw [kept, idle, quiet] at wakes
    simp only [Bool.toNat_false, Bool.toNat_true] at ends wakes ⊢
    omega
  | @ret ret returns =>
    obtain ⟨calm, quiet⟩ := accounting.outside_calm
    obtain ⟨alsoCalm, alsoQuiet⟩ := accounting.returning_calm ret
    exact owed.update thread accounting.outside_awake
      (by rw [returns, calm, quiet, alsoCalm, alsoQuiet])

theorem Owed.wake (owed : accounting.Owed state) (woken : monitor.Spurious state next) :
    accounting.Owed next := by
  obtain ⟨thread, sleeps, rfl⟩ := woken
  intro _
  obtain ⟨calm, quiet⟩ := accounting.asleep_calm
  obtain ⟨stillCalm, counts⟩ := accounting.woken_counts
  have before := owed ⟨thread, sleeps⟩
  have signals := tally_update accounting.signalling state.pc thread monitor.woken
  have wakes := tally_update accounting.awakened state.pc thread monitor.woken
  rw [sleeps, calm, stillCalm] at signals
  rw [sleeps, quiet, counts] at wakes
  simp only [Bool.toNat_false, Bool.toNat_true] at signals wakes ⊢
  omega

theorem Owed.empty (owed : accounting.Owed state)
    (calm : ∀ thread, state.pc thread = monitor.outside ∨ state.pc thread = monitor.asleep)
    (sleeps : state.pc thread = monitor.asleep) : accounting.size state.shared = 0 := by
  have nobody (counts : Pc → Bool) (outside : counts monitor.outside = false)
      (asleep : counts monitor.asleep = false) : tally counts state.pc = 0 := by
    by_contra some
    obtain ⟨other, counted⟩ := exists_of_tally_pos (Nat.pos_of_ne_zero some)
    rcases calm other with out | sleeps
    · rw [out, outside] at counted
      cases counted
    · rw [sleeps, asleep] at counted
      cases counted
  have bound := owed ⟨thread, sleeps⟩
  rw [nobody _ accounting.outside_calm.1 accounting.asleep_calm.1,
    nobody _ accounting.outside_calm.2 accounting.asleep_calm.2] at bound
  exact Nat.le_zero.mp bound

end Accounting

/-- Which operation of the sequential object a thread at a position is in. A step either
leaves that as it is or is the step by which the operation takes effect. Inside its
critical section a thread can always step, and a sleeper finds nothing to take in
an empty monitor. -/
structure Refinement {Contents : Type*} {menu : Call → Prop} {locking : monitor.Locking menu}
    (accounting : monitor.Accounting locking) (spec : Sequential Contents Call Ret) where
  contents : Shared → Contents
  status : Pc → Status Call Ret
  contents_initial : contents monitor.initial = spec.initial
  status_idle : ∀ {pc}, status pc = .idle ↔ pc = monitor.outside
  status_entry : ∀ call, status (monitor.entry call) = .pending call
  status_returning : ∀ ret, status (monitor.returning ret) = .done ret
  status_woken : status monitor.asleep = status monitor.woken
  status_signalled : status monitor.signalled = status monitor.signals
  moves_refine : ∀ {thread shared pc action later after},
    monitor.moves thread shared pc action later after → locking.Knows shared pc →
    action = none ∧ contents later = contents shared ∧ status after = status pc ∨
      ∃ call ret, action = some (.commit call ret) ∧ status pc = .pending call ∧
        spec.apply (contents shared) call = some (contents later, ret) ∧ status after = .done ret
  moves_enabled : ∀ {thread shared pc}, locking.Knows shared pc → pc ≠ monitor.outside →
    pc ≠ monitor.asleep → pc ≠ monitor.signals → (∀ ret, pc ≠ monitor.returning ret) →
    locking.depth pc = (locking.mutex shared).depth thread →
    (∀ other, other ≠ thread → (locking.mutex shared).depth other = 0) →
    ∃ action later after, monitor.moves thread shared pc action later after
  starved : ∀ {shared}, accounting.size shared = 0 →
    ∃ call, status monitor.asleep = .pending call ∧ spec.apply (contents shared) call = none

namespace Refinement
variable {monitor} {Contents : Type*} {spec : Sequential Contents Call Ret} {menu : Call → Prop}
variable {locking : monitor.Locking menu} {accounting : monitor.Accounting locking}
variable (refinement : monitor.Refinement accounting spec)
variable {thread : Thread} {action : Option (Action Call Ret)} {state next : State Thread Shared Pc}

def abs (state : State Thread Shared Pc) : Atomic Thread Contents Call Ret :=
  ⟨refinement.contents state.shared, refinement.status ∘ state.pc⟩

theorem abs_step (sound : locking.Sound state) (step : monitor.Step state thread action next) :
    AtomicStep spec (refinement.abs state) thread action (refinement.abs next) ∨
      action = none ∧ refinement.abs next = refinement.abs state := by
  cases step with
  | @call call outside =>
    left
    simp only [abs, Function.comp_update, refinement.status_entry]
    exact .call (refinement.status_idle.mpr outside)
  | @inside _ shared pc moved =>
    simp only [abs, Function.comp_update]
    rcases refinement.moves_refine moved (sound.knows thread) with
      ⟨rfl, same, kept⟩ | ⟨call, ret, rfl, pending, applied, done⟩
    · right
      refine ⟨rfl, ?_⟩
      rw [same, kept]
      exact congrArg (Atomic.mk _) (Function.update_eq_self thread (refinement.status ∘ state.pc))
    · left
      rw [done]
      exact .commit pending applied
  | @signal family signals signal =>
    right
    refine ⟨rfl, ?_⟩
    have same : refinement.status ∘ family = refinement.status ∘ state.pc :=
      funext fun other => signal.view_eq refinement.status refinement.status_woken other
    have own : refinement.status monitor.signalled = (refinement.status ∘ state.pc) thread := by
      rw [refinement.status_signalled, ← signals]
      rfl
    simp only [abs, Function.comp_update, same, own, Function.update_eq_self]
  | @ret ret returns =>
    left
    simp only [abs, Function.comp_update, refinement.status_idle.mpr]
    exact .ret ((congrArg refinement.status returns).trans (refinement.status_returning ret))

theorem abs_wake (woken : monitor.Spurious state next) : refinement.abs next = refinement.abs state := by
  obtain ⟨thread, sleeps, rfl⟩ := woken
  have own : refinement.status monitor.woken = (refinement.status ∘ state.pc) thread := by
    rw [← refinement.status_woken, ← sleeps]
    rfl
  simp only [abs, Function.comp_update, own, Function.update_eq_self]

include refinement in
theorem quiet (sound : locking.Sound state)
    (still : ∀ thread action next, monitor.Step state thread action next → ∃ call, action = some (.call call)) :
    (∀ thread, (locking.mutex state.shared).depth thread = 0) ∧
      ∀ thread, state.pc thread = monitor.outside ∨ state.pc thread = monitor.asleep := by
  refine sound.quiet (fun thread outside asleep signals returns free => ?_) still
  obtain ⟨action, later, after, moved⟩ := refinement.moves_enabled (sound.knows thread) outside
    asleep signals returns (sound.locks thread) free
  refine ⟨action, later, after, moved, fun call called => ?_⟩
  rcases refinement.moves_refine moved (sound.knows thread) with ⟨silent, _⟩ | ⟨_, _, commits, _⟩
  · cases silent.symm.trans called
  · cases commits.symm.trans called

variable [Fintype Thread]

/-- A monitor with the three readings is linearizable. -/
def linearization : Linearization monitor.object spec where
  menu := menu
  inv state := locking.Sound state ∧ accounting.Owed state
  abs := refinement.abs
  start := by
    intro first begins
    obtain rfl := begins
    refine ⟨⟨Locking.Sound.start, Accounting.Owed.start⟩, ?_⟩
    simp only [abs, refinement.contents_initial, Function.comp_def, refinement.status_idle.mpr]
  step := by
    rintro state thread action next ⟨sound, owed⟩ offered step
    exact ⟨⟨sound.step offered step, owed.step sound step⟩, refinement.abs_step sound step⟩
  wake := by
    rintro state next ⟨sound, owed⟩ woken
    exact ⟨⟨sound.wake woken, owed.wake woken⟩, refinement.abs_wake woken⟩

theorem live : refinement.linearization.Live where
  accepts := by
    rintro state thread call - idle -
    exact ⟨_, .call (refinement.status_idle.mp idle)⟩
  quiet := by
    rintro state ⟨sound, owed⟩ still thread
    obtain ⟨_, calm⟩ := refinement.quiet sound still
    rcases calm thread with out | sleeps
    · exact .inl (refinement.status_idle.mpr out)
    · obtain ⟨call, pending, blocked⟩ := refinement.starved (owed.empty calm sleeps)
      exact .inr ⟨call, (congrArg refinement.status sleeps).trans pending, blocked⟩

end Refinement

section Alone
variable {monitor} {thread : Thread} {base : Thread → Pc} {shared later : Shared} {pc after : Pc}
variable {action : Option (Action Call Ret)}

def State.with (base : Thread → Pc) (thread : Thread) (shared : Shared) (pc : Pc) : State Thread Shared Pc :=
  ⟨shared, Function.update base thread pc⟩

theorem inside_alone (moved : monitor.moves thread shared pc action later after) :
    monitor.object.step (.with base thread shared pc) thread action (.with base thread later after) := by
  have own : (State.with base thread shared pc).pc thread = pc := Function.update_self _ _ _
  have step : monitor.Step (.with base thread shared pc) thread action _ := .inside (own.symm ▸ moved)
  simpa only [object, State.with, Function.update_idem] using step

theorem call_alone (call : Call) (outside : base thread = monitor.outside) :
    monitor.object.step ⟨shared, base⟩ thread (some (.call call))
      (.with base thread shared (monitor.entry call)) :=
  .call outside

theorem ret_alone (ret : Ret) (outside : base thread = monitor.outside) :
    monitor.object.step (.with base thread shared (monitor.returning ret)) thread (some (.ret ret))
      ⟨shared, base⟩ := by
  have step : monitor.Step (.with base thread shared (monitor.returning ret)) thread (some (.ret ret)) _ :=
    .ret (Function.update_self _ _ _)
  simpa only [object, State.with, Function.update_idem, ← outside, Function.update_eq_self] using step

theorem calls_only {state next : State Thread Shared Pc}
    (inert : ∀ later after, ¬monitor.moves thread state.shared (state.pc thread) action later after)
    (signals : state.pc thread ≠ monitor.signals) (returns : ∀ ret, state.pc thread ≠ monitor.returning ret)
    (step : monitor.Step state thread action next) :
    state.pc thread = monitor.outside ∧ ∃ call, action = some (.call call) := by
  cases step with
  | call outside => exact ⟨outside, _, rfl⟩
  | inside moved => exact absurd moved (inert _ _)
  | signal at_ => exact absurd at_ signals
  | ret at_ => exact absurd at_ (returns _)

theorem signal_alone (awake : ∀ other, base other ≠ monitor.asleep) (own : monitor.signals ≠ monitor.asleep) :
    monitor.object.step (.with base thread shared monitor.signals) thread none
      (.with base thread shared monitor.signalled) := by
  have nobody : ∀ other, (State.with base thread shared monitor.signals).pc other ≠ monitor.asleep :=
    (Function.forall_update_iff _ fun _ (pc : Pc) => pc ≠ monitor.asleep).mpr
      ⟨own, fun other _ => awake other⟩
  have step : monitor.Step (.with base thread shared monitor.signals) thread none _ :=
    .signal (Function.update_self _ _ _) (Signal.of_nobody nobody)
  simpa only [object, State.with, Function.update_idem] using step

theorem signal_wakes {sleeper : Thread} (sleeps : base sleeper = monitor.asleep) (apart : sleeper ≠ thread) :
    monitor.object.step (.with base thread shared monitor.signals) thread none
      (.with (Function.update base sleeper monitor.woken) thread shared monitor.signalled) := by
  have still : (State.with base thread shared monitor.signals).pc sleeper = monitor.asleep :=
    (Function.update_of_ne apart _ _).trans sleeps
  have step : monitor.Step (.with base thread shared monitor.signals) thread none _ :=
    .signal (Function.update_self _ _ _) (Signal.one still)
  simpa only [object, State.with, Function.update_comm apart.symm, Function.update_idem] using step

end Alone

end Monitor

end CppRt.Library

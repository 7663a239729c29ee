import CppRt.Library.Transition
import CppRt.ThreadPool.Construction

/-!
Who frees the closure that launch_thread copies to the heap. The copy belongs to the new
thread's unique_ptr if there is a thread, and to launch_thread otherwise. The programs of
the repository each have their own copy of the function, and the copies differ in how they
test the result of pthread_create, which is zero or a positive error number.
-/

namespace CppRt.LaunchThread
open Library.Transition ThreadPool

inductive Copy where
  | socknet
  | exThreadPool
  | xPthreadsFuture
  | xC11Launcher

/-- The condition under which launch_thread deletes the copy and throws. -/
def Copy.failed : Copy → Int → Bool
  | .socknet, err => err == -1
  | .exThreadPool, err => err == -1
  | .xPthreadsFuture, err => err == -1
  | .xC11Launcher, err => err < 0

/-- How a call of the closure ends. One that ends by pthread_exit unwinds the stack as one that
returns does, and counts as `returns`. -/
inductive Closure where
  | returns
  | throws

inductive Creator where
  | copy
  | create
  | test (err : Int)
  | delete
  | throw
  | returned
  | threw

inductive Routine where
  | absent
  | task
  | call
  | calling
  | exit
  | ended

inductive Event where
  | allocated
  | started
  | called
  | finished
  | freed
  | returned
  | threw
  | terminated
  deriving DecidableEq

structure Launch where
  creator : Creator
  routine : Routine
  terminated : Bool

def pthreadCreate : Created → Option Event × Routine
  | .success => (some .started, .task)
  | .error _ _ => (none, .absent)

inductive Step (copy : Copy) (result : Created) (closure : Closure) : Launch → Option Event → Launch → Prop where
  | copy {routine : Routine} :
      Step copy result closure ⟨.copy, routine, false⟩ (some .allocated) ⟨.create, routine, false⟩
  | create {routine : Routine} :
      Step copy result closure ⟨.create, routine, false⟩ (pthreadCreate result).1
        ⟨.test result.err, (pthreadCreate result).2, false⟩
  | fails {err : Int} {routine : Routine} (failed : copy.failed err = true) :
      Step copy result closure ⟨.test err, routine, false⟩ none ⟨.delete, routine, false⟩
  | passes {err : Int} {routine : Routine} (passed : copy.failed err = false) :
      Step copy result closure ⟨.test err, routine, false⟩ (some .returned) ⟨.returned, routine, false⟩
  | delete {routine : Routine} :
      Step copy result closure ⟨.delete, routine, false⟩ (some .freed) ⟨.throw, routine, false⟩
  | throw {routine : Routine} :
      Step copy result closure ⟨.throw, routine, false⟩ (some .threw) ⟨.threw, routine, false⟩
  | task {creator : Creator} :
      Step copy result closure ⟨creator, .task, false⟩ none ⟨creator, .call, false⟩
  | call {creator : Creator} :
      Step copy result closure ⟨creator, .call, false⟩ (some .called) ⟨creator, .calling, false⟩
  | finish {creator : Creator} (ends : closure = .returns) :
      Step copy result closure ⟨creator, .calling, false⟩ (some .finished) ⟨creator, .exit, false⟩
  -- an exception that leaves thread_routine finds no handler
  | terminate {creator : Creator} (ends : closure = .throws) :
      Step copy result closure ⟨creator, .calling, false⟩ (some .terminated) ⟨creator, .calling, true⟩
  -- pthread_exit unwinds the stack, and with it the unique_ptr
  | exit {creator : Creator} :
      Step copy result closure ⟨creator, .exit, false⟩ (some .freed) ⟨creator, .ended, false⟩

def launchThread (copy : Copy) (result : Created) (closure : Closure) : System Launch Event where
  start launch := launch = ⟨.copy, .absent, false⟩
  step := Step copy result closure

/-- What launch_thread and thread_routine owe to the closure and to the caller. -/
structure Owned (copy : Copy) (result : Created) (closure : Closure) : Prop where
  created : result = .success → ∀ trace launch, (launchThread copy result closure).Reaches trace launch →
    trace.count .called ≤ 1 ∧ trace.count .freed ≤ 1 ∧
    Throughout (fun before event => event = .freed → .finished ∈ before) trace ∧
    ((launchThread copy result closure).Final launch → trace.count .called = 1 ∧ trace.count .freed = 1)
  refused : result ≠ .success → ∀ trace launch, (launchThread copy result closure).Reaches trace launch →
    .called ∉ trace ∧ trace.count .freed ≤ 1 ∧ .returned ∉ trace ∧
    ((launchThread copy result closure).Final launch → trace.count .freed = 1 ∧ .threw ∈ trace)
  names : ∀ trace launch, (launchThread copy result closure).Reaches trace launch →
    .returned ∈ trace → .started ∈ trace
  ends : ∀ trace launch, (launchThread copy result closure).Reaches trace launch →
    ∃ more last, (launchThread copy result closure).Run launch more last ∧
      (launchThread copy result closure).Final last

def Creator.rank : Creator → Nat
  | .copy => 10
  | .create => 9
  | .test _ => 3
  | .delete => 2
  | .throw => 1
  | .returned => 0
  | .threw => 0

def Routine.rank : Routine → Nat
  | .absent => 0
  | .task => 4
  | .call => 3
  | .calling => 2
  | .exit => 1
  | .ended => 0

def Launch.rank (launch : Launch) : Nat :=
  launch.creator.rank + launch.routine.rank + (!launch.terminated).toNat

section Step
variable {copy : Copy} {result : Created} {closure : Closure} {launch next : Launch} {label : Option Event}
variable {trace : List Event}

theorem Step.rank_lt (step : Step copy result closure launch label next) : next.rank < launch.rank := by
  cases step with
  | create => cases result <;> simp [Launch.rank, Creator.rank, pthreadCreate, Routine.rank] <;> split <;> decide
  | _ => simp [Launch.rank, Creator.rank, Routine.rank]

theorem failed_err (copy : Copy) (result : Created) : copy.failed result.err = false := by
  cases result with
  | success => cases copy <;> rfl
  | error number positive =>
    have different : number ≠ -1 := by omega
    have nonnegative : ¬number < 0 := by omega
    cases copy with
    | xC11Launcher => exact decide_eq_false nonnegative
    | _ => exact beq_eq_false_iff_ne.mpr different

structure Counts where
  called : Nat
  finished : Nat
  freed : Nat

def Routine.counts : Routine → Counts
  | .absent => ⟨0, 0, 0⟩
  | .task => ⟨0, 0, 0⟩
  | .call => ⟨0, 0, 0⟩
  | .calling => ⟨1, 0, 0⟩
  | .exit => ⟨1, 1, 0⟩
  | .ended => ⟨1, 1, 1⟩

def Fits (result : Created) : Creator → Routine → Prop
  | .copy, routine => routine = .absent
  | .create, routine => routine = .absent
  | .test err, routine => err = result.err ∧ (routine = .absent ↔ result ≠ .success)
  | .returned, routine => routine = .absent ↔ result ≠ .success
  | _, _ => False

structure Sound (result : Created) (closure : Closure) (trace : List Event) (launch : Launch) : Prop where
  fits : Fits result launch.creator launch.routine
  called : trace.count .called = launch.routine.counts.called
  finished : trace.count .finished = launch.routine.counts.finished
  freed : trace.count .freed = launch.routine.counts.freed
  started : .started ∈ trace ↔ launch.routine ≠ .absent
  returned : .returned ∈ trace ↔ launch.creator = .returned
  threw : .threw ∉ trace
  lives : launch.terminated = true → closure = .throws
  returns : launch.routine.counts.finished = 1 → closure = .returns
  after : Throughout (fun before event => event = .freed → .finished ∈ before) trace

theorem Fits.moves {creator : Creator} {before after : Routine} (fits : Fits result creator before)
    (present : before ≠ .absent) (still : after ≠ .absent) : Fits result creator after := by
  cases creator with
  | copy | create => exact absurd fits present
  | test err => exact ⟨fits.1, iff_of_false still fun failed => present (fits.2.mpr failed)⟩
  | returned => exact iff_of_false still fun failed => present (fits.mpr failed)
  | delete | throw | threw => exact fits

theorem Sound.step (sound : Sound result closure trace launch) (step : Step copy result closure launch label next) :
    Sound result closure (trace ++ label.toList) next := by
  obtain ⟨fits, called, finished, freed, started, returned, threw, lives, returns, after⟩ := sound
  cases step with
  | fails failed =>
    rw [fits.1, failed_err] at failed
    cases failed
  | delete | throw => exact fits.elim
  | copy =>
    obtain rfl : _ = Routine.absent := fits
    constructor <;> simp_all [Fits]
  | create =>
    obtain rfl : _ = Routine.absent := fits
    cases result <;> constructor <;> simp_all [Fits, pthreadCreate, Routine.counts]
  | passes => constructor <;> simp_all [Fits]
  | task =>
    refine ⟨fits.moves (by simp) (by simp), ?_, ?_, ?_, ?_, ?_, ?_, ?_, ?_, ?_⟩ <;> simp_all [Routine.counts]
  | call =>
    refine ⟨fits.moves (by simp) (by simp), ?_, ?_, ?_, ?_, ?_, ?_, ?_, ?_, ?_⟩ <;> simp_all [Routine.counts]
  | finish =>
    refine ⟨fits.moves (by simp) (by simp), ?_, ?_, ?_, ?_, ?_, ?_, ?_, ?_, ?_⟩ <;> simp_all [Routine.counts]
  | terminate =>
    refine ⟨fits, ?_, ?_, ?_, ?_, ?_, ?_, ?_, ?_, ?_⟩ <;> simp_all [Routine.counts]
  | exit =>
    have ran : .finished ∈ trace := List.count_pos_iff.mp (finished ▸ Nat.one_pos)
    refine ⟨fits.moves (by simp) (by simp), ?_, ?_, ?_, ?_, ?_, ?_, ?_, ?_, ?_⟩ <;> simp_all [Routine.counts]

theorem sound_of_reaches (reached : (launchThread copy result closure).Reaches trace launch) :
    Sound result closure trace launch := by
  refine reached.invariant (Sound result closure) ?_ (fun _ _ _ _ _ sound step => sound.step step)
  rintro _ rfl
  constructor <;> simp [Fits, Routine.counts]

end Step

section Owned
variable {copy : Copy} {result : Created} {closure : Closure} {launch : Launch} {trace : List Event}

theorem reaches_final (copy : Copy) (result : Created) (closure : Closure) (launch : Launch) :
    ∃ more last, (launchThread copy result closure).Run launch more last ∧
      (launchThread copy result closure).Final last :=
  System.run_final Launch.rank (fun step => Step.rank_lt step) launch

theorem final_ended (sound : Sound .success .returns trace launch)
    (final : (launchThread copy .success .returns).Final launch) : launch.routine = .ended := by
  obtain ⟨creator, routine, terminated⟩ := launch
  have alive : terminated = false := by
    cases terminated with
    | false => rfl
    | true => cases sound.lives rfl
  subst alive
  have fits := sound.fits
  cases routine with
  | ended => rfl
  | absent =>
    cases creator with
    | copy => exact absurd .copy (final _ _)
    | create => exact absurd .create (final _ _)
    | test err => exact absurd rfl (fits.2.mp rfl)
    | returned => exact absurd rfl (fits.mp rfl)
    | delete | throw | threw => exact fits.elim
  | task => exact absurd .task (final _ _)
  | call => exact absurd .call (final _ _)
  | calling => exact absurd (.finish rfl) (final _ _)
  | exit => exact absurd .exit (final _ _)

theorem owned_of_created (copy : Copy) : Owned copy .success .returns where
  created _ trace launch reached := by
    have sound := sound_of_reaches reached
    refine ⟨?_, ?_, sound.after, fun final => ?_⟩
    · rw [sound.called]
      cases launch.routine <;> decide
    · rw [sound.freed]
      cases launch.routine <;> decide
    · rw [sound.called, sound.freed, final_ended sound final]
      exact ⟨rfl, rfl⟩
  refused fails := absurd rfl fails
  names trace launch reached returned := by
    have sound := sound_of_reaches reached
    have fits := sound.fits
    rw [sound.returned.mp returned] at fits
    exact sound.started.mpr fun absent => absurd rfl (fits.mp absent)
  ends trace launch _ := reaches_final copy .success .returns launch

/-- A refusal is not noticed: nothing is ever thrown. -/
theorem created_of_owned (owned : Owned copy result closure) : result = .success := by
  by_contra refused
  obtain ⟨trace, last, run, final⟩ := reaches_final copy result closure ⟨.copy, .absent, false⟩
  have reached : (launchThread copy result closure).Reaches trace last := ⟨_, rfl, run⟩
  have threw := ((owned.refused refused trace last reached).2.2.2 final).2
  exact absurd threw (sound_of_reaches reached).threw

theorem returns_of_owned (owned : Owned copy .success closure) : closure = .returns := by
  obtain ⟨trace, last, run, final⟩ := reaches_final copy .success closure ⟨.copy, .absent, false⟩
  have reached : (launchThread copy .success closure).Reaches trace last := ⟨_, rfl, run⟩
  have sound := sound_of_reaches reached
  have freed := ((owned.created rfl trace last reached).2.2.2 final).2
  apply sound.returns
  rw [sound.freed] at freed
  cases routine : last.routine <;> rw [routine] at freed <;> first | rfl | cases freed

/-- The closure has its one owner exactly when pthread_create succeeds and the closure's call
comes to its end. -/
theorem owned_iff (copy : Copy) (result : Created) (closure : Closure) :
    Owned copy result closure ↔ result.err = 0 ∧ closure = .returns := by
  constructor
  · intro owned
    obtain rfl := created_of_owned owned
    exact ⟨rfl, returns_of_owned owned⟩
  · rintro ⟨created, rfl⟩
    cases result with
    | success => exact owned_of_created copy
    | error number positive =>
      have zero : number = 0 := created
      omega

/-- EAGAIN, 11: the caller is told of a thread that was never started, and nobody frees the closure. -/
theorem not_owned_eagain : ¬Owned .socknet (.error 11 (by decide)) .returns := by
  intro owned
  cases created_of_owned owned

end Owned

end CppRt.LaunchThread

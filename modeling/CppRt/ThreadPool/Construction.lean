import Mathlib.Data.List.Count
import Mathlib.Data.List.Nodup
import Mathlib.Data.Option.Basic
import Mathlib.Tactic.Common

/-!
The pool's constructor and destructor when pthread_create can fail. launch_thread
compares the result with -1, while pthread_create returns zero or a positive error
number: a launch that has failed passes for one that has succeeded, its element of
threads is never written, and the destructor joins it like the others.
-/

namespace CppRt.ThreadPool

/-- What one call of pthread_create comes to. -/
inductive Created where
  | success
  | error (number : Int) (positive : 0 < number)

def Created.err : Created → Int
  | .success => 0
  | .error number _ => number

/-- The constructor's progress. An identifier is the number of the launch that stored it, and
`none` stands for an element of the array nothing has been stored in. -/
structure Construction where
  threads : List (Option Nat)
  allocated : Bool
  running : List Nat
  deriving DecidableEq

def Construction.start (pool : Construction) (i : Nat) : Construction :=
  { pool with threads := pool.threads.set i (some i), running := pool.running ++ [i] }

def pthreadCreate (i : Nat) (pool : Construction) : Created → Int × Construction
  | .success => (0, pool.start i)
  | .error number _ => (number, pool)

def launchThread (i : Nat) (result : Created) (pool : Construction) : Except Construction Construction :=
  let (err, pool) := pthreadCreate i pool result
  if err = -1 then .error pool else .ok pool

def launchFrom : Nat → List Created → Construction → Except Construction Construction
  | _, [], pool => .ok pool
  | i, result :: results, pool => do
    let pool ← launchThread i result pool
    launchFrom (i + 1) results pool

def Construction.threadpool (results : List Created) : Except Construction Construction :=
  launchFrom 0 results ⟨List.replicate results.length none, true, []⟩

/-- What the destructor's second loop gives to pthread_join, element by element. -/
def joins (pool_size : Nat) (pool : Construction) : List (Option Nat) :=
  (List.range pool_size).map fun i => pool.threads[i]?.join

/-- After the constructor there is a whole pool, which the destructor joins worker by worker,
or nothing. -/
def AllOrNothing (results : List Created) : Prop :=
  match Construction.threadpool results with
  | .ok pool => pool.running.length = results.length ∧ (∀ worker ∈ pool.running, some worker ∈ pool.threads) ∧
      (joins results.length pool).Nodup ∧
      ∀ joined ∈ joins results.length pool, ∃ worker ∈ pool.running, joined = some worker
  | .error left => left.running = [] ∧ left.allocated = false

def Created.stored (i : Nat) : Created → Option Nat
  | .success => some i
  | .error _ _ => none

def stored : Nat → List Created → List (Option Nat)
  | _, [] => []
  | i, result :: results => result.stored i :: stored (i + 1) results

theorem launchThread_ok (i : Nat) (result : Created) (pool : Construction) :
    launchThread i result pool = .ok (pthreadCreate i pool result).2 := by
  cases result with
  | success => rfl
  | error number positive =>
    have different : number ≠ -1 := by omega
    simp [launchThread, pthreadCreate, different]

theorem launchFrom_cons (i : Nat) (result : Created) (results : List Created) (pool : Construction) :
    launchFrom i (result :: results) pool = launchFrom (i + 1) results (pthreadCreate i pool result).2 := by
  rw [launchFrom, launchThread_ok]
  rfl

theorem launchFrom_stored (results : List Created) (before : List (Option Nat)) (running : List Nat) :
    launchFrom before.length results ⟨before ++ List.replicate results.length none, true, running⟩ =
      .ok ⟨before ++ stored before.length results, true, running ++ (stored before.length results).filterMap id⟩ := by
  induction results generalizing before running with
  | nil => simp [launchFrom, stored]
  | cons result results ih =>
    rw [launchFrom_cons]
    cases result with
    | success =>
      have next := ih (before ++ [some before.length]) (running ++ [before.length])
      simpa [pthreadCreate, Construction.start, stored, Created.stored, List.replicate_succ] using next
    | error number positive =>
      have next := ih (before ++ [none]) running
      simpa [pthreadCreate, stored, Created.stored, List.replicate_succ] using next

theorem threadpool_stored (results : List Created) :
    Construction.threadpool results = .ok ⟨stored 0 results, true, (stored 0 results).filterMap id⟩ := by
  have constructed := launchFrom_stored results [] []
  simpa [Construction.threadpool] using constructed

theorem length_stored (i : Nat) (results : List Created) : (stored i results).length = results.length := by
  induction results generalizing i with
  | nil => rfl
  | cons result results ih => simp [stored, ih]

theorem joins_threads (pool : Construction) : joins pool.threads.length pool = pool.threads := by
  apply List.ext_getElem
  · simp [joins]
  · intro i less also
    simp [joins, also]

theorem none_stored (i : Nat) (results : List Created) (failed : ∃ result ∈ results, result ≠ .success) :
    none ∈ stored i results := by
  induction results generalizing i with
  | nil =>
    obtain ⟨_, member, _⟩ := failed
    cases member
  | cons first rest ih =>
    cases first with
    | error => exact List.mem_cons_self
    | success =>
      obtain ⟨result, member, fails⟩ := failed
      rcases List.mem_cons.mp member with here | later
      · exact absurd here fails
      · exact List.mem_cons_of_mem _ (ih (i + 1) ⟨result, later, fails⟩)

theorem stored_range (i : Nat) (results : List Created) (succeeded : ∀ result ∈ results, result = .success) :
    stored i results = (List.range' i results.length).map some := by
  induction results generalizing i with
  | nil => rfl
  | cons result results ih =>
    rw [succeeded result List.mem_cons_self, stored, ih (i + 1) fun other member =>
      succeeded other (List.mem_cons_of_mem _ member)]
    rfl

/-- Construction is all or nothing exactly when no pthread_create fails. -/
theorem all_or_nothing_iff (results : List Created) :
    AllOrNothing results ↔ ∀ result ∈ results, result.err = 0 := by
  have zero (result : Created) : result.err = 0 ↔ result = .success := by
    cases result with
    | success => simp [Created.err]
    | error number positive =>
      have nonzero : number ≠ 0 := by omega
      simp [Created.err, nonzero]
  simp only [zero]
  have elements : joins results.length ⟨stored 0 results, true, (stored 0 results).filterMap id⟩ = stored 0 results := by
    have through := joins_threads ⟨stored 0 results, true, (stored 0 results).filterMap id⟩
    rwa [length_stored] at through
  simp only [AllOrNothing, threadpool_stored, elements]
  constructor
  · intro whole
    by_contra failed
    have missing := none_stored 0 results (by simpa using failed)
    obtain ⟨_, _, wrong⟩ := whole.2.2.2 none missing
    cases wrong
  · intro succeeded
    rw [stored_range 0 results succeeded]
    refine ⟨by simp, ?_, ?_, ?_⟩
    · intro worker member
      simpa using member
    · exact List.Nodup.map (Option.some_injective _) List.nodup_range'
    · intro joined member
      obtain ⟨worker, inside, rfl⟩ := List.mem_map.mp member
      exact ⟨worker, by simpa using inside, rfl⟩

/-- EAGAIN, 11, from the second of two launches: the destructor joins what was never stored. -/
theorem not_all_or_nothing_second : ¬AllOrNothing [.success, .error 11 (by decide)] := by
  intro whole
  exact absurd (whole.2.2.2 none (by decide)) (by decide)

end CppRt.ThreadPool

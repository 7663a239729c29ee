import CppRt.Library.RwLock
import CppRt.Library.Concurrent

/-!
Objects whose data is guarded by a readers-writer lock. The operations are given by
the steps of a single thread on the data and its own position, and by the positions
at which it takes and gives back the lock.

A discipline assigns to every position the section a thread is in there, says what
the data is while nobody writes and what a thread knows at a position. Its laws are
about single steps; together they hold in every state of the object. A refinement
reads each position as a stage of an atomic operation, and linearizes the object.
-/

namespace CppRt.Library
open Concurrent RwLock

structure Guarded (Thread Data Pc Call Ret : Type*) where
  initial : Data
  outside : Pc
  entry : Call → Pc
  returning : Ret → Pc
  rdlock : Pc → Pc → Prop
  wrlock : Pc → Pc → Prop
  unlock : Pc → Pc → Prop
  moves : Data → Pc → Option (Action Call Ret) → Data → Pc → Prop

namespace Guarded
variable {Thread Data Pc Call Ret : Type*}

structure State (Thread Data Pc : Type*) where
  data : Data
  lock : RwLock Thread
  pc : Thread → Pc

variable [DecidableEq Thread] (guarded : Guarded Thread Data Pc Call Ret)

inductive Step (state : State Thread Data Pc) (thread : Thread) :
    Option (Action Call Ret) → State Thread Data Pc → Prop where
  | call {call : Call} (outside : state.pc thread = guarded.outside) :
      Step state thread (some (.call call))
        { state with pc := Function.update state.pc thread (guarded.entry call) }
  | rdlock {lock : RwLock Thread} {pc : Pc} (waits : guarded.rdlock (state.pc thread) pc)
      (locked : state.lock.rdlock thread = some lock) :
      Step state thread none { state with lock, pc := Function.update state.pc thread pc }
  | wrlock {lock : RwLock Thread} {pc : Pc} (waits : guarded.wrlock (state.pc thread) pc)
      (locked : state.lock.wrlock thread = some lock) :
      Step state thread none { state with lock, pc := Function.update state.pc thread pc }
  | unlock {lock : RwLock Thread} {pc : Pc} (leaves : guarded.unlock (state.pc thread) pc)
      (unlocked : state.lock.unlock thread = some lock) :
      Step state thread none { state with lock, pc := Function.update state.pc thread pc }
  | inside {action : Option (Action Call Ret)} {data : Data} {pc : Pc}
      (moved : guarded.moves state.data (state.pc thread) action data pc) :
      Step state thread action { state with data, pc := Function.update state.pc thread pc }
  | ret {ret : Ret} (returns : state.pc thread = guarded.returning ret) :
      Step state thread (some (.ret ret))
        { state with pc := Function.update state.pc thread guarded.outside }

def object : Object Thread (State Thread Data Pc) Call Ret where
  start state := state = ⟨guarded.initial, .shared [], fun _ => guarded.outside⟩
  step := guarded.Step
  wake _ _ := False

/-- `Resting` is what the data is while nobody writes, `Knows` what a thread knows of it. -/
structure Discipline where
  holds : Pc → Section
  Resting : Data → Prop
  Knows : Data → Pc → Prop
  resting_initial : Resting guarded.initial
  holds_outside : holds guarded.outside = .outside
  holds_entry : ∀ call, holds (guarded.entry call) = .outside
  holds_returning : ∀ ret, holds (guarded.returning ret) = .outside
  holds_rdlock : ∀ {pc after}, guarded.rdlock pc after → holds pc = .outside ∧ holds after = .reading
  holds_wrlock : ∀ {pc after}, guarded.wrlock pc after → holds pc = .outside ∧ holds after = .writing
  holds_unlock : ∀ {pc after}, guarded.unlock pc after → holds pc ≠ .outside ∧ holds after = .outside
  holds_moves : ∀ {data pc action later after}, guarded.moves data pc action later after →
    holds pc ≠ .outside ∧ holds after = holds pc
  only_writes : ∀ {data pc action later after}, guarded.moves data pc action later after →
    holds pc = .writing ∨ later = data
  knows_outside : ∀ {data pc}, holds pc = .outside → Knows data pc
  knows_rdlock : ∀ {data pc after}, guarded.rdlock pc after → Resting data → Knows data after
  knows_wrlock : ∀ {data pc after}, guarded.wrlock pc after → Resting data → Knows data after
  knows_moves : ∀ {data pc action later after}, guarded.moves data pc action later after →
    Knows data pc → Knows later after
  resting_unlock : ∀ {data pc after}, guarded.unlock pc after → holds pc = .writing →
    Knows data pc → Resting data

namespace Discipline
variable {guarded} (discipline : guarded.Discipline)
variable {thread : Thread} {action : Option (Action Call Ret)} {state next : State Thread Data Pc}

structure Sound (state : State Thread Data Pc) : Prop where
  grants : state.lock.Grants fun thread => discipline.holds (state.pc thread)
  knows : ∀ thread, discipline.Knows state.data (state.pc thread)
  rests : (∀ thread, discipline.holds (state.pc thread) ≠ .writing) → discipline.Resting state.data

variable {discipline}

private theorem holds_update (family : Thread → Pc) (thread : Thread) (pc : Pc) :
    (fun other => discipline.holds (Function.update family thread pc other)) =
      Function.update (fun other => discipline.holds (family other)) thread (discipline.holds pc) :=
  Function.comp_update discipline.holds family thread pc

private theorem knows_update {data : Data} {pc : Pc} {family : Thread → Pc}
    (own : discipline.Knows data pc)
    (others : ∀ other, other ≠ thread → discipline.Knows data (family other)) (other : Thread) :
    discipline.Knows data (Function.update family thread pc other) :=
  (Function.forall_update_iff family fun _ (pc : Pc) => discipline.Knows data pc).mpr ⟨own, others⟩ other

private theorem nobody_wrote {pc : Pc} {family : Thread → Pc}
    (own : discipline.holds (family thread) ≠ .writing)
    (nobody : ∀ other, discipline.holds (Function.update family thread pc other) ≠ .writing)
    (other : Thread) : discipline.holds (family other) ≠ .writing := by
  by_cases same : other = thread
  · rwa [same]
  · simpa only [Function.update_of_ne same] using nobody other

theorem Sound.start : discipline.Sound
    ⟨guarded.initial, .shared [], fun _ => guarded.outside⟩ where
  grants := by
    simp only [discipline.holds_outside]
    exact Grants.start
  knows _ := discipline.knows_outside discipline.holds_outside
  rests _ := discipline.resting_initial

private theorem Sound.stays {pc : Pc} (sound : discipline.Sound state) (thread : Thread)
    (same : discipline.holds pc = discipline.holds (state.pc thread))
    (knows : discipline.Knows state.data pc) :
    discipline.Sound { state with pc := Function.update state.pc thread pc } where
  grants := by
    simp only [holds_update, same]
    rw [Function.update_eq_self thread fun other => discipline.holds (state.pc other)]
    exact sound.grants
  knows := knows_update knows fun other _ => sound.knows other
  rests nobody := by
    apply sound.rests
    intro other
    by_cases here : other = thread
    · subst here
      simpa only [Function.update_self, same] using nobody other
    · simpa only [Function.update_of_ne here] using nobody other

theorem Sound.alone (sound : discipline.Sound state) {other : Thread}
    (writes : discipline.holds (state.pc thread) = .writing)
    (inside : discipline.holds (state.pc other) ≠ .outside) : thread = other :=
  sound.grants.alone writes inside

/-- A step of one thread leaves the data alone as long as another is in a section. -/
theorem Sound.data_kept (sound : discipline.Sound state) {other : Thread}
    (step : guarded.Step state thread action next) (different : thread ≠ other)
    (inside : discipline.holds (state.pc other) ≠ .outside) : next.data = state.data := by
  cases step with
  | inside moved =>
    rcases discipline.only_writes moved with writes | kept
    · exact absurd (sound.alone writes inside) different
    · exact kept
  | _ => rfl

theorem Sound.step (sound : discipline.Sound state) (step : guarded.Step state thread action next) :
    discipline.Sound next := by
  cases step with
  | @call call outside =>
    have entering := discipline.holds_entry call
    refine sound.stays thread ?_ (discipline.knows_outside entering)
    rw [entering, outside, discipline.holds_outside]
  | @ret ret returns =>
    refine sound.stays thread ?_ (discipline.knows_outside discipline.holds_outside)
    rw [returns, discipline.holds_outside, discipline.holds_returning]
  | @rdlock lock pc waits locked =>
    obtain ⟨out, reads⟩ := discipline.holds_rdlock waits
    have resting := sound.rests (sound.grants.no_writer locked)
    refine ⟨?_, knows_update (discipline.knows_rdlock waits resting) fun other _ => sound.knows other,
      fun _ => resting⟩
    simp only [holds_update, reads]
    exact sound.grants.rdlock out locked
  | @wrlock lock pc waits locked =>
    obtain ⟨out, writes⟩ := discipline.holds_wrlock waits
    have resting : discipline.Resting state.data := by
      apply sound.rests
      intro other
      rw [sound.grants.nobody locked other]
      decide
    refine ⟨?_, knows_update (discipline.knows_wrlock waits resting) fun other _ => sound.knows other,
      fun _ => resting⟩
    simp only [holds_update, writes]
    exact sound.grants.wrlock locked
  | @unlock lock pc leaves unlocked =>
    obtain ⟨_, out⟩ := discipline.holds_unlock leaves
    refine ⟨?_, knows_update (discipline.knows_outside out) fun other _ => sound.knows other, ?_⟩
    · simp only [holds_update, out]
      exact sound.grants.unlock unlocked
    · intro nobody
      by_cases writes : discipline.holds (state.pc thread) = .writing
      · exact discipline.resting_unlock leaves writes (sound.knows thread)
      · exact sound.rests (nobody_wrote writes nobody)
  | @inside _ data pc moved =>
    obtain ⟨inside, same⟩ := discipline.holds_moves moved
    have own := discipline.knows_moves moved (sound.knows thread)
    rcases discipline.only_writes moved with writes | rfl
    · refine ⟨?_, knows_update own ?_, ?_⟩
      · simp only [holds_update, same]
        rw [Function.update_eq_self thread fun other => discipline.holds (state.pc other)]
        exact sound.grants
      · intro other different
        apply discipline.knows_outside
        by_contra also
        exact different (sound.alone writes also).symm
      · intro nobody
        have wrong := nobody thread
        simp only [Function.update_self, same] at wrong
        exact absurd writes wrong
    · exact sound.stays thread same own

end Discipline

structure Refinement {Contents : Type*} (discipline : guarded.Discipline)
    (spec : Sequential Contents Call Ret) where
  contents : Data → Contents
  status : Pc → Status Call Ret
  contents_initial : contents guarded.initial = spec.initial
  status_outside : status guarded.outside = .idle
  status_entry : ∀ call, status (guarded.entry call) = .pending call
  status_returning : ∀ ret, status (guarded.returning ret) = .done ret
  status_rdlock : ∀ {pc after}, guarded.rdlock pc after → status after = status pc
  status_wrlock : ∀ {pc after}, guarded.wrlock pc after → status after = status pc
  status_unlock : ∀ {data pc after}, guarded.unlock pc after → discipline.Knows data pc →
    status after = status pc
  moves_refine : ∀ {data pc action later after}, guarded.moves data pc action later after →
    discipline.Knows data pc →
    action = none ∧ contents later = contents data ∧ status after = status pc ∨
      ∃ call ret, action = some (.commit call ret) ∧ status pc = .pending call ∧
        spec.apply (contents data) call = some (contents later, ret) ∧ status after = .done ret

namespace Refinement
variable {guarded} {Contents : Type*} {spec : Sequential Contents Call Ret}
variable {discipline : guarded.Discipline} (refinement : guarded.Refinement discipline spec)
variable {thread : Thread} {action : Option (Action Call Ret)} {state next : State Thread Data Pc}

def abs (state : State Thread Data Pc) : Atomic Thread Contents Call Ret :=
  ⟨refinement.contents state.data, fun thread => refinement.status (state.pc thread)⟩

private theorem abs_update (data : Data) (lock : RwLock Thread) (family : Thread → Pc) (thread : Thread)
    (pc : Pc) : refinement.abs ⟨data, lock, Function.update family thread pc⟩ =
      ⟨refinement.contents data,
        Function.update (fun other => refinement.status (family other)) thread (refinement.status pc)⟩ :=
  congrArg (Atomic.mk _) (Function.comp_update refinement.status family thread pc)

private theorem abs_silent {data : Data} {lock : RwLock Thread} {pc : Pc}
    (same : refinement.contents data = refinement.contents state.data)
    (kept : refinement.status pc = refinement.status (state.pc thread)) :
    refinement.abs ⟨data, lock, Function.update state.pc thread pc⟩ = refinement.abs state := by
  rw [abs_update, same, kept, Function.update_eq_self thread fun other => refinement.status (state.pc other)]
  rfl

theorem abs_step (sound : discipline.Sound state) (step : guarded.Step state thread action next) :
    AtomicStep spec (refinement.abs state) thread action (refinement.abs next) ∨
      action = none ∧ refinement.abs next = refinement.abs state := by
  cases step with
  | @call call outside =>
    left
    rw [abs_update, refinement.status_entry]
    exact .call ((congrArg refinement.status outside).trans refinement.status_outside)
  | rdlock waits locked => exact .inr ⟨rfl, refinement.abs_silent rfl (refinement.status_rdlock waits)⟩
  | wrlock waits locked => exact .inr ⟨rfl, refinement.abs_silent rfl (refinement.status_wrlock waits)⟩
  | unlock leaves unlocked =>
    exact .inr ⟨rfl, refinement.abs_silent rfl (refinement.status_unlock leaves (sound.knows thread))⟩
  | @inside _ data pc moved =>
    rcases refinement.moves_refine moved (sound.knows thread) with
      ⟨rfl, same, kept⟩ | ⟨call, ret, rfl, pending, applied, done⟩
    · exact .inr ⟨rfl, refinement.abs_silent same kept⟩
    · left
      rw [abs_update, done]
      exact .commit pending applied
  | @ret ret returns =>
    left
    rw [abs_update, refinement.status_outside]
    exact .ret ((congrArg refinement.status returns).trans (refinement.status_returning ret))

/-- An object guarded by a readers-writer lock with a discipline and a refinement is linearizable. -/
def linearization : Linearization guarded.object spec where
  menu _ := True
  inv := discipline.Sound
  abs := refinement.abs
  start := by
    intro state begins
    cases begins
    refine ⟨Discipline.Sound.start, ?_⟩
    simp only [abs, refinement.contents_initial, refinement.status_outside]
  step sound _ step := ⟨sound.step step, refinement.abs_step sound step⟩
  wake _ woken := woken.elim

end Refinement

section Alone
variable {guarded} {thread : Thread} {base : Thread → Pc} {data later : Data} {lock next : RwLock Thread}
variable {pc after : Pc} {action : Option (Action Call Ret)}

def State.with (base : Thread → Pc) (thread : Thread) (data : Data) (lock : RwLock Thread) (pc : Pc) :
    State Thread Data Pc :=
  ⟨data, lock, Function.update base thread pc⟩

theorem with_pc : (State.with base thread data lock pc).pc thread = pc := Function.update_self _ _ _

theorem call_alone (call : Call) (outside : base thread = guarded.outside) :
    guarded.object.step ⟨data, lock, base⟩ thread (some (.call call))
      (.with base thread data lock (guarded.entry call)) :=
  .call outside

theorem rdlock_alone (waits : guarded.rdlock pc after) (locked : lock.rdlock thread = some next) :
    guarded.object.step (.with base thread data lock pc) thread none (.with base thread data next after) := by
  have own : (State.with base thread data lock pc).pc thread = pc := with_pc
  have step : guarded.Step (.with base thread data lock pc) thread none _ :=
    .rdlock (own.symm ▸ waits) locked
  simpa only [object, State.with, Function.update_idem] using step

theorem wrlock_alone (waits : guarded.wrlock pc after) (locked : lock.wrlock thread = some next) :
    guarded.object.step (.with base thread data lock pc) thread none (.with base thread data next after) := by
  have own : (State.with base thread data lock pc).pc thread = pc := with_pc
  have step : guarded.Step (.with base thread data lock pc) thread none _ :=
    .wrlock (own.symm ▸ waits) locked
  simpa only [object, State.with, Function.update_idem] using step

theorem unlock_alone (leaves : guarded.unlock pc after) (unlocked : lock.unlock thread = some next) :
    guarded.object.step (.with base thread data lock pc) thread none (.with base thread data next after) := by
  have own : (State.with base thread data lock pc).pc thread = pc := with_pc
  have step : guarded.Step (.with base thread data lock pc) thread none _ :=
    .unlock (own.symm ▸ leaves) unlocked
  simpa only [object, State.with, Function.update_idem] using step

theorem inside_alone (moved : guarded.moves data pc action later after) :
    guarded.object.step (.with base thread data lock pc) thread action
      (.with base thread later lock after) := by
  have own : (State.with base thread data lock pc).pc thread = pc := with_pc
  have step : guarded.Step (.with base thread data lock pc) thread action _ :=
    .inside (own.symm ▸ moved)
  simpa only [object, State.with, Function.update_idem] using step

theorem ret_alone (ret : Ret) (outside : base thread = guarded.outside) :
    guarded.object.step (.with base thread data lock (guarded.returning ret)) thread (some (.ret ret))
      ⟨data, lock, base⟩ := by
  have step : guarded.Step (.with base thread data lock (guarded.returning ret)) thread (some (.ret ret)) _ :=
    .ret with_pc
  simpa only [object, State.with, Function.update_idem, ← outside, Function.update_eq_self] using step

end Alone

end Guarded

end CppRt.Library

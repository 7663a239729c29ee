import CppRt.Workers.Crew
import Mathlib.Logic.Function.Basic

/-!
Runs of a crew of one worker and one sender in which every queue operation is
carried out alone, around any queue that serves its threads one at a time: from the
launch to the start of the one task sent, and from the pushed empty task to the end
of the destructor.
-/

namespace CppRt.Workers
open Library Transition Concurrent Queue

variable {Task Output Machine : Type*}

def solo (owner : Owner) (worker : Worker Task Output) (unsent : List (Option Task)) :
    Progress 1 Unit Task Output := ⟨owner, fun _ => worker, fun _ => unsent⟩

abbrev lone : Party 1 Unit := .worker 0

/-- The events of one operation carried out alone. -/
def alone (party : Party 1 Unit) (call : Call (Option Task)) (ret : Ret (Option Task)) :
    List (Event 1 Unit Task Output) :=
  [.act party (.call call), .act party (.commit call ret), .act party (.ret ret)]

def untilStarted (f : Task) : List (Event 1 Unit Task Output) :=
  [.note .owner (.launch 0), .note .owner .control] ++ alone (.sender ()) (.push (some f)) .pushed ++
    alone lone .pop (.popped (some f)) ++ [.note lone (.start f)]

def untilJoined : List (Event 1 Unit Task Output) :=
  [.note .owner .control] ++ alone lone .pop (.popped none) ++
    [.note lone .exit, .note .owner (.join 0), .note .owner .control]

def untilDestroyed (left : List Sync) : List (Event 1 Unit Task Output) :=
  left.map (fun sync => .note .owner (.destroy sync)) ++ [.note .owner .control]

variable {plan : Plan Unit Task Output} {program : List (Option Task)} {unsent : List (Option Task)}
variable {object : Object (Party 1 Unit) Machine (Call (Option Task)) (Ret (Option Task))}
variable {progress next : Progress 1 Unit Task Output} {party : Party 1 Unit}
variable {q : List (Option Task)} {f : Option Task} {owner : Owner} {worker : Worker Task Output}

theorem solo_setWorker (index : Fin 1) (later : Worker Task Output) :
    (solo owner worker unsent).setWorker index later = solo owner later unsent := by
  unfold solo Progress.setWorker
  congr
  funext other
  rw [Subsingleton.elim other index, Function.update_self]

theorem work_alone {machine : Machine} {note : Note 1 Task Output}
    (worked : progress.Works plan party note next) :
    (compose object (crew 1 plan)).Run ⟨machine, progress⟩ [.note party note] ⟨machine, next⟩ :=
  Step.run (.work worked)

theorem worker_alone {machine : Machine} {note : Note 1 Task Output} (index : Fin 1) {later : Worker Task Output}
    (worked : (solo owner worker unsent).Works plan (.worker index) note
      ((solo owner worker unsent).setWorker index later)) :
    (compose object (crew 1 plan)).Run ⟨machine, solo owner worker unsent⟩ [.note (.worker index) note]
      ⟨machine, solo owner later unsent⟩ := by
  have run : (compose object (crew 1 plan)).Run ⟨machine, _⟩ _ _ := work_alone worked
  rwa [solo_setWorker] at run

theorem run_launched {machine : Machine} :
    (compose object (crew 1 plan)).Run ⟨machine, solo (.constructing 0) .absent unsent⟩
      [.note .owner (.launch 0), .note .owner .control] ⟨machine, solo .constructed .waiting unsent⟩ := by
  have launched : Progress.Works plan (solo (.constructing 0) .absent unsent) .owner (.launch 0)
      (solo (.constructing 1) .waiting unsent) := by
    have launched : Progress.Works plan (solo (.constructing 0) .absent unsent) .owner (.launch 0) _ :=
      .launch rfl Nat.one_pos rfl
    rwa [solo_setWorker] at launched
  exact (work_alone launched).trans (work_alone (.launched rfl (Nat.lt_irrefl 1)))

section Serving
variable (serving : Serving object)

theorem push_alone (asked : progress.asks party = some (.push f)) (resumed : progress.Resumes party .pushed next) :
    (compose object (crew 1 plan)).Run ⟨serving.resting q fun _ => false, progress⟩
      (alone party (.push f) .pushed) ⟨serving.resting (q ++ [f]) fun _ => false, next⟩ :=
  (serving.push party q f).run asked resumed

theorem pop_alone (index : Fin 1) (answer : Option Task) :
    (compose object (crew 1 plan)).Run
      ⟨serving.resting (answer :: q) fun _ => false, solo owner .waiting unsent⟩
      (alone (.worker index) .pop (.popped answer))
      ⟨serving.resting q fun _ => false, solo owner (.got answer) unsent⟩ := by
  have resumed : (solo owner .waiting unsent).Resumes (.worker index) (.popped answer)
      (solo owner (.got answer : Worker Task Output) unsent) := by
    have popped : (solo owner (.waiting : Worker Task Output) unsent).Resumes (.worker index) (.popped answer) _ :=
      .popped rfl
    rwa [solo_setWorker] at popped
  exact (serving.pop (.worker index) answer q).run rfl resumed

theorem submit_alone (index : Fin 1) {f task : Task} {rest : List (Act Task Output)} :
    (compose object (crew 1 plan)).Run
      ⟨serving.resting q fun _ => false, solo owner (.running f (.submit task :: rest)) unsent⟩
      (alone (.worker index) (.push (some task)) .pushed)
      ⟨serving.resting (q ++ [some task]) fun _ => false, solo owner (.running f rest) unsent⟩ := by
  have resumed : (solo owner (.running f (.submit task :: rest)) unsent).Resumes (.worker index) .pushed
      ((solo owner (.running f (.submit task :: rest)) unsent).setWorker index (.running f rest)) :=
    .submitted rfl
  rw [solo_setWorker] at resumed
  exact push_alone serving rfl resumed

theorem send_alone {worker : Worker Task Output} :
    (compose object (crew 1 plan)).Run
      ⟨serving.resting q fun _ => false, solo .constructed worker (f :: unsent)⟩
      (alone (.sender ()) (.push f) .pushed)
      ⟨serving.resting (q ++ [f]) fun _ => false, solo .constructed worker unsent⟩ := by
  have sent : (solo .constructed worker (f :: unsent)).Resumes (.sender ()) .pushed
      (solo .constructed worker unsent) := by
    have sent : (solo .constructed worker (f :: unsent)).Resumes (.sender ()) .pushed _ := .sent
    rwa [show Function.update _ _ _ = fun _ : Unit => unsent from
      funext fun _ => Function.update_self _ _ _] at sent
  exact push_alone serving rfl sent

theorem run_untilStarted (task : Task) :
    (compose object (crew 1 plan)).Run
      ⟨serving.resting [] fun _ => false, solo (.constructing 0) .absent [some task]⟩ (untilStarted task)
      ⟨serving.resting [] fun _ => false, solo .constructed (.running task (plan.body task)) []⟩ := by
  refine run_launched.trans ((send_alone serving).trans ((pop_alone serving 0 (some task)).trans ?_))
  exact worker_alone 0 (.start rfl)

theorem run_untilJoined (rest : List (Option Task)) :
    (compose object (crew 1 plan)).Run
      ⟨serving.resting (none :: rest) fun _ => false, solo (.pushing 1) .waiting []⟩ untilJoined
      ⟨serving.resting rest fun _ => false, solo (.destroying plan.destroys) .exited []⟩ := by
  refine (work_alone (.pushed rfl (Nat.lt_irrefl 1))).trans ((pop_alone serving 0 none).trans ?_)
  refine (worker_alone 0 (.exit rfl)).trans ((work_alone (.join rfl Nat.one_pos rfl)).trans ?_)
  exact work_alone (.joined rfl (Nat.lt_irrefl 1))

end Serving

theorem run_untilDestroyed {machine : Machine} (left : List Sync) :
    (compose object (crew 1 plan)).Run ⟨machine, solo (.destroying left) worker unsent⟩ (untilDestroyed left)
      ⟨machine, solo .destroyed worker unsent⟩ := by
  induction left with
  | nil => exact work_alone (.destroyed rfl)
  | cons sync left ih => exact (work_alone (.destroy rfl)).trans ih

end CppRt.Workers

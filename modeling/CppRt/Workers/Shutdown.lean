import CppRt.Workers.Ledger
import Mathlib.Algebra.Order.BigOperators.Group.Finset

/-!
How a crew ends. One empty task is pushed per worker and each worker takes at most
one, so a destructor that has begun is never stuck on a worker asleep in its pop;
when it has joined the workers, what they have taken reaches exactly to its last
empty task, and everything before that has been run to completion.
-/

namespace CppRt.Workers
open Library Transition Concurrent Family Queue

variable {size : Nat} {Sender Task Output : Type*}

def tasks {Thread : Type*} (log : List (Thread × Option Task)) : List (Thread × Task) :=
  log.filterMap fun entry => entry.2.map (Prod.mk entry.1)

theorem tasks_values {Thread : Type*} (log : List (Thread × Option Task)) :
    (tasks log).map Prod.snd = log.filterMap Prod.snd := by
  rw [tasks, List.map_filterMap]
  congr 1
  funext entry
  cases entry.2 <;> rfl

theorem entries_tasks {Thread : Type*} [DecidableEq Thread] (thread : Thread) (log : List (Thread × Option Task)) :
    entries thread (tasks log) = (entries thread log).filterMap id := by
  rw [tasks, entries, entries, List.filterMap_filterMap, List.filterMap_filterMap]
  congr 1
  funext entry
  obtain ⟨writer, f⟩ := entry
  by_cases same : writer = thread <;> cases f <;> simp [same]

theorem filterMap_some (list : List Task) : (list.map some).filterMap id = list := by
  rw [List.filterMap_map]
  exact List.filterMap_some

variable [DecidableEq Sender] {plan : Plan Sender Task Output}
variable {trace : List (Event size Sender Task Output)} {state : Shift size Sender Task Output}

theorem taken_in_order (reached : (compose fifo.atomic (crew size plan)).Reaches trace state) :
    (taken trace).map Prod.snd ++ state.object.contents = (enqueued trace).map Prod.snd :=
  taken_append_contents (history_of_reaches reached)

theorem held_count (worker : Worker Task Output) (answer : Option (Ret (Option Task))) :
    (worker.held answer).length ≤ 1 := by
  unfold Worker.held
  split <;> simp

theorem started_taken (reached : (compose fifo.atomic (crew size plan)).Reaches trace state) :
    (noted Note.started trace).Subperm (tasks (taken trace)) := by
  refine subperm_of_writers Party.worker (runners (fun _ _ _ worked => by cases worked <;> rfl) reached) fun index => ?_
  rw [entries_tasks, (account_of_reaches reached index).taken, List.filterMap_append, filterMap_some]
  exact (List.sublist_append_left _ _).subperm

/-- Each worker takes at most one empty task, and exits on it. -/
theorem worker_nones (reached : (compose fifo.atomic (crew size plan)).Reaches trace state) (index : Fin size) :
    (entries (.worker index) (taken trace)).countP Option.isNone =
      ((state.client.worker index).held (state.object.status (.worker index)).answer).countP Option.isNone := by
  rw [(account_of_reaches reached index).taken, List.countP_append, Nat.add_eq_right]
  simp [List.countP_eq_zero]

theorem taken_nones (reached : (compose fifo.atomic (crew size plan)).Reaches trace state) :
    ((taken trace).map Prod.snd).countP Option.isNone = ∑ index, ((state.client.worker index).held
      (state.object.status (.worker index)).answer).countP Option.isNone := by
  rw [countP_by_writer _ (fun _ _ same => Party.worker.inj same) fun entry member _ => takers reached entry member]
  exact Finset.sum_congr rfl fun index _ => worker_nones reached index

theorem nones_by_owner (reached : (compose fifo.atomic (crew size plan)).Reaches trace state)
    (full : ∀ sender, none ∉ plan.program sender) {writer : Party size Sender}
    (member : (writer, none) ∈ enqueued trace) : writer = .owner := by
  cases writer with
  | owner => rfl
  | worker index =>
    obtain ⟨_, _, wrong, _⟩ := submissions reached index none member
    cases wrong
  | sender sender =>
    have pushed : none ∈ entries (.sender sender) (enqueued trace) := mem_entries.mpr member
    refine absurd ?_ (full sender)
    rw [← sender_account reached sender]
    exact List.mem_append_left _ pushed

theorem pushed_nones (reached : (compose fifo.atomic (crew size plan)).Reaches trace state)
    (full : ∀ sender, none ∉ plan.program sender) :
    ((enqueued trace).map Prod.snd).countP Option.isNone = sentinels state := by
  rw [countP_alone _ .owner, owner_account reached]
  · simp [List.countP_replicate]
  · intro ⟨writer, f⟩ member empty
    obtain rfl := Option.isNone_iff_eq_none.mp empty
    exact nones_by_owner reached full member

theorem sentinels_le (reached : (compose fifo.atomic (crew size plan)).Reaches trace state) :
    sentinels state ≤ ((enqueued trace).map Prod.snd).countP Option.isNone := by
  have bound := countP_entries_le Option.isNone Party.owner (enqueued trace)
  rw [owner_account reached] at bound
  simpa [List.countP_replicate] using bound

def Owner.joined : Owner → Bool
  | .destroying _ => true
  | .destroyed => true
  | _ => false

omit [DecidableEq Sender] in
theorem exited_of_joined {progress : Progress size Sender Task Output} (phases : Phases progress)
    (joined : progress.owner.joined = true) (index : Fin size) : progress.worker index = .exited := by
  apply phases.exited
  cases at_ : progress.owner with
  | destroying | destroyed => exact index.isLt
  | _ => simp [at_, Owner.joined] at joined

theorem sentinels_of_joined (reached : (compose fifo.atomic (crew size plan)).Reaches trace state)
    (joined : state.client.owner.joined = true) : sentinels state = size := by
  have free : (crew size plan).asks state.client .owner = none := by
    cases at_ : state.client.owner <;> simp_all [Owner.joined, crew, Progress.asks, Owner.asks]
  have agrees := agreesAll reached .owner
  rw [free] at agrees
  cases at_ : state.client.owner <;>
    simp_all [Owner.joined, sentinels, Owner.pushes, agrees.idle, Status.answer]

/-- Once the workers are joined, each has run all it took but the one empty task it exited on. -/
theorem joined_account (reached : (compose fifo.atomic (crew size plan)).Reaches trace state)
    (joined : state.client.owner.joined = true) (index : Fin size) :
    entries (.worker index) (taken trace) =
        (entries (.worker index) (noted Note.finished trace)).map some ++ [none] ∧
      entries (.worker index) (noted Note.started trace) =
        entries (.worker index) (noted Note.finished trace) := by
  obtain ⟨takes, starts⟩ := account_of_reaches reached index
  rw [exited_of_joined (phases_of_reaches reached) joined index] at takes starts
  simp only [Worker.held, Worker.current, List.append_nil] at takes starts
  exact ⟨starts ▸ takes, starts⟩

theorem finished_taken (reached : (compose fifo.atomic (crew size plan)).Reaches trace state)
    (joined : state.client.owner.joined = true) :
    (noted Note.finished trace).Perm (tasks (taken trace)) := by
  refine perm_of_writers Party.worker ?_ fun index => ?_
  · intro entry member
    rcases List.mem_append.mp member with finished | held
    · exact runners (fun _ _ _ worked => by cases worked <;> rfl) reached entry finished
    · obtain ⟨source, taken, kept⟩ := List.mem_filterMap.mp held
      obtain ⟨index, isIndex⟩ := takers reached source taken
      obtain ⟨f, -, rfl⟩ := Option.map_eq_some_iff.mp kept
      exact ⟨index, isIndex⟩
  · rw [entries_tasks, (joined_account reached joined index).1, List.filterMap_append, filterMap_some]
    simp

theorem started_finished (reached : (compose fifo.atomic (crew size plan)).Reaches trace state)
    (joined : state.client.owner.joined = true) :
    (noted Note.started trace).Perm (noted Note.finished trace) := by
  refine perm_of_writers Party.worker ?_ fun index => .of_eq (joined_account reached joined index).2
  intro entry member
  rcases List.mem_append.mp member with started | finished
  · exact runners (fun _ _ _ worked => by cases worked <;> rfl) reached entry started
  · exact runners (fun _ _ _ worked => by cases worked <;> rfl) reached entry finished

theorem taken_ends (reached : (compose fifo.atomic (crew size plan)).Reaches trace state) (workers : 0 < size)
    (joined : state.client.owner.joined = true) : ∃ before, (taken trace).map Prod.snd = before ++ [none] := by
  rcases List.eq_nil_or_concat (taken trace) with empty | ⟨before, ⟨thread, f⟩, shape⟩
  · have own := (joined_account reached joined ⟨0, workers⟩).1
    simp [empty] at own
  · obtain ⟨index, rfl⟩ := takers reached (thread, f) (by simp [shape])
    have own := (joined_account reached joined index).1
    rw [shape, List.concat_eq_append, entries_append, entries_self] at own
    have last : f = none := (List.append_inj_right' own rfl |> List.singleton_inj.mp)
    exact ⟨before.map Prod.snd, by simp [shape, last]⟩

theorem joined_nones (reached : (compose fifo.atomic (crew size plan)).Reaches trace state)
    (joined : state.client.owner.joined = true) : ((taken trace).map Prod.snd).countP Option.isNone = size := by
  have each : ∀ index : Fin size, ((state.client.worker index).held
      (state.object.status (.worker index)).answer).countP Option.isNone = 1 := by
    intro index
    rw [exited_of_joined (phases_of_reaches reached) joined index]
    rfl
  rw [taken_nones reached, Finset.sum_congr rfl fun index _ => each index]
  simp

theorem filterMap_snd {Thread : Type*} (log : List (Thread × Option Task)) :
    log.filterMap Prod.snd = (log.map Prod.snd).filterMap id := by
  rw [List.filterMap_map]
  rfl

theorem taken_first (reached : (compose fifo.atomic (crew size plan)).Reaches trace state) :
    (taken trace).filterMap Prod.snd <+: (enqueued trace).filterMap Prod.snd := by
  rw [filterMap_snd, filterMap_snd, ← taken_in_order reached, List.filterMap_append]
  exact List.prefix_append _ _

theorem started_subperm (reached : (compose fifo.atomic (crew size plan)).Reaches trace state) :
    ((noted Note.started trace).map Prod.snd).Subperm ((enqueued trace).filterMap Prod.snd) := by
  obtain ⟨chosen, order, part⟩ := started_taken reached
  have started : ((noted Note.started trace).map Prod.snd).Subperm ((tasks (taken trace)).map Prod.snd) :=
    ⟨chosen.map Prod.snd, order.map Prod.snd, part.map Prod.snd⟩
  rw [tasks_values] at started
  exact started.trans (taken_first reached).sublist.subperm

theorem sent_all (reached : (compose fifo.atomic (crew size plan)).Reaches trace state)
    (begun : state.client.owner.begun = true) (sender : Sender) :
    entries (.sender sender) (enqueued trace) = plan.program sender := by
  have account := sender_account reached sender
  rw [(phases_of_reaches reached).sent begun sender] at account
  simpa using account

theorem begun_of_pushed (reached : (compose fifo.atomic (crew size plan)).Reaches trace state)
    (pushed : entries .owner (enqueued trace) ≠ []) : state.client.owner.begun = true := by
  rw [owner_account reached] at pushed
  have idle := agreesAll reached .owner
  cases at_ : state.client.owner with
  | constructing | constructed =>
    simp only [crew, Progress.asks, at_, Owner.asks] at idle
    simp [sentinels, at_, Owner.pushes, idle.idle, Status.answer] at pushed
  | _ => rfl

/-- When no task submits another, nothing is pushed after the owner's empty tasks. -/
theorem sentinels_last (reached : (compose fifo.atomic (crew size plan)).Reaches trace state)
    (apart : ∀ f task, .submit task ∉ plan.body f) :
    entries .owner (enqueued trace) ≠ [] → ∃ before, (enqueued trace).map Prod.snd = before ++ [none] := by
  refine invariant_of_moves (fun trace _ => entries .owner (enqueued trace) ≠ [] →
    ∃ before, (enqueued trace).map Prod.snd = before ++ [none]) reached (fun _ _ => absurd rfl) ?_
  intro trace state label next earlier kept move
  cases move with
  | commit thread call ret later asked pending applied =>
    intro pushed
    cases crew_asks asked with
    | sentinel => exact ⟨(enqueued trace).map Prod.snd, by simp [enters]⟩
    | pop => simpa [enters] using kept (by simpa [enters] using pushed)
    | @submit index by_ task rest runs =>
      exact absurd ((running_suffix earlier _ _ _ runs).subset List.mem_cons_self) (apart by_ task)
    | @send sender f rest built upcoming =>
      have already : entries .owner (enqueued trace) ≠ [] := by
        simpa [enters, entries_other] using pushed
      have sent := (phases_of_reaches earlier).sent (begun_of_pushed earlier already) sender
      rw [sent] at upcoming
      cases upcoming
  | call | ret | work => simpa using kept

theorem senders_first (reached : (compose fifo.atomic (crew size plan)).Reaches trace state) :
    (enqueued trace).Pairwise fun earlier later => earlier.1 = .owner → ∀ sender, later.1 ≠ .sender sender := by
  refine invariant_of_moves (fun trace _ => (enqueued trace).Pairwise fun earlier later =>
    earlier.1 = .owner → ∀ sender, later.1 ≠ .sender sender) reached (fun _ _ => .nil) ?_
  intro trace state label next earlier kept move
  cases move with
  | commit thread call ret later asked pending applied =>
    simp only [Option.toList_some, enqueued_append, enqueued_commit]
    refine List.pairwise_append.mpr ⟨kept, by cases enters (thread, call, ret) <;> simp, ?_⟩
    intro entry member last now owned sender sends
    cases crew_asks asked with
    | @send _ f rest built upcoming =>
      obtain ⟨writer, value⟩ := entry
      obtain rfl : writer = .owner := owned
      have already := List.ne_nil_of_mem (mem_entries.mpr member)
      have sent := (phases_of_reaches earlier).sent (begun_of_pushed earlier already)
      rw [sent] at upcoming
      cases upcoming
    | pop => simp [enters] at now
    | sentinel | submit =>
      simp only [enters, Option.toList_some, List.mem_singleton] at now
      rw [now] at sends
      cases sends
  | call | ret | work => simpa using kept

/-- While a worker waits on the empty queue, an empty task is still owed to it. -/
theorem sentinels_lt (reached : (compose fifo.atomic (crew size plan)).Reaches trace state) {index : Fin size}
    (waits : state.client.worker index = .waiting)
    (unanswered : (state.object.status (.worker index)).answer = none) (empty : state.object.contents = []) :
    sentinels state < size := by
  have order := taken_in_order reached
  rw [empty, List.append_nil] at order
  have pushed := sentinels_le reached
  rw [← order, taken_nones reached] at pushed
  refine Nat.lt_of_le_of_lt pushed ?_
  have fewer : ∑ other, ((state.client.worker other).held
      (state.object.status (.worker other)).answer).countP Option.isNone < ∑ _ : Fin size, 1 := by
    refine Finset.sum_lt_sum (fun other _ => ?_) ⟨index, Finset.mem_univ _, ?_⟩
    · exact List.countP_le_length.trans (held_count _ _)
    · rw [waits, unanswered]
      exact Nat.one_pos
  simpa using fewer

theorem crew_offers {menu : Call (Option Task) → Prop} (push : ∀ f, menu (.push f)) (pop : menu .pop) :
    Offers menu (crew size plan) := by
  intro progress party call asked
  cases crew_asks asked with
  | pop => exact pop
  | sentinel | submit | send => exact push _

theorem finished_perm (reached : (compose fifo.atomic (crew size plan)).Reaches trace state)
    (joined : state.client.owner.joined = true) :
    ((noted Note.finished trace).map Prod.snd).Perm ((taken trace).filterMap Prod.snd) := by
  rw [← tasks_values]
  exact (finished_taken reached joined).map Prod.snd

/-- The joined workers have run exactly what was pushed before as many empty tasks as there
are workers, whoever pushed these, and what was pushed later is still in the queue. -/
theorem finished_before_stop (reached : (compose fifo.atomic (crew size plan)).Reaches trace state)
    (workers : 0 < size) (joined : state.client.owner.joined = true) :
    ∃ before writer after, enqueued trace = before ++ (writer, none) :: after ∧
      (before.map Prod.snd).countP Option.isNone + 1 = size ∧
      ((noted Note.finished trace).map Prod.snd).Perm (before.filterMap Prod.snd) ∧
      state.object.contents = after.map Prod.snd := by
  obtain ⟨values, last⟩ := taken_ends reached workers joined
  have nones := joined_nones reached joined
  have order := taken_in_order reached
  rw [last, List.append_assoc, List.singleton_append] at order
  obtain ⟨before, rest, shape, earlier, later⟩ := List.map_eq_append_iff.mp order.symm
  obtain ⟨⟨writer, f⟩, after, rfl, empty, left⟩ := List.map_eq_cons_iff.mp later
  obtain rfl : f = none := empty
  refine ⟨before, writer, after, shape, ?_, ?_, left.symm⟩
  · rw [last, ← earlier, List.countP_append] at nones
    simpa using nones
  · have finished := finished_perm reached joined
    rw [filterMap_snd, last, ← earlier] at finished
    simpa [← filterMap_snd] using finished

theorem finished_before_last (reached : (compose fifo.atomic (crew size plan)).Reaches trace state)
    (full : ∀ sender, none ∉ plan.program sender) (workers : 0 < size)
    (joined : state.client.owner.joined = true) :
    ∃ before after, enqueued trace = before ++ (.owner, none) :: after ∧ (.owner, none) ∉ after ∧
      ((noted Note.finished trace).map Prod.snd).Perm (before.filterMap Prod.snd) ∧
      state.object.contents = after.map Prod.snd := by
  obtain ⟨before, writer, after, shape, nones, finished, left⟩ := finished_before_stop reached workers joined
  have pushed : (writer, none) ∈ enqueued trace := by simp [shape]
  obtain rfl := nones_by_owner reached full pushed
  refine ⟨before, after, shape, fun member => ?_, finished, left⟩
  have all := pushed_nones reached full
  rw [sentinels_of_joined reached joined, shape, List.map_append, List.countP_append, List.map_cons,
    List.countP_cons_of_pos (by rfl)] at all
  have absent : (after.map Prod.snd).countP Option.isNone = 0 := by omega
  exact List.countP_eq_zero.mp absent none (List.mem_map_of_mem member) rfl

theorem drained (reached : (compose fifo.atomic (crew size plan)).Reaches trace state)
    (full : ∀ sender, none ∉ plan.program sender) (apart : ∀ f task, .submit task ∉ plan.body f)
    (workers : 0 < size) (joined : state.client.owner.joined = true) : state.object.contents = [] := by
  have pushed : entries .owner (enqueued trace) ≠ [] := by
    rw [owner_account reached, sentinels_of_joined reached joined]
    simpa using Nat.ne_of_gt workers
  obtain ⟨values, last⟩ := sentinels_last reached apart pushed
  obtain ⟨before, after, shape, absent, _, left⟩ := finished_before_last reached full workers joined
  rcases List.eq_nil_or_concat after with empty | ⟨rest, ⟨writer, f⟩, ends⟩
  · rw [left, empty, List.map_nil]
  · rw [shape, ends, List.concat_eq_append, ← List.cons_append, ← List.append_assoc, List.map_append] at last
    obtain rfl : f = none := List.singleton_inj.mp (List.append_inj_right' last rfl)
    have pushed : (writer, none) ∈ enqueued trace := by simp [shape, ends]
    obtain rfl := nones_by_owner reached full pushed
    exact absurd (by simp [ends]) absent

section Live
variable {Machine : Type*} {object : Object (Party size Sender) Machine (Call (Option Task)) (Ret (Option Task))}
variable {linear : Linearization object fifo} {joint : Joint Machine (Progress size Sender Task Output)}

/-- A destructor that has begun is never stuck: around a live queue, when no thread can
step it has returned. -/
theorem no_hang (live : linear.Live) (offers : Offers linear.menu (crew size plan))
    (reached : (compose object (crew size plan)).Reaches trace joint)
    (stuck : Stuck object (crew size plan) joint) (begun : joint.client.owner.begun = true) :
    joint.client.owner = .destroyed := by
  obtain ⟨kept, abstractly⟩ := linear.reaches offers reached
  have phases : Phases joint.client := phases_of_reaches abstractly
  have still {party : Party size Sender} {note : Note size Task Output}
      {later : Progress size Sender Task Output} (worked : joint.client.Works plan party note later) : False :=
    stuck party _ ⟨joint.object, later⟩ (.work worked)
  have waits {party : Party size Sender} {call : Call (Option Task)}
      (asked : joint.client.asks party = some call) :
      call = .pop ∧ (linear.abs joint.object).status party = .pending call ∧
        (linear.abs joint.object).contents = [] := by
    rcases live.waits offers reached stuck party with ⟨free, _⟩ | ⟨other, also, pending, blocked⟩
    · cases asked.symm.trans free
    · obtain rfl := Option.some.inj (also.symm.trans asked)
      obtain ⟨same, empty⟩ := apply_blocked blocked
      exact ⟨same, pending, empty⟩
  cases at_ : joint.client.owner with
  | constructing | constructed => simp [at_, Owner.begun] at begun
  | pushing i =>
    by_cases less : i < size
    · obtain ⟨wrong, _⟩ := @waits .owner (.push none) (by simp [Progress.asks, at_, Owner.asks, less])
      cases wrong
    · exact (still (.pushed at_ less)).elim
  | joining i =>
    by_cases less : i < size
    · cases worker : joint.client.worker ⟨i, less⟩ with
      | absent =>
        have late := (phases.absent _).mp worker
        simp only [at_, Owner.launches] at late
        exact absurd less (Nat.not_lt_of_le late)
      | waiting =>
        obtain ⟨_, pending, empty⟩ := @waits (.worker ⟨i, less⟩) .pop (by simp [Progress.asks, worker, Worker.asks])
        have few := sentinels_lt abstractly worker (congrArg Status.answer pending) empty
        have many : size ≤ sentinels (linear.image joint) := by
          simp only [sentinels, Linearization.image, at_, Owner.pushes]
          exact Nat.le_add_right _ _
        omega
      | got f =>
        cases f with
        | none => exact (still (.exit worker)).elim
        | some f => exact (still (.start worker)).elim
      | running f rest =>
        rcases rest with _ | ⟨task | output, rest⟩
        · exact (still (.finish worker)).elim
        · obtain ⟨wrong, _⟩ := @waits (.worker ⟨i, less⟩) (.push (some task))
            (by simp [Progress.asks, worker, Worker.asks])
          cases wrong
        · exact (still (.emit worker)).elim
      | exited => exact (still (.join at_ less worker)).elim
    · exact (still (.joined at_ less)).elim
  | destroying left =>
    cases left with
    | nil => exact (still (.destroyed at_)).elim
    | cons sync left => exact (still (.destroy at_)).elim
  | destroyed => rfl

theorem idle_of_joined (linear : Linearization object fifo) (offers : Offers linear.menu (crew size plan))
    (reached : (compose object (crew size plan)).Reaches trace joint)
    (joined : joint.client.owner.joined = true) (party : Party size Sender) :
    (linear.abs joint.object).status party = .idle := by
  obtain ⟨kept, abstractly⟩ := linear.reaches offers reached
  have phases : Phases joint.client := phases_of_reaches abstractly
  have free : (crew size plan).asks joint.client party = none := by
    cases party with
    | owner => cases at_ : joint.client.owner <;> simp_all [Owner.joined, crew, Progress.asks, Owner.asks]
    | worker index =>
      have exited := exited_of_joined phases joined index
      simp [crew, Progress.asks, exited, Worker.asks]
    | sender sender =>
      have sent := phases.sent (by cases at_ : joint.client.owner <;> simp_all [Owner.joined, Owner.begun]) sender
      simp [crew, Progress.asks, sent]
  have agrees := agreesAll abstractly party
  change Agrees fifo ((crew size plan).asks joint.client party) _ at agrees
  rw [free] at agrees
  exact agrees.idle

end Live

end CppRt.Workers

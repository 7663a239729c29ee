import CppRt.Workers.Shutdown

/-!
Empty tasks that senders hand in. A worker cannot tell one from the empty task the
destructor pushes for it: each stops one worker, and the run of the crew reaches as
far as the empty task that stops the last worker.
-/

namespace CppRt.Workers
open Library Transition Concurrent Family Queue

variable {size : Nat} {Sender Task Output : Type*}

def Worker.looping : Worker Task Output → Bool
  | .absent => false
  | .exited => false
  | _ => true

def empties {Thread Note : Type*} (trace : List (Label Thread (Call (Option Task)) (Ret (Option Task)) Note)) : Nat :=
  ((enqueued trace).map Prod.snd).countP Option.isNone

variable [DecidableEq Sender] {plan : Plan Sender Task Output}
variable {trace : List (Event size Sender Task Output)} {state : Shift size Sender Task Output}

theorem looping_or_stopped (reached : (compose fifo.atomic (crew size plan)).Reaches trace state)
    (built : state.client.owner.launches size = size) :
    size ≤ tally Worker.looping state.client.worker + empties trace := by
  have taken : ((taken trace).map Prod.snd).countP Option.isNone ≤ empties trace := by
    unfold empties
    rw [← taken_in_order reached, List.countP_append]
    exact Nat.le_add_right _ _
  have loops : tally Worker.looping state.client.worker =
      ∑ index, (if (state.client.worker index).looping = true then 1 else 0) := by
    rw [tally, Finset.card_filter]
  have each : ∀ index, 1 ≤ (if (state.client.worker index).looping = true then 1 else 0) +
      ((state.client.worker index).held (state.object.status (.worker index)).answer).countP Option.isNone := by
    intro index
    cases at_ : state.client.worker index with
    | absent =>
      have late := ((phases_of_reaches reached).absent index).mp at_
      have bound := index.isLt
      omega
    | exited => simp [Worker.held]
    | _ => simp [Worker.looping]
  have one_each : ∑ _ : Fin size, 1 = size := by simp
  have total : ∑ _ : Fin size, 1 ≤ ∑ index, ((if (state.client.worker index).looping = true then 1 else 0) +
      ((state.client.worker index).held (state.object.status (.worker index)).answer).countP Option.isNone) :=
    Finset.sum_le_sum fun index _ => each index
  rw [Finset.sum_add_distrib, ← loops, ← taken_nones reached, one_each] at total
  omega

theorem nones_by_senders (reached : (compose fifo.atomic (crew size plan)).Reaches trace state)
    {log : List (Party size Sender × Option Task)} (part : log ⊆ enqueued trace)
    (silent : ∀ f, (.owner, f) ∉ log) :
    ∀ entry ∈ log, entry.2.isNone = true → ∃ sender, entry.1 = .sender sender := by
  intro entry member empty
  obtain ⟨writer, f⟩ := entry
  obtain rfl : f = none := Option.isNone_iff_eq_none.mp empty
  cases writer with
  | owner => exact absurd member (silent none)
  | worker index =>
    obtain ⟨_, _, wrong, _⟩ := submissions reached index none (part member)
    cases wrong
  | sender sender => exact ⟨sender, rfl⟩

/-- When the senders hand in fewer empty tasks than there are workers, all their tasks come
before the empty task that stops the last worker. -/
theorem senders_before_stop [Fintype Sender]
    (reached : (compose fifo.atomic (crew size plan)).Reaches trace state)
    (begun : state.client.owner.begun = true)
    (few : ∑ sender, (plan.program sender).countP Option.isNone < size)
    {before after : List (Party size Sender × Option Task)} {writer : Party size Sender}
    (shape : enqueued trace = before ++ (writer, none) :: after)
    (nones : (before.map Prod.snd).countP Option.isNone + 1 = size) (sender : Sender) :
    (entries (.sender sender) before).filterMap id = (plan.program sender).filterMap id := by
  have split : enqueued trace = (before ++ [(writer, none)]) ++ after := by simp [shape]
  have sent (other : Sender) : entries (.sender other) (before ++ [(writer, none)]) ++ entries (.sender other) after =
      plan.program other := by
    rw [← entries_append, ← split]
    exact sent_all reached begun other
  have owned : ∃ f, (.owner, f) ∈ before ++ [(writer, none)] := by
    by_contra silent
    have sum := countP_by_writer Option.isNone (fun _ _ same => Party.sender.inj same)
      (nones_by_senders reached (by rw [split]; exact List.subset_append_left _ _) fun f member => silent ⟨f, member⟩)
    have fewer : ∑ other, (entries (.sender other) (before ++ [(writer, none)])).countP Option.isNone ≤
        ∑ other, (plan.program other).countP Option.isNone := by
      refine Finset.sum_le_sum fun other _ => ?_
      rw [← sent other, List.countP_append]
      exact Nat.le_add_right _ _
    rw [← sum, List.map_append, List.countP_append, List.map_singleton,
      List.countP_cons_of_pos (by rfl)] at fewer
    simp only [List.countP_nil] at fewer
    omega
  obtain ⟨f, member⟩ := owned
  have order := senders_first reached
  rw [split] at order
  have late : entries (.sender sender) after = [] :=
    entries_absent fun entry later => (List.pairwise_append.mp order).2.2 _ member entry later rfl sender
  have own := sent sender
  rw [late, List.append_nil, entries_append] at own
  rw [← own, List.filterMap_append]
  by_cases same : writer = .sender sender
  · simp [same]
  · simp [entries_other same]

/-- What empty tasks do to a crew, read off a run up to some moment: how many workers they
can have stopped, and which tasks have been executed at the end. -/
structure StoppedByEmpty [Fintype Sender] (program : Sender → List (Option Task))
    (trace : List (Event size Sender Task Output)) (progress : Progress size Sender Task Output)
    (q : List (Option Task)) : Prop where
  looping : progress.owner = .constructed → size ≤ tally Worker.looping progress.worker + empties trace
  senders : progress.owner.begun = false →
    ∀ entry ∈ enqueued trace, entry.2 = none → ∃ sender, entry.1 = .sender sender
  executed : progress.owner = .destroyed → ∃ before writer after,
    enqueued trace = before ++ (writer, none) :: after ∧
    (before.map Prod.snd).countP Option.isNone + 1 = size ∧
    ((noted Note.finished trace).map Prod.snd).Perm (before.filterMap Prod.snd) ∧
    q = after.map Prod.snd ∧
    (∑ sender, (program sender).countP Option.isNone < size →
      ∀ sender, (entries (.sender sender) before).filterMap id = (program sender).filterMap id)

theorem stopped_by_empty [Fintype Sender] (reached : (compose fifo.atomic (crew size plan)).Reaches trace state)
    (workers : 0 < size) : StoppedByEmpty plan.program trace state.client state.object.contents where
  looping constructed := looping_or_stopped reached (by rw [constructed]; rfl)
  senders early entry member empty := by
    refine nones_by_senders reached (List.Subset.refl _) (fun f pushed => ?_) entry member (by rw [empty]; rfl)
    rw [begun_of_pushed reached (List.ne_nil_of_mem (mem_entries.mpr pushed))] at early
    cases early
  executed destroyed := by
    have joined : state.client.owner.joined = true := by rw [destroyed]; rfl
    have begun : state.client.owner.begun = true := by rw [destroyed]; rfl
    obtain ⟨before, writer, after, shape, nones, finished, left⟩ := finished_before_stop reached workers joined
    exact ⟨before, writer, after, shape, nones, finished, left, fun few =>
      senders_before_stop reached begun few shape nones⟩

end CppRt.Workers

import CppRt.Workers.Crew

/-!
What holds in every run of a crew around an atomic queue. The phases of the owner
bound where the workers can be; a worker's account says that the tasks it has taken
are those it has started and at most one more; the owner's and the senders'
accounts say what each has pushed so far.
-/

namespace CppRt.Workers
open Library Transition Concurrent Family Queue

variable {size : Nat} {Sender Task Output : Type*}

def Owner.launches (size : Nat) : Owner → Nat
  | .constructing i => i
  | _ => size

def Owner.pushes (size : Nat) : Owner → Nat
  | .constructing _ => 0
  | .constructed => 0
  | .pushing i => i
  | _ => size

def Owner.joins (size : Nat) : Owner → Nat
  | .constructing _ => 0
  | .constructed => 0
  | .pushing _ => 0
  | .joining i => i
  | _ => size

/-- Where the owner is bounds where the others are. -/
structure Phases (progress : Progress size Sender Task Output) : Prop where
  absent : ∀ index, progress.worker index = .absent ↔ progress.owner.launches size ≤ index
  pushes : progress.owner.pushes size ≤ size
  exited : ∀ index : Fin size, index < progress.owner.joins size → progress.worker index = .exited
  sent : progress.owner.begun = true → ∀ sender, progress.unsent sender = []

section Phases
variable {progress next : Progress size Sender Task Output} {party : Party size Sender}

theorem Phases.setWorker (phases : Phases progress) {index : Fin size} {worker : Worker Task Output}
    (present : progress.worker index ≠ .absent) (working : progress.worker index ≠ .exited)
    (stays : worker ≠ .absent) : Phases (progress.setWorker index worker) where
  absent other := by
    have before := phases.absent other
    by_cases same : other = index
    · subst same
      have launched := fun late => present (before.mpr late)
      simpa [Progress.setWorker, stays] using launched
    · simpa [Progress.setWorker, same] using before
  pushes := phases.pushes
  exited other joined := by
    have before := phases.exited other joined
    have different : other ≠ index := by
      intro same
      subst same
      exact working before
    simpa [Progress.setWorker, different] using before
  sent := phases.sent

theorem Phases.resumes [DecidableEq Sender] {call : Call (Option Task)} {ret : Ret (Option Task)}
    (phases : Phases progress) (asked : progress.asks party = some call)
    (resumed : progress.Resumes party ret next) : Phases next := by
  cases resumed with
  | pushed loops =>
    cases Progress.asks_cases asked with
    | @sentinel i at_ less =>
      rw [loops] at at_
      cases at_
      refine ⟨?_, less, ?_, ?_⟩
      · simpa [loops, Owner.launches] using phases.absent
      · intro index joined
        exact absurd joined (Nat.not_lt_zero _)
      · intro _
        exact phases.sent (by rw [loops]; rfl)
  | popped at_ | submitted at_ =>
    exact phases.setWorker (by simp [at_]) (by simp [at_]) (by simp)
  | @sent sender =>
    refine ⟨phases.absent, phases.pushes, phases.exited, fun begun other => ?_⟩
    have before := phases.sent begun
    by_cases same : other = sender
    · subst same
      simp [before other]
    · simp [same, before other]

theorem Phases.works {plan : Plan Sender Task Output} {note : Note size Task Output}
    (phases : Phases progress) (worked : progress.Works plan party note next) : Phases next := by
  obtain ⟨absent, pushes, exited, sent⟩ := phases
  cases worked with
  | @launch i loops less fresh =>
    refine ⟨fun index => ?_, Nat.zero_le _, fun index joined => absurd joined (Nat.not_lt_zero _), fun wrong => by cases wrong⟩
    have before := absent index
    simp only [loops, Owner.launches] at before ⊢
    by_cases same : index = ⟨i, less⟩
    · subst same
      simp [Progress.setWorker]
    · have apart : (index : Nat) ≠ i := fun equal => same (Fin.ext equal)
      simp only [Progress.setWorker, Function.update_of_ne same, before]
      omega
  | launched loops done =>
    refine ⟨fun index => ?_, Nat.zero_le _, fun index joined => absurd joined (Nat.not_lt_zero _), fun wrong => by cases wrong⟩
    have before := absent index
    simp only [loops, Owner.launches] at before ⊢
    have bound := index.isLt
    rw [before]
    omega
  | begin built returned =>
    refine ⟨?_, Nat.zero_le _, fun index joined => absurd joined (Nat.not_lt_zero _), fun _ => returned⟩
    simpa [built, Owner.launches] using absent
  | pushed loops done =>
    refine ⟨?_, Nat.le_refl _, fun index joined => absurd joined (Nat.not_lt_zero _), fun _ => ?_⟩
    · simpa [loops, Owner.launches] using absent
    · exact sent (by rw [loops]; rfl)
  | @join i loops less gone =>
    refine ⟨?_, Nat.le_refl _, fun index joined => ?_, fun _ => sent (by rw [loops]; rfl)⟩
    · simpa [loops, Owner.launches] using absent
    · rcases Nat.lt_succ_iff_lt_or_eq.mp joined with earlier | same
      · exact exited index (by rw [loops]; exact earlier)
      · rw [show index = ⟨i, less⟩ from Fin.ext same]
        exact gone
  | joined loops done =>
    refine ⟨?_, Nat.le_refl _, fun index _ => ?_, fun _ => sent (by rw [loops]; rfl)⟩
    · simpa [loops, Owner.launches] using absent
    · have bound := index.isLt
      exact exited index (by rw [loops]; simp only [Owner.joins]; omega)
  | destroy at_ | destroyed at_ =>
    refine ⟨?_, Nat.le_refl _, fun index joined => ?_, fun _ => sent (by rw [at_]; rfl)⟩
    · simpa [at_, Owner.launches] using absent
    · exact exited index (by rw [at_]; exact joined)
  | start at_ | emit at_ | finish at_ | exit at_ =>
    exact Phases.setWorker ⟨absent, pushes, exited, sent⟩ (by simp [at_]) (by simp [at_]) (by simp)

theorem Progress.Works.worker {plan : Plan Sender Task Output} {note : Note size Task Output}
    {index : Fin size} (worked : progress.Works plan party note next) (different : party ≠ .worker index) :
    next.worker index = progress.worker index ∨
      progress.worker index = .absent ∧ next.worker index = .waiting := by
  cases worked with
  | @launch i loops less fresh =>
    by_cases same : index = ⟨i, less⟩
    · subst same
      exact .inr ⟨fresh, Function.update_self _ _ _⟩
    · exact .inl (Function.update_of_ne same _ _)
  | start | emit | finish | exit =>
    left
    refine Function.update_of_ne ?_ _ _
    intro same
    subst same
    exact different rfl
  | _ => exact .inl rfl

theorem Progress.Resumes.worker [DecidableEq Sender] {ret : Ret (Option Task)} {index : Fin size}
    (resumed : progress.Resumes party ret next) (different : party ≠ .worker index) :
    next.worker index = progress.worker index := by
  cases resumed with
  | popped | submitted =>
    refine Function.update_of_ne ?_ _ _
    intro same
    subst same
    exact different rfl
  | _ => rfl

end Phases

abbrev Shift (size : Nat) (Sender Task Output : Type*) :=
  Joint (Atomic (Party size Sender) (List (Option Task)) (Call (Option Task)) (Ret (Option Task)))
    (Progress size Sender Task Output)

variable [DecidableEq Sender] {plan : Plan Sender Task Output}
variable {trace : List (Event size Sender Task Output)} {state : Shift size Sender Task Output}

theorem phases_of_reaches (reached : (compose fifo.atomic (crew size plan)).Reaches trace state) :
    Phases state.client := by
  refine invariant_of_moves (fun _ state => Phases state.client) reached ?_ ?_
  · intro first begins
    obtain rfl := begins
    refine ⟨?_, Nat.zero_le _, fun index joined => absurd joined (Nat.not_lt_zero _), nofun⟩
    simp [Owner.launches]
  · intro trace state label next _ phases move
    cases move with
    | call => exact phases
    | commit => exact phases
    | ret thread call ret later asked _ _ resumed => exact phases.resumes asked resumed
    | work thread note later _ _ worked => exact phases.works worked

theorem worker_other {next : Shift size Sender Task Output} {shown : Event size Sender Task Output} {index : Fin size}
    (move : Move (crew size plan) state (some shown) next) (different : shown.thread ≠ .worker index) :
    next.client.worker index = state.client.worker index ∨
      state.client.worker index = .absent ∧ next.client.worker index = .waiting := by
  cases move with
  | call => exact .inl rfl
  | commit => exact .inl rfl
  | ret _ _ _ _ _ _ _ resumed => exact .inl (resumed.worker different)
  | work _ _ _ _ _ worked => exact worked.worker different

/-- What a worker has taken from the queue and not begun. -/
def Worker.held : Worker Task Output → Option (Ret (Option Task)) → List (Option Task)
  | .waiting, some (.popped f) => [f]
  | .got f, _ => [f]
  | .exited, _ => [none]
  | _, _ => []

def Worker.current : Worker Task Output → List Task
  | .running f _ => [f]
  | _ => []

/-- A worker starts what it takes, in that order, and finishes what it starts. -/
structure Account (index : Fin size) (trace : List (Event size Sender Task Output))
    (state : Shift size Sender Task Output) : Prop where
  taken : entries (.worker index) (taken trace) =
    (entries (.worker index) (noted Note.started trace)).map some ++
      (state.client.worker index).held (state.object.status (.worker index)).answer
  started : entries (.worker index) (noted Note.started trace) =
    entries (.worker index) (noted Note.finished trace) ++ (state.client.worker index).current

theorem account_of_reaches (reached : (compose fifo.atomic (crew size plan)).Reaches trace state)
    (index : Fin size) : Account index trace state := by
  refine invariant_of_moves (Account index) reached ?_ ?_
  · intro first begins
    obtain rfl := begins
    exact ⟨rfl, rfl⟩
  · intro trace state label next before account move
    obtain ⟨takes, starts⟩ := account
    obtain ⟨shown, rfl, status⟩ := move.other
    by_cases own : shown.thread = .worker index
    · cases move with
      | call thread call asked idle =>
        obtain rfl : thread = .worker index := own
        rw [idle] at takes
        refine ⟨?_, by simpa using starts⟩
        cases crew_asks asked with
        | pop waits | submit waits => simpa [waits, Worker.held, Status.answer] using takes
      | commit thread call ret later asked pending applied =>
        obtain rfl : thread = .worker index := own
        rw [pending] at takes
        refine ⟨?_, by simpa using starts⟩
        cases crew_asks asked with
        | pop waits =>
          obtain ⟨f, rfl⟩ := answers_pop ⟨_, _, applied⟩
          simpa [waits, Worker.held, Status.answer, leaves] using takes
        | submit runs =>
          obtain rfl := answers_push ⟨_, _, applied⟩
          simpa [runs, Worker.held, Status.answer, leaves] using takes
      | ret thread call ret later asked answers done resumed =>
        obtain rfl : thread = .worker index := own
        rw [done] at takes
        cases resumed with
        | popped waits =>
          exact ⟨by simpa [waits, Worker.held, Status.answer, Progress.setWorker] using takes,
            by simpa [waits, Worker.current, Progress.setWorker] using starts⟩
        | submitted runs =>
          exact ⟨by simpa [runs, Worker.held, Status.answer, Progress.setWorker] using takes,
            by simpa [runs, Worker.current, Progress.setWorker] using starts⟩
      | work thread note later free idle worked =>
        obtain rfl : thread = .worker index := own
        rw [idle] at takes
        cases worked with
        | start at_ | emit at_ | finish at_ | exit at_ =>
          constructor
          · simpa [at_, idle, Worker.held, Status.answer, Progress.setWorker, Note.started] using takes
          · simpa [at_, Worker.current, Progress.setWorker, Note.started, Note.finished] using starts
    · have keeps := worker_other move own
      have same : (next.client.worker index).held (next.object.status (.worker index)).answer =
          (state.client.worker index).held (state.object.status (.worker index)).answer ∧
          (next.client.worker index).current = (state.client.worker index).current := by
        rw [status _ own]
        rcases keeps with kept | ⟨absent, waits⟩
        · rw [kept]
          exact ⟨rfl, rfl⟩
        · have free : (crew size plan).asks state.client (.worker index) = none := by
            simp [crew, Progress.asks, absent, Worker.asks]
          have agrees := agreesAll before (.worker index)
          rw [free] at agrees
          rw [agrees.idle, absent, waits]
          exact ⟨rfl, rfl⟩
      constructor
      · rw [same.1]
        simpa [entries_taken_other own, entries_noted_other _ own] using takes
      · rw [same.2]
        simpa [entries_noted_other _ own] using starts

section Work
variable {progress next : Progress size Sender Task Output} {party : Party size Sender}
variable {note : Note size Task Output}

omit [DecidableEq Sender] in
theorem Progress.Works.unsent (worked : progress.Works plan party note next) :
    next.unsent = progress.unsent := by
  cases worked <;> rfl

omit [DecidableEq Sender] in
theorem Progress.Works.pushes (worked : progress.Works plan party note next)
    (bound : progress.owner.pushes size ≤ size) :
    next.owner.pushes size = progress.owner.pushes size := by
  cases worked with
  | launch at_ | launched at_ | begin at_ | join at_ | joined at_ | destroy at_ | destroyed at_ =>
    rw [at_]
    rfl
  | pushed at_ done =>
    rw [at_] at bound ⊢
    exact Nat.le_antisymm (Nat.le_of_not_lt done) bound
  | start | emit | finish | exit => rfl

omit [DecidableEq Sender] in
theorem Progress.Works.owner (worked : progress.Works plan party note next) (different : party ≠ .owner) :
    next.owner = progress.owner := by
  cases worked with
  | start | emit | finish | exit => rfl
  | _ => exact absurd rfl different

end Work

def sentinels (state : Shift size Sender Task Output) : Nat :=
  state.client.owner.pushes size + (state.object.status .owner).answer.toList.length

theorem owner_account (reached : (compose fifo.atomic (crew size plan)).Reaches trace state) :
    entries .owner (enqueued trace) = List.replicate (sentinels state) none := by
  refine invariant_of_moves (fun trace state =>
    entries .owner (enqueued trace) = List.replicate (sentinels state) none) reached ?_ ?_
  · intro first begins
    obtain rfl := begins
    rfl
  · intro trace state label next before account move
    obtain ⟨shown, rfl, status⟩ := move.other
    by_cases own : shown.thread = .owner
    · cases move with
      | call thread call asked idle =>
        obtain rfl : thread = .owner := own
        simpa [sentinels, idle, Status.answer] using account
      | commit thread call ret later asked pending applied =>
        obtain rfl : thread = .owner := own
        cases crew_asks asked with
        | sentinel loops less =>
          simpa [sentinels, pending, Status.answer, enters, List.replicate_succ'] using account
      | ret thread call ret later asked answers done resumed =>
        obtain rfl : thread = .owner := own
        cases resumed with
        | pushed loops =>
          simpa [sentinels, loops, done, Status.answer, Owner.pushes] using account
      | work thread note later free idle worked =>
        obtain rfl : thread = .owner := own
        simpa [sentinels, idle, Status.answer, worked.pushes (phases_of_reaches before).pushes] using account
    · have same : sentinels next = sentinels state := by
        unfold sentinels
        rw [status _ own]
        cases move with
        | call => rfl
        | commit => rfl
        | ret _ _ _ _ _ _ _ resumed =>
          cases resumed with
          | pushed => exact absurd rfl own
          | _ => rfl
        | work _ _ _ _ _ worked => rw [worked.owner own]
      rw [same]
      simpa [entries_enqueued_other own] using account

theorem sender_account (reached : (compose fifo.atomic (crew size plan)).Reaches trace state)
    (sender : Sender) :
    entries (.sender sender) (enqueued trace) ++ (state.client.unsent sender).drop
      (state.object.status (.sender sender)).answer.toList.length = plan.program sender := by
  refine invariant_of_moves (fun trace state => entries (.sender sender) (enqueued trace) ++
    (state.client.unsent sender).drop (state.object.status (.sender sender)).answer.toList.length =
      plan.program sender) reached ?_ ?_
  · intro first begins
    obtain rfl := begins
    rfl
  · intro trace state label next before account move
    obtain ⟨shown, rfl, status⟩ := move.other
    by_cases own : shown.thread = .sender sender
    · cases move with
      | call thread call asked idle =>
        obtain rfl : thread = .sender sender := own
        simpa [idle, Status.answer] using account
      | commit thread call ret later asked pending applied =>
        obtain rfl : thread = .sender sender := own
        cases crew_asks asked with
        | send built upcoming =>
          simpa [pending, upcoming, Status.answer, enters] using account
      | ret thread call ret later asked answers done resumed =>
        obtain rfl : thread = .sender sender := own
        cases resumed with
        | sent => simpa [done, Status.answer] using account
      | work thread note later free idle worked =>
        obtain rfl : thread = .sender sender := own
        cases worked
    · have same : next.client.unsent sender = state.client.unsent sender := by
        cases move with
        | call => rfl
        | commit => rfl
        | ret _ _ _ _ _ _ _ resumed =>
          cases resumed with
          | @sent another =>
            refine Function.update_of_ne ?_ _ _
            intro same
            subst same
            exact own rfl
          | _ => rfl
        | work _ _ _ _ _ worked => rw [worked.unsent]
      rw [same, status _ own]
      simpa [entries_enqueued_other own] using account

theorem takers (reached : (compose fifo.atomic (crew size plan)).Reaches trace state) :
    ∀ entry ∈ taken trace, ∃ index, entry.1 = .worker index := by
  refine invariant_of_moves (fun trace _ => ∀ entry ∈ taken trace, ∃ index, entry.1 = .worker index)
    reached (fun _ _ => nofun) ?_
  intro trace state label next _ before move
  cases move with
  | commit thread call ret later asked pending applied =>
    intro entry member
    rcases List.mem_append.mp (taken_append _ _ ▸ member) with earlier | now
    · exact before entry earlier
    · cases crew_asks asked with
      | @pop index waits =>
        obtain ⟨f, rfl⟩ := answers_pop ⟨_, _, applied⟩
        simp only [taken_commit, leaves, Option.toList_some, List.mem_singleton] at now
        exact ⟨index, congrArg Prod.fst now⟩
      | sentinel | submit | send =>
        obtain rfl := answers_push ⟨_, _, applied⟩
        simp [leaves] at now
  | call | ret | work => simpa using before

theorem runners {Kept : Type*} {reading : Note size Task Output → Option Kept}
    (silent : ∀ (progress : Progress size Sender Task Output) note next,
      progress.Works plan .owner note next → reading note = none)
    (reached : (compose fifo.atomic (crew size plan)).Reaches trace state) :
    ∀ entry ∈ noted reading trace, ∃ index, entry.1 = .worker index := by
  refine invariant_of_moves (fun trace _ => ∀ entry ∈ noted reading trace, ∃ index, entry.1 = .worker index)
    reached (fun _ _ => nofun) ?_
  intro trace state label next _ before move
  cases move with
  | work thread note later free idle worked =>
    intro entry member
    rcases List.mem_append.mp (noted_append _ _ _ ▸ member) with earlier | now
    · exact before entry earlier
    · cases thread with
      | owner => simp [silent _ _ _ worked] at now
      | worker index =>
        simp only [Option.toList_some, noted_note, Option.mem_toList, Option.map_eq_some_iff] at now
        obtain ⟨_, _, rfl⟩ := now
        exact ⟨index, rfl⟩
      | sender => cases worked
  | call | commit | ret => simpa using before

theorem running_suffix (reached : (compose fifo.atomic (crew size plan)).Reaches trace state) :
    ∀ index f rest, state.client.worker index = .running f rest → rest <:+ plan.body f := by
  refine invariant_of_moves (fun _ state => ∀ index f rest,
    state.client.worker index = .running f rest → rest <:+ plan.body f) reached ?_ ?_
  · intro first begins
    obtain rfl := begins
    nofun
  · intro trace state label next _ before move other f rest runs
    have goes (index : Fin size) (worker : Worker Task Output)
        (fits : worker = .running f rest → rest <:+ plan.body f)
        (runs : Function.update state.client.worker index worker other = .running f rest) :
        rest <:+ plan.body f := by
      by_cases same : other = index
      · subst same
        exact fits (by simpa using runs)
      · exact before other f rest (by simpa [same] using runs)
    have tail {g f' : Task} {act : Act Task Output} {left : List (Act Task Output)} {index : Fin size}
        (at_ : state.client.worker index = .running g (act :: left))
        (same : Worker.running g left = .running f' rest) : rest <:+ plan.body f' := by
      obtain ⟨rfl, rfl⟩ := Worker.running.inj same
      exact (List.suffix_cons _ _).trans (before _ _ _ at_)
    cases move with
    | call => exact before other f rest runs
    | commit => exact before other f rest runs
    | ret thread call ret later asked answers done resumed =>
      cases resumed with
      | popped => exact goes _ (.got _) nofun runs
      | submitted at_ => exact goes _ _ (tail at_) runs
      | _ => exact before other f rest runs
    | work thread note later free idle worked =>
      cases worked with
      | launch => exact goes _ .waiting nofun runs
      | @start _ g at_ =>
        refine goes _ (.running g (plan.body g)) ?_ runs
        intro same
        obtain ⟨rfl, rfl⟩ := Worker.running.inj same
        exact List.suffix_refl _
      | emit at_ => exact goes _ _ (tail at_) runs
      | finish => exact goes _ .waiting nofun runs
      | exit => exact goes _ .exited nofun runs
      | _ => exact before other f rest runs

def outputs (acts : List (Act Task Output)) : List Output :=
  acts.filterMap fun act => match act with
    | .emit output => some output
    | .submit _ => none

def Worker.unprinted : Worker Task Output → List Output
  | .running _ rest => outputs rest
  | _ => []

/-- A worker puts out what the tasks it starts put out, in that order. -/
theorem output_account (reached : (compose fifo.atomic (crew size plan)).Reaches trace state) (index : Fin size) :
    entries (.worker index) (noted Note.emitted trace) ++ (state.client.worker index).unprinted =
      (entries (.worker index) (noted Note.started trace)).flatMap fun f => outputs (plan.body f) := by
  refine invariant_of_moves (fun trace state =>
    entries (.worker index) (noted Note.emitted trace) ++ (state.client.worker index).unprinted =
      (entries (.worker index) (noted Note.started trace)).flatMap fun f => outputs (plan.body f)) reached ?_ ?_
  · intro first begins
    obtain rfl := begins
    rfl
  · intro trace state label next before account move
    obtain ⟨shown, rfl, status⟩ := move.other
    by_cases own : shown.thread = .worker index
    · cases move with
      | call | commit => simpa using account
      | ret thread call ret later asked answers done resumed =>
        obtain rfl : thread = .worker index := own
        cases resumed with
        | popped at_ | submitted at_ =>
          simpa [at_, Worker.unprinted, outputs, Progress.setWorker] using account
      | work thread note later free idle worked =>
        obtain rfl : thread = .worker index := own
        cases worked with
        | start at_ | emit at_ | finish at_ | exit at_ =>
          simpa [at_, Worker.unprinted, outputs, Progress.setWorker, Note.started, Note.emitted] using account
    · have same : (next.client.worker index).unprinted = (state.client.worker index).unprinted := by
        rcases worker_other move own with kept | ⟨absent, waits⟩
        · rw [kept]
        · rw [absent, waits]
          rfl
      rw [same]
      simpa [entries_noted_other _ own] using account

theorem submissions (reached : (compose fifo.atomic (crew size plan)).Reaches trace state) :
    ∀ index f, (.worker index, f) ∈ enqueued trace → ∃ task by_, f = some task ∧ .submit task ∈ plan.body by_ := by
  refine invariant_of_moves (fun trace _ => ∀ index f, (.worker index, f) ∈ enqueued trace →
    ∃ task by_, f = some task ∧ .submit task ∈ plan.body by_) reached (fun _ _ _ _ => nofun) ?_
  intro trace state label next earlier before move
  cases move with
  | commit thread call ret later asked pending applied =>
    intro index f member
    rcases List.mem_append.mp (enqueued_append _ _ ▸ member) with already | now
    · exact before index f already
    · cases crew_asks asked with
      | pop => simp [enters] at now
      | @submit _ by_ task rest runs =>
        simp only [enqueued_commit, enters, Option.toList_some, List.mem_singleton, Prod.mk.injEq] at now
        exact ⟨task, by_, now.2, (running_suffix earlier _ _ _ runs).subset List.mem_cons_self⟩
      | sentinel | send => simp [enters] at now
  | call | ret | work => simpa using before

end CppRt.Workers

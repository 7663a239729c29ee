import CppRt.ThreadPool.QueueServing

/-!
What any number of threads with any finite programs get from the blocking queue of
the thread pool: items in the order they were put in, each once; no front() of an
empty queue; a try_pop that fails exactly when its critical section found the queue
empty; and no consumer left asleep over an item.
-/

namespace CppRt.ThreadPool.ThreadSafeQueue
open Library Transition Concurrent Family Monitor Queue

variable {Thread Item : Type*} [DecidableEq Thread]

def running (program : Thread → List (Call Item)) :
    System (Joint (State Thread Item) (Thread → List (Call Item)))
      (Label Thread (Call Item) (Ret Item) Empty) :=
  compose (machine False) (programs id program)

theorem running_start (program : Thread → List (Call Item)) :
    (running program).start ⟨⟨⟨[], .free⟩, fun _ => .outside⟩, program⟩ := ⟨rfl, rfl⟩

/-- The critical section of a try_pop that was entered with these contents. -/
def TrySection (item : Item) (entered q : List Item) : Pc Item → Prop
  | .emptyLock (.within (.tryPop held)) => held = item ∧ q = entered
  | .emptyTest (.within (.tryPop held)) => held = item ∧ q = entered
  | .emptyUnlock (.within (.tryPop held)) empty => held = item ∧ q = entered ∧ empty = entered.isEmpty
  | .take (.tryPop _) => q = entered
  | .unlock (.tried false result) => entered = [] ∧ result = item ∧ q = entered
  | .unlock (.tried true result) => entered = result :: q
  | .returning _ => True
  | _ => False

section Section
variable {thread : Thread} {shared later : Shared Thread Item} {pc after : Pc Item}
variable {action : Option (Action (Call Item) (Ret Item))} {state next : State Thread Item}
variable {item : Item} {entered : List Item}

theorem Local.trySection (moved : Local False thread shared pc action later after)
    (inside : TrySection item entered shared.q pc) : TrySection item entered later.q after := by
  cases moved with
  | takeThrows may | pushThrows may => exact may.elim
  | @emptyLock caller => rcases caller with _ | _ | _ <;> exact inside
  | @emptyTest caller =>
    rcases caller with _ | woken | held
    · exact inside
    · exact inside
    · exact ⟨inside.1, inside.2, congrArg List.isEmpty inside.2⟩
  | @emptyUnlock caller empty =>
    rcases caller with _ | woken | held
    · exact inside.elim
    · exact inside.elim
    · obtain ⟨rfl, same, found⟩ := inside
      cases empty with
      | false => exact same
      | true => exact ⟨List.isEmpty_iff.mp found.symm, rfl, same⟩
  | @take taker front rest shape =>
    cases taker with
    | pop woken => exact inside.elim
    | tryPop held => exact inside.symm.trans shape
  | takeEmpty => exact inside
  | unlock => trivial
  | _ => exact inside.elim

omit [DecidableEq Thread] in
theorem trySection_deep (inside : TrySection item entered state.shared.q pc) :
    0 < pc.depth ∨ ∃ ret, pc = .returning ret := by
  cases pc with
  | returning ret => exact .inr ⟨ret, rfl⟩
  | emptyLock caller => rcases caller with _ | _ | _ <;> first | exact inside.elim | exact .inl Nat.one_pos
  | emptyTest | emptyUnlock => exact .inl (Nat.succ_pos _)
  | take | unlock => exact .inl Nat.one_pos
  | _ => exact inside.elim

theorem step_trySection {other : Thread} (sound : (locking False).Sound state)
    (step : (monitor False).Step state other action next)
    (stays : ∀ ret, other = thread → action ≠ some (.ret ret))
    (inside : TrySection item entered state.shared.q (state.pc thread)) :
    TrySection item entered next.shared.q (next.pc thread) := by
  by_cases same : other = thread
  · subst same
    cases step with
    | call outside =>
      rw [outside] at inside
      exact inside.elim
    | inside moved => simpa using moved.trySection inside
    | signal signals signal =>
      rw [signals] at inside
      exact inside.elim
    | ret returns => exact absurd rfl (stays _ rfl)
  · have different : thread ≠ other := Ne.symm same
    cases step with
    | call outside => simpa [different] using inside
    | @inside _ shared pc moved =>
      simp only [Function.update_of_ne different]
      rcases trySection_deep inside with deep | ⟨ret, returns⟩
      · rcases moved.contents with kept | holds
        · rw [kept]
          exact inside
        · exact absurd (sound.exclusive deep holds) different
      · rw [returns]
        trivial
    | signal signals signal =>
      have awake : state.pc thread ≠ .asleep := by
        intro sleeps
        rw [sleeps] at inside
        exact inside
      simp only [Function.update_of_ne different, signal.awake awake]
      exact inside
    | ret returns => simpa [different] using inside

theorem trySection_wake (woken : (monitor False).Spurious state next)
    (inside : TrySection item entered state.shared.q (state.pc thread)) :
    TrySection item entered next.shared.q (next.pc thread) := by
  obtain ⟨other, sleeps, rfl⟩ := woken
  have different : thread ≠ other := by
    intro same
    subst same
    rw [sleeps] at inside
    exact inside
  simpa [different] using inside

end Section

variable [Fintype Thread] {program : Thread → List (Call Item)}
variable {trace : List (Label Thread (Call Item) (Ret Item) Empty)}
variable {state : Joint (State Thread Item) (Thread → List (Call Item))}

theorem running_sound (reached : (running program).Reaches trace state) : (locking False).Sound state.object :=
  (linearization.reaches (fun _ _ _ _ => trivial) reached).1.1

theorem trySection_run {thread : Thread} {item : Item}
    {last : Joint (State Thread Item) (Thread → List (Call Item))}
    {more : List (Label Thread (Call Item) (Ret Item) Empty)}
    (reached : (running program).Reaches trace state)
    (enters : state.object.pc thread = .emptyLock (.within (.tryPop item)))
    (run : (running program).Run state more last) (stays : ∀ ret, .act thread (.ret ret) ∉ more) :
    TrySection item state.object.shared.q last.object.shared.q (last.object.pc thread) := by
  refine run.invariant (fun more last => (∀ ret, .act thread (.ret ret) ∉ more) →
    TrySection item state.object.shared.q last.object.shared.q (last.object.pc thread)) ?_ ?_ stays
  · intro _
    rw [enters]
    exact ⟨rfl, rfl⟩
  · intro more middle label next before kept step stays
    have inside := kept fun ret member => stays ret (List.mem_append_left _ member)
    rcases object_cases step with ⟨other, action, rfl, own⟩ | woken | same
    · refine step_trySection (running_sound (reached.then before)) own ?_ inside
      rintro ret rfl rfl
      exact stays ret (List.mem_append_right _ (by simp))
    · exact trySection_wake woken inside
    · rw [same]
      exact inside

/-- The blocking queue is a first-in first-out queue under every interleaving. -/
theorem fifo_under_interleaving (reached : (running program).Reaches trace state) :
    (taken trace).map Prod.snd ++ state.object.shared.q = (enqueued trace).map Prod.snd ∧
    (∀ first second, 0 < (state.object.pc first).depth → 0 < (state.object.pc second).depth →
      first = second) ∧
    (∀ thread, .act thread .fault ∉ trace) ∧
    (∀ thread taker, state.object.pc thread = .take taker → state.object.shared.q ≠ []) ∧
    (∀ thread item more last success result,
      state.object.pc thread = .emptyLock (.within (.tryPop item)) →
      (running program).Run state more last → (∀ ret, .act thread (.ret ret) ∉ more) →
      last.object.pc thread = .unlock (.tried success result) →
      (success = false ↔ state.object.shared.q = []) ∧
      (success = false → result = item ∧ last.object.shared.q = state.object.shared.q) ∧
      (success = true → state.object.shared.q = result :: last.object.shared.q)) := by
  obtain ⟨⟨sound, _⟩, abstractly⟩ := linearization.reaches (fun _ _ _ _ => trivial) reached
  refine ⟨taken_append_contents (history_of_reaches abstractly), fun _ _ => sound.exclusive,
    no_fault_of_reaches abstractly, ?_, ?_⟩
  · intro thread taker takes
    have knows := sound.knows thread
    rw [takes] at knows
    exact knows
  · intro thread item more last success result enters run stays leaves
    have inside := trySection_run reached enters run stays
    rw [leaves] at inside
    cases success with
    | false =>
      obtain ⟨empty, same, kept⟩ := inside
      exact ⟨⟨fun _ => empty, fun _ => rfl⟩, fun _ => ⟨same, kept⟩, fun wrong => by cases wrong⟩
    | true =>
      have shape : state.object.shared.q = result :: last.object.shared.q := inside
      exact ⟨⟨fun wrong => (by cases wrong), fun empty => by simp [empty] at shape⟩,
        fun wrong => (by cases wrong), fun _ => shape⟩

def pusherAndTaker : Bool → List (Call Nat)
  | true => [.push 7]
  | false => [.tryPop 5]

/-- One thread has pushed 7, and the section of another's try_pop takes it. -/
theorem fifo_through_try : ∃ trace state more last, (running pusherAndTaker).Reaches trace state ∧
    state.object.pc false = .emptyLock (.within (.tryPop 5)) ∧ (running pusherAndTaker).Run state more last ∧
    last.object.pc false = .unlock (.tried true 7) ∧ state.object.shared.q = 7 :: last.object.shared.q ∧
    (taken (trace ++ more)).map Prod.snd = [7] ∧
    (taken (trace ++ more)).map Prod.snd ++ last.object.shared.q = (enqueued (trace ++ more)).map Prod.snd := by
  let base : Bool → Pc Nat := fun _ => .outside
  have pushes : (machine False).Completes true (.push 7) .pushed ⟨⟨[], .free⟩, base⟩ ⟨⟨[7], .free⟩, base⟩ :=
    push_completes False rfl (by simp [base]) [] 7
  have enters : (machine False).Parks false (.tryPop 5) ⟨⟨[7], .free⟩, base⟩
      (.with base false ⟨[7], .held false 0⟩ (.emptyLock (.within (.tryPop 5)))) :=
    ⟨_, call_alone (Call.tryPop 5) rfl, .head (inside_alone (.tryLock rfl)) .refl⟩
  have tests : (machine False).Quietly false (.with base false ⟨[7], .held false 0⟩ (.emptyLock (.within (.tryPop 5))))
      (.with base false ⟨[7], .held false 0⟩ (.take (.tryPop 5))) :=
    .head (inside_alone (.emptyLock (Mutex.lockRecursive_held false 0)))
      (.head (inside_alone .emptyTest) (.head (inside_alone (.emptyUnlock (Mutex.unlock_held_succ false 0))) .refl))
  have takes : Local False false ⟨[7], .held false 0⟩ (.take (.tryPop 5)) (some (.commit (.tryPop 5) (.tried true 7)))
      ⟨[], .held false 0⟩ (.unlock (.tried true 7)) := .take rfl
  have taken : (monitor False).object.step (.with base false ⟨[7], .held false 0⟩ (.take (.tryPop 5))) false
      (some (.commit (.tryPop 5) (.tried true 7))) (.with base false ⟨[], .held false 0⟩ (.unlock (.tried true 7))) :=
    inside_alone takes
  have before : (running pusherAndTaker).Run ⟨_, pusherAndTaker⟩ _ ⟨_, Function.update pusherAndTaker true []⟩ :=
    (pushes.run rfl rfl).trans (enters.run rfl)
  have after : (running pusherAndTaker).Run ⟨_, Function.update pusherAndTaker true []⟩ _ ⟨_, _⟩ :=
    tests.run.trans (Step.run (.commit taken))
  have reached : (running pusherAndTaker).Reaches _ _ := ⟨_, running_start _, before⟩
  obtain ⟨_, _, _, _, sections⟩ := fifo_under_interleaving reached
  have takesFront := (sections false 5 _ _ true 7 rfl after (by simp) rfl).2.2 rfl
  exact ⟨_, _, _, _, reached, rfl, after, rfl, takesFront, rfl, (fifo_under_interleaving (reached.then after)).1⟩

/-- No wake-up is lost: while a consumer sleeps, every queued item is matched by a push
that has still to signal or by a woken consumer on its way to it. -/
theorem no_lost_wakeup (reached : (running program).Reaches trace state) :
    ((∃ thread, state.object.pc thread = .asleep) →
      state.object.shared.q.length ≤
        tally Pc.signalling state.object.pc + tally Pc.awakened state.object.pc) ∧
    (Stuck (machine False) (programs id program) state →
      ¬(state.object.shared.q ≠ [] ∧ ∃ thread, state.object.pc thread = .asleep)) := by
  obtain ⟨⟨_, owed⟩, _⟩ := linearization.reaches (fun _ _ _ _ => trivial) reached
  refine ⟨owed, ?_⟩
  rintro stuck ⟨item, thread, sleeps⟩
  rcases live.waits (fun _ _ _ _ => trivial) reached stuck thread with ⟨_, idle⟩ | ⟨call, _, _, blocked⟩
  · have asleep : (Pc.asleep : Pc Item).status = .idle := sleeps ▸ idle
    cases asleep
  · exact item (apply_blocked blocked).2

def consumerAndProducer : Bool → List (Call Nat)
  | true => [.pop]
  | false => [.push 7]

/-- A consumer sleeps beside a queued item whose push has still to signal. -/
theorem no_lost_wakeup_before_signal : ∃ trace state, (running consumerAndProducer).Reaches trace state ∧
    state.object.pc true = .asleep ∧ state.object.pc false = .pushSignal ∧ state.object.shared.q = [7] ∧
    1 ≤ tally Pc.signalling state.object.pc + tally Pc.awakened state.object.pc := by
  let slept : Bool → Pc Nat := Function.update (fun _ => .outside) true .asleep
  have parked : (machine False).Parks true .pop ⟨⟨([] : List Nat), .free⟩, fun _ => .outside⟩ ⟨⟨[], .free⟩, slept⟩ :=
    pop_parks False rfl
  have called : (monitor False).object.step ⟨⟨[], .free⟩, slept⟩ false (some (.call (.push 7)))
      (.with slept false ⟨[], .free⟩ (.pushLock 7)) := call_alone (Call.push 7) rfl
  have locked : (monitor False).object.step (.with slept false ⟨[], .free⟩ (.pushLock 7)) false none
      (.with slept false ⟨[], .held false 0⟩ (.pushEnqueue 7)) := inside_alone (.pushLock rfl)
  have pushed : (monitor False).object.step (.with slept false ⟨[], .held false 0⟩ (.pushEnqueue 7)) false
      (some (.commit (.push 7) .pushed)) (.with slept false ⟨[7], .held false 0⟩ .pushUnlock) := inside_alone .pushEnqueue
  have unlocked : (monitor False).object.step (.with slept false ⟨[7], .held false 0⟩ .pushUnlock) false none
      (.with slept false ⟨[7], .free⟩ .pushSignal) := inside_alone (.pushUnlock (Mutex.unlock_held false))
  have run : (running consumerAndProducer).Run ⟨_, consumerAndProducer⟩ _ ⟨_, consumerAndProducer⟩ :=
    (parked.run rfl).trans ((Step.run (.call rfl called)).trans ((Step.run (.silent locked)).trans
      ((Step.run (.commit pushed)).trans (Step.run (.silent unlocked)))))
  have reached : (running consumerAndProducer).Reaches _ _ := ⟨_, running_start _, run⟩
  exact ⟨_, _, reached, rfl, rfl, rfl, (no_lost_wakeup reached).1 ⟨true, rfl⟩⟩

end CppRt.ThreadPool.ThreadSafeQueue

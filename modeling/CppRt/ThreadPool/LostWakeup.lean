import CppRt.ThreadPool.QueueExceptions

/-!
Exceptions and wake-ups. A signal wakes one consumer, and the wake-up is meant for the item
the signalling push has put in. When that consumer's copy throws, the item stays in the
queue and the wake-up is spent: the consumers still asleep are owed one that nobody will
give them, unless the other signals and woken consumers suffice for what is queued.
-/

namespace CppRt.ThreadPool.ThreadSafeQueue
open Library Concurrent Family Monitor Queue Transition

variable {Thread Item : Type*} [DecidableEq Thread] [Fintype Thread]

/-- A woken pop is left by an exception only while nobody sleeps or while the signals to come
and the other woken consumers suffice for the items. -/
def Passed (state : State Thread Item) (next : State Thread Item) : Prop :=
  ∀ thread, state.pc thread = .take (.pop true) → next.pc thread = .unlock .threw →
    (∀ other, state.pc other ≠ .asleep) ∨
    state.shared.q.length < tally Pc.signalling state.pc + tally Pc.awakened state.pc

section Step
variable {thread : Thread} {state next : State Thread Item} {action : Option (Action (Call Item) (Ret Item))}

omit [Fintype Thread] in
theorem Local.may {shared later : Shared Thread Item} {pc after : Pc Item}
    (moved : Local False thread shared pc action later after) : Local True thread shared pc action later after := by
  cases moved with
  | takeThrows may | pushThrows may => exact may.elim
  | popLock locked => exact .popLock locked
  | tryLock locked => exact .tryLock locked
  | emptyLock locked => exact .emptyLock locked
  | emptyTest => exact .emptyTest
  | emptyUnlock unlocked => exact .emptyUnlock unlocked
  | condWait unlocked => exact .condWait unlocked
  | relock locked => exact .relock locked
  | take shape => exact .take shape
  | takeEmpty shape => exact .takeEmpty shape
  | unlock unlocked => exact .unlock unlocked
  | pushLock locked => exact .pushLock locked
  | pushEnqueue => exact .pushEnqueue
  | pushUnlock unlocked => exact .pushUnlock unlocked

omit [Fintype Thread] in
theorem step_may (step : (monitor False).Step state thread action next) : (monitor True).Step state thread action next := by
  cases step with
  | call outside => exact .call outside
  | inside moved => exact .inside moved.may
  | signal signals signal => exact .signal signals signal
  | ret returns => exact .ret returns

omit [Fintype Thread] in
theorem not_threw_of_safe {other : Thread} (step : (monitor False).Step state other action next)
    (takes : state.pc thread = .take (.pop true)) : next.pc thread ≠ .unlock .threw := by
  by_cases same : other = thread
  · subst same
    cases step with
    | call outside => cases takes.symm.trans outside
    | signal signals => cases takes.symm.trans signals
    | ret returns => cases takes.symm.trans returns
    | inside moved =>
      rw [takes] at moved
      dsimp only
      rw [Function.update_self]
      cases moved with
      | takeThrows may => exact may.elim
      | take | takeEmpty => simp [Taker.answer]
  · have different : thread ≠ other := Ne.symm same
    cases step with
    | call | inside | ret => simp [Function.update_of_ne different, takes]
    | signal signals signal =>
      have awake : state.pc thread ≠ .asleep := by simp [takes]
      simp [Function.update_of_ne different, signal.awake awake, takes]

theorem owed_threw_iff (owed : accounting.Owed state) (threw : Threw state thread action next) :
    accounting.Owed next ↔ (state.pc thread = .take (.pop true) →
      (∀ other, state.pc other ≠ .asleep) ∨
      state.shared.q.length < tally Pc.signalling state.pc + tally Pc.awakened state.pc) := by
  obtain ⟨copies, -, rfl⟩ := threw
  by_cases takes : state.pc thread = .take (.pop true)
  · have signals := tally_update Pc.signalling state.pc thread (.unlock .threw)
    have wakes := tally_update Pc.awakened state.pc thread (.unlock .threw)
    rw [takes] at signals wakes
    simp only [Pc.signalling, Pc.awakened, Bool.toNat_true, Bool.toNat_false] at signals wakes
    have sleepers : (∃ other, Function.update state.pc thread (.unlock .threw) other = (.asleep : Pc Item)) ↔
        ∃ other, state.pc other = .asleep := by
      refine exists_congr fun other => ?_
      by_cases same : other = thread
      · subst same
        simp [takes]
      · rw [Function.update_of_ne same]
    change ((∃ other, Function.update state.pc thread (.unlock .threw) other = .asleep) →
      state.shared.q.length ≤ tally Pc.signalling (Function.update state.pc thread (.unlock .threw)) +
        tally Pc.awakened (Function.update state.pc thread (.unlock .threw))) ↔ _
    rw [sleepers]
    constructor
    · intro kept _
      by_cases sleeper : ∃ other, state.pc other = .asleep
      · have covered := kept sleeper
        right
        omega
      · exact .inl (not_exists.mp sleeper)
    · rintro passed ⟨other, sleeps⟩
      rcases passed takes with awake | spare
      · exact absurd sleeps (awake other)
      · omega
  · refine iff_of_true ?_ fun same => absurd same takes
    refine owed.update thread (by simp [monitor]) ?_
    change state.shared.q.length + (state.pc thread).signalling.toNat + (state.pc thread).awakened.toNat ≤ _
    rcases copies with ⟨taker, at_⟩ | ⟨item, at_⟩
    · rw [at_] at takes ⊢
      rcases taker with woken | item
      · cases woken with
        | false => exact Nat.le_refl _
        | true => exact absurd rfl takes
      · exact Nat.le_refl _
    · rw [at_]
      exact Nat.le_refl _

/-- Of all the steps of a run only an exception that may not pass leaves a debt uncovered. -/
theorem owed_step_iff (sound : (locking True).Sound state) (owed : accounting.Owed state)
    (step : (monitor True).Step state thread action next) : accounting.Owed next ↔ Passed state next := by
  rcases safe_or_threw step with safe | threw
  · exact iff_of_true (owed.step (sound_safe sound) safe)
      fun other takes left => absurd left (not_threw_of_safe safe takes)
  · rw [owed_threw_iff owed threw]
    obtain ⟨-, -, rfl⟩ := threw
    constructor
    · intro passed other takes left
      by_cases same : other = thread
      · subst same
        exact passed takes
      · simp [Function.update_of_ne same, takes] at left
    · exact fun passed takes => passed thread takes (Function.update_self _ _ _)

omit [Fintype Thread] in
theorem not_threw_of_wake (woken : (monitor True).Spurious state next)
    (takes : state.pc thread = .take (.pop true)) : next.pc thread ≠ .unlock .threw := by
  obtain ⟨sleeper, sleeps, rfl⟩ := woken
  have different : thread ≠ sleeper := by
    intro same
    subst same
    cases takes.symm.trans sleeps
  simp [Function.update_of_ne different, takes]

end Step

section Run
variable {program : Thread → List (Call Item)} {trace : List (Label Thread (Call Item) (Ret Item) Empty)}
variable {label : Option (Label Thread (Call Item) (Ret Item) Empty)}
variable {state next : Joint (State Thread Item) (Thread → List (Call Item))}

theorem owed_throwing_iff (sound : (locking True).Sound state.object) (owed : accounting.Owed state.object)
    (step : (throwing program).step state label next) :
    accounting.Owed next.object ↔ Passed state.object next.object := by
  rcases programs_cases step with ⟨thread, action, -, step⟩ | ⟨-, woken⟩
  · exact owed_step_iff sound owed step
  · exact iff_of_true (owed.wake woken) fun other takes left => absurd left (not_threw_of_wake woken takes)

theorem owed_of_passed
    (reached : ((throwing program).restricted fun state _ next => Passed state.object next.object).Reaches trace state) :
    (locking True).Sound state.object ∧ accounting.Owed state.object := by
  refine reached.invariant (fun _ state => (locking True).Sound state.object ∧ accounting.Owed state.object) ?_ ?_
  · rintro ⟨_, progress⟩ ⟨rfl, -⟩
    exact ⟨Locking.Sound.start, Accounting.Owed.start⟩
  · intro trace state label next _ kept step
    obtain ⟨passed, step⟩ := step
    exact ⟨throwing_sound kept.1 step, (owed_throwing_iff kept.1 kept.2 step).mpr passed⟩

omit [Fintype Thread] in
theorem calm_of_stuck (sound : (locking True).Sound state.object)
    (stuck : Stuck (machine True) (programs id program) state) (thread : Thread) :
    state.object.pc thread = .outside ∨ state.object.pc thread = .asleep := by
  refine (sound.quiet ?_ fun _ _ _ step => programs_stuck stuck step).2 thread
  intro thread outside asleep signals returns free
  obtain ⟨action, later, after, moved⟩ :=
    Local.enabled True (sound.knows thread) asleep outside signals returns (sound.locks thread) free
  exact ⟨action, later, after, moved, moved.not_calls⟩

theorem admitted_of_safe {first last : Joint (State Thread Item) (Thread → List (Call Item))}
    (run : (compose (machine False) (programs id program)).Run first trace last) :
    ((throwing program).restricted fun state _ next => Passed state.object next.object).Run first trace last := by
  induction run with
  | refl => exact .refl
  | @tail trace state next label _ step ih =>
    refine ih.tail ⟨?_, ?_⟩
    · rcases programs_cases step with ⟨thread, action, -, step⟩ | ⟨-, woken⟩
      · exact fun other takes left => absurd left (not_threw_of_safe step takes)
      · exact fun other takes left => absurd left (not_threw_of_wake woken takes)
    · rcases step with ⟨thread, step⟩ | woken
      · refine .inl ⟨thread, ?_⟩
        cases step with
        | call asked step => exact .call asked (step_may step)
        | silent step => exact .silent (step_may step)
        | commit step => exact .commit (step_may step)
        | fault step => exact .fault (step_may step)
        | ret step resumed => exact .ret (step_may step) resumed
        | work worked => exact worked.elim
      · exact .inr woken

/-- As long as no exception swallows a wake-up that somebody else needs, nobody sleeps for good
beside a queued item; and the first exception that does leaves an item no wake-up is meant for. -/
theorem wakes_until_swallowed
    (reached : ((throwing program).restricted fun state _ next => Passed state.object next.object).Reaches trace state) :
    (Stuck (machine True) (programs id program) state →
      ¬(state.object.shared.q ≠ [] ∧ ∃ thread, state.object.pc thread = .asleep)) ∧
    accounting.Owed state.object ∧
    ∀ label next, (throwing program).step state label next →
      (accounting.Owed next.object ↔ Passed state.object next.object) := by
  obtain ⟨sound, owed⟩ := owed_of_passed reached
  refine ⟨?_, owed, fun label next step => owed_throwing_iff sound owed step⟩
  rintro stuck ⟨items, thread, sleeps⟩
  exact items (List.length_eq_zero_iff.mp (owed.empty (calm_of_stuck sound stuck) sleeps))

end Run

inductive Party where
  | first
  | second
  | producer
  deriving DecidableEq

instance : Fintype Party := ⟨{.first, .second, .producer}, fun party => by cases party <;> decide⟩

def twoConsumers : Party → List (Call Nat)
  | .first => [.pop]
  | .second => [.pop]
  | .producer => [.push 7]

theorem reaches_swallowed : ∃ trace state, (throwing twoConsumers).Reaches trace state ∧
    state.object.shared.q = [7] ∧ state.object.pc .first = .outside ∧ state.object.pc .second = .asleep ∧
    state.object.pc .producer = .outside ∧ state.client .first = [] ∧ state.client .producer = [] := by
  let idle : Party → Pc Nat := fun _ => .outside
  let slept : Party → Pc Nat := Function.update idle .first .asleep
  let both : Party → Pc Nat := Function.update slept .second .asleep
  let resumed : Party → Pc Nat := Function.update both .first .woken
  let last : Party → Pc Nat := Function.update resumed .first .outside
  let empty : Shared (Party) Nat := ⟨[], .free⟩
  let seven : Shared (Party) Nat := ⟨[7], .free⟩
  have sleeps : (machine True).Parks .first .pop ⟨empty, idle⟩ ⟨empty, slept⟩ := pop_parks True rfl
  have sleepsToo : (machine True).Parks .second .pop ⟨empty, slept⟩ ⟨empty, both⟩ := pop_parks True rfl
  have pushes : (machine True).Completes .producer (.push 7) .pushed ⟨empty, both⟩ ⟨seven, resumed⟩ :=
    push_wakes True rfl rfl [] 7
  have throws : (machine True).Quietly .first ⟨seven, resumed⟩ (.with last .first seven (.returning .threw)) := by
    have woken : State.with last .first seven .woken = ⟨seven, resumed⟩ := by
      simp only [State.with, last, resumed, Function.update_idem]
    rw [← woken]
    exact .head (inside_alone (.relock rfl)) ((test_alone True [7] true).trans
      (.head (inside_alone (.takeThrows trivial)) (.head (inside_alone (.unlock (Mutex.unlock_held Party.first))) .refl)))
  have threw : (monitor True).object.step (.with last .first seven (.returning .threw)) .first (some (.ret .threw))
      ⟨seven, last⟩ := ret_alone Ret.threw rfl
  have run : (throwing twoConsumers).Run ⟨⟨empty, idle⟩, twoConsumers⟩ _
      ⟨⟨seven, last⟩, Function.update (Function.update twoConsumers .producer []) .first []⟩ :=
    (sleeps.run rfl).trans ((sleepsToo.run rfl).trans ((pushes.run rfl rfl).trans (throws.run.trans
      (Step.run (.ret threw rfl)))))
  exact ⟨_, _, ⟨⟨⟨empty, idle⟩, twoConsumers⟩, ⟨rfl, rfl⟩, run⟩, rfl, rfl, rfl, rfl, rfl, rfl⟩

/-- The exception of the consumer that was woken leaves the other one asleep beside the item, and
nobody can take a step. -/
theorem swallowed_wakeup : ¬∀ trace state, (throwing twoConsumers).Reaches trace state →
    Stuck (machine True) (programs id twoConsumers) state →
    ¬(state.object.shared.q ≠ [] ∧ ∃ thread, state.object.pc thread = .asleep) := by
  intro always
  obtain ⟨trace, state, reached, item, first, second, producer, done, also⟩ := reaches_swallowed
  have stuck : Stuck (machine True) (programs id twoConsumers) state := by
    refine stuck_of_done fun thread action next step => ?_
    cases thread with
    | first => exact ⟨(calls_at_rest (.inl first) step).2, done⟩
    | second => cases second.symm.trans (calls_at_rest (.inr second) step).1
    | producer => exact ⟨(calls_at_rest (.inl producer) step).2, also⟩
  exact always trace state reached stuck ⟨by simp [item], .second, second⟩

def twoItems : Party → List (Call Nat)
  | .first => [.pop]
  | .second => [.pop]
  | .producer => [.push 7, .push 8]

/-- Both consumers sleep and both pushes signal; the first consumer's copy throws when nobody
sleeps any more, and the second takes an item. One item is left, and nobody waits for it. -/
theorem wakes_until_swallowed_covered : ∃ trace state,
    ((throwing twoItems).restricted fun state _ next => Passed state.object next.object).Reaches trace state ∧
    .act .first (.ret .threw) ∈ trace ∧ .act .second (.ret (.popped 7)) ∈ trace ∧
    Stuck (machine True) (programs id twoItems) state ∧ state.object.shared.q = [8] ∧
    ¬(state.object.shared.q ≠ [] ∧ ∃ thread, state.object.pc thread = .asleep) := by
  let idle : Party → Pc Nat := fun _ => .outside
  let slept : Party → Pc Nat := Function.update idle .first .asleep
  let both : Party → Pc Nat := Function.update slept .second .asleep
  let woken : Party → Pc Nat := Function.update both .first .woken
  let awake : Party → Pc Nat := Function.update woken .second .woken
  let left : Party → Pc Nat := Function.update awake .first .outside
  let last : Party → Pc Nat := Function.update left .second .outside
  let items : Shared Party Nat := ⟨[7, 8], .free⟩
  have sleeps : (machine False).Parks .first .pop ⟨⟨([] : List Nat), .free⟩, idle⟩ ⟨⟨[], .free⟩, slept⟩ :=
    pop_parks False rfl
  have sleepsToo : (machine False).Parks .second .pop ⟨⟨([] : List Nat), .free⟩, slept⟩ ⟨⟨[], .free⟩, both⟩ :=
    pop_parks False rfl
  have pushes : (machine False).Completes .producer (.push 7) .pushed ⟨⟨[], .free⟩, both⟩ ⟨⟨[7], .free⟩, woken⟩ :=
    push_wakes False rfl rfl [] 7
  have pushesToo : (machine False).Completes .producer (.push 8) .pushed ⟨⟨[7], .free⟩, woken⟩ ⟨items, awake⟩ :=
    push_wakes False rfl rfl [7] 8
  have locks : (machine False).Quietly .first ⟨items, awake⟩
      (.with left .first ⟨[7, 8], .held .first 0⟩ (.take (.pop true))) := by
    have here : State.with left .first items .woken = ⟨items, awake⟩ := by
      simp only [State.with, left, Function.update_idem]
      congr 1
      funext thread
      cases thread <;> rfl
    rw [← here]
    exact .head (inside_alone (.relock rfl)) (test_alone False [7, 8] true)
  have throws : (monitor True).object.step (.with left .first ⟨[7, 8], .held .first 0⟩ (.take (.pop true))) .first none
      (.with left .first ⟨[7, 8], .held .first 0⟩ (.unlock .threw)) := inside_alone (.takeThrows trivial)
  have unlocks : (machine False).Quietly .first (.with left .first ⟨[7, 8], .held .first 0⟩ (.unlock .threw))
      (.with left .first items (.returning .threw)) :=
    .head (inside_alone (.unlock (Mutex.unlock_held Party.first))) .refl
  have threw : (monitor False).object.step (.with left .first items (.returning .threw)) .first (some (.ret .threw))
      ⟨items, left⟩ := ret_alone Ret.threw rfl
  have tests : (machine False).Quietly .second ⟨items, left⟩
      (.with last .second ⟨[7, 8], .held .second 0⟩ (.take (.pop true))) := by
    have here : State.with last .second items .woken = ⟨items, left⟩ := by
      simp only [State.with, last, Function.update_idem]
      congr 1
      funext thread
      cases thread <;> rfl
    rw [← here]
    exact .head (inside_alone (.relock rfl)) (test_alone False [7, 8] true)
  have takes : Local False Party.second ⟨[7, 8], .held .second 0⟩ (.take (.pop true)) (some (.commit .pop (.popped 7)))
      ⟨[8], .held .second 0⟩ (.unlock (.popped 7)) := .take rfl
  have taken : (monitor False).object.step (.with last .second ⟨[7, 8], .held .second 0⟩ (.take (.pop true))) .second
      (some (.commit .pop (.popped 7))) (.with last .second ⟨[8], .held .second 0⟩ (.unlock (.popped 7))) := inside_alone takes
  have unlocksToo : (machine False).Quietly .second (.with last .second ⟨[8], .held .second 0⟩ (.unlock (.popped 7)))
      (.with last .second ⟨[8], .free⟩ (.returning (.popped 7))) :=
    .head (inside_alone (.unlock (Mutex.unlock_held Party.second))) .refl
  have returned : (monitor False).object.step (.with last .second ⟨[8], .free⟩ (.returning (.popped 7))) .second
      (some (.ret (.popped 7))) ⟨⟨[8], .free⟩, last⟩ := ret_alone (Ret.popped 7) rfl
  have before : (compose (machine False) (programs id twoItems)).Run ⟨_, twoItems⟩ _
      ⟨_, Function.update (Function.update twoItems .producer [.push 8]) .producer []⟩ :=
    (sleeps.run rfl).trans ((sleepsToo.run rfl).trans ((pushes.run rfl rfl).trans ((pushesToo.run rfl rfl).trans locks.run)))
  have after : (compose (machine False) (programs id twoItems)).Run
      ⟨_, Function.update (Function.update twoItems .producer [.push 8]) .producer []⟩ _
      ⟨_, Function.update (Function.update (Function.update (Function.update twoItems .producer [.push 8]) .producer [])
        .first []) .second []⟩ :=
    unlocks.run.trans ((Step.run (.ret threw rfl)).trans (tests.run.trans ((Step.run (.commit taken)).trans
      (unlocksToo.run.trans (Step.run (.ret returned rfl))))))
  have passed : Passed (.with left .first ⟨[7, 8], .held .first 0⟩ (.take (.pop true)))
      (.with left .first ⟨[7, 8], .held .first 0⟩ (.unlock .threw)) := by
    refine fun _ _ _ => .inl fun other sleeps => ?_
    cases other <;> cases sleeps
  have reached : ((throwing twoItems).restricted fun state _ next => Passed state.object next.object).Reaches _ _ :=
    ⟨⟨⟨⟨[], .free⟩, idle⟩, twoItems⟩, ⟨rfl, rfl⟩, ((admitted_of_safe before).tail ⟨passed, .inl ⟨.first, .silent throws⟩⟩).trans (admitted_of_safe after)⟩
  have stuck : Stuck (machine True) (programs id twoItems) ⟨⟨⟨[8], .free⟩, last⟩,
      Function.update (Function.update (Function.update (Function.update twoItems .producer [.push 8]) .producer [])
        .first []) .second []⟩ := by
    refine stuck_of_done fun thread action next step => ?_
    cases thread <;> exact ⟨(calls_at_rest (.inl rfl) step).2, rfl⟩
  exact ⟨_, _, reached, by simp, by simp, stuck, rfl, (wakes_until_swallowed reached).1 stuck⟩

end CppRt.ThreadPool.ThreadSafeQueue

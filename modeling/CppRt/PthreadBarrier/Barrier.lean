import CppRt.Library.Barrier
import CppRt.Library.ForkJoinEnds

/-!
Threads that come to a barrier for as many as they are, after a sleep of each. Nobody goes on
before all have come, one of them is told that it is the serial thread, and no thread is left
at the barrier when all have been joined, so that it can be destroyed. The barrier is taken to be
initialised and the threads to be created: calls that fail end the program.
-/

namespace CppRt.PthreadBarrier
open Library Transition ForkJoin

inductive Pc where
  | start
  | sleeping
  | reaching
  | entering
  | waiting (ticket : Nat)
  | switching (serial : Bool)
  | quitting
  | exited
  deriving DecidableEq

/-- What it prints or what it calls; `returned` is the end of pthread_barrier_wait with
PTHREAD_BARRIER_SERIAL_THREAD or with 0. -/
inductive Note where
  | started (s : Nat)
  | slept
  | reached
  | entered
  | returned (serial : Bool)
  | serialThread
  | switched
  | quit
  deriving DecidableEq

variable {n : Nat} {pick : Nat → Nat} {rand : Fin n → Nat}

/-- `pick` is the choice of the serial thread, `rand` what the threads draw. -/
def worker (pick : Nat → Nat) (rand : Fin n → Nat) (numer : Fin n) (barrier : Barrier n) :
    Pc → Option (Note × Barrier n × Pc)
  | .start => some (.started (rand numer % 4 + 1), barrier, .sleeping)
  | .sleeping => some (.slept, barrier, .reaching)
  | .reaching => some (.reached, barrier, .entering)
  | .entering => some (.entered, barrier.arrive, .waiting barrier.arrivals)
  | .waiting ticket =>
    if barrier.passes ticket then
      some (.returned (Barrier.serial n pick ticket), barrier, .switching (Barrier.serial n pick ticket))
    else none
  | .switching serial => some (if serial then .serialThread else .switched, barrier, .quitting)
  | .quitting => some (.quit, barrier, .exited)
  | .exited => none

def synchronized (pick : Nat → Nat) (rand : Fin n → Nat) : ForkJoin n (Barrier n) Pc Note where
  memory := ⟨0⟩
  entry := .start
  exited := .exited
  step := worker pick rand
  merge _ barrier := barrier

def Pc.entered : Pc → Bool
  | .waiting _ | .switching _ | .quitting | .exited => true
  | .start | .sleeping | .reaching | .entering => false

def Pc.through : Pc → Bool
  | .switching _ | .quitting | .exited => true
  | .start | .sleeping | .reaching | .entering | .waiting _ => false

def Pc.owes (n : Nat) (pick : Nat → Nat) : Pc → Bool
  | .waiting ticket => Barrier.serial n pick ticket
  | .switching serial => serial
  | .start | .sleeping | .reaching | .entering | .quitting | .exited => false

def entered (position : Option Pc) : Bool := position.elim false Pc.entered
def through (position : Option Pc) : Bool := position.elim false Pc.through
def owes (n : Nat) (pick : Nat → Nat) (position : Option Pc) : Bool := position.elim false (Pc.owes n pick)

def Came (position : Option Pc) : Prop := position = some .entering ∨ entered position = true

def Event.tells : Event n Note → Bool
  | .act _ .serialThread => true
  | _ => false

/-- When a thread returns from the barrier, all have said that they reached it. -/
def AllCame (before : List (Event n Note)) (event : Event n Note) : Prop :=
  ∀ numer serial, event = .act numer (.returned serial) → ∀ other, .act other .reached ∈ before

structure Sound (pick : Nat → Nat) (trace : List (Event n Note)) (barrier : Barrier n) (family : Fin n → Option Pc) :
    Prop where
  arrived : barrier.arrivals = Family.tally entered family
  came : ∀ numer, Came (family numer) → .act numer .reached ∈ trace
  tickets : ∀ numer ticket, family numer = some (.waiting ticket) → ticket < n
  passed : ∀ numer, through (family numer) = true → barrier.arrivals = n
  told : trace.countP Event.tells + Family.tally (owes n pick) family =
    (List.range barrier.arrivals).countP (Barrier.serial n pick)
  early : Throughout AllCame trace

section Sound
variable {trace : List (Event n Note)} {barrier later : Barrier n} {family : Fin n → Option Pc}
variable {numer : Fin n} {pc after : Pc} {note : Note}

theorem tally_le (counts : Option Pc → Bool) (family : Fin n → Option Pc) : Family.tally counts family ≤ n := by
  have most := Finset.card_le_univ (Finset.univ.filter fun thread => counts (family thread) = true)
  rwa [Fintype.card_fin] at most

theorem all_of_tally {counts : Option Pc → Bool} (full : Family.tally counts family = n) (thread : Fin n) :
    counts (family thread) = true := by
  have whole : Finset.univ.filter (fun thread => counts (family thread) = true) = Finset.univ := by
    apply Finset.eq_univ_of_card
    rw [Fintype.card_fin]
    exact full
  have member := Finset.mem_univ thread
  rw [← whole, Finset.mem_filter] at member
  exact member.2

theorem Sound.full (sound : Sound pick trace barrier family) {ticket : Nat} (here : family numer = some (.waiting ticket))
    (passes : barrier.passes ticket = true) : barrier.arrivals = n := by
  have below := sound.tickets numer ticket here
  have positive : 0 < n := Nat.lt_of_le_of_lt (Nat.zero_le _) below
  have most := sound.arrived.trans_le (tally_le entered family)
  rw [Barrier.passes_iff positive, Nat.div_eq_of_lt below, Nat.zero_add, Nat.one_mul] at passes
  exact Nat.le_antisymm most passes

theorem Sound.stay (sound : Sound pick trace barrier family) (runs : family numer = some pc)
    (same : after.entered = pc.entered) (came : Came (some after) → Came (some pc) ∨ note = .reached)
    (unticketed : ∀ ticket, after ≠ .waiting ticket) (passed : after.through = true → barrier.arrivals = n)
    (told : (Event.tells (.act numer note)).toNat + (after.owes n pick).toNat = (pc.owes n pick).toNat)
    (early : ∀ serial, note = .returned serial → barrier.arrivals = n) :
    Sound pick (trace ++ [.act numer note]) barrier (Function.update family numer (some after)) where
  arrived := by
    have moved := Family.tally_update entered family numer (some after)
    rw [runs] at moved
    have kept : entered (some after) = entered (some pc) := same
    rw [kept] at moved
    rw [sound.arrived]
    omega
  came := by
    intro other there
    by_cases here : other = numer
    · subst here
      rw [Function.update_self] at there
      cases came there with
      | inl before =>
        rw [← runs] at before
        exact List.mem_append_left _ (sound.came other before)
      | inr now =>
        rw [now]
        exact List.mem_append_right _ (List.mem_singleton.mpr rfl)
    · rw [Function.update_of_ne here] at there
      exact List.mem_append_left _ (sound.came other there)
  tickets := by
    intro other ticket there
    by_cases here : other = numer
    · subst here
      rw [Function.update_self] at there
      exact absurd (Option.some.inj there) (unticketed ticket)
    · rw [Function.update_of_ne here] at there
      exact sound.tickets other ticket there
  passed := by
    intro other there
    by_cases here : other = numer
    · subst here
      rw [Function.update_self] at there
      exact passed there
    · rw [Function.update_of_ne here] at there
      exact sound.passed other there
  told := by
    have moved := Family.tally_update (owes n pick) family numer (some after)
    rw [runs] at moved
    have before := sound.told
    have owed : (owes n pick (some pc)).toNat = (pc.owes n pick).toNat := rfl
    have owing : (owes n pick (some after)).toNat = (after.owes n pick).toNat := rfl
    rw [owed, owing] at moved
    have shown : [(.act numer note : Event n Note)].countP Event.tells = (Event.tells (.act numer note)).toNat := by
      rw [List.countP_singleton]
      cases Event.tells (.act numer note) <;> rfl
    rw [List.countP_append, shown]
    omega
  early := by
    rw [throughout_snoc]
    refine ⟨sound.early, ?_⟩
    intro thread serial same_ other
    cases same_
    have all := all_of_tally (sound.arrived.symm.trans (early serial rfl)) other
    exact sound.came other (.inr all)

theorem Sound.arrive (sound : Sound pick trace barrier family) (runs : family numer = some .entering) :
    Sound pick (trace ++ [.act numer .entered]) barrier.arrive
      (Function.update family numer (some (.waiting barrier.arrivals))) := by
  have moved := Family.tally_update entered family numer (some (.waiting barrier.arrivals))
  rw [runs] at moved
  have one : Family.tally entered (Function.update family numer (some (.waiting barrier.arrivals))) =
      Family.tally entered family + 1 := moved
  have room : barrier.arrivals < n := by
    have most := tally_le entered (Function.update family numer (some (.waiting barrier.arrivals)))
    rw [one, ← sound.arrived] at most
    exact most
  refine ⟨?_, ?_, ?_, ?_, ?_, ?_⟩
  · rw [one, ← sound.arrived]
    rfl
  · intro other there
    apply List.mem_append_left
    by_cases here : other = numer
    · subst here
      exact sound.came other (.inl runs)
    · rw [Function.update_of_ne here] at there
      exact sound.came other there
  · intro other ticket there
    by_cases here : other = numer
    · subst here
      rw [Function.update_self] at there
      cases there
      exact room
    · rw [Function.update_of_ne here] at there
      exact sound.tickets other ticket there
  · intro other there
    by_cases here : other = numer
    · subst here
      rw [Function.update_self] at there
      cases there
    · rw [Function.update_of_ne here] at there
      exact absurd (sound.passed other there) (Nat.ne_of_lt room)
  · have owed := Family.tally_update (owes n pick) family numer (some (.waiting barrier.arrivals))
    rw [runs] at owed
    have before := sound.told
    have none_ : (owes n pick (some .entering)).toNat = 0 := rfl
    have own : (owes n pick (some (.waiting barrier.arrivals))).toNat = (Barrier.serial n pick barrier.arrivals).toNat := rfl
    rw [none_, own] at owed
    have last : [barrier.arrivals].countP (Barrier.serial n pick) = (Barrier.serial n pick barrier.arrivals).toNat := by
      rw [List.countP_singleton]
      cases Barrier.serial n pick barrier.arrivals <;> rfl
    have quiet : [(.act numer .entered : Event n Note)].countP Event.tells = 0 := rfl
    rw [List.countP_append, quiet]
    show _ = (List.range (barrier.arrivals + 1)).countP _
    rw [List.range_succ, List.countP_append, last]
    omega
  · rw [throughout_snoc]
    refine ⟨sound.early, ?_⟩
    intro thread serial wrong
    cases wrong

theorem Sound.act (sound : Sound pick trace barrier family) (runs : family numer = some pc)
    (stepped : worker pick rand numer barrier pc = some (note, later, after)) :
    Sound pick (trace ++ [.act numer note]) later (Function.update family numer (some after)) := by
  have not_came {position : Pc} (outside : position.entered = false) (apart : position ≠ .entering) :
      ¬Came (some position) := by
    intro there
    cases there with
    | inl here => exact apart (Option.some.inj here)
    | inr inside => cases outside.symm.trans inside
  cases pc with
  | start =>
    cases stepped
    exact sound.stay runs rfl (fun there => absurd there (not_came rfl (by decide))) (fun _ wrong => by cases wrong)
      (fun wrong => by cases wrong) rfl (fun _ wrong => by cases wrong)
  | sleeping =>
    cases stepped
    exact sound.stay runs rfl (fun there => absurd there (not_came rfl (by decide))) (fun _ wrong => by cases wrong)
      (fun wrong => by cases wrong) rfl (fun _ wrong => by cases wrong)
  | reaching =>
    cases stepped
    exact sound.stay runs rfl (fun _ => .inr rfl) (fun _ wrong => by cases wrong) (fun wrong => by cases wrong) rfl
      (fun _ wrong => by cases wrong)
  | entering =>
    cases stepped
    exact sound.arrive runs
  | waiting ticket =>
    by_cases passes : barrier.passes ticket = true
    · simp only [worker, if_pos passes] at stepped
      cases stepped
      have full := sound.full runs passes
      exact sound.stay runs rfl (fun _ => .inl (.inr rfl)) (fun _ wrong => by cases wrong) (fun _ => full)
        (Nat.zero_add _) (fun _ _ => full)
    · simp only [worker, if_neg passes] at stepped
      cases stepped
  | switching serial =>
    cases stepped
    have full := sound.passed numer (by rw [runs]; rfl)
    cases serial with
    | true =>
      exact sound.stay runs rfl (fun _ => .inl (.inr rfl)) (fun _ wrong => by cases wrong) (fun _ => full) rfl
        (fun _ wrong => by cases wrong)
    | false =>
      exact sound.stay runs rfl (fun _ => .inl (.inr rfl)) (fun _ wrong => by cases wrong) (fun _ => full) rfl
        (fun _ wrong => by cases wrong)
  | quitting =>
    cases stepped
    have full := sound.passed numer (by rw [runs]; rfl)
    exact sound.stay runs rfl (fun _ => .inl (.inr rfl)) (fun _ wrong => by cases wrong) (fun _ => full) rfl
      (fun _ wrong => by cases wrong)
  | exited => cases stepped

theorem Sound.aside (sound : Sound pick trace barrier family) {event : Event n Note}
    (other : ∀ numer note, event ≠ .act numer note) : Sound pick (trace ++ [event]) barrier family where
  arrived := sound.arrived
  came := fun numer there => List.mem_append_left _ (sound.came numer there)
  tickets := sound.tickets
  passed := sound.passed
  told := by
    have quiet : [event].countP Event.tells = 0 := by
      cases event with
      | act numer note => exact absurd rfl (other numer note)
      | create | join | merge => rfl
    rw [List.countP_append, quiet]
    exact sound.told
  early := by
    rw [throughout_snoc]
    exact ⟨sound.early, fun numer serial wrong => absurd wrong (other numer _)⟩

theorem Sound.create (sound : Sound pick trace barrier family) (fresh : family numer = none) :
    Sound pick (trace ++ [.create numer]) barrier (Function.update family numer (some .start)) := by
  have same {Value : Type} (value : Option Pc → Value) (kept : value (some .start) = value none) (other : Fin n) :
      value (Function.update family numer (some .start) other) = value (family other) := by
    by_cases here : other = numer
    · subst here
      rw [Function.update_self, fresh, kept]
    · rw [Function.update_of_ne here]
  have tallies (counts : Option Pc → Bool) (kept : counts (some .start) = counts none) :
      Family.tally counts (Function.update family numer (some .start)) = Family.tally counts family := by
    have moved := Family.tally_update counts family numer (some .start)
    rw [fresh, kept] at moved
    omega
  have silent : ∀ other note, (.create numer : Event n Note) ≠ .act other note := fun _ _ wrong => by cases wrong
  have aside := sound.aside silent
  refine ⟨?_, ?_, ?_, ?_, ?_, aside.early⟩
  · rw [tallies entered rfl]
    exact sound.arrived
  · intro other there
    apply aside.came other
    have kept := same Came (by simp [Came, entered, Pc.entered]) other
    rwa [kept] at there
  · intro other ticket there
    have kept := same (fun position => position = some (.waiting ticket)) (by simp) other
    exact sound.tickets other ticket (kept ▸ there)
  · intro other there
    rw [same through rfl] at there
    exact sound.passed other there
  · rw [tallies (owes n pick) rfl]
    exact aside.told

end Sound

section Runs
variable {trace : List (Event n Note)} {state : State n (Barrier n) Pc}

theorem sound_of_reaches (reached : (synchronized pick rand).system.Reaches trace state) :
    Sound pick trace state.memory state.pc := by
  apply invariant_of_reaches (Sound pick) reached
  · have none_ (counts : Option Pc → Bool) (kept : counts none = false) :
        Family.tally counts (fun _ : Fin n => (none : Option Pc)) = 0 := by
      rw [Family.tally_eq_sum]
      exact Finset.sum_eq_zero fun _ _ => by rw [kept]; rfl
    refine ⟨(none_ entered rfl).symm, ?_, (fun _ _ wrong => by cases wrong), (fun _ wrong => by cases wrong), ?_,
      throughout_nil⟩
    · intro numer there
      cases there with
      | inl wrong => cases wrong
      | inr wrong => cases wrong
    · rw [none_ (owes n pick) rfl]
      rfl
  · exact fun trace barrier family numer sound fresh => sound.create fresh
  · exact fun trace barrier family numer pc note later after sound runs stepped => sound.act runs stepped
  · exact fun trace barrier family numer sound => sound.aside fun _ _ wrong => by cases wrong
  · exact fun trace barrier family numer sound => sound.aside fun _ _ wrong => by cases wrong

/-- Whatever the order of the steps and whichever thread the barrier picks: nobody returns from
the barrier before all have said that they reached it; and when all have been joined, all have
returned from it and exactly one has said that it is the serial thread. -/
theorem barrier_synchronizes (positive : 0 < n) (among : ∀ round, pick round < n)
    (reached : (synchronized pick rand).system.Reaches trace state) :
    Throughout AllCame trace ∧
      (state.main = .joined → trace.countP Event.tells = 1 ∧ ∀ numer, state.pc numer = some .exited) := by
  have sound := sound_of_reaches reached
  refine ⟨sound.early, ?_⟩
  intro joined
  have exited := exited_of_joined (fun _ _ => rfl) reached joined
  refine ⟨?_, exited⟩
  have full : state.memory.arrivals = n := sound.passed ⟨0, positive⟩ (by rw [exited]; rfl)
  have settled : Family.tally (owes n pick) state.pc = 0 := by
    rw [Family.tally_eq_sum]
    exact Finset.sum_eq_zero fun numer _ => by rw [exited]; rfl
  have one := Barrier.serial_rounds among 1
  have told := sound.told
  rw [Nat.one_mul] at one
  rw [settled, full, one] at told
  exact told

theorem worker_goes_on {numer : Fin n} {barrier : Barrier n} {pc : Pc} (unfinished : pc ≠ .exited)
    (passes : ∀ ticket, pc = .waiting ticket → barrier.passes ticket = true) :
    ∃ note later after, worker pick rand numer barrier pc = some (note, later, after) := by
  cases pc with
  | waiting ticket => exact ⟨_, _, _, if_pos (passes ticket rfl)⟩
  | exited => exact absurd rfl unfinished
  | start | sleeping | reaching | entering | switching | quitting => exact ⟨_, _, _, rfl⟩

/-- Of the threads that have not come to their end one can go on: while not all have come to
the barrier one that has not, and then each. -/
theorem moves (reached : (synchronized pick rand).system.Reaches trace state)
    (everywhere : ∀ numer, state.pc numer ≠ none) : (synchronized pick rand).Moves state := by
  have sound := sound_of_reaches reached
  intro numer pc here unfinished
  by_cases all : ∀ other, entered (state.pc other) = true
  · have full : state.memory.arrivals = n := by
      rw [sound.arrived, Family.tally, Finset.filter_true_of_mem fun other _ => all other, Finset.card_univ,
        Fintype.card_fin]
    have passes : ∀ ticket, pc = .waiting ticket → state.memory.passes ticket = true := by
      rintro ticket rfl
      have below := sound.tickets numer ticket here
      rw [Barrier.passes_iff (Nat.lt_of_le_of_lt (Nat.zero_le _) below), Nat.div_eq_of_lt below, full]
      exact Nat.le_of_eq (by rw [Nat.zero_add, Nat.one_mul])
    obtain ⟨note, later, after, step⟩ := worker_goes_on unfinished passes
    exact ⟨numer, pc, note, later, after, here, step⟩
  · obtain ⟨other, outside⟩ := not_forall.mp all
    cases there : state.pc other with
    | none => exact absurd there (everywhere other)
    | some position =>
      rw [there] at outside
      have early : position ≠ .exited := by
        rintro rfl
        exact outside rfl
      have free : ∀ ticket, position = .waiting ticket → state.memory.passes ticket = true := by
        rintro ticket rfl
        exact absurd rfl outside
      obtain ⟨note, later, after, step⟩ := worker_goes_on early free
      exact ⟨other, position, note, later, after, there, step⟩

def Pc.rank : Pc → Nat
  | .start => 7
  | .sleeping => 6
  | .reaching => 5
  | .entering => 4
  | .waiting _ => 3
  | .switching _ => 2
  | .quitting => 1
  | .exited => 0

theorem worker_lowers {numer : Fin n} {barrier later : Barrier n} {pc after : Pc} {note : Note}
    (stepped : worker pick rand numer barrier pc = some (note, later, after)) : after.rank < pc.rank := by
  cases pc with
  | waiting ticket =>
    by_cases passes : barrier.passes ticket = true
    · simp only [worker, if_pos passes] at stepped
      cases stepped
      exact Nat.lt_succ_self _
    · simp only [worker, if_neg passes] at stepped
      cases stepped
  | exited => cases stepped
  | start | sleeping | reaching | entering | switching | quitting =>
    cases stepped
    exact Nat.lt_succ_self _

/-- Nobody is kept at the barrier for ever: wherever the threads are, they go on to the last
join, no run comes to a stop before it, and none goes on without an end. -/
theorem barrier_joins (reached : (synchronized pick rand).system.Reaches trace state) :
    (∃ more last, (synchronized pick rand).system.Run state more last ∧ last.main = .joined) ∧
      ((synchronized pick rand).system.Final state → state.main = .joined) ∧
        ∀ run, run 0 = state → ¬(synchronized pick rand).system.Endless run := by
  refine ⟨?_, ?_, ?_⟩
  · obtain ⟨more, last, run, _, joined⟩ := reaches_last worker_lowers moves reached
    exact ⟨more, last, run, joined⟩
  · exact joined_of_final reached (moves reached)
  · rintro run rfl
    exact not_endless worker_lowers reached

def three : ForkJoin 3 (Barrier 3) Pc Note := synchronized (fun _ => 1) fun numer => numer

theorem barrier_synchronizes_three : ∃ trace state, three.system.Reaches trace state ∧ state.main = .joined ∧
    Throughout AllCame trace ∧ trace.countP Event.tells = 1 := by
  obtain ⟨more, last, _, reached, joined⟩ := reaches_last worker_lowers moves (System.Reaches.first (rfl : three.system.start _))
  obtain ⟨early, told⟩ := barrier_synchronizes (by decide) (fun _ => by decide) reached
  exact ⟨_, last, reached, joined, early, (told joined).1⟩

theorem barrier_joins_three : ∃ more last, three.system.Run ⟨.creating 0, ⟨0⟩, fun _ => none⟩ more last ∧
    last.main = .joined :=
  (barrier_joins (System.Reaches.first (rfl : three.system.start _))).1

end Runs

end CppRt.PthreadBarrier

import CppRt.Library.Family
import CppRt.Library.ForkJoin
import Mathlib.Data.List.GetD

/-!
The estimate of pi by darts that several threads throw. Each has the same share of the darts,
which num_darts/num_threads rounds down, and leaves its hits in an element of a vector; what
they add up to is divided by num_darts. Whether a dart hits is decided on doubles, and is a
parameter here, as are the numbers that are drawn. The pthread version starts two threads, the
boost version as many as hardware_concurrency says. An int that is counted past its greatest
value and a division by zero are undefined.
-/

namespace CppRt.ExPi
open Library Transition ForkJoin

inductive Version where
  | pthreads
  | boost (hardware_concurrency : UInt32)

/-- The unsigned number of the boost version comes to be an int. -/
def Version.num_threads : Version → Int
  | .pthreads => 2
  | .boost hardware_concurrency => hardware_concurrency.toInt32.toInt

/-- The size of the vector of results; a negative int is greater than any vector's. -/
def vectorSize (num_threads : Int) : Option Nat :=
  if 0 ≤ num_threads then some num_threads.toNat else none

def share (num_darts num_threads : Int) : Option Int :=
  if num_threads = 0 then none else some (num_darts.tdiv num_threads)

abbrev Dart := Int × Int

inductive Pc where
  | test (i p : Nat)
  | x (i p : Nat)
  | y (i p : Nat) (x : Int)
  | compare (i p : Nat) (dart : Dart)
  | next (i p : Nat)
  | store (p : Nat)
  | exited
  | undefined

inductive Note where
  | tested
  | drew
  | threw (dart : Dart)
  | counted
  | overflowed
  | stored

abbrev Results (n : Nat) := Fin n → Nat

variable {n : Nat} {hit : Dart → Bool} {draws : Fin n → Nat → Dart}

def darts (hit : Dart → Bool) (num_darts : Int) (draws : Fin n → Nat → Dart) (thread : Fin n) (results : Results n) :
    Pc → Option (Note × Results n × Pc)
  | .test i p => some (.tested, results, if i ≤ num_darts then .x i p else .store p)
  | .x i p => some (.drew, results, .y i p (draws thread i).1)
  | .y i p x => some (.drew, results, .compare i p (x, (draws thread i).2))
  | .compare i p dart => some (.threw dart, results, .next i (if hit dart then p + 1 else p))
  | .next i p =>
    if i < 2 ^ 31 - 1 then some (.counted, results, .test (i + 1) p) else some (.overflowed, results, .undefined)
  | .store p => some (.stored, Function.update results thread p, .exited)
  | .exited => none
  | .undefined => none

def threads (hit : Dart → Bool) (num_darts : Int) (draws : Fin n → Nat → Dart) : ForkJoin n (Results n) Pc Note where
  memory := fun _ => 0
  entry := .test 1 0
  exited := .exited
  step := darts hit num_darts draws
  merge _ results := results

def accumulate (results : Results n) : Nat := (List.ofFn results).foldl (· + ·) 0

/-- calculate_serial: darts by itself, which draws these darts and leaves this result. -/
def CalculateSerial (hit : Dart → Bool) (num_darts : Int) (thrown : List Dart) (result : Nat) : Prop :=
  (threads hit num_darts fun (_ : Fin 1) i => thrown.getD (i - 1) (0, 0)).Alone ⟨0, Nat.one_pos⟩ (fun _ => 0)
    (.test 1 0) (fun _ => result) .exited

def Note.darts : Note → List Dart
  | .threw dart => [dart]
  | _ => []

def Event.darts : Event n Note → List Dart
  | .act _ note => note.darts
  | _ => []

def thrown (trace : List (Event n Note)) : List Dart := trace.flatMap Event.darts

structure Counted (hit : Dart → Bool) (num_darts : Int) (trace : List (Event n Note))
    (state : State n (Results n) Pc) : Prop where
  defined : ∀ thread, state.pc thread ≠ some .undefined
  thrown : state.main = .joined → (thrown trace).length = num_darts
  result : state.main = .joined → accumulate state.memory = (ExPi.thrown trace).countP hit
  serial : state.main = .joined → CalculateSerial hit num_darts (ExPi.thrown trace) (accumulate state.memory)

/-- The threads throw as many darts as calculate_threaded divides by, and get what
calculate_serial gets from the same darts. -/
def SameEstimate (hit : Dart → Bool) (num_threads num_darts : Int) : Prop :=
  ∃ n each, vectorSize num_threads = some n ∧ share num_darts num_threads = some each ∧
    ∀ (draws : Fin n → Nat → Dart) trace state, (threads hit each draws).system.Reaches trace state →
      Counted hit num_darts trace state

def Pc.threw (each : Nat) : Pc → Nat
  | .test i _ | .x i _ | .y i _ _ | .compare i _ _ => i - 1
  | .next i _ => i
  | .store _ | .exited => each
  | .undefined => 0

def Pc.scored (result : Nat) : Pc → Nat
  | .test _ p | .x _ p | .y _ p _ | .compare _ p _ | .next _ p | .store p => p
  | .exited => result
  | .undefined => 0

def Pc.Within (each : Nat) : Pc → Prop
  | .test i _ => 1 ≤ i ∧ i ≤ each + 1
  | .x i _ | .y i _ _ | .compare i _ _ | .next i _ => 1 ≤ i ∧ i ≤ each
  | .store _ | .exited => True
  | .undefined => False

def threw (each : Nat) (position : Option Pc) : Nat := position.elim 0 (Pc.threw each)

def scored (position : Option Pc × Nat) : Nat := position.1.elim 0 (Pc.scored position.2)

section Worker
variable {each : Nat} {thread : Fin n} {results later : Results n} {pc after : Pc} {note : Note}

structure Effect (hit : Dart → Bool) (each : Nat) (thread : Fin n) (results : Results n) (pc : Pc) (note : Note)
    (result : Nat) (after : Pc) : Prop where
  threw : after.threw each = pc.threw each + note.darts.length
  scored : after.scored result = pc.scored (results thread) + note.darts.countP hit
  within : after.Within each

theorem darts_effect (small : each < 2 ^ 31 - 1) (within : pc.Within each)
    (stepped : darts hit each draws thread results pc = some (note, later, after)) :
    ∃ result, later = Function.update results thread result ∧ Effect hit each thread results pc note result after := by
  have same : results = Function.update results thread (results thread) := (Function.update_eq_self _ _).symm
  cases pc with
  | test i p =>
    obtain ⟨positive, bound⟩ := within
    cases stepped
    refine ⟨_, same, ?_⟩
    by_cases less : i ≤ each
    · rw [if_pos (Int.ofNat_le.mpr less)]
      exact ⟨rfl, rfl, positive, less⟩
    · have past : ¬(i : Int) ≤ each := fun wrong => less (Int.ofNat_le.mp wrong)
      have last : each = i - 1 := by omega
      rw [if_neg past]
      exact ⟨last, rfl, trivial⟩
  | x i p | y i p x =>
    cases stepped
    exact ⟨_, same, rfl, rfl, within⟩
  | compare i p dart =>
    cases stepped
    refine ⟨_, same, ?_, ?_, within⟩
    · change i = i - 1 + 1
      have positive := within.1
      omega
    · cases scores : hit dart <;> simp [Pc.scored, Note.darts, scores]
  | next i p =>
    have less : i < 2 ^ 31 - 1 := Nat.lt_of_le_of_lt within.2 small
    rw [darts, if_pos less] at stepped
    cases stepped
    exact ⟨_, same, rfl, rfl, Nat.succ_pos i, Nat.succ_le_succ within.2⟩
  | store p =>
    cases stepped
    exact ⟨p, rfl, rfl, rfl, trivial⟩
  | exited | undefined => cases stepped

end Worker

structure Sound (hit : Dart → Bool) (each : Nat) (trace : List (Event n Note)) (results : Results n)
    (family : Fin n → Option Pc) : Prop where
  within : ∀ thread pc, family thread = some pc → pc.Within each
  threw : (thrown trace).length = ∑ thread, threw each (family thread)
  scored : (thrown trace).countP hit = ∑ thread, scored (family thread, results thread)

section Sound
variable {each : Nat} {trace more : List (Event n Note)} {results : Results n} {family : Fin n → Option Pc}
variable {thread : Fin n} {after : Pc}

theorem thrown_append (before after : List (Event n Note)) : thrown (before ++ after) = thrown before ++ thrown after :=
  List.flatMap_append

theorem Sound.move (sound : Sound hit each trace results family) {fresh : List Dart} {result : Nat}
    (shown : thrown more = thrown trace ++ fresh) (within : after.Within each)
    (throws : after.threw each = ExPi.threw each (family thread) + fresh.length)
    (scores : after.scored result = ExPi.scored (family thread, results thread) + fresh.countP hit) :
    Sound hit each more (Function.update results thread result) (Function.update family thread (some after)) where
  within := by
    intro other pc here
    by_cases same : other = thread
    · rw [same, Function.update_self] at here
      exact Option.some.inj here ▸ within
    · rw [Function.update_of_ne same] at here
      exact sound.within other pc here
  threw := by
    have moved := Family.sum_update (ExPi.threw each) family thread (some after)
    have weight : ExPi.threw each (some after) = after.threw each := rfl
    rw [weight, throws] at moved
    rw [shown, List.length_append, sound.threw]
    omega
  scored := by
    have pairs : (fun other => (Function.update family thread (some after) other,
        Function.update results thread result other)) =
          Function.update (fun other => (family other, results other)) thread (some after, result) := by
      funext other
      by_cases same : other = thread
      · rw [same, Function.update_self, Function.update_self, Function.update_self]
      · rw [Function.update_of_ne same, Function.update_of_ne same, Function.update_of_ne same]
    have moved : ∑ other, ExPi.scored (Function.update family thread (some after) other,
          Function.update results thread result other) + ExPi.scored (family thread, results thread) =
        ∑ other, ExPi.scored (family other, results other) + after.scored result := by
      have general := Family.sum_update ExPi.scored (fun other => (family other, results other)) thread
        (some after, result)
      rw [← pairs] at general
      exact general
    rw [scores] at moved
    rw [shown, List.countP_append, sound.scored]
    omega

theorem Sound.aside (sound : Sound hit each trace results family) (quiet : thrown more = thrown trace) :
    Sound hit each more results family where
  within := sound.within
  threw := by rw [quiet, sound.threw]
  scored := by rw [quiet, sound.scored]

end Sound

section Runs
variable {each : Nat} {trace : List (Event n Note)} {state : State n (Results n) Pc}

theorem sound_of_reaches (small : each < 2 ^ 31 - 1) (reached : (threads hit each draws).system.Reaches trace state) :
    Sound hit each trace state.memory state.pc := by
  apply invariant_of_reaches (Sound hit each) reached
  · exact ⟨(fun _ _ wrong => by cases wrong), (Finset.sum_eq_zero fun _ _ => rfl).symm,
      (Finset.sum_eq_zero fun _ _ => rfl).symm⟩
  · intro trace results family thread sound fresh
    have shown : thrown (trace ++ [Event.create thread]) = thrown trace ++ [] := thrown_append _ _
    have within : (Pc.test 1 0).Within each := ⟨Nat.le_refl 1, Nat.succ_pos each⟩
    have throws : (Pc.test 1 0).threw each = threw each (family thread) + ([] : List Dart).length := by
      rw [fresh]
      rfl
    have scores : (Pc.test 1 0).scored (results thread) =
        scored (family thread, results thread) + ([] : List Dart).countP hit := by
      rw [fresh]
      rfl
    have moved := sound.move shown within throws scores
    rw [Function.update_eq_self] at moved
    exact moved
  · intro trace results family thread pc note later after sound runs stepped
    obtain ⟨result, rfl, effect⟩ := darts_effect small (sound.within thread pc runs) stepped
    have shown : thrown (trace ++ [Event.act thread note]) = thrown trace ++ note.darts := by
      rw [thrown_append]
      congr 1
      exact List.append_nil _
    apply sound.move shown effect.within
    · rw [runs]
      exact effect.threw
    · rw [runs]
      exact effect.scored
  · intro trace results family thread sound
    exact sound.aside ((thrown_append _ _).trans (List.append_nil _))
  · intro trace results family thread sound
    exact sound.aside ((thrown_append _ _).trans (List.append_nil _))

theorem accumulate_eq (results : Results n) : accumulate results = ∑ thread, results thread := by
  rw [accumulate, ← List.sum_eq_foldl, List.ofFn_eq_map]
  rfl

theorem counted_of_joined (small : each < 2 ^ 31 - 1) (reached : (threads hit each draws).system.Reaches trace state)
    (joined : state.main = .joined) :
    (thrown trace).length = n * each ∧ accumulate state.memory = (thrown trace).countP hit := by
  have sound := sound_of_reaches small reached
  have ended (thread : Fin n) : state.pc thread = some .exited :=
    exited_of_joined (fun _ _ => rfl) reached joined thread
  constructor
  · rw [sound.threw]
    apply Family.sum_same
    intro thread
    rw [ended]
    rfl
  · rw [accumulate_eq, sound.scored]
    apply Finset.sum_congr rfl
    intro thread _
    rw [ended]
    rfl

end Runs

section Alone
variable {each : Nat} {thread : Fin n} {results : Results n}

theorem darts_turn {i p : Nat} (bound : i ≤ each) (small : i < 2 ^ 31 - 1) :
    (threads hit each draws).Alone thread results (.test i p) results
      (.test (i + 1) (if hit (draws thread i) then p + 1 else p)) := by
  have tests : darts hit each draws thread results (.test i p) = some (.tested, results, .x i p) := by
    rw [darts, if_pos (Int.ofNat_le.mpr bound)]
  have counts (p : Nat) : darts hit each draws thread results (.next i p) =
      some (.counted, results, .test (i + 1) p) := if_pos small
  exact .head tests (.head rfl (.head rfl (.head rfl (.head (counts _) .refl))))

theorem darts_turns (turns : Nat) (bound : turns ≤ each) (small : turns < 2 ^ 31 - 1) :
    (threads hit each draws).Alone thread results (.test 1 0) results
      (.test (turns + 1) (((List.range turns).map fun i => draws thread (i + 1)).countP hit)) := by
  induction turns with
  | zero => exact .refl
  | succ turns ih =>
    have before := ih (Nat.le_of_succ_le bound) (Nat.lt_of_succ_lt small)
    have last := before.trans (darts_turn bound small)
    rw [List.range_succ, List.map_append, List.countP_append, List.map_singleton, List.countP_singleton]
    cases scores : hit (draws thread (turns + 1)) with
    | true => rwa [scores] at last
    | false => rwa [scores] at last

theorem darts_ends (small : each < 2 ^ 31 - 1) : (threads hit each draws).Alone thread results (.test 1 0)
    (Function.update results thread (((List.range each).map fun i => draws thread (i + 1)).countP hit)) .exited := by
  have turns : (threads hit each draws).Alone thread results (.test 1 0) results (.test (each + 1) _) :=
    darts_turns each (Nat.le_refl each) small
  have tests (p : Nat) : darts hit each draws thread results (.test (each + 1) p) =
      some (.tested, results, .store p) := by
    have past : ¬((each + 1 : Nat) : Int) ≤ each := by omega
    rw [darts, if_neg past]
  exact turns.trans (.head (tests _) (.head rfl .refl))

theorem darts_overflows {most : Nat} (top : most + 1 = 2 ^ 31 - 1) (great : most + 1 ≤ each) :
    (threads hit each draws).Alone thread results (.test 1 0) results .undefined := by
  have turns : (threads hit each draws).Alone thread results (.test 1 0) results (.test (most + 1) _) :=
    darts_turns most (Nat.le_of_succ_le great) (by omega)
  have tests (p : Nat) : darts hit each draws thread results (.test (most + 1) p) =
      some (.tested, results, .x (most + 1) p) := by
    rw [darts, if_pos (Int.ofNat_le.mpr great)]
  have overflows (p : Nat) : darts hit each draws thread results (.next (most + 1) p) =
      some (.overflowed, results, .undefined) := by
    have last : ¬most + 1 < 2 ^ 31 - 1 := by omega
    rw [darts, if_neg last]
  exact turns.trans (.head (tests _) (.head rfl (.head rfl (.head rfl (.head (overflows _) .refl)))))

def Pc.Looping : Pc → Prop
  | .test i _ | .x i _ | .y i _ _ | .compare i _ _ | .next i _ => i ≤ 2 ^ 31 - 1
  | .undefined => True
  | .store _ | .exited => False

theorem looping_of_alone (great : 2 ^ 31 - 1 ≤ each) {last : Results n} {pc after : Pc} (looping : pc.Looping)
    (alone : (threads hit each draws).Alone thread results pc last after) : after.Looping := by
  induction alone with
  | refl => exact looping
  | @head results later last pc between final note stepped rest ih =>
    apply ih
    change darts hit each draws thread results pc = _ at stepped
    cases pc with
    | test i p =>
      have bound : (i : Int) ≤ each := Int.ofNat_le.mpr (Nat.le_trans looping great)
      rw [darts, if_pos bound] at stepped
      cases stepped
      exact looping
    | x i p | y i p x | compare i p dart =>
      cases stepped
      exact looping
    | next i p =>
      by_cases less : i < 2 ^ 31 - 1
      · rw [darts, if_pos less] at stepped
        cases stepped
        exact less
      · rw [darts, if_neg less] at stepped
        cases stepped
        trivial
    | store p => exact looping.elim
    | exited | undefined => cases stepped

theorem calculateSerial_counts {thrown : List Dart} (small : thrown.length < 2 ^ 31 - 1) :
    CalculateSerial hit thrown.length thrown (thrown.countP hit) := by
  have all : ((List.range thrown.length).map fun i => thrown.getD (i + 1 - 1) (0, 0)) = thrown := by
    apply List.ext_getElem
    · rw [List.length_map, List.length_range]
    · intro i before after
      rw [List.getElem_map, List.getElem_range, Nat.add_sub_cancel, List.getD_eq_getElem _ _ after]
  have ends : (threads hit thrown.length fun (_ : Fin 1) i => thrown.getD (i - 1) (0, 0)).Alone ⟨0, Nat.one_pos⟩
      (fun _ => 0) (.test 1 0) _ .exited := darts_ends small
  rw [all] at ends
  have only : Function.update (fun _ => 0) ⟨0, Nat.one_pos⟩ (thrown.countP hit) =
      fun _ : Fin 1 => thrown.countP hit := by
    funext thread
    rw [Subsingleton.elim thread ⟨0, Nat.one_pos⟩, Function.update_self]
  rw [only] at ends
  exact ends

theorem small_of_calculateSerial {thrown : List Dart} {result : Nat}
    (serial : CalculateSerial hit each thrown result) : each < 2 ^ 31 - 1 := by
  by_contra great
  have looping : (Pc.test 1 0).Looping := by
    change 1 ≤ 2 ^ 31 - 1
    decide
  exact looping_of_alone (Nat.le_of_not_lt great) looping serial

end Alone

section Estimate
variable {num_darts : Nat}

theorem share_eq (n : Nat) (positive : 0 < n) : share num_darts n = some ((num_darts / n : Nat) : Int) := by
  have threaded : (n : Int) ≠ 0 := by omega
  rw [share, if_neg threaded]
  rfl

theorem sameEstimate_of_dvd {n : Nat} (positive : 0 < n) (divides : n ∣ num_darts) (small : num_darts < 2 ^ 31 - 1) :
    SameEstimate hit n num_darts := by
  have less : num_darts / n < 2 ^ 31 - 1 := Nat.lt_of_le_of_lt (Nat.div_le_self num_darts n) small
  have whole : n * (num_darts / n) = num_darts := Nat.mul_div_cancel' divides
  refine ⟨n, (num_darts / n : Nat), ?_, share_eq n positive, ?_⟩
  · rw [vectorSize, if_pos (Int.natCast_nonneg n)]
    rfl
  · intro draws trace state reached
    refine ⟨?_, ?_, ?_, ?_⟩
    · intro thread wrong
      exact (sound_of_reaches less reached).within thread _ wrong
    · intro joined
      rw [(counted_of_joined less reached joined).1, whole]
    · intro joined
      exact (counted_of_joined less reached joined).2
    · intro joined
      obtain ⟨length, result⟩ := counted_of_joined less reached joined
      rw [whole] at length
      rw [result, ← length]
      rw [← length] at small
      exact calculateSerial_counts small

theorem small_of_defined {n each : Nat} {draws : Fin n → Nat → Dart} (positive : 0 < n)
    (defined : ∀ trace state, (threads hit each draws).system.Reaches trace state →
      ∀ thread, state.pc thread ≠ some .undefined) : each < 2 ^ 31 - 1 := by
  by_contra great
  obtain ⟨trace, reached⟩ := reaches_creating (threads hit each draws) n (Nat.le_refl n)
  have most : 2 ^ 31 - 2 + 1 ≤ each := Nat.le_of_not_lt great
  have created : split n (some (Pc.test 1 0)) none (⟨0, positive⟩ : Fin n) = some (.test 1 0) := if_pos positive
  obtain ⟨more, run⟩ := (darts_overflows rfl most).run created
  have overflowed : Function.update (split n (some (Pc.test 1 0)) none) ⟨0, positive⟩ (some .undefined) ⟨0, positive⟩ =
      some Pc.undefined := Function.update_self _ _ _
  exact defined _ _ (reached.then run) ⟨0, positive⟩ overflowed

theorem dvd_of_sameEstimate {num_threads : Int} (same : SameEstimate hit num_threads num_darts) :
    0 < num_threads ∧ num_threads ∣ num_darts ∧ num_darts < 2 ^ 31 - 1 := by
  obtain ⟨n, each, size, shared, counted⟩ := same
  have known : 0 ≤ num_threads := by
    by_contra negative
    rw [vectorSize, if_neg negative] at size
    cases size
  obtain ⟨number, rfl⟩ := Int.eq_ofNat_of_zero_le known
  rw [vectorSize, if_pos known] at size
  obtain rfl : number = n := Option.some.inj size
  have threaded : 0 < number := by
    apply Nat.pos_of_ne_zero
    intro none
    subst none
    cases shared
  rw [share_eq number threaded] at shared
  obtain rfl := Option.some.inj shared
  have small : num_darts / number < 2 ^ 31 - 1 :=
    small_of_defined threaded fun trace state reached => (counted (fun _ _ => (0, 0)) trace state reached).defined
  obtain ⟨trace, state, reached, joined⟩ := reaches_joined (threads hit (num_darts / number : Nat)
    fun (_ : Fin number) _ => (0, 0)) fun thread results => ⟨_, darts_ends small⟩
  obtain ⟨_, thrown, _, serial⟩ := counted _ _ _ reached
  have length : num_darts = number * (num_darts / number) := by
    have all := thrown joined
    rw [(counted_of_joined small reached joined).1] at all
    exact (Int.ofNat_inj.mp all).symm
  refine ⟨Int.natCast_pos.mpr threaded, Int.natCast_dvd_natCast.mpr ⟨_, length⟩, ?_⟩
  exact small_of_calculateSerial (serial joined)

end Estimate

/-- The threads throw all darts if and only if their number divides that of the darts, which must
not be the greatest int. -/
theorem same_estimate_iff (version : Version) (hit : Dart → Bool) (num_darts : Nat) :
    SameEstimate hit version.num_threads num_darts ↔
      0 < version.num_threads ∧ version.num_threads ∣ num_darts ∧ num_darts < 2 ^ 31 - 1 := by
  constructor
  · exact dvd_of_sameEstimate
  · intro all
    obtain ⟨threaded, divides, small⟩ := all
    obtain ⟨n, number⟩ := Int.eq_ofNat_of_zero_le (Int.le_of_lt threaded)
    rw [number] at threaded divides ⊢
    exact sameEstimate_of_dvd (Int.natCast_pos.mp threaded) (Int.natCast_dvd_natCast.mp divides) small

def inCircle (dart : Dart) : Bool := dart.1 * dart.1 + dart.2 * dart.2 ≤ (2 ^ 31 - 1) * (2 ^ 31 - 1)

theorem darts_left_out : ¬SameEstimate inCircle (Version.boost 12).num_threads 10000000 := by
  intro same
  have divides : (12 : Int) ∣ (10000000 : Nat) := (dvd_of_sameEstimate same).2.1
  revert divides
  decide

end CppRt.ExPi

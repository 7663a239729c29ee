import CppRt.Library.ForkJoinEnds
import CppRt.Library.Heap
import Mathlib.Algebra.BigOperators.Fin

/-!
Threads that keep a copy of a text under a key which all share, and whose destructor deletes
the copy when the thread ends. pthread_setspecific may refuse; the thread then goes on without
a value, and its copy is deleted by nobody. The key and the threads are taken to be created
and `new` to succeed.
-/

namespace CppRt.Tss
open Library Transition ForkJoin

variable {n : Nat} {Addr Text : Type*}

structure Memory (n : Nat) (Addr Text : Type*) where
  heap : Heap Addr Text
  specific : Fin n → Option Addr

inductive Pc (Addr : Type*) where
  | start
  | setting (text : Addr)
  | telling (text : Addr) (status : Bool)
  | sleeping (text : Addr)
  | showing (text : Addr)
  | ending (text : Addr)
  | returning (text : Addr)
  | destruktor (text : Addr)
  | deleting (text : Addr)
  | exited
  | undefined

/-- What it prints or calls; a text that it prints stands beside the address that it is read from. -/
inductive Note (Addr Text : Type*) where
  | allocated (text : Addr)
  | setspecific (text : Addr) (status : Bool)
  | failed
  | address (text : Addr) (content : Text)
  | slept
  | shown (text : Addr) (content : Text)
  | silent
  | ended
  | returned
  | destruktor (text : Addr)
  | deleted (text : Addr)
  | undefined

def given (text : Fin 3 → Text) (i : Fin n) : Text := text ⟨i % 3, Nat.mod_lt i (by decide)⟩

section Watek
variable [DecidableEq Addr]

def reading (memory : Memory n Addr Text) (text : Addr) (note : Text → Note Addr Text) (after : Pc Addr) :
    Note Addr Text × Memory n Addr Text × Pc Addr :=
  match memory.heap.read text with
  | some content => (note content, memory, after)
  | none => (.undefined, memory, .undefined)

def wyswietl (memory : Memory n Addr Text) (i : Fin n) (after : Pc Addr) : Note Addr Text × Memory n Addr Text × Pc Addr :=
  match memory.specific i with
  | some text => reading memory text (.shown text) after
  | none => (.silent, memory, after)

/-- `refused` are the threads for which pthread_setspecific has no memory. -/
def watek (allocator : Allocator (Fin n) Addr Text) (refused : Fin n → Bool) (text : Fin 3 → Text) (i : Fin n)
    (memory : Memory n Addr Text) : Pc Addr → Option (Note Addr Text × Memory n Addr Text × Pc Addr)
  | .start =>
    let copy := allocator.pick i memory.heap
    some (.allocated copy, { memory with heap := memory.heap.allocate allocator i (given text i) }, .setting copy)
  | .setting copy =>
    if refused i then some (.setspecific copy true, memory, .telling copy true)
    else some (.setspecific copy false, { memory with specific := Function.update memory.specific i (some copy) },
      .telling copy false)
  | .telling copy true => some (.failed, memory, .sleeping copy)
  | .telling copy false => some (reading memory copy (.address copy) (.sleeping copy))
  | .sleeping copy => some (.slept, memory, .showing copy)
  | .showing copy => some (wyswietl memory i (.ending copy))
  | .ending copy => some (.ended, memory, .returning copy)
  | .returning _ =>
    -- the value is set to NULL before the destructor is called with it
    match memory.specific i with
    | some value => some (.returned, { memory with specific := Function.update memory.specific i none }, .destruktor value)
    | none => some (.returned, memory, .exited)
  | .destruktor value => some (.destruktor value, memory, .deleting value)
  | .deleting value =>
    match memory.heap.free value with
    | some heap => some (.deleted value, { memory with heap }, .exited)
    | none => some (.undefined, memory, .undefined)
  | .exited | .undefined => none

def tss (allocator : Allocator (Fin n) Addr Text) (refused : Fin n → Bool) (text : Fin 3 → Text) :
    ForkJoin n (Memory n Addr Text) (Pc Addr) (Note Addr Text) where
  memory := ⟨.empty, fun _ => none⟩
  entry := .start
  exited := .exited
  step := watek allocator refused text
  merge _ memory := memory

end Watek

/-- What a thread prints and calls from its beginning to its end, with its copy at this address. -/
def script (refused : Bool) (content : Text) (copy : Addr) : List (Note Addr Text) :=
  .allocated copy :: .setspecific copy refused ::
    if refused then [.failed, .slept, .silent, .ended, .returned]
    else [.address copy content, .slept, .shown copy content, .ended, .returned, .destruktor copy, .deleted copy]

namespace Pc

def place : Pc Addr → Nat
  | .start => 0
  | .setting _ => 1
  | .telling _ _ => 2
  | .sleeping _ => 3
  | .showing _ => 4
  | .ending _ => 5
  | .returning _ => 6
  | .destruktor _ => 7
  | .deleting _ => 8
  | .exited | .undefined => 9

def copy : Pc Addr → Option Addr
  | .setting text | .telling text _ | .sleeping text | .showing text | .ending text | .returning text
  | .destruktor text | .deleting text => some text
  | .start | .exited | .undefined => none

def value (refused : Bool) : Pc Addr → Option Addr
  | .telling text _ | .sleeping text | .showing text | .ending text | .returning text =>
    if refused then none else some text
  | .start | .setting _ | .destruktor _ | .deleting _ | .exited | .undefined => none

def Fits (refused : Bool) : Pc Addr → Prop
  | .telling _ status => status = refused
  | .destruktor _ | .deleting _ => refused = false
  | .undefined => False
  | _ => True

def held (refused : Bool) (content : Text) : Pc Addr → Multiset Text
  | .start | .undefined => 0
  | .exited => if refused then {content} else 0
  | _ => {content}

theorem held_of_copy {refused : Bool} {content : Text} {pc : Pc Addr} {address : Addr} (reach : pc.copy = some address) :
    pc.held refused content = {content} := by
  cases pc with
  | start | exited | undefined => cases reach
  | setting | telling | sleeping | showing | ending | returning | destruktor | deleting => rfl

theorem place_le (pc : Pc Addr) : pc.place ≤ 9 := by
  cases pc with
  | exited | undefined => exact Nat.le_refl 9
  | start | setting | telling | sleeping | showing | ending | returning | destruktor | deleting =>
    simp only [place, Nat.reduceLeDiff]

end Pc

def copy (position : Option (Pc Addr)) : Option Addr := position.bind Pc.copy
def held (refused : Bool) (content : Text) (position : Option (Pc Addr)) : Multiset Text :=
  position.elim 0 (Pc.held refused content)

/-- Every copy that a thread can reach is in use, holds the thread's text and can be reached by no
other; and the blocks in use are those of the threads. -/
structure Owned [DecidableEq Addr] (refused : Fin n → Bool) (text : Fin 3 → Text) (heap : Heap Addr Text)
    (family : Fin n → Option (Pc Addr)) : Prop where
  own : ∀ i address, copy (family i) = some address → heap.read address = some (given text i)
  apart : ∀ i j address, copy (family i) = some address → copy (family j) = some address → i = j
  values : (heap.values : Multiset Text) = ∑ i, held (refused i) (given text i) (family i)

section Owned
variable [DecidableEq Addr] {refused : Fin n → Bool} {text : Fin 3 → Text} {heap later : Heap Addr Text}
variable {family : Fin n → Option (Pc Addr)} {i : Fin n} {pc after : Pc Addr} {allocator : Allocator (Fin n) Addr Text}
variable {address : Addr}

theorem Owned.stay (owned : Owned refused text heap family) {position : Option (Pc Addr)}
    (reach : ∀ address, copy position = some address → copy (family i) = some address)
    (same : held (refused i) (given text i) position = held (refused i) (given text i) (family i)) :
    Owned refused text heap (Function.update family i position) := by
  have back (j : Fin n) (address : Addr) (there : copy (Function.update family i position j) = some address) :
      copy (family j) = some address := by
    by_cases here : j = i
    · subst here
      rw [Function.update_self] at there
      exact reach address there
    · rwa [Function.update_of_ne here] at there
  refine ⟨fun j address there => owned.own j address (back j address there),
    fun j k address first second => owned.apart j k address (back j address first) (back k address second), ?_⟩
  have moved := Family.sum_change (fun i => held (refused i) (given text i)) family i position
  rw [same] at moved
  rw [owned.values]
  exact (add_right_cancel moved).symm

theorem Owned.allocate (owned : Owned refused text heap family) (runs : family i = some .start) :
    Owned refused text (heap.allocate allocator i (given text i))
      (Function.update family i (some (.setting (allocator.pick i heap)))) := by
  have old (j : Fin n) (address : Addr) (there : copy (family j) = some address) : allocator.pick i heap ≠ address := by
    rintro rfl
    cases Heap.read_pick.symm.trans (owned.own j _ there)
  refine ⟨?_, ?_, ?_⟩
  · intro j address there
    rw [Heap.read_allocate]
    by_cases here : j = i
    · subst here
      rw [Function.update_self] at there
      exact if_pos (Option.some.inj there)
    · rw [Function.update_of_ne here] at there
      rw [if_neg (old j address there)]
      exact owned.own j address there
  · intro j k address first second
    by_cases here : j = i
    · subst here
      rw [Function.update_self] at first
      by_cases there : k = j
      · exact there.symm
      · rw [Function.update_of_ne there] at second
        exact absurd (Option.some.inj first) (old k address second)
    · rw [Function.update_of_ne here] at first
      by_cases there : k = i
      · subst there
        rw [Function.update_self] at second
        exact absurd (Option.some.inj second) (old j address first)
      · rw [Function.update_of_ne there] at second
        exact owned.apart j k address first second
  · have moved := Family.sum_change (fun i => held (refused i) (given text i)) family i
      (some (.setting (allocator.pick i heap)))
    rw [runs] at moved
    have before : held (refused i) (given text i) (some (.start : Pc Addr)) = 0 := rfl
    have now : held (refused i) (given text i) (some (.setting (allocator.pick i heap))) = {given text i} := rfl
    rw [before, now, add_zero] at moved
    rw [moved, ← owned.values, Heap.values_allocate, add_comm]
    rfl

theorem Owned.free (owned : Owned refused text heap family) (runs : family i = some (.deleting address))
    (granted : refused i = false) :
    ∃ later, heap.free address = some later ∧ Owned refused text later (Function.update family i (some .exited)) := by
  have mine := owned.own i address (by rw [runs]; rfl)
  obtain ⟨later, freed⟩ := Heap.free_isSome mine
  have others (j : Fin n) (other : Addr) (there : copy (Function.update family i (some .exited) j) = some other) :
      copy (family j) = some other ∧ other ≠ address := by
    by_cases here : j = i
    · subst here
      rw [Function.update_self] at there
      cases there
    · rw [Function.update_of_ne here] at there
      refine ⟨there, ?_⟩
      rintro rfl
      exact here (owned.apart j i other there (by rw [runs]; rfl))
  refine ⟨later, freed, ?_, ?_, ?_⟩
  · intro j other there
    obtain ⟨before, different⟩ := others j other there
    rw [Heap.read_free freed different]
    exact owned.own j other before
  · intro j k other first second
    exact owned.apart j k other (others j other first).1 (others k other second).1
  · have moved := Family.sum_change (fun i => held (refused i) (given text i)) family i (some .exited)
    rw [runs] at moved
    have before : held (refused i) (given text i) (some (.deleting address)) = {given text i} := rfl
    have now : held (refused i) (given text i) (some (.exited : Pc Addr)) = 0 := by
      rw [granted]
      rfl
    rw [before, now, add_zero, ← owned.values, Multiset.coe_eq_coe.mpr (Heap.values_free mine freed)] at moved
    apply add_right_cancel (b := {given text i})
    rw [moved, add_comm]
    rfl

end Owned

structure Kept (refused : Bool) (content : Text) (specific : Option Addr) (notes : List (Note Addr Text))
    (position : Option (Pc Addr)) : Prop where
  value : specific = position.bind (Pc.value refused)
  fits : ∀ pc, position = some pc → pc.Fits refused
  said : ∃ address, (∀ held, copy position = some held → held = address) ∧
    notes = (script refused content address).take (position.elim 0 Pc.place)

section Kept
variable {refused : Bool} {content : Text} {specific later : Option Addr} {notes : List (Note Addr Text)}
variable {address : Addr} {pc after : Pc Addr} {note : Note Addr Text}

theorem Kept.start (kept : Kept refused content specific notes (some .start)) (address : Addr) :
    Kept refused content specific (notes ++ [.allocated address]) (some (.setting address)) := by
  obtain ⟨_, _, said⟩ := kept.said
  refine ⟨kept.value, ?_, address, ?_, ?_⟩
  · rintro _ ⟨⟩
    trivial
  · rintro _ ⟨⟩
    rfl
  · rw [said]
    rfl

theorem Kept.go (kept : Kept refused content specific notes (some pc)) (here : pc.copy = some address)
    (reach : ∀ held, after.copy = some held → held = address) (value : later = after.value refused)
    (fits : after.Fits refused)
    (next : (script refused content address).take after.place = (script refused content address).take pc.place ++ [note]) :
    Kept refused content later (notes ++ [note]) (some after) := by
  obtain ⟨other, same, said⟩ := kept.said
  obtain rfl := same address here
  refine ⟨value, ?_, address, reach, ?_⟩
  · rintro _ ⟨⟩
    exact fits
  · rw [said]
    exact next.symm

end Kept

structure Sound [DecidableEq Addr] (refused : Fin n → Bool) (text : Fin 3 → Text)
    (trace : List (Event n (Note Addr Text))) (memory : Memory n Addr Text) (family : Fin n → Option (Pc Addr)) :
    Prop where
  owned : Owned refused text memory.heap family
  kept : ∀ i, Kept (refused i) (given text i) (memory.specific i) (notes i trace) (family i)

section Sound
variable [DecidableEq Addr] {allocator : Allocator (Fin n) Addr Text} {refused : Fin n → Bool} {text : Fin 3 → Text}
variable {trace : List (Event n (Note Addr Text))} {memory later : Memory n Addr Text}
variable {family : Fin n → Option (Pc Addr)} {i : Fin n} {pc after : Pc Addr} {note : Note Addr Text} {address : Addr}

theorem Sound.go (sound : Sound refused text trace memory family)
    (owned : Owned refused text later.heap (Function.update family i (some after)))
    (kept : Kept (refused i) (given text i) (later.specific i) (notes i trace ++ [note]) (some after))
    (frame : ∀ j, j ≠ i → later.specific j = memory.specific j) :
    Sound refused text (trace ++ [.act i note]) later (Function.update family i (some after)) := by
  refine ⟨owned, fun j => ?_⟩
  by_cases here : j = i
  · subst here
    rwa [Function.update_self, notes_act_self]
  · rw [Function.update_of_ne here, notes_act_other here, frame j here]
    exact sound.kept j

theorem Sound.set (sound : Sound refused text trace memory family) (runs : family i = some pc)
    (here : pc.copy = some address) (there : after.copy = some address) {value : Option Addr}
    (set : value = after.value (refused i)) (fits : after.Fits (refused i))
    (next : (script (refused i) (given text i) address).take after.place =
      (script (refused i) (given text i) address).take pc.place ++ [note]) :
    Sound refused text (trace ++ [.act i note]) { memory with specific := Function.update memory.specific i value }
      (Function.update family i (some after)) := by
  have mine := sound.kept i
  rw [runs] at mine
  apply sound.go
  · apply sound.owned.stay
    · intro held reach
      rw [runs]
      exact here.trans (there.symm.trans reach)
    · rw [runs]
      exact (Pc.held_of_copy there).trans (Pc.held_of_copy here).symm
  · apply mine.go here (fun held reach => Option.some.inj (reach.symm.trans there)) _ fits next
    exact (Function.update_self _ _ _).trans set
  · exact fun j other => Function.update_of_ne other _ _

theorem Sound.stay (sound : Sound refused text trace memory family) (runs : family i = some pc)
    (here : pc.copy = some address) (there : after.copy = some address)
    (value : pc.value (refused i) = after.value (refused i)) (fits : after.Fits (refused i))
    (next : (script (refused i) (given text i) address).take after.place =
      (script (refused i) (given text i) address).take pc.place ++ [note]) :
    Sound refused text (trace ++ [.act i note]) memory (Function.update family i (some after)) := by
  have mine := (sound.kept i).value
  rw [runs] at mine
  have stays := sound.set runs here there (mine.trans value) fits next
  rwa [Function.update_eq_self] at stays

theorem Sound.reading (sound : Sound refused text trace memory family) (reach : copy (family i) = some address)
    (note : Text → Note Addr Text) : Tss.reading memory address note after = (note (given text i), memory, after) := by
  unfold Tss.reading
  rw [sound.owned.own i address reach]

theorem Sound.act (sound : Sound refused text trace memory family) (runs : family i = some pc)
    (stepped : watek allocator refused text i memory pc = some (note, later, after)) :
    Sound refused text (trace ++ [.act i note]) later (Function.update family i (some after)) := by
  have mine := sound.kept i
  rw [runs] at mine
  cases pc with
  | start =>
    cases stepped
    exact sound.go (sound.owned.allocate runs) (mine.start _) fun _ _ => rfl
  | setting copy =>
    by_cases denied : refused i = true
    · simp only [watek, if_pos denied] at stepped
      cases stepped
      exact sound.stay runs rfl rfl (by rw [denied]; rfl) denied.symm (by rw [denied]; rfl)
    · simp only [watek, if_neg denied] at stepped
      cases stepped
      rw [Bool.not_eq_true] at denied
      exact sound.set runs rfl rfl (by rw [denied]; rfl) denied.symm (by rw [denied]; rfl)
  | telling copy status =>
    obtain rfl : status = refused i := mine.fits _ rfl
    cases denied : refused i with
    | true =>
      rw [denied] at stepped runs
      cases stepped
      exact sound.stay runs rfl rfl rfl trivial (by rw [denied]; rfl)
    | false =>
      rw [denied] at stepped runs
      simp only [watek, sound.reading (show Tss.copy (family i) = some copy by rw [runs]; rfl)] at stepped
      cases stepped
      exact sound.stay runs rfl rfl rfl trivial (by rw [denied]; rfl)
  | sleeping copy =>
    cases stepped
    exact sound.stay runs rfl rfl rfl trivial (by cases refused i <;> rfl)
  | showing copy =>
    have value := mine.value
    cases denied : refused i with
    | true =>
      rw [denied] at value
      simp only [watek, wyswietl, show memory.specific i = none from value] at stepped
      cases stepped
      exact sound.stay runs rfl rfl rfl trivial (by rw [denied]; rfl)
    | false =>
      rw [denied] at value
      simp only [watek, wyswietl, show memory.specific i = some copy from value,
        sound.reading (show Tss.copy (family i) = some copy by rw [runs]; rfl)] at stepped
      cases stepped
      exact sound.stay runs rfl rfl rfl trivial (by rw [denied]; rfl)
  | ending copy =>
    cases stepped
    exact sound.stay runs rfl rfl rfl trivial (by cases refused i <;> rfl)
  | returning copy =>
    have value := mine.value
    cases denied : refused i with
    | true =>
      rw [denied] at value
      simp only [watek, show memory.specific i = none from value] at stepped
      cases stepped
      have owned : Owned refused text memory.heap (Function.update family i (some .exited)) :=
        sound.owned.stay (fun _ wrong => by cases wrong) (by rw [runs, denied]; rfl)
      refine sound.go owned (mine.go rfl (fun _ wrong => by cases wrong) value trivial (by rw [denied]; rfl)) ?_
      exact fun _ _ => rfl
    | false =>
      rw [denied] at value
      simp only [watek, show memory.specific i = some copy from value] at stepped
      cases stepped
      exact sound.set runs rfl rfl rfl denied (by rw [denied]; rfl)
  | destruktor copy =>
    cases stepped
    have granted : refused i = false := mine.fits _ rfl
    exact sound.stay runs rfl rfl rfl granted (by rw [granted]; rfl)
  | deleting copy =>
    have granted : refused i = false := mine.fits _ rfl
    obtain ⟨heap, freed, owned⟩ := sound.owned.free runs granted
    simp only [watek, freed] at stepped
    cases stepped
    refine sound.go owned (mine.go rfl (fun _ wrong => by cases wrong) mine.value trivial ?_) fun _ _ => rfl
    rw [granted]
    rfl
  | exited => cases stepped
  | undefined => cases stepped

theorem Sound.aside (sound : Sound refused text trace memory family) {event : Event n (Note Addr Text)}
    (aside : ∀ i note, event ≠ .act i note) : Sound refused text (trace ++ [event]) memory family := by
  refine ⟨sound.owned, fun i => ?_⟩
  rw [notes_aside aside]
  exact sound.kept i

theorem Sound.create (sound : Sound refused text trace memory family) (fresh : family i = none) :
    Sound refused text (trace ++ [.create i]) memory (Function.update family i (some .start)) := by
  refine ⟨sound.owned.stay (fun _ wrong => by cases wrong) (by rw [fresh]; rfl), fun j => ?_⟩
  rw [notes_aside fun _ _ wrong => by cases wrong]
  by_cases here : j = i
  · subst here
    have mine := sound.kept j
    rw [fresh] at mine
    rw [Function.update_self]
    obtain ⟨value, _, address, reach, said⟩ := mine
    refine ⟨value, ?_, address, (fun _ wrong => by cases wrong), said⟩
    rintro _ ⟨⟩
    trivial
  · rw [Function.update_of_ne here]
    exact sound.kept j

end Sound

section Runs
variable [DecidableEq Addr] {allocator : Allocator (Fin n) Addr Text} {refused : Fin n → Bool} {text : Fin 3 → Text}
variable {trace : List (Event n (Note Addr Text))} {state : State n (Memory n Addr Text) (Pc Addr)}

theorem sound_of_reaches (reached : (tss allocator refused text).system.Reaches trace state) :
    Sound refused text trace state.memory state.pc := by
  apply invariant_of_reaches (Sound refused text) reached
  · refine ⟨⟨(fun _ _ wrong => by cases wrong), (fun _ _ _ wrong => by cases wrong), ?_⟩, fun i => ?_⟩
    · exact (Finset.sum_eq_zero fun _ _ => rfl).symm
    · refine ⟨rfl, (fun _ wrong => by cases wrong), allocator.pick i .empty, (fun _ wrong => by cases wrong), rfl⟩
  · exact fun trace memory family i sound fresh => sound.create fresh
  · exact fun trace memory family i pc note later after sound runs stepped => sound.act runs stepped
  · exact fun trace memory family i sound => sound.aside fun _ _ wrong => by cases wrong
  · exact fun trace memory family i sound => sound.aside fun _ _ wrong => by cases wrong

theorem watek_goes_on {i : Fin n} {memory : Memory n Addr Text} {pc : Pc Addr} (unfinished : pc ≠ .exited)
    (defined : pc ≠ .undefined) : ∃ note later after, watek allocator refused text i memory pc = some (note, later, after) := by
  cases pc with
  | exited => exact absurd rfl unfinished
  | undefined => exact absurd rfl defined
  | setting copy =>
    dsimp only [watek]
    split
    · exact ⟨_, _, _, rfl⟩
    · exact ⟨_, _, _, rfl⟩
  | telling copy status =>
    cases status with
    | true => exact ⟨_, _, _, rfl⟩
    | false => exact ⟨_, _, _, rfl⟩
  | returning copy =>
    dsimp only [watek]
    split
    · exact ⟨_, _, _, rfl⟩
    · exact ⟨_, _, _, rfl⟩
  | deleting copy =>
    dsimp only [watek]
    split
    · exact ⟨_, _, _, rfl⟩
    · exact ⟨_, _, _, rfl⟩
  | start | sleeping | showing | ending | destruktor => exact ⟨_, _, _, rfl⟩

theorem moves (reached : (tss allocator refused text).system.Reaches trace state) :
    (tss allocator refused text).Moves state := by
  intro i pc here unfinished
  have fits := ((sound_of_reaches reached).kept i).fits pc here
  have defined : pc ≠ .undefined := by
    rintro rfl
    exact fits
  obtain ⟨note, later, after, step⟩ := watek_goes_on unfinished defined
  exact ⟨i, pc, note, later, after, here, step⟩

theorem reading_after {memory later : Memory n Addr Text} {address : Addr} {show_ : Text → Note Addr Text}
    {pc after : Pc Addr} {note : Note Addr Text} (read : reading memory address show_ pc = (note, later, after)) :
    after = pc ∨ after = .undefined := by
  unfold reading at read
  split at read
  · cases read
    exact .inl rfl
  · cases read
    exact .inr rfl

theorem watek_place {i : Fin n} {memory later : Memory n Addr Text} {pc after : Pc Addr} {note : Note Addr Text}
    (stepped : watek allocator refused text i memory pc = some (note, later, after)) : pc.place < after.place := by
  cases pc with
  | setting copy =>
    dsimp only [watek] at stepped
    split at stepped
    · cases stepped
      exact Nat.lt_succ_self _
    · cases stepped
      exact Nat.lt_succ_self _
  | telling copy status =>
    cases status with
    | true =>
      cases stepped
      exact Nat.lt_succ_self _
    | false =>
      cases reading_after (Option.some.inj stepped) with
      | inl same =>
        rw [same]
        exact Nat.lt_succ_self _
      | inr wrong =>
        rw [wrong]
        show 2 < 9
        decide
  | showing copy =>
    have shown := Option.some.inj stepped
    unfold wyswietl at shown
    split at shown
    · cases reading_after shown with
      | inl same =>
        rw [same]
        exact Nat.lt_succ_self _
      | inr wrong =>
        rw [wrong]
        show 4 < 9
        decide
    · cases shown
      exact Nat.lt_succ_self _
  | returning copy =>
    dsimp only [watek] at stepped
    split at stepped
    · cases stepped
      exact Nat.lt_succ_self _
    · cases stepped
      show 6 < 9
      decide
  | deleting copy =>
    dsimp only [watek] at stepped
    split at stepped
    · cases stepped
      exact Nat.lt_succ_self _
    · cases stepped
      exact Nat.lt_succ_self _
  | exited => cases stepped
  | undefined => cases stepped
  | start | sleeping | ending | destruktor =>
    cases stepped
    exact Nat.lt_succ_self _

theorem watek_lowers {i : Fin n} {memory later : Memory n Addr Text} {pc after : Pc Addr} {note : Note Addr Text}
    (stepped : watek allocator refused text i memory pc = some (note, later, after)) :
    9 - after.place < 9 - pc.place := by
  have further := watek_place stepped
  have most := after.place_le
  omega

theorem goes_on (reached : (tss allocator refused text).system.Reaches trace state) :
    ∃ more last, (tss allocator refused text).system.Run state more last ∧
      (tss allocator refused text).system.Reaches (trace ++ more) last ∧ last.main = .joined :=
  reaches_last watek_lowers (fun reached _ => moves reached) reached

def leaked (refused : Fin n → Bool) (text : Fin 3 → Text) : List Text :=
  ((List.finRange n).filter refused).map (given text)

theorem sum_leaked (refused : Fin n → Bool) (text : Fin 3 → Text) :
    ∑ i, (if refused i then ({given text i} : Multiset Text) else 0) = (leaked refused text : Multiset Text) := by
  rw [Fin.sum_univ_def, leaked]
  induction List.finRange n with
  | nil => rfl
  | cons i rest ih =>
    rw [List.map_cons, List.sum_cons, ih]
    cases denied : refused i with
    | true =>
      rw [List.filter_cons_of_pos denied]
      rfl
    | false =>
      rw [List.filter_cons_of_neg (by rw [denied]; exact Bool.false_ne_true)]
      exact zero_add _

/-- Whatever the order of the steps, the choice of the addresses and the threads that are refused:
each thread keeps to its script, so that it prints no text but its own and reads and deletes
nothing that is not there; the threads go on to the last join, and no run goes on without an end;
and then each has come to the end of its script and the copies left are those of the refused threads. -/
theorem texts_private (reached : (tss allocator refused text).system.Reaches trace state) :
    (∀ i, ∃ address, notes i trace <+: script (refused i) (given text i) address) ∧
      (∃ more last, (tss allocator refused text).system.Run state more last ∧ last.main = .joined) ∧
      (∀ run, run 0 = state → ¬(tss allocator refused text).system.Endless run) ∧
      (state.main = .joined → (∀ i, ∃ address, notes i trace = script (refused i) (given text i) address) ∧
        state.memory.heap.values.Perm (leaked refused text)) := by
  have sound := sound_of_reaches reached
  refine ⟨fun i => ?_, ?_, ?_, fun joined => ⟨fun i => ?_, ?_⟩⟩
  · obtain ⟨address, _, said⟩ := (sound.kept i).said
    rw [said]
    exact ⟨address, List.take_prefix _ _⟩
  · obtain ⟨more, last, run, _, joined⟩ := goes_on reached
    exact ⟨more, last, run, joined⟩
  · rintro run rfl
    exact not_endless watek_lowers reached
  · have exited := exited_of_joined (fun _ _ => rfl) reached joined i
    obtain ⟨address, _, said⟩ := (sound.kept i).said
    rw [exited] at said
    refine ⟨address, said.trans ?_⟩
    cases refused i <;> rfl
  · have exited := exited_of_joined (fun _ _ => rfl) reached joined
    rw [← Multiset.coe_eq_coe, sound.owned.values, ← sum_leaked]
    apply Finset.sum_congr rfl
    intro i _
    rw [exited i]
    rfl

def three : ForkJoin 3 (Memory 3 Nat String) (Pc Nat) (Note Nat String) :=
  tss .beyond (fun i => i = 1) ![ "abcefgh", "12356789", "!@#$%^&*"]

theorem texts_private_three : ∃ trace state, three.system.Reaches trace state ∧ state.main = .joined ∧
    (∃ address, notes 1 trace = script true "12356789" address) ∧ state.memory.heap.values = ["12356789"] := by
  obtain ⟨_, last, _, reached, joined⟩ := goes_on (System.Reaches.first (rfl : three.system.start _))
  obtain ⟨scripts, left⟩ := (texts_private reached).2.2.2 joined
  exact ⟨_, last, reached, joined, scripts 1, List.perm_singleton.mp left⟩

end Runs

end CppRt.Tss

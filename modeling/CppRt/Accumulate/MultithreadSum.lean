import CppRt.Library.ForkJoin

/-!
The sum of a table of longs by one thread and by four. Addresses count longs; a
long and the unsigned long it is converted to are the same 64 bits. Each worker
advances the start pointer of its own range in place and adds what it reads to its
own partial sum; the sums are added up in the order of the joins.
-/

namespace CppRt.Accumulate
open Library Transition ForkJoin

def sumFrom (table : Nat → Int64) (start last : Nat) (sum : UInt64) : UInt64 :=
  if start < last then sumFrom table (start + 1) last (sum + (table start).toUInt64) else sum
termination_by last - start

def oneThreadSum (table : Nat → Int64) (first last : Nat) : UInt64 := sumFrom table first last 0

structure Range where
  start : Nat
  last : Nat
  partialSum : UInt64

def blockStart (first blockSize : Nat) : Nat → Nat
  | 0 => first
  | i + 1 => blockStart first blockSize i + blockSize

/-- The range a worker is given; the last one ends at the end of the table. -/
def ranges (first last : Nat) (i : Nat) : Range :=
  let blockSize := (last - first) / 4
  if i < 3 then ⟨blockStart first blockSize i, blockStart first blockSize (i + 1), 0⟩
  else ⟨blockStart first blockSize i, last, 0⟩

/-- Where a worker is in partial_sum: at the loop's test, before it reads the element,
holding it, before it advances the pointer, after the loop. -/
inductive Pc where
  | test
  | read
  | add (element : Int64)
  | advance
  | exited

inductive Note where
  | test
  | read (address : Nat)
  | add
  | advance

structure Memory where
  ranges : Fin 4 → Range
  sum : UInt64

def Memory.setRange (memory : Memory) (index : Fin 4) (range : Range) : Memory :=
  { memory with ranges := Function.update memory.ranges index range }

def partialSum (table : Nat → Int64) (index : Fin 4) (memory : Memory) : Pc → Option (Note × Memory × Pc)
  | .test =>
    let range := memory.ranges index
    some (.test, memory, if range.start < range.last then .read else .exited)
  | .read =>
    let range := memory.ranges index
    some (.read range.start, memory, .add (table range.start))
  | .add element =>
    let range := memory.ranges index
    some (.add, memory.setRange index { range with partialSum := range.partialSum + element.toUInt64 }, .advance)
  | .advance =>
    let range := memory.ranges index
    some (.advance, memory.setRange index { range with start := range.start + 1 }, .test)
  | .exited => none

def multithreadSum (table : Nat → Int64) (first last : Nat) : ForkJoin 4 Memory Pc Note where
  memory := ⟨fun index => ranges first last index, 0⟩
  entry := .test
  exited := .exited
  step := partialSum table
  merge index memory := { memory with sum := memory.sum + (memory.ranges index).partialSum }

section Loop
variable {table : Nat → Int64} {start middle last : Nat}

theorem sumFrom_step (less : start < last) (sum : UInt64) :
    sumFrom table start last sum = sumFrom table (start + 1) last (sum + (table start).toUInt64) := by
  rw [sumFrom, if_pos less]

theorem sumFrom_done (past : ¬start < last) (sum : UInt64) : sumFrom table start last sum = sum := by
  rw [sumFrom, if_neg past]

theorem sumFrom_split (left : start ≤ middle) (right : middle ≤ last) (sum : UInt64) :
    sumFrom table start last sum = sumFrom table middle last (sumFrom table start middle sum) := by
  fun_induction sumFrom table start middle sum with
  | case1 start sum less ih =>
    rw [sumFrom_step (Nat.lt_of_lt_of_le less right)]
    exact ih less
  | case2 start sum past =>
    have same : start = middle := by omega
    rw [same]

theorem sumFrom_add (base sum : UInt64) :
    sumFrom table start last (base + sum) = base + sumFrom table start last sum := by
  fun_induction sumFrom table start last sum with
  | case1 start sum less ih =>
    rw [sumFrom_step less, UInt64.add_assoc]
    exact ih
  | case2 start sum past => exact sumFrom_done past _

end Loop

structure Tiles (ranges : Nat → Range) (first last : Nat) : Prop where
  begins : (ranges 0).start = first
  meets : ∀ i, i < 3 → (ranges i).last = (ranges (i + 1)).start
  ends : (ranges 3).last = last
  ordered : ∀ i, i < 4 → (ranges i).start ≤ (ranges i).last

theorem blockStart_eq (first blockSize i : Nat) : blockStart first blockSize i = first + i * blockSize := by
  induction i with
  | zero => simp [blockStart]
  | succ i ih =>
    rw [blockStart, ih, Nat.succ_mul, Nat.add_assoc]

theorem ranges_fresh (first last i : Nat) : (ranges first last i).partialSum = 0 := by
  unfold ranges
  split <;> rfl

theorem ranges_tile {first last : Nat} (ordered : first ≤ last) : Tiles (ranges first last) first last where
  begins := rfl
  meets i less := by
    unfold ranges
    rw [if_pos less]
    split <;> rfl
  ends := rfl
  ordered i less := by
    unfold ranges
    split
    · simp [blockStart]
    · simp only [blockStart_eq]
      have quarter : 4 * ((last - first) / 4) ≤ last - first := Nat.mul_div_le _ _
      have third : i * ((last - first) / 4) = 3 * ((last - first) / 4) := by
        rw [show i = 3 by omega]
      omega

def part (table : Nat → Int64) (first last : Nat) (i : Nat) : UInt64 :=
  oneThreadSum table (ranges first last i).start (ranges first last i).last

def parts (table : Nat → Int64) (first last : Nat) : Nat → UInt64
  | 0 => 0
  | i + 1 => parts table first last i + part table first last i

theorem oneThreadSum_split {table : Nat → Int64} {first middle last : Nat} (left : first ≤ middle)
    (right : middle ≤ last) :
    oneThreadSum table first middle + oneThreadSum table middle last = oneThreadSum table first last := by
  unfold oneThreadSum
  rw [sumFrom_split left right, ← sumFrom_add, UInt64.add_zero]

theorem parts_upto (table : Nat → Int64) {first last : Nat} (ordered : first ≤ last) (i : Nat) (bound : i < 4) :
    first ≤ (ranges first last i).start ∧
      parts table first last i = oneThreadSum table first (ranges first last i).start := by
  obtain ⟨begins, meets, _, orders⟩ := ranges_tile ordered
  induction i with
  | zero =>
    refine ⟨Nat.le_of_eq begins.symm, ?_⟩
    rw [begins]
    exact (sumFrom_done (Nat.lt_irrefl first) 0).symm
  | succ i ih =>
    obtain ⟨above, sums⟩ := ih (by omega)
    have grows := orders i (by omega)
    have meet := meets i (by omega)
    refine ⟨by omega, ?_⟩
    rw [parts, sums, part, oneThreadSum_split above grows, meet]

theorem parts_eq (table : Nat → Int64) {first last : Nat} (ordered : first ≤ last) :
    parts table first last 4 = oneThreadSum table first last := by
  obtain ⟨above, sums⟩ := parts_upto table ordered 3 (by decide)
  obtain ⟨_, _, ends, orders⟩ := ranges_tile ordered
  rw [parts, sums, part, oneThreadSum_split above (orders 3 (by decide)), ends]

/-- What a worker keeps to: from where it is, the rest of its loop leads to its part. -/
def Owns (table : Nat → Int64) (first last : Nat) (index : Fin 4) (memory : Memory) : Option Pc → Prop
  | none | some .test =>
    sumFrom table (memory.ranges index).start (memory.ranges index).last (memory.ranges index).partialSum =
      part table first last index
  | some .read =>
    (memory.ranges index).start < (memory.ranges index).last ∧
      sumFrom table (memory.ranges index).start (memory.ranges index).last (memory.ranges index).partialSum =
        part table first last index
  | some (.add element) =>
    (memory.ranges index).start < (memory.ranges index).last ∧
      element = table (memory.ranges index).start ∧
      sumFrom table (memory.ranges index).start (memory.ranges index).last (memory.ranges index).partialSum =
        part table first last index
  | some .advance =>
    sumFrom table ((memory.ranges index).start + 1) (memory.ranges index).last (memory.ranges index).partialSum =
      part table first last index
  | some .exited => (memory.ranges index).partialSum = part table first last index

section Worker
variable {table : Nat → Int64} {first last : Nat} {index other : Fin 4} {memory later : Memory} {pc after : Pc}
variable {note : Note} {position : Option Pc}

theorem Owns.step (owns : Owns table first last index memory (some pc))
    (stepped : partialSum table index memory pc = some (note, later, after)) :
    Owns table first last index later (some after) := by
  cases pc with
  | test =>
    cases stepped
    by_cases less : (memory.ranges index).start < (memory.ranges index).last
    · rw [if_pos less]
      exact ⟨less, owns⟩
    · rw [if_neg less]
      have sum := owns
      unfold Owns at sum ⊢
      rwa [sumFrom_done less] at sum
  | read =>
    cases stepped
    exact ⟨owns.1, rfl, owns.2⟩
  | add element =>
    cases stepped
    obtain ⟨less, rfl, sum⟩ := owns
    rw [sumFrom_step less] at sum
    simpa [Owns, Memory.setRange] using sum
  | advance =>
    cases stepped
    simpa [Owns, Memory.setRange] using owns
  | exited => cases stepped

theorem partialSum_frame (stepped : partialSum table index memory pc = some (note, later, after)) :
    later.sum = memory.sum ∧ ∀ other, other ≠ index → later.ranges other = memory.ranges other := by
  cases pc with
  | test | read =>
    cases stepped
    exact ⟨rfl, fun _ _ => rfl⟩
  | add | advance =>
    cases stepped
    exact ⟨rfl, fun _ different => Function.update_of_ne different _ _⟩
  | exited => cases stepped

theorem Owns.frame (owns : Owns table first last other memory position)
    (same : later.ranges other = memory.ranges other) : Owns table first last other later position := by
  rcases position with _ | _ | _ | _ | _ | _ <;> simpa only [Owns, same] using owns

end Worker

def discipline (table : Nat → Int64) (first last : Nat) : (multithreadSum table first last).Discipline where
  Own := Owns table first last
  Merged done memory := memory.sum = parts table first last done
  own_start index := by
    change sumFrom table _ _ (ranges first last index).partialSum = _
    rw [ranges_fresh]
    rfl
  own_create owns := owns
  own_step owns stepped := owns.step stepped
  own_frame different stepped owns := owns.frame ((partialSum_frame stepped).2 _ different)
  own_merge owns := owns.frame rfl
  merged_start := rfl
  merged_step merged stepped := by rw [(partialSum_frame stepped).1, merged]
  merged_merge {index memory} merged owns := by
    change memory.sum + (memory.ranges index).partialSum = _
    rw [merged, show (memory.ranges index).partialSum = part table first last index from owns]
    rfl

/-- The ranges tile the table, and four threads add up to what one does. -/
theorem multithread_sum_correct (table : Nat → Int64) (first last : Nat) (ordered : first ≤ last) :
    Tiles (ranges first last) first last ∧
      ∀ trace state, (multithreadSum table first last).system.Reaches trace state → state.main = .joined →
        state.memory.sum = oneThreadSum table first last := by
  refine ⟨ranges_tile ordered, fun trace state reached joined => ?_⟩
  have merged := ((discipline table first last).holds (fun _ _ => rfl) reached).merged
  rw [joined] at merged
  exact merged.trans (parts_eq table ordered)

theorem partialSum_ends (table : Nat → Int64) (first last : Nat) (index : Fin 4) (memory : Memory) :
    ∃ final, (multithreadSum table first last).Alone index memory .test final .exited := by
  generalize left : (memory.ranges index).last - (memory.ranges index).start = distance
  induction distance generalizing memory with
  | zero =>
    have past : ¬(memory.ranges index).start < (memory.ranges index).last := by omega
    have tests : partialSum table index memory .test = some (.test, memory, .exited) := by
      simp [partialSum, past]
    exact ⟨memory, .head tests .refl⟩
  | succ distance ih =>
    have less : (memory.ranges index).start < (memory.ranges index).last := by omega
    have tests : partialSum table index memory .test = some (.test, memory, .read) := by
      simp [partialSum, less]
    let range := memory.ranges index
    let added := memory.setRange index
      { range with partialSum := range.partialSum + (table range.start).toUInt64 }
    let moved := added.setRange index { added.ranges index with start := (added.ranges index).start + 1 }
    have shorter : (moved.ranges index).last - (moved.ranges index).start = distance := by
      simp only [moved, added, range, Memory.setRange, Function.update_self]
      omega
    obtain ⟨final, rest⟩ := ih moved shorter
    exact ⟨final, .head tests (.head rfl (.head rfl (.head rfl rest)))⟩

theorem multithread_sum_correct_six : ∃ trace state,
    (multithreadSum (fun _ => 5) 0 6).system.Reaches trace state ∧ state.main = .joined ∧
      state.memory.sum = oneThreadSum (fun _ => 5) 0 6 := by
  obtain ⟨trace, state, reached, joined⟩ :=
    reaches_joined (multithreadSum (fun _ => 5) 0 6) (partialSum_ends (fun _ => 5) 0 6)
  exact ⟨trace, state, reached, joined,
    (multithread_sum_correct (fun _ => 5) 0 6 (by decide)).2 trace state reached joined⟩

end CppRt.Accumulate

import Mathlib.Data.List.Nodup
import Mathlib.Tactic.Common

/-!
A barrier for so many threads, told by how many have come to it. Who comes takes the number
of those before as a ticket; the tickets come in rounds, and a ticket passes when all of its
round have been given out. In each round one thread is told apart, of which nothing else is
known.
-/

namespace CppRt.Library

structure Barrier (limit : Nat) where
  arrivals : Nat

namespace Barrier
variable {limit : Nat}

def arrive (barrier : Barrier limit) : Barrier limit := ⟨barrier.arrivals + 1⟩

def passes (barrier : Barrier limit) (ticket : Nat) : Bool := ticket / limit < barrier.arrivals / limit

/-- `pick` says which ticket of each round is told apart. -/
def serial (limit : Nat) (pick : Nat → Nat) (ticket : Nat) : Bool := ticket % limit == pick (ticket / limit)

theorem passes_iff {barrier : Barrier limit} {ticket : Nat} (positive : 0 < limit) :
    barrier.passes ticket = true ↔ (ticket / limit + 1) * limit ≤ barrier.arrivals := by
  rw [passes, decide_eq_true_eq, ← Nat.succ_le_iff, Nat.le_div_iff_mul_le positive]

theorem serial_rounds {pick : Nat → Nat} (among : ∀ round, pick round < limit) (rounds : Nat) :
    (List.range (rounds * limit)).countP (serial limit pick) = rounds := by
  have positive : 0 < limit := Nat.lt_of_le_of_lt (Nat.zero_le _) (among 0)
  induction rounds with
  | zero => rw [Nat.zero_mul]; rfl
  | succ round ih =>
    have one : ((List.range limit).map (round * limit + ·)).countP (serial limit pick) =
        (List.range limit).count (pick round) := by
      rw [List.countP_map, List.count]
      apply List.countP_congr
      intro place within
      have below := List.mem_range.mp within
      rw [Function.comp_apply, serial, Nat.mul_comm, Nat.mul_add_mod, Nat.mod_eq_of_lt below, Nat.mul_add_div positive,
        Nat.div_eq_of_lt below, Nat.add_zero]
    rw [Nat.succ_mul, List.range_add, List.countP_append, ih, one,
      List.count_eq_one_of_mem List.nodup_range (List.mem_range.mpr (among round))]

end Barrier

end CppRt.Library

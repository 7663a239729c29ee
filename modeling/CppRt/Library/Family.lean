import Mathlib.Data.Fintype.Card
import Mathlib.Data.Fintype.BigOperators
import Mathlib.Tactic.Common

/-!
Families of thread-local states: how many members a predicate counts, how one
thread's own update changes the count, and what a condition variable's signal
does to the family.
-/

namespace CppRt.Library.Family

variable {Thread Local : Type*}

section Tally
variable [Fintype Thread] {counts : Local → Bool} {family later : Thread → Local}

def tally (counts : Local → Bool) (family : Thread → Local) : Nat :=
  (Finset.univ.filter fun thread => counts (family thread) = true).card

theorem tally_mono (grows : ∀ thread, counts (family thread) = true → counts (later thread) = true) :
    tally counts family ≤ tally counts later := by
  apply Finset.card_le_card
  intro thread counted
  simp only [Finset.mem_filter, Finset.mem_univ, true_and] at counted ⊢
  exact grows thread counted

theorem tally_lt (grows : ∀ thread, counts (family thread) = true → counts (later thread) = true)
    {thread : Thread} (fresh : counts (family thread) = false) (counted : counts (later thread) = true) :
    tally counts family < tally counts later := by
  apply Finset.card_lt_card
  refine ⟨fun other member => ?_, fun included => ?_⟩
  · simp only [Finset.mem_filter, Finset.mem_univ, true_and] at member ⊢
    exact grows other member
  · have present : thread ∈ Finset.univ.filter fun thread => counts (later thread) = true := by
      simpa using counted
    have before := included present
    simp [fresh] at before

theorem exists_of_tally_pos (positive : 0 < tally counts family) :
    ∃ thread, counts (family thread) = true := by
  obtain ⟨thread, member⟩ := Finset.card_pos.mp positive
  exact ⟨thread, by simpa using member⟩

/-- One thread's update moves a sum over the family by its own old and new weight. -/
theorem sum_change [DecidableEq Thread] {Weight : Type*} [AddCommMonoid Weight] (weight : Thread → Local → Weight)
    (family : Thread → Local) (thread : Thread) (value : Local) :
    ∑ other, weight other (Function.update family thread value other) + weight thread (family thread) =
      ∑ other, weight other (family other) + weight thread value := by
  have split (family : Thread → Local) : ∑ other, weight other (family other) =
      weight thread (family thread) + ∑ other ∈ Finset.univ.erase thread, weight other (family other) :=
    (Finset.add_sum_erase _ (fun other => weight other (family other)) (Finset.mem_univ thread)).symm
  have rest : ∑ other ∈ Finset.univ.erase thread, weight other (Function.update family thread value other) =
      ∑ other ∈ Finset.univ.erase thread, weight other (family other) := by
    apply Finset.sum_congr rfl
    intro other member
    rw [Function.update_of_ne (Finset.ne_of_mem_erase member)]
  rw [split (Function.update family thread value), split family, rest, Function.update_self,
    add_right_comm, add_comm (weight thread value), add_right_comm]

theorem sum_update [DecidableEq Thread] (weight : Local → Nat) (family : Thread → Local) (thread : Thread)
    (value : Local) :
    ∑ other, weight (Function.update family thread value other) + weight (family thread) =
      ∑ other, weight (family other) + weight value :=
  sum_change (fun _ => weight) family thread value

theorem sum_same {count weight : Nat} {weights : Fin count → Nat} (same : ∀ thread, weights thread = weight) :
    ∑ thread, weights thread = count * weight := by
  rw [Finset.sum_const_nat fun thread _ => same thread, Finset.card_univ, Fintype.card_fin]

theorem tally_eq_sum (counts : Local → Bool) (family : Thread → Local) :
    tally counts family = ∑ thread, (counts (family thread)).toNat := by
  unfold tally
  rw [Finset.card_filter]
  apply Finset.sum_congr rfl
  intro thread _
  cases counts (family thread) <;> rfl

theorem tally_update [DecidableEq Thread] (counts : Local → Bool) (family : Thread → Local)
    (thread : Thread) (value : Local) :
    tally counts (Function.update family thread value) + (counts (family thread)).toNat =
      tally counts family + (counts value).toNat := by
  rw [tally_eq_sum, tally_eq_sum]
  exact sum_update (fun position => (counts position).toNat) family thread value

end Tally

section Entries
variable [DecidableEq Thread] {Entry : Type*}

def entries (thread : Thread) (log : List (Thread × Entry)) : List Entry :=
  log.filterMap fun entry => if entry.1 = thread then some entry.2 else none

@[simp] theorem entries_nil (thread : Thread) : entries thread ([] : List (Thread × Entry)) = [] := rfl

@[simp] theorem entries_append (thread : Thread) (before after : List (Thread × Entry)) :
    entries thread (before ++ after) = entries thread before ++ entries thread after :=
  List.filterMap_append

@[simp] theorem entries_self (thread : Thread) (entry : Entry) : entries thread [(thread, entry)] = [entry] := by
  simp [entries]

theorem entries_other {thread other : Thread} (different : other ≠ thread) (entry : Entry) :
    entries thread [(other, entry)] = [] := by
  simp [entries, different]

theorem count_entries [DecidableEq Entry] (thread : Thread) (entry : Entry) (log : List (Thread × Entry)) :
    (entries thread log).count entry = log.count (thread, entry) := by
  induction log with
  | nil => rfl
  | cons first rest ih =>
    obtain ⟨other, value⟩ := first
    rw [← List.singleton_append, entries_append, List.count_append, List.count_append, ih]
    congr 1
    by_cases same : other = thread
    · subst same
      simp [List.count_singleton]
    · simp [entries_other same, same]

theorem entries_absent {thread : Thread} {log : List (Thread × Entry)} (absent : ∀ entry ∈ log, entry.1 ≠ thread) :
    entries thread log = [] := by
  simpa [entries] using absent

theorem entries_alone {thread : Thread} {log : List (Thread × Entry)} (alone : ∀ entry ∈ log, entry.1 = thread) :
    entries thread log = log.map Prod.snd := by
  induction log with
  | nil => rfl
  | cons first rest ih =>
    obtain ⟨writer, entry⟩ := first
    obtain rfl : writer = thread := alone _ List.mem_cons_self
    simpa [entries] using ih fun other member => alone other (List.mem_cons_of_mem _ member)

theorem mem_entries {thread : Thread} {entry : Entry} {log : List (Thread × Entry)} :
    entry ∈ entries thread log ↔ (thread, entry) ∈ log := by
  classical
  rw [← List.count_pos_iff, count_entries, List.count_pos_iff]

theorem entries_cons (thread writer : Thread) (entry : Entry) (log : List (Thread × Entry)) :
    entries thread ((writer, entry) :: log) =
      if writer = thread then entry :: entries thread log else entries thread log := by
  by_cases same : writer = thread <;> simp [entries, same]

variable (counts : Entry → Bool)

theorem countP_entries_le (thread : Thread) (log : List (Thread × Entry)) :
    (entries thread log).countP counts ≤ (log.map Prod.snd).countP counts := by
  apply List.Sublist.countP_le
  induction log with
  | nil => exact .slnil
  | cons first rest ih =>
    obtain ⟨writer, entry⟩ := first
    rw [entries_cons, List.map_cons]
    split
    · exact ih.cons_cons entry
    · exact ih.cons entry

theorem countP_alone (thread : Thread) {log : List (Thread × Entry)}
    (alone : ∀ entry ∈ log, counts entry.2 = true → entry.1 = thread) :
    (log.map Prod.snd).countP counts = (entries thread log).countP counts := by
  induction log with
  | nil => rfl
  | cons first rest ih =>
    obtain ⟨writer, entry⟩ := first
    have kept := ih fun other member => alone other (List.mem_cons_of_mem _ member)
    rw [entries_cons, List.map_cons, List.countP_cons, kept]
    by_cases own : writer = thread
    · rw [if_pos own, List.countP_cons]
    · have other : ¬counts entry = true := fun counted => own (alone _ List.mem_cons_self counted)
      rw [if_neg own, if_neg other, Nat.add_zero]

theorem countP_by_writer {Index : Type*} [Fintype Index] {thread : Index → Thread}
    (apart : Function.Injective thread) {log : List (Thread × Entry)}
    (covered : ∀ entry ∈ log, counts entry.2 = true → ∃ index, entry.1 = thread index) :
    (log.map Prod.snd).countP counts = ∑ index, (entries (thread index) log).countP counts := by
  classical
  induction log with
  | nil => simp
  | cons first rest ih =>
    obtain ⟨writer, entry⟩ := first
    have kept := ih fun other member => covered other (List.mem_cons_of_mem _ member)
    rw [List.map_cons, List.countP_cons, kept]
    by_cases counted : counts entry = true
    · obtain ⟨own, rfl⟩ := covered _ List.mem_cons_self counted
      have split (index : Index) : (entries (thread index) ((thread own, entry) :: rest)).countP counts =
          (entries (thread index) rest).countP counts + if own = index then 1 else 0 := by
        rw [entries_cons]
        by_cases same : own = index
        · simp [same, counted]
        · simp [same, apart.ne same]
      simp [split, Finset.sum_add_distrib, counted]
    · have split (index : Index) : (entries (thread index) ((writer, entry) :: rest)).countP counts =
          (entries (thread index) rest).countP counts := by
        rw [entries_cons]
        split
        · rw [List.countP_cons, if_neg counted, Nat.add_zero]
        · rfl
      simp [split, counted]

/-- Logs in which every thread has the same entries are the same up to order. -/
theorem perm_of_entries {left right : List (Thread × Entry)}
    (same : ∀ thread, (entries thread left).Perm (entries thread right)) : left.Perm right := by
  classical
  rw [List.perm_iff_count]
  rintro ⟨thread, entry⟩
  rw [← count_entries, ← count_entries]
  exact (same thread).count_eq entry

theorem subperm_of_entries {left right : List (Thread × Entry)}
    (fewer : ∀ thread, (entries thread left).Subperm (entries thread right)) : left.Subperm right := by
  classical
  rw [List.subperm_ext_iff]
  rintro ⟨thread, entry⟩ _
  rw [← count_entries, ← count_entries]
  exact (fewer thread).count_le entry

theorem perm_of_writers {Index : Type*} (thread : Index → Thread) {left right : List (Thread × Entry)}
    (covered : ∀ entry ∈ left ++ right, ∃ index, entry.1 = thread index)
    (same : ∀ index, (entries (thread index) left).Perm (entries (thread index) right)) : left.Perm right := by
  apply perm_of_entries
  intro other
  by_cases writes : ∃ index, other = thread index
  · obtain ⟨index, rfl⟩ := writes
    exact same index
  · have absent : entries other (left ++ right) = [] := by
      apply entries_absent
      rintro entry member rfl
      exact writes (covered entry member)
    rw [entries_append, List.append_eq_nil_iff] at absent
    rw [absent.1, absent.2]

theorem subperm_of_writers {Index : Type*} (thread : Index → Thread) {left right : List (Thread × Entry)}
    (covered : ∀ entry ∈ left, ∃ index, entry.1 = thread index)
    (fewer : ∀ index, (entries (thread index) left).Subperm (entries (thread index) right)) :
    left.Subperm right := by
  apply subperm_of_entries
  intro other
  by_cases writes : ∃ index, other = thread index
  · obtain ⟨index, rfl⟩ := writes
    exact fewer index
  · have absent : entries other left = [] := by
      apply entries_absent
      rintro entry member rfl
      exact writes (covered entry member)
    rw [absent]
    exact List.nil_subperm

end Entries

/-- The effect of a signal on the sleepers: some of them are woken, at least one
if there is any, and nobody else is touched. -/
structure Signal (asleep woken : Local) (before after : Thread → Local) : Prop where
  frame : ∀ thread, after thread = before thread ∨ before thread = asleep ∧ after thread = woken
  wakes : (∃ thread, before thread = asleep) → ∃ thread, before thread = asleep ∧ after thread = woken

namespace Signal
variable {asleep woken : Local} {before after : Thread → Local}

theorem one [DecidableEq Thread] {thread : Thread} (sleeps : before thread = asleep) :
    Signal asleep woken before (Function.update before thread woken) := by
  refine ⟨fun other => ?_, fun _ => ⟨thread, sleeps, by simp⟩⟩
  by_cases same : other = thread
  · subst same
    exact .inr ⟨sleeps, by simp⟩
  · exact .inl (Function.update_of_ne same _ _)

theorem exists_after [DecidableEq Thread] (asleep woken : Local) (before : Thread → Local) :
    ∃ after, Signal asleep woken before after := by
  by_cases sleeper : ∃ thread, before thread = asleep
  · obtain ⟨thread, sleeps⟩ := sleeper
    exact ⟨_, one sleeps⟩
  · exact ⟨before, fun _ => .inl rfl, fun some => absurd some sleeper⟩

theorem awake (signal : Signal asleep woken before after) {thread : Thread}
    (different : before thread ≠ asleep) : after thread = before thread :=
  (signal.frame thread).resolve_right fun slept => different slept.1

theorem of_nobody (nobody : ∀ thread, before thread ≠ asleep) : Signal asleep woken before before :=
  ⟨fun _ => .inl rfl, fun ⟨thread, slept⟩ => absurd slept (nobody thread)⟩

theorem view_eq {View : Type*} (view : Local → View) (signal : Signal asleep woken before after)
    (same : view asleep = view woken) (thread : Thread) :
    view (after thread) = view (before thread) := by
  rcases signal.frame thread with kept | ⟨slept, now⟩
  · rw [kept]
  · rw [slept, now, same]

theorem tally_le [Fintype Thread] (counts : Local → Bool) (signal : Signal asleep woken before after)
    (rises : counts asleep = true → counts woken = true) : tally counts before ≤ tally counts after := by
  apply tally_mono
  intro thread counted
  rcases signal.frame thread with kept | ⟨slept, now⟩
  · rwa [kept]
  · rw [now]
    exact rises (slept ▸ counted)

theorem tally_lt [Fintype Thread] (counts : Local → Bool) (signal : Signal asleep woken before after)
    (sleeper : ∃ thread, before thread = asleep) (out : counts asleep = false)
    (counted : counts woken = true) : tally counts before < tally counts after := by
  obtain ⟨thread, slept, now⟩ := signal.wakes sleeper
  have fresh : counts (before thread) = false := by rw [slept, out]
  refine Family.tally_lt ?_ fresh (by rw [now, counted])
  intro other present
  rcases signal.frame other with kept | ⟨_, now⟩
  · rwa [kept]
  · rw [now, counted]

end Signal

end CppRt.Library.Family

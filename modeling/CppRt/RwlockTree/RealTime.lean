import CppRt.Library.RealTime
import CppRt.RwlockTree.BtreeCorrect

/-!
What one thread can count on of another's inserts without looking at the lock: a search that is
called after an insert of its key has returned finds the key, and a search finds no key that
nobody has called an insert of before it returns.
-/

namespace CppRt.RwlockTree
open Library Transition Concurrent RwLock

variable {Thread Addr : Type*} [DecidableEq Thread] [DecidableEq Addr] {program : Thread → List Call}
variable {before during after : List (Label Thread Call Ret Empty)}
variable {state : Joint (State Thread Addr) (Thread → List Call)} {reader : Thread} {key : Int} {ret : Ret}

theorem found_at_commit {image : Joint (Atomic Thread (Set Int) Call Ret) (Thread → List Call)}
    (reached : (compose keySet.atomic (keySet.programs id program)).Reaches
      (before ++ [.act reader (.commit (.search key) ret)]) image) :
    ∃ found, ret = .found found ∧ (found = true ↔ ∃ writer, (writer, .insert key, .inserted) ∈ commits before) := by
  obtain ⟨earlier, upto, move⟩ := last_move reached
  cases move with
  | commit _ _ _ _ _ _ applied =>
    have history : keySet.History ((commits before).map Prod.snd) earlier.object.contents := history_of_reaches upto
    cases applied
    refine ⟨_, rfl, ?_⟩
    simp only [decide_eq_true_eq]
    rw [mem_iff_inserted history, List.mem_map]
    constructor
    · rintro ⟨⟨writer, _⟩, member, same⟩
      cases same
      exact ⟨writer, member⟩
    · rintro ⟨writer, member⟩
      exact ⟨_, member, rfl⟩

theorem inserted_of_commit {image : Joint (Atomic Thread (Set Int) Call Ret) (Thread → List Call)} {writer : Thread}
    (reached : (compose keySet.atomic (keySet.programs id program)).Reaches before image)
    (member : (writer, .insert key, ret) ∈ commits before) : ret = .inserted := by
  obtain ⟨sooner, later, rfl⟩ := List.append_of_mem (mem_commits.mp member)
  obtain ⟨first, begins, run⟩ := reached
  rw [List.append_cons] at run
  obtain ⟨_, upto, _⟩ := run.split
  obtain ⟨_, _, move⟩ := last_move ⟨first, begins, upto⟩
  cases move with
  | commit _ _ _ _ _ _ applied =>
    cases applied
    rfl

/-- A search of any program on the btree, from its call to its return: it finds its key if an
insert of it has returned before the call, and only if one has been called before the return. -/
theorem search_in_real_time
    (reached : (running program).Reaches
      (before ++ .act reader (.call (.search key)) :: (during ++ .act reader (.ret ret) :: after)) state)
    (stays : ∀ other, .act reader (.ret other) ∉ during) :
    ∃ found, ret = .found found ∧ ((∃ writer, Returned writer (.insert key) before) → found = true) ∧
      (found = true → ∃ writer, .act writer (.call (.insert key)) ∈ before ++ during) := by
  obtain ⟨first, begins, run⟩ := ((linearization Thread Addr).reaches (fun _ _ _ _ => trivial) reached).2
  have shape : before ++ .act reader (.call (.search key)) :: (during ++ .act reader (.ret ret) :: after) =
      (before ++ .act reader (.call (.search key)) :: (during ++ [.act reader (.ret ret)])) ++ after := by simp
  rw [shape] at run
  obtain ⟨_, returned, _⟩ := run.split
  obtain ⟨early, late, rfl⟩ := effect_before_return ⟨first, begins, returned⟩ stays
  have parts : before ++ .act reader (.call (.search key)) ::
      ((early ++ .act reader (.commit (.search key) ret) :: late) ++ [.act reader (.ret ret)]) =
        (before ++ .act reader (.call (.search key)) :: early) ++ [.act reader (.commit (.search key) ret)] ++
          (late ++ [.act reader (.ret ret)]) := by simp
  rw [parts] at returned
  obtain ⟨_, effect, _⟩ := returned.split
  obtain ⟨found, rfl, answer⟩ := found_at_commit ⟨first, begins, effect⟩
  obtain ⟨_, upto, _⟩ := effect.split
  refine ⟨found, rfl, fun inserted => ?_, fun there => ?_⟩
  · obtain ⟨writer, inserted⟩ := inserted
    obtain ⟨_, sooner, _⟩ := upto.split
    obtain ⟨ret, member⟩ := commit_of_returned ⟨first, begins, sooner⟩ inserted
    obtain rfl := inserted_of_commit ⟨first, begins, sooner⟩ member
    refine answer.mpr ⟨writer, ?_⟩
    rw [commits_append]
    exact List.mem_append_left _ member
  · obtain ⟨writer, member⟩ := answer.mp there
    have called := call_of_commit ⟨first, begins, upto⟩ member
    refine ⟨writer, ?_⟩
    rcases List.mem_append.mp called with earlier | later
    · exact List.mem_append_left _ earlier
    · cases later with
      | tail _ inside => exact List.mem_append_right _ (List.mem_append_left _ inside)

theorem search_in_real_time_seven : ∃ trace last before early late,
    (running writerAndReader).Reaches trace (last : Joint (State Bool Nat) _) ∧ (running writerAndReader).Final last ∧
    trace = before ++ .act false (.call (.search 7)) :: (early ++ .act false (.ret (.found true)) :: late) ∧
    Returned true (.insert 7) before := by
  obtain ⟨memory, inserts⟩ := first_insert_completes true 7 (0 : Nat)
  have inserted : (running writerAndReader).Run
      ⟨_, writerAndReader⟩ _
      ⟨_, Function.update writerAndReader true []⟩ := inserts.run rfl rfl
  have searching : (running writerAndReader).Run
      ⟨_, Function.update writerAndReader true []⟩ _ ⟨_, _⟩ :=
    (search_begins false 7 memory).run rfl
  have reached : (running writerAndReader).Reaches _ _ := ⟨_, running_start _, inserted.trans searching⟩
  obtain ⟨more, last, run, final⟩ := ((ranking Bool Nat).programs_end (refinement Bool) reached).2
  obtain ⟨found, early, late, rfl, stays, _⟩ := @search_returns_of_final _ _ _ _ _ _ _ _ _ false 7 reached rfl run final
  have through := reached.then run
  rw [List.append_assoc, List.singleton_append] at through
  have before : Returned true (.insert 7) [.act true (.call (.insert 7)), .act true (.commit (.insert 7) .inserted),
      (.act true (.ret .inserted) : Label Bool Call Ret Empty)] := ⟨[], _, _, rfl, List.mem_cons_of_mem _ List.mem_cons_self⟩
  obtain ⟨_, same, finds, _⟩ := search_in_real_time through stays
  cases same
  obtain rfl := finds ⟨true, before⟩
  exact ⟨_, last, _, early, late, through, final, rfl, before⟩

end CppRt.RwlockTree

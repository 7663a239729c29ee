import CppRt.Library.Concurrent

/-!
The order in which operations take effect agrees with real time: an operation takes effect
after its call and before its return, and with the answer that it returns. What holds of the
order of effects holds so of operations of which one has returned before the other is called.
-/

namespace CppRt.Library.Concurrent
open Transition

section Returns
variable {Thread Call Ret Note : Type*} {trace : List (Label Thread Call Ret Note)}

theorem mem_commits {thread : Thread} {call : Call} {ret : Ret} :
    (thread, call, ret) ∈ commits trace ↔ .act thread (.commit call ret) ∈ trace := by
  rw [commits, List.mem_filterMap]
  constructor
  · rintro ⟨label, member, committed⟩
    rcases label with ⟨_, _ | _ | _ | _⟩ | _
    all_goals cases committed
    exact member
  · exact fun member => ⟨_, member, rfl⟩

/-- A thread has called the operation, and it has returned. -/
def Returned (thread : Thread) (call : Call) (trace : List (Label Thread Call Ret Note)) : Prop :=
  ∃ before after ret, trace = before ++ .act thread (.call call) :: after ∧ .act thread (.ret ret) ∈ after

theorem first_return {thread : Thread} (seen : ∃ ret, .act thread (.ret ret) ∈ trace) :
    ∃ early ret late, trace = early ++ .act thread (.ret ret) :: late ∧ ∀ other, .act thread (.ret other) ∉ early := by
  classical
  obtain ⟨first, shown⟩ : ∃ first, trace.find? (fun label => decide (∃ ret, label = .act thread (.ret ret))) = some first := by
    obtain ⟨ret, member⟩ := seen
    exact Option.isSome_iff_exists.mp (List.find?_isSome.mpr ⟨_, member, by simp⟩)
  obtain ⟨own, early, late, rfl, before⟩ := List.find?_eq_some_iff_append.mp shown
  obtain ⟨ret, rfl⟩ := of_decide_eq_true own
  exact ⟨early, ret, late, rfl, fun other member => by simpa using before _ member⟩

end Returns

variable {Thread Progress Note Contents Call Ret : Type*} [DecidableEq Thread]
variable {spec : Sequential Contents Call Ret} {client : Client Thread Progress Note spec}
variable {trace before during more : List (Label Thread Call Ret Note)}
variable {state first last : Joint (Atomic Thread Contents Call Ret) Progress} {thread : Thread} {call : Call} {ret : Ret}

theorem eq_of_quiet (reached : (compose spec.atomic client).Reaches trace first)
    (quiet : (compose spec.atomic client).Run first [] last) : last = first := by
  have same : [] = ([] : List (Label Thread Call Ret Note)) → last = first := by
    refine quiet.invariant (fun more last => more = [] → last = first) (fun _ => rfl) ?_
    intro more state label next run _ step silent
    obtain ⟨_, rfl, _⟩ := (moves (agreesAll (reached.then run)) step).other
    exact absurd silent (by simp)
  exact same rfl

theorem last_move {label : Label Thread Call Ret Note} (reached : (compose spec.atomic client).Reaches (trace ++ [label]) last) :
    ∃ state, (compose spec.atomic client).Reaches trace state ∧ Move client state (some label) last := by
  obtain ⟨first, begins, run⟩ := reached
  obtain ⟨state, next, through, step, quiet⟩ := run.last_step
  have reached : (compose spec.atomic client).Reaches trace state := ⟨first, begins, through⟩
  obtain rfl := eq_of_quiet (reached.tail step) quiet
  exact ⟨state, reached, moves (agreesAll reached) step⟩

def Effected (thread : Thread) (call : Call) (more : List (Label Thread Call Ret Note))
    (status : Status Call Ret) : Prop :=
  ∃ ret early late, status = .done ret ∧ more = early ++ .act thread (.commit call ret) :: late

theorem effect_between {thread : Thread} {call : Call} {ret : Ret}
    (reached : (compose spec.atomic client).Reaches before first)
    (pending : first.object.status thread = .pending call) (run : (compose spec.atomic client).Run first more last)
    (stays : ∀ ret, .act thread (.ret ret) ∉ more) (done : last.object.status thread = .done ret) :
    ∃ early late, more = early ++ .act thread (.commit call ret) :: late := by
  have settles : last.object.status thread = .pending call ∨ Effected thread call more (last.object.status thread) := by
    refine run.invariant (fun more last => (∀ ret, .act thread (.ret ret) ∉ more) →
      last.object.status thread = .pending call ∨ Effected thread call more (last.object.status thread))
      (fun _ => .inl pending) ?_ stays
    intro more middle label next through kept step stays
    have move := moves (agreesAll (reached.then through)) step
    obtain ⟨shown, rfl, others⟩ := move.other
    have before := kept fun ret member => stays ret (List.mem_append_left _ member)
    rw [Option.toList_some]
    by_cases own : shown.thread = thread
    · subst own
      have busy : middle.object.status shown.thread ≠ .idle := by
        intro idle
        rcases before with waits | ⟨_, _, _, answered, _⟩
        · cases waits.symm.trans idle
        · cases answered.symm.trans idle
      cases move with
      | call _ _ _ idle => exact absurd idle busy
      | commit thread asks ret later _ waiting _ =>
        right
        rcases before with waits | ⟨_, _, _, answered, _⟩
        · cases waits.symm.trans waiting
          exact ⟨ret, more, [], Function.update_self _ _ _, rfl⟩
        · cases answered.symm.trans waiting
      | ret _ _ ret => exact absurd (List.mem_append_right _ (List.mem_singleton_self _)) (stays ret)
      | work _ _ _ _ idle => exact absurd idle busy
    · rw [others thread own]
      rcases before with waits | ⟨ret, early, late, answered, rfl⟩
      · exact .inl waits
      · exact .inr ⟨ret, early, late ++ [shown], answered, by simp⟩
  rcases settles with waits | ⟨_, early, late, answered, shape⟩
  · cases waits.symm.trans done
  · cases answered.symm.trans done
    exact ⟨early, late, shape⟩

/-- Between the call of an operation and its return it takes effect, with the answer it returns. -/
theorem effect_before_return
    (reached : (compose spec.atomic client).Reaches (before ++ .act thread (.call call) :: (during ++ [.act thread (.ret ret)])) last)
    (stays : ∀ other, .act thread (.ret other) ∉ during) :
    ∃ early late, during = early ++ .act thread (.commit call ret) :: late := by
  rw [List.append_cons, ← List.append_assoc] at reached
  obtain ⟨ready, reached, returns⟩ := last_move reached
  obtain ⟨first, begins, run⟩ := reached
  obtain ⟨called, upto, through⟩ := run.split
  have reached : (compose spec.atomic client).Reaches (before ++ [.act thread (.call call)]) called := ⟨first, begins, upto⟩
  obtain ⟨_, _, calls⟩ := last_move reached
  have pending : called.object.status thread = .pending call := by
    cases calls with
    | call => exact Function.update_self _ _ _
  have done : ready.object.status thread = .done ret := by
    cases returns with
    | ret _ _ _ _ _ _ done => exact done
  exact effect_between reached pending through stays done

theorem call_of_pending (reached : (compose spec.atomic client).Reaches trace state) :
    ∀ thread call, state.object.status thread = .pending call → .act thread (.call call) ∈ trace := by
  refine invariant_of_moves (fun trace state => ∀ thread call,
    state.object.status thread = .pending call → .act thread (.call call) ∈ trace) reached ?_ ?_
  · exact fun _ _ _ _ wrong => by cases wrong
  · intro trace state label next _ called move thread call pending
    obtain ⟨shown, rfl, others⟩ := move.other
    by_cases own : shown.thread = thread
    · subst own
      cases move with
      | call thread asks =>
        cases (Function.update_self thread _ state.object.status).symm.trans pending
        exact List.mem_append_right _ (List.mem_singleton.mpr rfl)
      | commit thread => cases (Function.update_self thread _ state.object.status).symm.trans pending
      | ret thread => cases (Function.update_self thread _ state.object.status).symm.trans pending
      | work => exact List.mem_append_left _ (called _ _ pending)
    · rw [others thread own] at pending
      exact List.mem_append_left _ (called thread call pending)

theorem call_of_commit (reached : (compose spec.atomic client).Reaches trace state)
    (member : (thread, call, ret) ∈ commits trace) : .act thread (.call call) ∈ trace := by
  obtain ⟨before, after, rfl⟩ := List.append_of_mem (mem_commits.mp member)
  obtain ⟨first, begins, run⟩ := reached
  rw [List.append_cons] at run
  obtain ⟨_, upto, _⟩ := run.split
  obtain ⟨state, reached, move⟩ := last_move ⟨first, begins, upto⟩
  cases move with
  | commit _ _ _ _ _ pending => exact List.mem_append_left _ (call_of_pending reached thread call pending)

/-- An operation that has returned has taken effect. -/
theorem commit_of_returned (reached : (compose spec.atomic client).Reaches trace state) (returned : Returned thread call trace) :
    ∃ ret, (thread, call, ret) ∈ commits trace := by
  obtain ⟨before, after, _, rfl, seen⟩ := returned
  obtain ⟨early, ret, late, rfl, stays⟩ := first_return ⟨_, seen⟩
  refine ⟨ret, ?_⟩
  obtain ⟨first, begins, run⟩ := reached
  have shape : before ++ .act thread (.call call) :: (early ++ .act thread (.ret ret) :: late) =
      (before ++ .act thread (.call call) :: (early ++ [.act thread (.ret ret)])) ++ late := by simp
  rw [shape] at run
  obtain ⟨_, upto, _⟩ := run.split
  obtain ⟨sooner, later, rfl⟩ := effect_before_return ⟨first, begins, upto⟩ stays
  exact mem_commits.mpr (by simp)

end CppRt.Library.Concurrent

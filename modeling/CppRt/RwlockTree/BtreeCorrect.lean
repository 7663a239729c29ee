import CppRt.Library.RealTime
import CppRt.RwlockTree.NeverStuck

/-!
What any number of threads with any finite programs of insert and search get from one
btree: no access to a field without a value, sections that exclude each other, and
searches that find exactly the keys inserted in sections before their own.
-/

namespace CppRt.RwlockTree
open Library Transition Concurrent RwLock

variable {Thread Addr : Type*} [DecidableEq Thread] [DecidableEq Addr]

noncomputable def running (program : Thread → List Call) :
    System (Joint (State Thread Addr) (Thread → List Call)) (Label Thread Call Ret Empty) :=
  compose (btree Thread Addr) (keySet.programs id program)

theorem running_start (program : Thread → List Call) : (running program).start
    ⟨⟨⟨none, fun _ : Addr => none⟩, .shared [], fun _ => .outside⟩, program⟩ := ⟨rfl, rfl⟩

def Call.mode : Call → Section
  | .insert _ => .writing
  | .search _ => .reading

/-- A search for the key in its read-locked section, entered with these keys. -/
def ReadSection (key : Int) (entered keys : Set Int) : Pc Addr → Prop
  | .readRoot held => held = key ∧ keys = entered
  | .visit held _ => held = key ∧ keys = entered
  | .equal held _ => held = key ∧ keys = entered
  | .lessThan held _ => held = key ∧ keys = entered
  | .follow held _ _ => held = key ∧ keys = entered
  | .unlockRead found => found = true ↔ key ∈ entered
  | .returning (.found found) => found = true ↔ key ∈ entered
  | _ => False

section Section
variable {thread other : Thread} {memory later : Memory Addr} {pc after : Pc Addr}
variable {action : Option (Action Call Ret)} {state next : State Thread Addr}
variable {key : Int} {entered : Set Int}

theorem Local.mode {call : Call} {ret : Ret} (moved : Local memory pc action later after)
    (commits : action = some (.commit call ret)) : pc.holds = call.mode ∧ after.holds = call.mode := by
  cases moved with
  | @store key place field target =>
    cases field with
    | keyValue =>
      cases commits
      exact ⟨rfl, rfl⟩
    | left | right => cases commits
  | visitNull | equal =>
    cases commits
    exact ⟨rfl, rfl⟩
  | _ => cases commits

theorem Local.readSection (moved : Local memory pc action later after) (knows : Knows memory pc)
    (inside : ReadSection key entered memory.keys pc) : ReadSection key entered later.keys after := by
  cases moved with
  | readRoot | visitNode => exact inside
  | visitNull =>
    obtain ⟨rfl, rfl⟩ := inside
    have absent := Searching.null knows
    simp [ReadSection, absent]
  | @equal key leaf read =>
    obtain ⟨rfl, rfl⟩ := inside
    have present : key ∈ memory.keys := ⟨leaf, read⟩
    simp [ReadSection, present]
  | different | lessThan | follow => exact inside
  | fault => exact inside
  | _ => exact inside.elim

omit [DecidableEq Addr] in
theorem readSection_inside (inside : ReadSection key entered memory.keys pc) :
    pc.holds ≠ .outside ∨ ∀ keys, ReadSection key entered keys pc := by
  cases pc with
  | returning ret =>
    cases ret with
    | inserted => exact inside.elim
    | found => exact .inr fun _ => inside
  | readRoot | visit | equal | lessThan | follow | unlockRead => exact .inl Section.noConfusion
  | _ => exact inside.elim

/-- Nobody else disturbs a search in its section, and its own steps stay in it until it returns. -/
theorem step_readSection (sound : (discipline Thread).Sound state)
    (step : (guarded Thread).Step state other action next)
    (stays : ∀ ret, other = thread → action ≠ some (.ret ret))
    (inside : ReadSection key entered state.data.keys (state.pc thread)) :
    ReadSection key entered next.data.keys (next.pc thread) := by
  by_cases same : other = thread
  · subst same
    cases step with
    | call outside =>
      rw [outside] at inside
      exact inside.elim
    | @rdlock _ pc waits =>
      generalize state.pc other = at_ at waits inside
      cases waits
      exact inside.elim
    | @wrlock _ pc waits =>
      generalize state.pc other = at_ at waits inside
      cases waits
      exact inside.elim
    | @unlock _ pc leaves =>
      simp only [Function.update_self]
      generalize state.pc other = at_ at leaves inside
      cases leaves with
      | insert => exact inside.elim
      | search => exact inside
    | inside moved =>
      simp only [Function.update_self]
      exact moved.readSection (sound.knows other) inside
    | ret returns => exact absurd rfl (stays _ rfl)
  · have own : next.pc thread = state.pc thread := by
      cases step <;> exact Function.update_of_ne (Ne.symm same) _ _
    rw [own]
    rcases readSection_inside inside with within | always
    · rwa [sound.data_kept step same within]
    · exact always _

end Section

variable {program : Thread → List Call} {trace more : List (Label Thread Call Ret Empty)}
variable {state last : Joint (State Thread Addr) (Thread → List Call)}

theorem running_sound (reached : (running program).Reaches trace state) :
    (discipline Thread).Sound state.object :=
  ((linearization Thread Addr).reaches (fun _ _ _ _ => trivial) reached).1

theorem readSection_run {reader : Thread} {key : Int} (reached : (running program).Reaches trace state)
    (enters : state.object.pc reader = .readRoot key) (run : (running program).Run state more last)
    (stays : ∀ ret, .act reader (.ret ret) ∉ more) :
    ReadSection key state.object.data.keys last.object.data.keys (last.object.pc reader) := by
  refine run.invariant (fun more last => (∀ ret, .act reader (.ret ret) ∉ more) →
    ReadSection key state.object.data.keys last.object.data.keys (last.object.pc reader)) ?_ ?_ stays
  · intro _
    rw [enters]
    exact ⟨rfl, rfl⟩
  · intro more middle label next before kept step stays
    have inside := kept fun ret member => stays ret (List.mem_append_left _ member)
    rcases object_cases step with ⟨other, action, shown, own⟩ | woken | same
    · refine step_readSection (running_sound (reached.then before)) own ?_ inside
      intro ret here returns
      subst here returns shown
      exact stays ret (List.mem_append_right _ (by simp))
    · exact woken.elim
    · rw [same]
      exact inside

theorem answer_of_return {reader : Thread} {key : Int} {ret : Ret} {next : Joint (State Thread Addr) (Thread → List Call)}
    (reached : (running program).Reaches trace state) (enters : state.object.pc reader = .readRoot key)
    (run : (running program).Run state more last) (stays : ∀ ret, .act reader (.ret ret) ∉ more)
    (returns : (running program).step last (some (.act reader (.ret ret))) next) :
    ∃ found, ret = .found found ∧ (found = true ↔ key ∈ state.object.data.keys) := by
  have inside := readSection_run reached enters run stays
  rcases returns with ⟨_, step⟩ | ⟨wrong, _⟩
  · cases step with
    | ret step =>
      cases step with
      | inside moved =>
        have knows := (running_sound (reached.then run)).knows reader
        rcases Local.refines moved knows with ⟨wrong, _⟩ | ⟨_, _, wrong, _⟩ <;> cases wrong
      | ret returns =>
        rw [returns] at inside
        cases ret with
        | inserted => exact inside.elim
        | found found => exact ⟨found, rfl, inside⟩
  · cases wrong

omit [DecidableEq Thread] [DecidableEq Addr] in
theorem readSection_goes {key : Int} {entered keys : Set Int} {pc : Pc Addr} (inside : ReadSection key entered keys pc) :
    pc.holds = .reading ∨ ∃ ret, pc = .returning ret := by
  cases pc with
  | readRoot | visit | equal | lessThan | follow | unlockRead => exact .inl rfl
  | returning ret => exact .inr ⟨ret, rfl⟩
  | _ => exact inside.elim

/-- Nothing keeps a search in its section: until it has returned, its thread has a step to make. -/
theorem not_final_of_readSection {reader : Thread} {key : Int} {entered keys : Set Int}
    (reached : (running program).Reaches trace state) (inside : ReadSection key entered keys (state.object.pc reader)) :
    ¬(running program).Final state := by
  intro final
  have stuck : Stuck (btree Thread Addr) (keySet.programs id program) state :=
    fun thread label next step => final label next (.inl ⟨thread, step⟩)
  have sound := running_sound reached
  rcases readSection_goes inside with reads | ⟨ret, returns⟩
  · rcases Knows.reads (sound.knows reader) reads with ⟨action, later, after, moved⟩ | ⟨after, leaves⟩
    · obtain ⟨call, called⟩ := programs_stuck stuck (Guarded.Step.inside moved)
      exact moved.inner called
    · have held : (state.object.pc reader).holds ≠ .outside := by
        rw [reads]
        exact Section.noConfusion
      obtain ⟨lock, unlocked⟩ := sound.grants.unlock_isSome held
      obtain ⟨call, called⟩ := programs_stuck stuck (Guarded.Step.unlock leaves unlocked)
      cases called
  · obtain ⟨call, called⟩ := programs_stuck stuck (Guarded.Step.ret returns)
    cases called

theorem search_returns_of_final {reader : Thread} {key : Int} (reached : (running program).Reaches trace state)
    (enters : state.object.pc reader = .readRoot key) (run : (running program).Run state more last)
    (final : (running program).Final last) :
    ∃ found early late, more = early ++ .act reader (.ret (.found found)) :: late ∧
      (∀ ret, .act reader (.ret ret) ∉ early) ∧ (found = true ↔ key ∈ state.object.data.keys) := by
  have seen : ∃ ret, .act reader (.ret ret) ∈ more := by
    by_contra stays
    exact not_final_of_readSection (reached.then run) (readSection_run reached enters run (not_exists.mp stays)) final
  obtain ⟨early, ret, late, rfl, stays⟩ := first_return seen
  rw [← List.singleton_append, ← List.append_assoc] at run
  obtain ⟨_, upto, _⟩ := run.split
  obtain ⟨middle, next, through, returns, _⟩ := upto.last_step
  obtain ⟨found, rfl, answer⟩ := answer_of_return reached enters through stays returns
  exact ⟨found, early, late, rfl, stays, answer⟩

theorem mem_keys_of_reaches (reached : (running program).Reaches trace state) (key : Int) :
    key ∈ state.object.data.keys ↔ ∃ writer, (writer, .insert key, .inserted) ∈ commits trace := by
  have abstractly := ((linearization Thread Addr).reaches (fun _ _ _ _ => trivial) reached).2
  have history : keySet.History ((commits trace).map Prod.snd) state.object.data.keys := history_of_reaches abstractly
  rw [mem_iff_inserted history, List.mem_map]
  constructor
  · intro inserted
    obtain ⟨⟨writer, _⟩, member, same⟩ := inserted
    cases same
    exact ⟨writer, member⟩
  · intro inserted
    obtain ⟨writer, member⟩ := inserted
    exact ⟨_, member, rfl⟩

/-- btree is linearizable down to single accesses, and a search finds exactly the keys whose
inserts have had their write-locked section before its own section began. It does return: no run
of finitely many threads goes on for ever, and a run that cannot go on has seen the return. -/
theorem search_finds_inserted (reached : (running program).Reaches trace state) :
    (∀ thread, .act thread .fault ∉ trace ∧ ¬(state.object.pc thread).Fails state.object.data) ∧
    (∃ image, (compose keySet.atomic (keySet.programs id program)).Reaches trace image) ∧
    (∀ writer other, (state.object.pc writer).holds = .writing →
      (state.object.pc other).holds ≠ .outside → writer = other) ∧
    (∀ thread call ret next, (running program).step state (some (.act thread (.commit call ret))) next →
      (state.object.pc thread).holds = call.mode ∧ (next.object.pc thread).holds = call.mode) ∧
    (∀ reader key more last next found, state.object.pc reader = .readRoot key →
      (running program).Run state more last → (∀ ret, .act reader (.ret ret) ∉ more) →
      (running program).step last (some (.act reader (.ret (.found found)))) next →
      (found = true ↔ ∃ writer, (writer, .insert key, .inserted) ∈ commits trace) ∧
      ((∃ earlier, (earlier, .search key, .found true) ∈ commits trace) → found = true)) ∧
    (∀ reader key more last, state.object.pc reader = .readRoot key →
      (running program).Run state more last → (running program).Final last →
      ∃ found early late, more = early ++ .act reader (.ret (.found found)) :: late ∧
        (∀ ret, .act reader (.ret ret) ∉ early) ∧
        (found = true ↔ ∃ writer, (writer, .insert key, .inserted) ∈ commits trace)) ∧
    (Finite Thread → ∀ run, run 0 = state → ¬(running program).Endless run) ∧
    (Infinite Addr → (running program).Final state →
      ∀ thread, state.object.pc thread = .outside ∧ state.client thread = []) := by
  obtain ⟨sound, abstractly⟩ := (linearization Thread Addr).reaches (fun _ _ _ _ => trivial) reached
  have history : keySet.History ((commits trace).map Prod.snd) state.object.data.keys :=
    history_of_reaches abstractly
  refine ⟨fun thread => ⟨no_fault_of_reaches abstractly thread, (sound.knows thread).not_fails⟩,
    ⟨_, abstractly⟩, fun _ _ => sound.alone, ?_, ?_, ?_, ?_, ?_⟩
  · intro thread call ret next step
    rcases step with ⟨_, step⟩ | ⟨wrong, _⟩
    · cases step with
      | commit step =>
        cases step with
        | inside moved => simpa only [Function.update_self] using moved.mode rfl
    · cases wrong
  · intro reader key more last next found enters run stays returns
    obtain ⟨_, same, answer⟩ := answer_of_return reached enters run stays returns
    cases same
    constructor
    · rw [answer, mem_keys_of_reaches reached]
    · intro found
      obtain ⟨earlier, member⟩ := found
      exact answer.mpr (mem_of_found history (List.mem_map.mpr ⟨_, member, rfl⟩))
  · intro reader key more last enters run final
    obtain ⟨found, early, late, shape, stays, answer⟩ := search_returns_of_final reached enters run final
    rw [mem_keys_of_reaches reached] at answer
    exact ⟨found, early, late, shape, stays, answer⟩
  · intro finite
    have := Fintype.ofFinite Thread
    exact ((ranking Thread Addr).programs_end (refinement Thread) reached).1
  · intro infinite final
    exact (Guarded.stuck_done lively sound fun thread label next step => final label next (.inl ⟨thread, step⟩)).2

theorem first_insert_completes (thread : Thread) (key : Int) (target : Addr) :
    ∃ memory, (btree Thread Addr).Completes thread (.insert key) .inserted
      ⟨⟨none, fun _ => none⟩, .shared [], fun _ => .outside⟩ ⟨memory, .shared [], fun _ => .outside⟩ := by
  have fresh : (⟨none, fun _ => none⟩ : Memory Addr).heap target = none := rfl
  have written (heap : Addr → Option (Node Addr)) (field : Field) (node : Node Addr) :
      (⟨some target, Function.update heap target (some node)⟩ : Memory Addr).modify target (field.write key) =
        some ⟨some target, Function.update heap target (some (field.write key node))⟩ := by
    simp [Memory.modify]
  have unlocked : (RwLock.exclusive thread).unlock thread = some (.shared []) := if_pos rfl
  have enters : (btree Thread Addr).step ⟨⟨none, fun _ => none⟩, .shared [], fun _ => .outside⟩ thread
      (some (.call (.insert key)))
      (.with (fun _ => .outside) thread ⟨none, fun _ : Addr => none⟩ (.shared []) (.wrlock key)) :=
    Guarded.call_alone (Call.insert key) rfl
  have leaves (memory : Memory Addr) : (btree Thread Addr).step
      (.with (fun _ => .outside) thread memory (.shared []) (.returning .inserted)) thread
      (some (.ret .inserted)) ⟨memory, .shared [], fun _ => .outside⟩ :=
    Guarded.ret_alone Ret.inserted rfl
  exact ⟨_, _, _, _, _, enters,
    .head (Guarded.wrlock_alone Wrlock.insert rfl) (.head (Guarded.inside_alone (.testNull rfl))
      (.head (Guarded.inside_alone (.allocate fresh)) (.head (Guarded.inside_alone (.link rfl))
        (.head (Guarded.inside_alone (.locate rfl)) .refl)))),
    Guarded.inside_alone (.store (written _ _ _)),
    .head (Guarded.inside_alone (.locate rfl)) (.head (Guarded.inside_alone (.store (written _ _ _)))
      (.head (Guarded.inside_alone (.locate rfl)) (.head (Guarded.inside_alone (.store (written _ _ _)))
        (.head (Guarded.unlock_alone Unlock.insert unlocked) .refl)))),
    leaves _⟩

theorem search_begins (thread : Thread) (key : Int) (memory : Memory Addr) :
    (btree Thread Addr).Parks thread (.search key) ⟨memory, .shared [], fun _ => .outside⟩
      (.with (fun _ => .outside) thread memory (.shared [thread]) (.readRoot key)) := by
  have enters : (btree Thread Addr).step ⟨memory, .shared [], fun _ => .outside⟩ thread
      (some (.call (.search key))) (.with (fun _ => .outside) thread memory (.shared []) (.rdlock key)) :=
    Guarded.call_alone (Call.search key) rfl
  exact ⟨_, enters, .head (Guarded.rdlock_alone Rdlock.search rfl) .refl⟩

def writerAndReader : Bool → List Call
  | true => [.insert 7]
  | false => [.search 7]

theorem search_finds_inserted_seven : ∃ trace state more last early late,
    (running writerAndReader).Reaches trace state ∧
    (state : Joint (State Bool Nat) _).object.pc false = .readRoot 7 ∧
    (running writerAndReader).Run state more last ∧
    (running writerAndReader).Final last ∧
    more = early ++ .act false (.ret (.found true)) :: late := by
  obtain ⟨memory, inserts⟩ := first_insert_completes true 7 (0 : Nat)
  have inserted : (running writerAndReader).Run
      ⟨_, writerAndReader⟩ _
      ⟨_, Function.update writerAndReader true []⟩ := inserts.run rfl rfl
  have searching : (running writerAndReader).Run
      ⟨_, Function.update writerAndReader true []⟩ _ ⟨_, _⟩ :=
    (search_begins false 7 memory).run rfl
  have reached : (running writerAndReader).Reaches _ _ :=
    ⟨_, running_start _, inserted.trans searching⟩
  obtain ⟨more, last, run, final⟩ := ((ranking Bool Nat).programs_end (refinement Bool) reached).2
  obtain ⟨_, _, _, _, _, returns, _, _⟩ := search_finds_inserted reached
  obtain ⟨found, early, late, shape, _, answer⟩ := returns false 7 more last rfl run final
  obtain rfl : found = true := answer.mpr ⟨true, by simp [commits, Label.committed]⟩
  exact ⟨_, _, more, last, early, late, reached, rfl, run, final, shape⟩

end CppRt.RwlockTree

import CppRt.ActiveObject.ActiveObject

/-!
The two loggers. Both read the clock and format it when message is called; Logger
prints at once, LoggerAsync sends a task that prints to its active object. What
std::ctime makes of a reading is a parameter. A formatted time without a newline
makes std::string::erase throw, which ends the calling thread's sequence of calls.
-/

namespace CppRt.ActiveObject
open Library Transition Concurrent Family Queue Workers

abbrev Text := List Char

variable {Time : Type*}

/-- time.erase(time.find('\n', 0), 1); `none` is the exception when there is no newline. -/
def eraseNewline (time : Text) : Option Text :=
  (time.findIdx? (· == '\n')).map time.eraseIdx

def printed (time msg : Text) : List Text := [time, " >> ".toList, msg, ['\n']]

def Logger.messages (ctime : Time → Text) : List (Time × Text) → List Text
  | [] => []
  | (now, msg) :: rest => match eraseNewline (ctime now) with
    | none => []
    | some time => printed time msg ++ Logger.messages ctime rest

/-- What a LoggerAsync sends for a sequence of calls: the captured time and message. -/
def LoggerAsync.messages (ctime : Time → Text) : List (Time × Text) → List (Text × Text)
  | [] => []
  | (now, msg) :: rest => match eraseNewline (ctime now) with
    | none => []
    | some time => (time, msg) :: LoggerAsync.messages ctime rest

def loggerAsync (ctime : Time → Text) (calls : List (Time × Text)) :
    System (Active Unit (Text × Text) Text) (Event 1 Unit (Text × Text) Text) :=
  activeObject (fun _ => (LoggerAsync.messages ctime calls).map some)
    fun task => (printed task.1 task.2).map .emit

/-- Printing later what was captured at the call prints what a Logger prints. -/
theorem messages_agree (ctime : Time → Text) (calls : List (Time × Text)) :
    (LoggerAsync.messages ctime calls).flatMap (fun task => printed task.1 task.2) =
      Logger.messages ctime calls := by
  induction calls with
  | nil => rfl
  | cons call rest ih =>
    obtain ⟨now, msg⟩ := call
    unfold LoggerAsync.messages Logger.messages
    cases eraseNewline (ctime now) with
    | none => rfl
    | some time => simp only [List.flatMap_cons, ih]

theorem enqueued_by_sender {Task Output : Type*} {plan : Plan Unit Task Output}
    {trace : List (Event 1 Unit Task Output)} {state : Shift 1 Unit Task Output}
    (reached : (compose fifo.atomic (crew 1 plan)).Reaches trace state)
    (apart : ∀ f task, .submit task ∉ plan.body f) (begun : state.client.owner.begun = true) :
    (enqueued trace).filterMap Prod.snd = (plan.program ()).filterMap id := by
  have sender : ∀ entry ∈ tasks (enqueued trace), entry.1 = .sender () := by
    intro entry member
    obtain ⟨⟨writer, f⟩, pushed, kept⟩ := List.mem_filterMap.mp member
    obtain ⟨task, rfl, rfl⟩ := Option.map_eq_some_iff.mp kept
    cases writer with
    | owner =>
      have own := mem_entries.mpr pushed
      rw [owner_account reached] at own
      cases List.eq_of_mem_replicate own
    | worker index =>
      obtain ⟨_, by_, _, submits⟩ := submissions reached index _ pushed
      exact absurd submits (apart by_ _)
    | sender => rfl
  rw [← tasks_values, ← entries_alone sender, entries_tasks, sent_all reached begun]

variable {Sender Task Output : Type*} [DecidableEq Sender] [Fintype Sender]

/-- The active object runs what it is sent one task at a time in the order of the pushes,
and so a LoggerAsync prints what a Logger prints. -/
theorem serialises (program : Sender → List (Option Task)) (body : Task → List (Act Task Output))
    (ctime : Time → Text) (calls : List (Time × Text)) :
    (∀ trace state, (∀ sender, none ∉ program sender) → (∀ f task, .submit task ∉ body f) →
      (activeObject program body).Reaches trace state →
      (∃ running, (noted Note.started trace).map Prod.snd =
        (noted Note.finished trace).map Prod.snd ++ running ∧ running.length ≤ 1) ∧
      ((noted Note.started trace).map Prod.snd <+: (enqueued trace).filterMap Prod.snd) ∧
      (state.client.owner = .destroyed →
        (noted Note.finished trace).map Prod.snd = (enqueued trace).filterMap Prod.snd ∧
        ∀ sender, entries (.sender sender) (enqueued trace) = program sender)) ∧
    (∀ trace state, (loggerAsync ctime calls).Reaches trace state → state.client.owner = .destroyed →
      (noted Note.emitted trace).map Prod.snd = Logger.messages ctime calls) := by
  constructor
  · intro trace state full apart reached
    have abstractly := atomically reached
    refine ⟨⟨_, one_running abstractly, ?_⟩, started_first abstractly, fun destroyed => ?_⟩
    · unfold Worker.current
      split <;> simp
    · have joined : state.client.owner.joined = true := by rw [destroyed]; rfl
      have begun : state.client.owner.begun = true := by rw [destroyed]; rfl
      exact ⟨finished_all abstractly full apart joined, sent_all abstractly begun⟩
  · intro trace state reached destroyed
    have abstractly := atomically reached
    have joined : state.client.owner.joined = true := by rw [destroyed]; rfl
    have begun : state.client.owner.begun = true := by rw [destroyed]; rfl
    have full : ∀ sender : Unit, none ∉ (LoggerAsync.messages ctime calls).map some := by simp
    have apart (f task : Text × Text) : Act.submit task ∉ (printed f.1 f.2).map Act.emit := by simp
    rw [emitted_all abstractly full apart joined, enqueued_by_sender abstractly apart begun]
    refine Eq.trans ?_ (messages_agree ctime calls)
    change List.flatMap _ (((LoggerAsync.messages ctime calls).map some).filterMap id) = _
    rw [filterMap_some]
    rfl

def handled (f : Text × Text) : List (Event 1 Unit (Text × Text) Text) :=
  alone lone .pop (.popped (some f)) ++ [.note lone (.start f)] ++ (printed f.1 f.2).map (.note lone <| .emit ·) ++
    [.note lone (.finish f)]

def twoTimes : Bool → Text
  | false => ['1', '\n']
  | true => ['2', '\n']

def twoCalls : List (Bool × Text) := [(false, ['a']), (true, ['b'])]

theorem run_handled {unsent : List (Option (Text × Text))} (q : List (Option (Text × Text))) (f : Text × Text) :
    (loggerAsync twoTimes twoCalls).Run
      ⟨ThreadSafeQueue.serving.resting (some f :: q) fun _ => false, solo .constructed .waiting unsent⟩ (handled f)
      ⟨ThreadSafeQueue.serving.resting q fun _ => false, solo .constructed .waiting unsent⟩ := by
  have taken : (loggerAsync twoTimes twoCalls).Run _ _
      ⟨ThreadSafeQueue.serving.resting q fun _ => false, solo .constructed (.got (some f)) unsent⟩ :=
    pop_alone ThreadSafeQueue.serving 0 (some f)
  have starts := taken.trans (worker_alone 0 (.start rfl))
  have first := starts.trans (worker_alone 0 (.emit rfl))
  have second := first.trans (worker_alone 0 (.emit rfl))
  have third := second.trans (worker_alone 0 (.emit rfl))
  have fourth := third.trans (worker_alone 0 (.emit rfl))
  exact fourth.trans (worker_alone 0 (.finish rfl))

def twoMessages : List (Event 1 Unit (Text × Text) Text) :=
  [.note .owner (.launch (Fin.last 0)), .note .owner .control] ++ alone (.sender ()) (.push (some (['1'], ['a']))) .pushed ++
    alone (.sender ()) (.push (some (['2'], ['b']))) .pushed ++ handled (['1'], ['a']) ++ handled (['2'], ['b']) ++
    [.note .owner .begin] ++ alone .owner (.push none) .pushed ++ untilJoined ++ untilDestroyed []

theorem reaches_twoMessages : (loggerAsync twoTimes twoCalls).Reaches twoMessages
    ⟨ThreadSafeQueue.serving.resting [] fun _ => false, solo .destroyed .exited []⟩ := by
  refine ⟨⟨_, solo (.constructing 0) .absent [some (['1'], ['a']), some (['2'], ['b'])]⟩,
    ⟨ThreadSafeQueue.serving.start, rfl⟩, ?_⟩
  have launched : (loggerAsync twoTimes twoCalls).Run ⟨ThreadSafeQueue.serving.resting [] fun _ => false, _⟩ _
      ⟨_, solo .constructed .waiting [some (['1'], ['a']), some (['2'], ['b'])]⟩ := run_launched
  have sends := (launched.trans (send_alone ThreadSafeQueue.serving)).trans (send_alone ThreadSafeQueue.serving)
  have handles := (sends.trans (run_handled _ (['1'], ['a']))).trans (run_handled _ (['2'], ['b']))
  have begins := handles.trans (work_alone (.begin rfl fun _ => rfl))
  have pushes := begins.trans (push_alone _ rfl (.pushed rfl))
  exact (pushes.trans (run_untilJoined _ [])).trans (run_untilDestroyed _)

theorem serialises_two : ∃ trace state, (loggerAsync twoTimes twoCalls).Reaches trace state ∧
    (noted Note.finished trace).map Prod.snd = [(['1'], ['a']), (['2'], ['b'])] ∧
    (noted Note.emitted trace).map Prod.snd =
      [['1'], [' ', '>', '>', ' '], ['a'], ['\n'], ['2'], [' ', '>', '>', ' '], ['b'], ['\n']] := by
  have all := serialises (fun _ : Unit => [some (['1'], ['a']), some (['2'], ['b'])])
    (fun task => (printed task.1 task.2).map .emit) twoTimes twoCalls
  exact ⟨_, _, reaches_twoMessages,
    ((all.1 _ _ (by simp) (by simp) reaches_twoMessages).2.2 rfl).1, all.2 _ _ reaches_twoMessages rfl⟩

end CppRt.ActiveObject

import CppRt.UnixStreamServer.Progress

/-!
What the server and its clients do in every run: the services come one after the other, each
for a client of its own; only a client that dies, or whose read fails, before it is written to
kills the server; a client prints the message or, when its read has returned less than the whole
of it, an unset part of its buffer; and once a server has ended no other is reached.
-/

namespace CppRt.UnixStreamServer
open Library Transition

variable {Client : Type*}

def service (client : Client) (count : Nat) : List (Event Client) :=
  [.accepted client, .wrote client count, .closed client]

def Event.serves : Event Client → Bool
  | .accepted _ | .wrote _ _ | .closed _ => true
  | _ => false

/-- A service that has come to no more than the accept, of a client that has quit. -/
def Broken (trace begun : List (Event Client)) : Prop := ∃ client, begun = [.accepted client] ∧ Quits trace client

def Begun (trace : List (Event Client)) : Server Client → List (Event Client) → Prop
  | .writing client, begun => begun = [.accepted client]
  | .closing client, begun => ∃ count, begun = [.accepted client, .wrote client count]
  | .listen, begun | .accepting, begun => begun = []
  | .killed, begun => Broken trace begun
  | .socket, begun | .bind, begun | .exited, begun => begun = [] ∨ Broken trace begun

/-- What kills the server is to write to a client that has quit. -/
def Kills (before : List (Event Client)) (event : Event Client) : Prop :=
  event = .killed → ∃ client, (before.filter Event.serves).getLast? = some (.accepted client) ∧ Quits before client

def Shows (before : List (Event Client)) (event : Event Client) : Prop :=
  ∀ client text, event = .shown client text → ∃ buf, .read client buf ∈ before ∧ buf <+: msg ∧ buf ≠ [] ∧
    text = if buf = msg then some msg.dropLast else none

def Server.bound : Server Client → Bool
  | .listen | .accepting | .writing _ | .closing _ => true
  | .socket | .bind | .exited | .killed => false

def Event.reaches : Event Client → Bool
  | .bound | .listening | .accepted _ | .wrote _ _ | .connected _ => true
  | _ => false

theorem string_part {buf : Bytes} (part : buf <+: msg) : string buf = if buf = msg then some msg.dropLast else none := by
  have each : ∀ length ≤ 5, string (msg.take length) =
      if msg.take length = msg then some msg.dropLast else none := by decide
  have this := each buf.length part.length_le
  rwa [← List.prefix_iff_eq_take.mp part] at this

section Runs
variable [DecidableEq Client] {backlog : Nat} {file : Bool} {trace : List (Event Client)} {state next : State Client}

structure Shown (trace : List (Event Client)) (state : State Client) : Prop where
  read : ∀ client buf, state.client client = .showing buf → .read client buf ∈ trace
  shows : Throughout Shows trace

theorem Shown.step (shown : Shown trace state) (sound : Sound trace state) {label : Option (Event Client)}
    (step : Step backlog state label next) : Shown (trace ++ label.toList) next := by
  have stays {label : Event Client} (same : ∀ client buf, next.client client = .showing buf →
      state.client client = .showing buf ∨ label = .read client buf)
      (other : ∀ client text, label ≠ .shown client text) : Shown (trace ++ [label]) next := by
    refine ⟨fun client buf here => ?_, ?_⟩
    · cases same client buf here with
      | inl before => exact List.mem_append_left _ (shown.read client buf before)
      | inr now =>
        rw [now]
        exact List.mem_append_right _ (List.mem_singleton.mpr rfl)
    · rw [throughout_snoc]
      exact ⟨shown.shows, fun client text wrong => absurd wrong (other client text)⟩
  have moves {client : Client} {at_ : ClientAt} {other : Client} {buf : Bytes} (apart : ∀ buf, at_ ≠ .showing buf)
      (here : Function.update state.client client at_ other = .showing buf) : state.client other = .showing buf := by
    by_cases same : other = client
    · subst same
      rw [Function.update_self] at here
      exact absurd here (apart buf)
    · rwa [Function.update_of_ne same] at here
  cases step with
  | socket | bind | listen | accept | write | sigpipe | close | socketError | bindError | listenError | acceptError
  | restart => exact stays (fun _ _ here => .inl here) fun _ _ wrong => by cases wrong
  | connect | refuse | readError | readFails | leave | die =>
    exact stays (fun _ _ here => .inl (moves (fun _ wrong => by cases wrong) here)) fun _ _ wrong => by cases wrong
  | @read client buf rest here some_ fits taken =>
    apply stays _ fun _ _ wrong => by cases wrong
    intro other shown here
    by_cases same : other = client
    · subst same
      have now : ClientAt.showing buf = .showing shown := (Function.update_self _ _ _).symm.trans here
      cases now
      exact .inr rfl
    · exact .inl ((Function.update_of_ne same _ _).symm.trans here)
  | @show_ client buf here =>
    obtain ⟨part, some_⟩ : buf <+: msg ∧ buf ≠ [] := by
      have told := sound.told client
      rwa [here] at told
    refine ⟨fun other buf there => ?_, ?_⟩
    · exact List.mem_append_left _ (shown.read other buf (moves (fun _ wrong => by cases wrong) there))
    · show Throughout Shows (trace ++ [_])
      rw [throughout_snoc]
      refine ⟨shown.shows, ?_⟩
      rintro _ _ ⟨⟩
      exact ⟨buf, shown.read client buf here, part, some_, string_part part⟩

theorem Step.file_stays {label : Option (Event Client)} (step : Step backlog state label next)
    (there : state.file = true) : next.file = true := by
  cases step with
  | bind => rfl
  | socket | listen | accept | write | sigpipe | close | socketError | bindError | listenError | acceptError | restart
  | connect | refuse | read | readError | readFails | show_ | leave | die => exact there

theorem file_of_bound (reached : (main backlog file).Reaches trace state) : .bound ∈ trace → state.file = true := by
  refine reached.invariant (fun trace state => .bound ∈ trace → state.file = true) ?_ ?_
  · exact fun _ _ wrong => by cases wrong
  · intro trace state label next _ there step member
    cases List.mem_append.mp member with
    | inl before => exact step.file_stays (there before)
    | inr now =>
      rw [Option.mem_toList] at now
      cases now
      cases step
      rfl

theorem file_of_accepted (reached : (main backlog file).Reaches trace state) :
    (state.server.bound = true → state.file = true) ∧ ∀ client, .accepted client ∈ trace → state.file = true := by
  refine reached.invariant (fun trace state => (state.server.bound = true → state.file = true) ∧
    ∀ client, .accepted client ∈ trace → state.file = true) ?_ ?_
  · rintro _ rfl
    exact ⟨(fun wrong => by cases wrong), fun _ wrong => by cases wrong⟩
  · rintro trace state label next - ⟨bound, accepted⟩ step
    have before (client : Client) (member : .accepted client ∈ trace) : next.file = true :=
      step.file_stays (accepted client member)
    cases step with
    | socket | socketError | bindError | listenError | acceptError | restart | sigpipe =>
      refine ⟨(fun wrong => by cases wrong), fun client member => before client ?_⟩
      simpa using member
    | bind => exact ⟨fun _ => rfl, fun _ _ => rfl⟩
    | listen here | accept here | write here | close here =>
      have there := bound (by rw [here]; rfl)
      exact ⟨fun _ => there, fun _ _ => there⟩
    | connect | refuse | read | readError | readFails | show_ | leave | die =>
      refine ⟨bound, fun client member => before client ?_⟩
      simpa using member

def Serving (trace : List (Event Client)) (server : Server Client) : Prop :=
  ∃ (done : List (Client × Nat)) (begun : List (Event Client)),
    trace.filter Event.serves = done.flatMap (fun served => service served.1 served.2) ++ begun ∧ Begun trace server begun

omit [DecidableEq Client] in
theorem Broken.stays {begun : List (Event Client)} {event : Event Client} (broken : Broken trace begun) :
    Broken (trace ++ [event]) begun := by
  obtain ⟨client, only, quits⟩ := broken
  exact ⟨client, only, quits.stays⟩

omit [DecidableEq Client] in
theorem Begun.stays {begun : List (Event Client)} {event : Event Client} {server : Server Client}
    (now : Begun trace server begun) : Begun (trace ++ [event]) server begun := by
  cases server with
  | writing | closing | listen | accepting => exact now
  | killed => exact Broken.stays now
  | socket | bind | exited => exact now.imp_right Broken.stays

omit [DecidableEq Client] in
theorem Serving.aside {event : Event Client} {before after : Server Client} (serving : Serving trace before)
    (other : event.serves = false) (goes : ∀ begun, (∀ event ∈ begun, event ∈ trace) → Begun trace before begun →
      Begun trace after begun) : Serving (trace ++ [event]) after := by
  obtain ⟨done, begun, order, now⟩ := serving
  have within : ∀ event ∈ begun, event ∈ trace := by
    intro event member
    have shown : event ∈ trace.filter Event.serves := by
      rw [order]
      exact List.mem_append_right _ member
    exact (List.mem_filter.mp shown).1
  refine ⟨done, begun, ?_, (goes begun within now).stays⟩
  rw [List.filter_append, order, List.filter_singleton, other]
  exact List.append_nil _

omit [DecidableEq Client] in
theorem Sound.quits_of_left (sound : Sound trace state) {client : Client} (here : state.server = .writing client)
    (left : (state.client client).left = true) : Quits trace client := by
  refine sound.quits (fun reads => ?_) (.inr here)
  rw [reads] at left
  cases left

theorem Serving.step (serving : Serving trace state.server) (sound : Sound trace state)
    (there : ∀ client, .accepted client ∈ trace → state.file = true) {label : Option (Event Client)}
    (step : Step backlog state label next) : Serving (trace ++ label.toList) next.server := by
  cases step with
  | socket here | listen here | socketError here | bindError here =>
    rw [here] at serving
    exact serving.aside rfl fun _ _ begun => begun
  | listenError here | acceptError here =>
    rw [here] at serving
    exact serving.aside rfl fun _ _ begun => .inl begun
  | bind here free =>
    rw [here] at serving
    refine serving.aside rfl fun begun within now => now.resolve_right ?_
    rintro ⟨client, rfl, -⟩
    cases free.symm.trans (there client (within _ (List.mem_singleton.mpr rfl)))
  | restart ended =>
    cases ended with
    | inl here =>
      rw [here] at serving
      exact serving.aside rfl fun _ _ begun => begun
    | inr here =>
      rw [here] at serving
      exact serving.aside rfl fun _ _ begun => .inr begun
  | @accept client rest here waiting =>
    rw [here] at serving
    obtain ⟨done, begun, order, now⟩ := serving
    obtain rfl : begun = [] := now
    refine ⟨done, [.accepted client], ?_, rfl⟩
    rw [Option.toList_some, List.filter_append, order, List.append_nil]
    rfl
  | @write client count here some_ open_ =>
    rw [here] at serving
    obtain ⟨done, begun, order, now⟩ := serving
    obtain rfl : begun = [.accepted client] := now
    refine ⟨done, [.accepted client, .wrote client count], ?_, count, rfl⟩
    rw [Option.toList_some, List.filter_append, order, List.append_assoc]
    rfl
  | @sigpipe client here left =>
    rw [here] at serving
    exact serving.aside rfl fun begun _ now => ⟨client, now, sound.quits_of_left here left⟩
  | @close client here =>
    rw [here] at serving
    obtain ⟨done, begun, order, count, now⟩ := serving
    refine ⟨done ++ [(client, count)], [], ?_, rfl⟩
    rw [Option.toList_some, List.filter_append, order, now, List.append_assoc, List.flatMap_append, List.append_nil]
    rfl
  | connect | refuse | read | readError | readFails | show_ | leave | die =>
    exact serving.aside rfl fun _ _ begun => begun

theorem serving_of_reaches (reached : (main backlog file).Reaches trace state) : Serving trace state.server := by
  refine reached.invariant (fun trace state => Serving trace state.server) ?_ ?_
  · rintro _ rfl
    exact ⟨[], [], rfl, .inl rfl⟩
  · exact fun _ _ _ _ reached serving step => serving.step (sound_of_reaches reached) (file_of_accepted reached).2 step

theorem Step.kills {event : Event Client} (sound : Sound trace state) (serving : Serving trace state.server)
    (step : Step backlog state (some event) next) : Kills trace event := by
  rintro rfl
  cases step with
  | @sigpipe client here left =>
    rw [here] at serving
    obtain ⟨done, begun, order, now⟩ := serving
    obtain rfl : begun = [.accepted client] := now
    refine ⟨client, ?_, sound.quits_of_left here left⟩
    rw [order, List.getLast?_append]
    rfl

theorem Step.lost {label : Option (Event Client)} (step : Step backlog state label next) (there : state.file = true)
    (unbound : state.server.bound = false) :
    next.server.bound = false ∧ ∀ event ∈ label.toList, event.reaches = false := by
  have past {server : Server Client} (here : state.server = server) (bound : server.bound = true) : False := by
    rw [here] at unbound
    cases unbound.symm.trans bound
  cases step with
  | socket here | socketError here | bindError here | restart here =>
    exact ⟨rfl, by simp [Event.reaches]⟩
  | bind here free => cases there.symm.trans free
  | listen here | accept here | write here | sigpipe here | close here | listenError here | acceptError here =>
    exact (past here rfl).elim
  | connect here listens room =>
    cases at_ : state.server with
    | accepting | writing | closing => exact (past at_ rfl).elim
    | socket | bind | listen | exited | killed =>
      rw [at_] at listens
      cases listens
  | refuse | read | readError | readFails | show_ | leave | die => exact ⟨unbound, by simp [Event.reaches]⟩

theorem run_lost {more : List (Event Client)} {last : State Client} (there : state.file = true)
    (unbound : state.server.bound = false) (run : (main backlog file).Run state more last) :
    ∀ event ∈ more, event.reaches = false := by
  have kept : last.file = true ∧ last.server.bound = false ∧ ∀ event ∈ more, event.reaches = false := by
    refine run.invariant (fun more last => last.file = true ∧ last.server.bound = false ∧
      ∀ event ∈ more, event.reaches = false) ⟨there, unbound, fun _ wrong => by cases wrong⟩ ?_
    intro more last label next _ kept step
    obtain ⟨there, unbound, none_⟩ := kept
    obtain ⟨still, now⟩ := Step.lost step there unbound
    refine ⟨Step.file_stays step there, still, fun event member => ?_⟩
    cases List.mem_append.mp member with
    | inl before => exact none_ event before
    | inr last => exact now event last
  exact kept.2.2

/-- Whatever the order of the steps, the calls that fail and the clients that die: a client kills the
server only when it dies or its read fails before it is written to; each client is accepted once,
and the services come one after the other; a client prints the message if it has read the whole of
it, and else what its buffer held before; and once a server that bound the path has ended, no server
started later binds it and no client connects. -/
theorem clients_served (reached : (main backlog file).Reaches trace state) :
    Throughout Kills trace ∧ (taken trace).Nodup ∧ Serving trace state.server ∧ Throughout Shows trace ∧
      (.bound ∈ trace → state.server.bound = false → ∀ more last, (main backlog file).Run state more last →
        ∀ event ∈ more, event.reaches = false) := by
  have sound := sound_of_reaches reached
  refine ⟨?_, (List.nodup_append.mp sound.distinct).1, serving_of_reaches reached, ?_, ?_⟩
  · refine reached.throughout fun _ _ _ _ reached step => ?_
    exact Step.kills (sound_of_reaches reached) (serving_of_reaches reached) step
  · have shown : Shown trace state := by
      refine reached.invariant Shown ?_ ?_
      · rintro _ rfl
        exact ⟨(fun _ _ wrong => by cases wrong), throughout_nil⟩
      · exact fun _ _ _ _ reached shown step => shown.step (sound_of_reaches reached) step
    exact shown.shows
  · exact fun bound unbound more last run => run_lost (file_of_bound reached bound) unbound run

/-- Two clients connect; the first dies when it is accepted, and the second is reset. -/
theorem clients_served_died : ∃ trace state, (main 5 false).Reaches trace state ∧ .died false ∈ trace ∧
    state.server = .killed ∧ (state.connection true).ended = true ∧ Throughout Kills trace ∧ Serving trace state.server := by
  have begins : (main 5 false).Reaches [] (⟨.socket, false, [], fun _ => .connecting, fun _ => ⟨[], false⟩⟩ : State Bool) :=
    .first rfl
  have opens := begins.tail (Step.socket rfl)
  have listens := (opens.tail (Step.bind rfl rfl)).tail (Step.listen rfl)
  have connects := (listens.tail (@Step.connect Bool _ _ _ false rfl rfl (by decide))).tail
    (@Step.connect Bool _ _ _ true rfl rfl (by decide))
  have dies := (connects.tail (Step.accept rfl rfl)).tail (@Step.die _ _ _ _ false rfl)
  have reached := dies.tail (Step.sigpipe rfl rfl)
  obtain ⟨kills, _, serving, _⟩ := clients_served reached
  exact ⟨_, _, reached, by simp, rfl, rfl, kills, serving⟩

end Runs

end CppRt.UnixStreamServer

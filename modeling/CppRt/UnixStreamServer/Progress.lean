import CppRt.Library.Family
import CppRt.UnixStreamServer.Main

/-!
The server and its clients while nobody dies and no call fails but for the bind to a path that an
earlier run has left, a connect where nobody listens and a read where the server's end is closed:
a write takes the whole message, and a read all that is there. Then nobody waits for ever, and who
connects gets the message.
-/

namespace CppRt.UnixStreamServer
open Library Transition

variable {Client : Type*}

def Admits (state : State Client) : Option (Event Client) → State Client → Prop
  | some (.wrote _ count), _ => count = msg.length
  | some (.read client buf), _ => buf = (state.connection client).stream
  | some (.exited _), _ => state.server = .bind ∧ state.file = true
  | some .restarted, _ | some (.readFailed _), _ | some (.died _), _ => False
  | some (.refused _), _ => state.server.listens = false
  | _, _ => True

def unfailing [DecidableEq Client] (backlog : Nat) (file : Bool) : System (State Client) (Event Client) :=
  (main backlog file).restricted Admits

/-- What a client has seen, by where it is. -/
def Seen (trace : List (Event Client)) (client : Client) : ClientAt → Prop
  | .connecting => .connected client ∉ trace
  | .reading connected => .connected client ∈ trace ↔ connected = true
  | .showing buf => .connected client ∈ trace ∧ buf = msg
  | .closing status | .exited status =>
    .connected client ∈ trace ∧ .shown client (some msg.dropLast) ∈ trace ∧ status = 0 ∨
      .connected client ∉ trace ∧ status = 1
  | .killed => False

structure Fine (trace : List (Event Client)) (state : State Client) : Prop where
  seen : ∀ client, Seen trace client (state.client client)
  written : ∀ client, state.client client = .reading true →
    state.server = .closing client ∨ (state.connection client).ended = true → (state.connection client).stream = msg

section Runs
variable [DecidableEq Client] {backlog : Nat} {file : Bool} {trace : List (Event Client)} {state next : State Client}
variable {client : Client} {event : Event Client} {at_ : ClientAt}

theorem string_msg : string msg = some msg.dropLast := by decide

omit [DecidableEq Client] in
theorem mem_connected (other : event ≠ .connected client) :
    .connected client ∈ trace ++ [event] ↔ .connected client ∈ trace := by
  rw [List.mem_append, List.mem_singleton]
  exact ⟨fun either => either.resolve_right fun wrong => other wrong.symm, .inl⟩

omit [DecidableEq Client] in
theorem Seen.stays (seen : Seen trace client at_) (other : event ≠ .connected client) :
    Seen (trace ++ [event]) client at_ := by
  have same : .connected client ∈ trace ++ [event] ↔ .connected client ∈ trace := mem_connected other
  cases at_ with
  | connecting => exact fun wrong => seen (same.mp wrong)
  | reading connected => exact same.trans seen
  | showing buf => exact ⟨same.mpr seen.1, seen.2⟩
  | closing status | exited status =>
    cases seen with
    | inl served => exact .inl ⟨same.mpr served.1, List.mem_append_left _ served.2.1, served.2.2⟩
    | inr refused => exact .inr ⟨fun wrong => refused.1 (same.mp wrong), refused.2⟩
  | killed => exact seen

omit [DecidableEq Client] in
theorem Fine.stays (fine : Fine trace state) (other : ∀ client, event ≠ .connected client)
    (same : next.client = state.client) (written : ∀ client, state.client client = .reading true →
      next.server = .closing client ∨ (next.connection client).ended = true → (next.connection client).stream = msg) :
    Fine (trace ++ [event]) next := by
  refine ⟨fun client => ?_, fun client reads => ?_⟩
  · rw [same]
    exact (fine.seen client).stays (other client)
  · rw [same] at reads
    exact written client reads

theorem Fine.attend (fine : Fine trace state) {server : Server Client} {connection : Connection}
    (other : ∀ client, event ≠ .connected client) (own : state.client client = .reading true → connection.stream = msg)
    (idle : ∀ different, different ≠ client → server ≠ .closing different) :
    Fine (trace ++ [event]) ({ state with server }.connect client connection) := by
  refine fine.stays other rfl fun different reads either => ?_
  by_cases same : different = client
  · subst same
    have here : ({ state with server }.connect different connection).connection different = connection :=
      Function.update_self _ _ _
    rw [here]
    exact own reads
  · have kept : ({ state with server }.connect client connection).connection different = state.connection different :=
      Function.update_of_ne same _ _
    rw [kept] at either ⊢
    exact fine.written different reads (.inr (either.resolve_left (idle different same)))

theorem Fine.go (fine : Fine trace state) {connection : Connection} (other : ∀ client, event ≠ .connected client)
    (seen : Seen (trace ++ [event]) client at_) (unread : at_ ≠ .reading true) :
    Fine (trace ++ [event]) ((state.connect client connection).move client at_) := by
  have elsewhere {different : Client} (apart : different ≠ client) :
      ((state.connect client connection).move client at_).client different = state.client different ∧
        ((state.connect client connection).move client at_).connection different = state.connection different :=
    ⟨Function.update_of_ne apart _ _, Function.update_of_ne apart _ _⟩
  have own : ((state.connect client connection).move client at_).client client = at_ := Function.update_self _ _ _
  refine ⟨fun different => ?_, fun different reads => ?_⟩
  · by_cases same : different = client
    · subst same
      rwa [own]
    · rw [(elsewhere same).1]
      exact (fine.seen different).stays (other different)
  · by_cases same : different = client
    · subst same
      rw [own] at reads
      exact absurd reads unread
    · rw [(elsewhere same).1] at reads
      rw [(elsewhere same).2]
      exact fine.written different reads

theorem Fine.move (fine : Fine trace state) (other : ∀ client, event ≠ .connected client)
    (seen : Seen (trace ++ [event]) client at_) (unread : at_ ≠ .reading true) :
    Fine (trace ++ [event]) (state.move client at_) := by
  have goes : Fine (trace ++ [event]) ((state.connect client (state.connection client)).move client at_) :=
    fine.go other seen unread
  rwa [State.connect, Function.update_eq_self] at goes

theorem Fine.connect (fine : Fine trace state) (sound : Sound trace state) (here : state.client client = .connecting) :
    Fine (trace ++ [.connected client]) ({ state with pending := state.pending ++ [client] }.move client (.reading true)) := by
  have elsewhere {different : Client} (apart : different ≠ client) :
      ({ state with pending := state.pending ++ [client] }.move client (.reading true)).client different =
        state.client different := Function.update_of_ne apart _ _
  have own : ({ state with pending := state.pending ++ [client] }.move client (.reading true)).client client =
      .reading true := Function.update_self _ _ _
  refine ⟨fun different => ?_, fun different reads written => ?_⟩
  · by_cases same : different = client
    · subst same
      rw [own]
      exact ⟨fun _ => rfl, fun _ => List.mem_append_right _ (List.mem_singleton.mpr rfl)⟩
    · rw [elsewhere same]
      apply (fine.seen different).stays
      rintro ⟨⟩
      exact same rfl
  · by_cases same : different = client
    · subst same
      have fresh : state.connection different = ⟨[], false⟩ := by
        have told := sound.told different
        rwa [here] at told
      cases written with
      | inl closes =>
        have closes : state.server = .closing different := closes
        exact absurd here (sound.met different (List.mem_append_left _ (sound.attended different (by rw [closes]; rfl))))
      | inr ended =>
        have ended : (state.connection different).ended = true := ended
        rw [fresh] at ended
        cases ended
    · rw [elsewhere same] at reads
      exact fine.written different reads written

omit [DecidableEq Client] in
theorem Fine.stream (fine : Fine trace state) (sound : Sound trace state) (here : state.client client = .reading true)
    (some_ : (state.connection client).stream ≠ [] ∨ (state.connection client).ended = true) :
    (state.connection client).stream = msg := by
  rcases sound.heard client here with waits | written
  · rw [sound.unwritten client waits] at some_
    cases some_ with
    | inl wrong => exact absurd rfl wrong
    | inr wrong => cases wrong
  · exact fine.written client here written

theorem Fine.step (fine : Fine trace state) (sound : Sound trace state) (nobody : ∀ client, ¬Quits trace client)
    {label : Option (Event Client)} (admits : Admits state label next) (step : Step backlog state label next) : Fine (trace ++ label.toList) next := by
  have ended {server : Server Client} (client : Client) (reads : state.client client = .reading true)
      (either : server = .closing client ∨ (state.connection client).ended = true) (idle : server ≠ .closing client) :
      (state.connection client).stream = msg :=
    fine.written client reads (.inr (either.resolve_left idle))
  cases step with
  | socket here | bind here | listen here | accept here =>
    exact fine.stays (fun _ wrong => by cases wrong) rfl fun client reads either =>
      ended client reads either fun wrong => by cases wrong
  | @write client count here some_ open_ =>
    obtain rfl : count = msg.length := admits
    have fresh := sound.unwritten client (.inr here)
    refine fine.attend (fun _ wrong => by cases wrong) (fun _ => ?_) fun different apart closes => ?_
    · rw [fresh]
      rfl
    · exact apart (Server.closing.inj closes).symm
  | @sigpipe client here left =>
    rw [(sound.waits client (.inr here)).resolve_right (nobody client)] at left
    cases left
  | @close client here =>
    refine fine.attend (fun _ wrong => by cases wrong) (fun reads => ?_) fun _ _ wrong => by cases wrong
    exact fine.written client reads (.inl here)
  | socketError here | listenError here | acceptError here => cases here.symm.trans admits.1
  | bindError here =>
    have empty := sound.up (by rw [here]; rfl)
    have same : (state.gone .exited).connection = state.connection := by
      funext client
      refine if_neg ?_
      rw [empty, here]
      rintro (wrong | wrong)
      · cases wrong
      · cases wrong
    refine fine.stays (fun _ wrong => by cases wrong) rfl ?_
    rw [same]
    exact fun client reads either => ended client reads either fun wrong => by cases wrong
  | restart | readFails | die => exact admits.elim
  | connect here listens room => exact fine.connect sound here
  | @refuse client here =>
    have unconnected := fine.seen client
    rw [here] at unconnected
    refine fine.move (fun _ wrong => by cases wrong) ?_ fun wrong => by cases wrong
    refine ⟨fun member => ?_, fun wrong => by cases wrong⟩
    exact absurd ((mem_connected fun wrong => by cases wrong).mp member) unconnected
  | @read client buf rest here some_ fits taken =>
    obtain rfl : buf = (state.connection client).stream := admits
    have whole := fine.stream sound here (.inl some_)
    have seen := fine.seen client
    rw [here] at seen
    exact fine.go (fun _ wrong => by cases wrong) ⟨List.mem_append_left _ (seen.mpr rfl), whole⟩ fun wrong => by cases wrong
  | @readError client connected num_read here less nothing =>
    have seen := fine.seen client
    rw [here] at seen
    cases connected with
    | true =>
      obtain ⟨empty, closed⟩ := nothing rfl
      cases empty.symm.trans (fine.stream sound here (.inr closed))
    | false =>
      refine fine.move (fun _ wrong => by cases wrong) (.inr ⟨fun member => ?_, rfl⟩) fun wrong => by cases wrong
      cases seen.mp ((mem_connected fun wrong => by cases wrong).mp member)
  | @show_ client buf here =>
    have seen := fine.seen client
    rw [here] at seen
    obtain ⟨connected, rfl⟩ := seen
    refine fine.move (fun _ wrong => by cases wrong) ?_ fun wrong => by cases wrong
    rw [string_msg]
    exact .inl ⟨List.mem_append_left _ connected, List.mem_append_right _ (List.mem_singleton.mpr rfl), rfl⟩
  | @leave client status here =>
    have seen := fine.seen client
    rw [here] at seen
    have still : Seen (trace ++ [.left client status]) client (.closing status) := seen.stays fun wrong => by cases wrong
    exact fine.move (fun _ wrong => by cases wrong) still fun wrong => by cases wrong

theorem nobody_quits (reached : (unfailing backlog file).Reaches trace state) (client : Client) : ¬Quits trace client := by
  refine reached.invariant (fun trace _ => ¬Quits trace client) (fun _ _ => ?_) ?_
  · rintro (wrong | wrong)
    · cases wrong
    · cases wrong
  · intro trace state label next _ nobody step quits
    have now (event : Event Client) (last : event ∈ trace ++ label.toList) (before : event ∉ trace) : label = some event :=
      Option.mem_toList.mp ((List.mem_append.mp last).resolve_left before)
    obtain ⟨admits, -⟩ := step
    cases quits with
    | inl died =>
      rw [now _ died fun before => nobody (.inl before)] at admits
      exact admits
    | inr failed =>
      rw [now _ failed fun before => nobody (.inr before)] at admits
      exact admits

theorem both_of_reaches (reached : (unfailing backlog file).Reaches trace state) : Sound trace state ∧ Fine trace state := by
  have sound {trace : List (Event Client)} {state : State Client} (reached : (unfailing backlog file).Reaches trace state) :
      Sound trace state := sound_of_reaches reached.of_restricted
  refine ⟨sound reached, reached.invariant Fine ?_ ?_⟩
  · rintro _ rfl
    exact ⟨(fun _ wrong => by cases wrong), fun _ wrong => by cases wrong⟩
  · exact fun _ _ _ _ reached fine step => fine.step (sound reached) (nobody_quits reached) step.1 step.2

theorem server_of_final (reached : (unfailing backlog file).Reaches trace state) (final : (unfailing backlog file).Final state) :
    state.server.attends = none ∧ state.pending = [] := by
  have sound := (both_of_reaches reached).1
  have stuck {label : Option (Event Client)} {next : State Client} (step : Step backlog state label next)
      (admits : Admits state label next) : False := final label next ⟨admits, step⟩
  cases here : state.server with
  | socket => exact (stuck (.socket here) trivial).elim
  | bind =>
    cases there : state.file with
    | true => exact (stuck (.bindError here) ⟨here, there⟩).elim
    | false => exact (stuck (.bind here there) trivial).elim
  | listen => exact (stuck (.listen here) trivial).elim
  | accepting =>
    cases waiting : state.pending with
    | nil => exact ⟨rfl, rfl⟩
    | cons client rest => exact (stuck (.accept here waiting) trivial).elim
  | writing client =>
    have open_ : (state.client client).left = false := by
      rw [(sound.waits client (.inr here)).resolve_right (nobody_quits reached client)]
      rfl
    exact (stuck (.write here (Nat.le_refl _) open_) rfl).elim
  | closing client => exact (stuck (.close here) trivial).elim
  | exited => exact ⟨rfl, sound.up (by rw [here]; rfl)⟩
  | killed => exact ⟨rfl, sound.up (by rw [here]; rfl)⟩

theorem client_of_final (reached : (unfailing backlog file).Reaches trace state)
    (final : (unfailing backlog file).Final state) (room : 0 < backlog) (client : Client) :
    ∃ status, state.client client = .exited status := by
  have stuck {label : Option (Event Client)} {next : State Client} (step : Step backlog state label next)
      (admits : Admits state label next) : False := final label next ⟨admits, step⟩
  obtain ⟨sound, fine⟩ := both_of_reaches reached
  obtain ⟨idle, empty⟩ := server_of_final reached final
  cases here : state.client client with
  | connecting =>
    cases listens : state.server.listens with
    | true => exact (stuck (.connect here listens (by rwa [empty])) trivial).elim
    | false => exact (stuck (.refuse here) listens).elim
  | reading connected =>
    cases connected with
    | true =>
      rcases sound.heard client here with (member | writes) | closes | ended
      · rw [empty] at member
        cases member
      · exact absurd writes (not_writing idle)
      · exact absurd closes (not_closing idle)
      · have whole := fine.stream sound here (.inr ended)
        have some_ : (state.connection client).stream ≠ [] := by
          rw [whole]
          decide
        have fits : (state.connection client).stream.length ≤ bufSize := by
          rw [whole]
          decide
        exact (stuck (.read here some_ fits (List.append_nil _).symm) rfl).elim
    | false =>
      have fails : Step backlog state (some (.readError client (-1))) (state.move client (.closing 1)) :=
        .readError here (by decide) fun wrong => by cases wrong
      exact (stuck fails trivial).elim
  | showing buf => exact (stuck (.show_ here) trivial).elim
  | closing status => exact (stuck (.leave here) trivial).elim
  | exited status => exact ⟨status, rfl⟩
  | killed =>
    have seen := fine.seen client
    rw [here] at seen
    exact seen.elim

def Server.rank : Server Client → Nat
  | .socket => 3
  | .bind | .writing _ => 2
  | .listen | .closing _ => 1
  | .accepting | .exited | .killed => 0

def ClientAt.rank : ClientAt → Nat
  | .connecting => 7
  | .reading _ => 3
  | .showing _ => 2
  | .closing _ => 1
  | .exited _ | .killed => 0

def State.rank [Fintype Client] (state : State Client) : Nat :=
  state.server.rank + 3 * state.pending.length + ∑ client, (state.client client).rank

theorem step_lowers [Fintype Client] {label : Option (Event Client)} (admits : Admits state label next)
    (step : Step backlog state label next) : next.rank < state.rank := by
  have moves (client : Client) (at_ : ClientAt) := Family.sum_update ClientAt.rank state.client client at_
  have goes {client : Client} {before after : ClientAt} (here : state.client client = before)
      (lower : after.rank < before.rank) : (state.move client after).rank < state.rank := by
    have moved := moves client after
    rw [here] at moved
    simp only [State.rank, State.move]
    omega
  cases step with
  | socket here | bind here | listen here | write here | close here | bindError here =>
    simp only [State.rank, State.connect, State.gone, here, Server.rank, List.length_nil]
    omega
  | sigpipe here =>
    simp only [State.rank, State.gone, here, Server.rank, List.length_nil]
    omega
  | socketError here | listenError here | acceptError here => cases here.symm.trans admits.1
  | accept here waiting =>
    simp only [State.rank, here, waiting, Server.rank, List.length_cons]
    omega
  | restart | readFails | die => exact admits.elim
  | @connect client here listens room =>
    have moved := moves client (.reading true)
    rw [here] at moved
    simp only [ClientAt.rank] at moved
    simp only [State.rank, State.move, List.length_append, List.length_singleton, ClientAt.rank]
    omega
  | refuse here => exact goes here (show 3 < 7 by decide)
  | read here => exact goes here (Nat.lt_succ_self 2)
  | readError here => exact goes here (show 1 < 3 by decide)
  | show_ here => exact goes here (Nat.lt_succ_self 1)
  | leave here => exact goes here (Nat.lt_succ_self 0)

theorem ends [Fintype Client] (reached : (unfailing backlog file).Reaches trace state) :
    ∃ more last, (unfailing backlog file).Run state more last ∧ (unfailing backlog file).Reaches (trace ++ more) last ∧
      (unfailing backlog file).Final last := by
  apply reached.ends State.rank
  intro _ _ _ _ _ step
  exact step_lowers step.1 step.2

/-- Whatever the order of the steps: the server and its clients come to where nothing goes on; and
there nobody waits to be accepted, who has connected has printed the message and left with 0,
and who has found nobody listening has left with 1. -/
theorem everyone_leaves [Fintype Client] (room : 0 < backlog) (reached : (unfailing backlog file).Reaches trace state) :
    (∃ more last, (unfailing backlog file).Run state more last ∧ (unfailing backlog file).Final last) ∧
      ((unfailing backlog file).Final state → state.pending = [] ∧ ∀ client,
        .connected client ∈ trace ∧ .shown client (some msg.dropLast) ∈ trace ∧ state.client client = .exited 0 ∨
          .connected client ∉ trace ∧ state.client client = .exited 1) := by
  refine ⟨?_, fun final => ?_⟩
  · obtain ⟨more, last, run, _, final⟩ := ends reached
    exact ⟨more, last, run, final⟩
  · obtain ⟨sound, fine⟩ := both_of_reaches reached
    refine ⟨(server_of_final reached final).2, fun client => ?_⟩
    obtain ⟨status, here⟩ := client_of_final reached final room client
    have seen := fine.seen client
    rw [here] at seen ⊢
    cases seen with
    | inl served =>
      obtain ⟨connected, shown, rfl⟩ := served
      exact .inl ⟨connected, shown, rfl⟩
    | inr refused =>
      obtain ⟨unconnected, rfl⟩ := refused
      exact .inr ⟨unconnected, rfl⟩

def three : System (State (Fin 3)) (Event (Fin 3)) := unfailing 5 false

theorem everyone_leaves_three : ∃ trace state, three.Reaches trace state ∧
    ∀ client, state.client client = .exited 0 ∨ state.client client = .exited 1 := by
  obtain ⟨_, last, _, reached, final⟩ := ends (System.Reaches.first (rfl : three.start _))
  refine ⟨_, last, reached, fun client => ?_⟩
  exact (((everyone_leaves (by decide) reached).2 final).2 client).imp (fun served => served.2.2) fun refused => refused.2

end Runs

end CppRt.UnixStreamServer

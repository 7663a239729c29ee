import CppRt.Library.Transition
import Mathlib.Data.List.Infix
import Mathlib.Logic.Function.Basic

/-!
The stream server and its clients, which are one program started with and without an argument.
The server writes one message to each client that it accepts and closes the connection; a client
connects, reads once, prints what it has read as a string and leaves. Neither looks at what its
connect and its write return, and the socket's path is never unlinked. A connect waits while the
backlog is full; it and every read can fail, and a client can die, at any time.
-/

namespace CppRt.UnixStreamServer
open Library Transition

variable {Client : Type*}

abbrev Bytes := List UInt8

def msg : Bytes := [102, 111, 111, 10, 0]

def bufSize : Nat := 1024

/-- What is printed of the buffer when only these bytes of it have been set: none where the
string does not end within them. -/
def string (buf : Bytes) : Option Bytes := if 0 ∈ buf then some (buf.takeWhile (· ≠ 0)) else none

/-- Where the server is; `exited` is exit(1), `killed` the end by SIGPIPE. -/
inductive Server (Client : Type*) where
  | socket
  | bind
  | listen
  | accepting
  | writing (cfd : Client)
  | closing (cfd : Client)
  | exited
  | killed

/-- Where a client is; a socket or a connect that fails leaves it to read from what is not connected,
and `killed` is the end by a signal. -/
inductive ClientAt where
  | connecting
  | reading (connected : Bool)
  | showing (buf : Bytes)
  | closing (status : Nat)
  | exited (status : Nat)
  | killed

def ClientAt.left : ClientAt → Bool
  | .exited _ | .killed => true
  | .connecting | .reading _ | .showing _ | .closing _ => false

structure Connection where
  stream : Bytes
  ended : Bool

/-- `file` says whether the path exists, `pending` who waits to be accepted. -/
structure State (Client : Type*) where
  server : Server Client
  file : Bool
  pending : List Client
  client : Client → ClientAt
  connection : Client → Connection

inductive Event (Client : Type*) where
  | socket
  | bound
  | listening
  | accepted (cfd : Client)
  | wrote (cfd : Client) (count : Nat)
  | closed (cfd : Client)
  | exited (error : String)
  | killed
  | restarted
  | connected (client : Client)
  | refused (client : Client)
  | read (client : Client) (buf : Bytes)
  | readError (client : Client) (num_read : Int)
  | readFailed (client : Client)
  | died (client : Client)
  | shown (client : Client) (text : Option Bytes)
  | left (client : Client) (status : Nat)

def Server.listens : Server Client → Bool
  | .accepting | .writing _ | .closing _ => true
  | .socket | .bind | .listen | .exited | .killed => false

def Server.attends : Server Client → Option Client
  | .writing cfd | .closing cfd => some cfd
  | .socket | .bind | .listen | .accepting | .exited | .killed => none

namespace State

/-- The kernel closes what the server has open: the connection that it attends to and those that
wait are reset. -/
def gone [DecidableEq Client] (state : State Client) (server : Server Client) : State Client :=
  { state with
    server
    pending := []
    connection := fun client => if client ∈ state.pending ∨ state.server.attends = some client then
      { state.connection client with ended := true } else state.connection client }

variable [DecidableEq Client]

def move (state : State Client) (client : Client) (at_ : ClientAt) : State Client :=
  { state with client := Function.update state.client client at_ }

def connect (state : State Client) (client : Client) (connection : Connection) : State Client :=
  { state with connection := Function.update state.connection client connection }

end State

inductive Step [DecidableEq Client] (backlog : Nat) (state : State Client) : Option (Event Client) → State Client → Prop where
  | socket (here : state.server = .socket) : Step backlog state (some .socket) { state with server := .bind }
  | bind (here : state.server = .bind) (free : state.file = false) :
      Step backlog state (some .bound) { state with server := .listen, file := true }
  | listen (here : state.server = .listen) : Step backlog state (some .listening) { state with server := .accepting }
  | accept {client : Client} {rest : List Client} (here : state.server = .accepting) (waiting : state.pending = client :: rest) :
      Step backlog state (some (.accepted client)) { state with server := .writing client, pending := rest }
  | write {client : Client} {count : Nat} (here : state.server = .writing client) (some_ : count ≤ msg.length)
      (open_ : (state.client client).left = false) :
      Step backlog state (some (.wrote client count)) ({ state with server := .closing client }.connect client
        { state.connection client with stream := (state.connection client).stream ++ msg.take count })
  | sigpipe {client : Client} (here : state.server = .writing client) (left : (state.client client).left = true) :
      Step backlog state (some .killed) (state.gone .killed)
  | close {client : Client} (here : state.server = .closing client) :
      Step backlog state (some (.closed client)) ({ state with server := .accepting }.connect client
        { state.connection client with ended := true })
  | socketError (here : state.server = .socket) : Step backlog state (some (.exited "socket error")) (state.gone .exited)
  | bindError (here : state.server = .bind) : Step backlog state (some (.exited "bind error")) (state.gone .exited)
  | listenError (here : state.server = .listen) : Step backlog state (some (.exited "listen error")) (state.gone .exited)
  | acceptError (here : state.server = .accepting) : Step backlog state (some (.exited "accept error")) (state.gone .exited)
  | restart (ended : state.server = .exited ∨ state.server = .killed) :
      Step backlog state (some .restarted) { state with server := .socket }
  | connect {client : Client} (here : state.client client = .connecting) (listens : state.server.listens = true)
      (room : state.pending.length < backlog) :
      Step backlog state (some (.connected client))
        ({ state with pending := state.pending ++ [client] }.move client (.reading true))
  | refuse {client : Client} (here : state.client client = .connecting) :
      Step backlog state (some (.refused client)) (state.move client (.reading false))
  | read {client : Client} {buf rest : Bytes} (here : state.client client = .reading true) (some_ : buf ≠ [])
      (fits : buf.length ≤ bufSize) (taken : (state.connection client).stream = buf ++ rest) :
      Step backlog state (some (.read client buf))
        ((state.connect client { state.connection client with stream := rest }).move client (.showing buf))
  -- the read finds no connection or the end of one
  | readError {client : Client} {connected : Bool} {num_read : Int} (here : state.client client = .reading connected)
      (less : num_read < 1)
      (ended : connected = true → (state.connection client).stream = [] ∧ (state.connection client).ended = true) :
      Step backlog state (some (.readError client num_read)) (state.move client (.closing 1))
  -- it returns -1 whatever is there
  | readFails {client : Client} (here : state.client client = .reading true) :
      Step backlog state (some (.readFailed client)) (state.move client (.closing 1))
  | show_ {client : Client} {buf : Bytes} (here : state.client client = .showing buf) :
      Step backlog state (some (.shown client (string buf))) (state.move client (.closing 0))
  | leave {client : Client} {status : Nat} (here : state.client client = .closing status) :
      Step backlog state (some (.left client status)) (state.move client (.exited status))
  | die {client : Client} (alive : (state.client client).left = false) :
      Step backlog state (some (.died client)) (state.move client .killed)

def main [DecidableEq Client] (backlog : Nat) (file : Bool) : System (State Client) (Event Client) where
  start state := state = ⟨.socket, file, [], fun _ => .connecting, fun _ => ⟨[], false⟩⟩
  step := Step backlog

/-- Nothing has been written yet for a client that has connected. -/
def Waits (state : State Client) (client : Client) : Prop := client ∈ state.pending ∨ state.server = .writing client

def Told : ClientAt → Connection → Prop
  | .connecting, connection => connection = ⟨[], false⟩
  | .reading _, connection => connection.stream <+: msg
  | .showing buf, _ => buf <+: msg ∧ buf ≠ []
  | .closing _, _ | .exited _, _ | .killed, _ => True

def Event.cfd : Event Client → Option Client
  | .accepted client => some client
  | _ => none

def taken (trace : List (Event Client)) : List Client := trace.filterMap Event.cfd

def Quits (trace : List (Event Client)) (client : Client) : Prop :=
  .died client ∈ trace ∨ .readFailed client ∈ trace

/-- What holds in every reachable state. -/
structure Sound (trace : List (Event Client)) (state : State Client) : Prop where
  distinct : (taken trace ++ state.pending).Nodup
  attended : ∀ client, state.server.attends = some client → client ∈ taken trace
  met : ∀ client ∈ taken trace ++ state.pending, state.client client ≠ .connecting
  up : state.server.listens = false → state.pending = []
  unwritten : ∀ client, Waits state client → state.connection client = ⟨[], false⟩
  waits : ∀ client, Waits state client → state.client client = .reading true ∨ Quits trace client
  told : ∀ client, Told (state.client client) (state.connection client)
  heard : ∀ client, state.client client = .reading true →
    Waits state client ∨ state.server = .closing client ∨ (state.connection client).ended = true

section Sound
variable {backlog : Nat} {file : Bool} {trace : List (Event Client)} {state next : State Client}
variable {client : Client} {event : Event Client} {at_ : ClientAt} {connection : Connection}

theorem taken_snoc : taken (trace ++ [event]) = taken trace ++ event.cfd.toList := by
  cases shape : event.cfd <;> simp [taken, shape]

theorem taken_other (other : event.cfd = none) : taken (trace ++ [event]) = taken trace := by
  rw [taken_snoc, other, Option.toList_none, List.append_nil]

theorem not_writing {server : Server Client} (idle : server.attends = none) : server ≠ .writing client := by
  rintro rfl
  cases idle

theorem not_closing {server : Server Client} (idle : server.attends = none) : server ≠ .closing client := by
  rintro rfl
  cases idle

theorem idle_of_deaf {server : Server Client} (deaf : server.listens = false) : server.attends = none := by
  cases server with
  | accepting | writing | closing => cases deaf
  | socket | bind | listen | exited | killed => rfl

theorem Quits.stays (quits : Quits trace client) : Quits (trace ++ [event]) client :=
  quits.imp (List.mem_append_left _) (List.mem_append_left _)

theorem Sound.idle (sound : Sound trace state) {server : Server Client} {file : Bool} (other : event.cfd = none)
    (before : state.server.listens = false) (after : server.attends = none) :
    Sound (trace ++ [event]) { state with server, file } := by
  have empty := sound.up before
  have nobody (client : Client) : ¬Waits { state with server, file } client := by
    rintro (member | writes)
    · have member : client ∈ state.pending := member
      rw [empty] at member
      cases member
    · exact absurd writes (not_writing after)
  constructor
  · rw [taken_other other]
    exact sound.distinct
  · exact fun client wrong => by cases after.symm.trans wrong
  · rw [taken_other other]
    exact sound.met
  · exact fun _ => empty
  · exact fun client waits => absurd waits (nobody client)
  · exact fun client waits => absurd waits (nobody client)
  · exact sound.told
  · intro client reads
    rcases sound.heard client reads with (member | writes) | closes | ended
    · rw [empty] at member
      cases member
    · exact absurd writes (not_writing (idle_of_deaf before))
    · exact absurd closes (not_closing (idle_of_deaf before))
    · exact .inr (.inr ended)

variable [DecidableEq Client]

theorem Sound.gone (sound : Sound trace state) {server : Server Client} (other : event.cfd = none)
    (deaf : server.listens = false) : Sound (trace ++ [event]) (state.gone server) := by
  have idle := idle_of_deaf deaf
  have stream (client : Client) :
      ((state.gone server).connection client).stream = (state.connection client).stream := by
    by_cases open_ : client ∈ state.pending ∨ state.server.attends = some client
    · have reset : (state.gone server).connection client = { state.connection client with ended := true } := if_pos open_
      rw [reset]
    · have kept : (state.gone server).connection client = state.connection client := if_neg open_
      rw [kept]
  have nobody (client : Client) : ¬Waits (state.gone server) client := by
    rintro (wrong | writes)
    · cases wrong
    · exact absurd writes (not_writing idle)
  constructor
  · rw [taken_other other, State.gone, List.append_nil]
    exact (List.nodup_append.mp sound.distinct).1
  · exact fun _ wrong => by cases idle.symm.trans wrong
  · rw [taken_other other]
    intro client member
    have member : client ∈ taken trace ++ [] := member
    rw [List.append_nil] at member
    exact sound.met client (List.mem_append_left _ member)
  · exact fun _ => rfl
  · exact fun client waits => absurd waits (nobody client)
  · exact fun client waits => absurd waits (nobody client)
  · intro client
    have told := sound.told client
    show Told (state.client client) _
    cases at_ : state.client client with
    | connecting =>
      rw [at_] at told
      have unmet (member : client ∈ taken trace ++ state.pending) : False := sound.met client member at_
      have kept : (state.gone server).connection client = state.connection client := by
        refine if_neg fun open_ => unmet ?_
        cases open_ with
        | inl waits => exact List.mem_append_right _ waits
        | inr attends => exact List.mem_append_left _ (sound.attended client attends)
      rw [kept]
      exact told
    | reading connected =>
      rw [at_] at told
      show _ <+: msg
      rw [stream]
      exact told
    | showing buf => rwa [at_] at told
    | closing status | exited status | killed => trivial
  · intro client reads
    right
    right
    have reset (open_ : client ∈ state.pending ∨ state.server.attends = some client) :
        ((state.gone server).connection client).ended = true := by
      have ended : (state.gone server).connection client = { state.connection client with ended := true } := if_pos open_
      rw [ended]
    rcases sound.heard client reads with (waits | writes) | closes | ended
    · exact reset (.inl waits)
    · exact reset (.inr (by rw [writes]; rfl))
    · exact reset (.inr (by rw [closes]; rfl))
    · by_cases open_ : client ∈ state.pending ∨ state.server.attends = some client
      · exact reset open_
      · have kept : (state.gone server).connection client = state.connection client := if_neg open_
        rwa [kept]

omit [DecidableEq Client] in
theorem Sound.accept (sound : Sound trace state) {rest : List Client} (here : state.server = .accepting)
    (waiting : state.pending = client :: rest) :
    Sound (trace ++ [.accepted client]) { state with server := .writing client, pending := rest } := by
  have grown : taken (trace ++ [.accepted client]) = taken trace ++ [client] := taken_snoc
  have before {other : Client} (waits : Waits { state with server := .writing client, pending := rest } other) :
      Waits state other := by
    left
    rw [waiting]
    cases waits with
    | inl member => exact List.mem_cons_of_mem _ member
    | inr writes =>
      cases writes
      exact List.mem_cons_self
  have same : taken (trace ++ [.accepted client]) ++ rest = taken trace ++ state.pending := by
    rw [grown, List.append_assoc, waiting]
    rfl
  constructor
  · exact same.symm ▸ sound.distinct
  · rintro other ⟨⟩
    rw [grown]
    exact List.mem_append_right _ (List.mem_singleton.mpr rfl)
  · intro other member
    exact sound.met other (same ▸ member)
  · exact fun wrong => by cases wrong
  · exact fun other waits => sound.unwritten other (before waits)
  · exact fun other waits => (sound.waits other (before waits)).imp_right Quits.stays
  · exact sound.told
  · intro other reads
    rcases sound.heard other reads with (member | wrong) | wrong | ended
    · left
      rw [waiting] at member
      cases member with
      | head => exact .inr rfl
      | tail _ later => exact .inl later
    · cases here.symm.trans wrong
    · cases here.symm.trans wrong
    · exact .inr (.inr ended)

theorem Sound.attend (sound : Sound trace state) {server : Server Client} (other : event.cfd = none)
    (here : state.server.attends = some client) (after : server = .closing client ∨ server = .accepting ∧ connection.ended = true)
    (told : Told (state.client client) connection) :
    Sound (trace ++ [event]) ({ state with server }.connect client connection) := by
  have met := sound.attended client here
  have outside : client ∉ state.pending := fun member => (List.nodup_append.mp sound.distinct).2.2 _ met _ member rfl
  have elsewhere {different : Client} (apart : different ≠ client) :
      ({ state with server }.connect client connection).connection different = state.connection different :=
    Function.update_of_ne apart _ _
  have own : ({ state with server }.connect client connection).connection client = connection := Function.update_self _ _ _
  have pending {different : Client} (waits : Waits ({ state with server }.connect client connection) different) :
      different ∈ state.pending := by
    refine waits.resolve_right fun writes => ?_
    have writes : server = .writing different := writes
    rw [writes] at after
    cases after with
    | inl wrong => cases wrong
    | inr both => cases both.1
  constructor
  · rw [taken_other other]
    exact sound.distinct
  · intro different attends
    rw [taken_other other]
    have attends : server.attends = some different := attends
    cases after with
    | inl same =>
      rw [same] at attends
      cases attends
      exact met
    | inr both =>
      rw [both.1] at attends
      cases attends
  · rw [taken_other other]
    exact sound.met
  · intro quiet
    have quiet : server.listens = false := quiet
    cases after with
    | inl same => rw [same] at quiet; cases quiet
    | inr both => rw [both.1] at quiet; cases quiet
  · intro different waits
    have member := pending waits
    have apart : different ≠ client := by
      rintro rfl
      exact outside member
    rw [elsewhere apart]
    exact sound.unwritten different (.inl member)
  · exact fun different waits => (sound.waits different (.inl (pending waits))).imp_right Quits.stays
  · intro different
    by_cases same : different = client
    · subst same
      rw [own]
      exact told
    · rw [elsewhere same]
      exact sound.told different
  · intro different reads
    by_cases same : different = client
    · subst same
      rw [own]
      cases after with
      | inl closes => exact .inr (.inl closes)
      | inr both => exact .inr (.inr both.2)
    · rw [elsewhere same]
      have only (attends : state.server.attends = some different) : different = client :=
        Option.some.inj (attends.symm.trans here)
      rcases sound.heard different reads with (member | writes) | closes | ended
      · exact .inl (.inl member)
      · exact absurd (only (by rw [writes]; rfl)) same
      · exact absurd (only (by rw [closes]; rfl)) same
      · exact .inr (.inr ended)

theorem Sound.go (sound : Sound trace state) (other : event.cfd = none)
    (waits : Waits state client → Quits (trace ++ [event]) client ∧ connection = ⟨[], false⟩)
    (told : Told at_ connection) (met : at_ ≠ .connecting) (unread : at_ ≠ .reading true) :
    Sound (trace ++ [event]) ((state.connect client connection).move client at_) := by
  have elsewhere {different : Client} (apart : different ≠ client) :
      ((state.connect client connection).move client at_).client different = state.client different ∧
        ((state.connect client connection).move client at_).connection different = state.connection different :=
    ⟨Function.update_of_ne apart _ _, Function.update_of_ne apart _ _⟩
  have own : ((state.connect client connection).move client at_).client client = at_ ∧
      ((state.connect client connection).move client at_).connection client = connection :=
    ⟨Function.update_self _ _ _, Function.update_self _ _ _⟩
  constructor
  · rw [taken_other other]
    exact sound.distinct
  · intro different attends
    rw [taken_other other]
    exact sound.attended different attends
  · intro different member
    rw [taken_other other] at member
    by_cases same : different = client
    · subst same
      rw [own.1]
      exact met
    · rw [(elsewhere same).1]
      exact sound.met different member
  · exact sound.up
  · intro different still
    by_cases same : different = client
    · subst same
      rw [own.2]
      exact (waits still).2
    · rw [(elsewhere same).2]
      exact sound.unwritten different still
  · intro different still
    by_cases same : different = client
    · subst same
      exact .inr (waits still).1
    · rw [(elsewhere same).1]
      exact (sound.waits different still).imp_right Quits.stays
  · intro different
    by_cases same : different = client
    · subst same
      rw [own.1, own.2]
      exact told
    · rw [(elsewhere same).1, (elsewhere same).2]
      exact sound.told different
  · intro different reads
    by_cases same : different = client
    · subst same
      rw [own.1] at reads
      exact absurd reads unread
    · rw [(elsewhere same).1] at reads
      rw [(elsewhere same).2]
      exact sound.heard different reads

theorem Sound.move (sound : Sound trace state) (other : event.cfd = none)
    (waits : Waits state client → Quits (trace ++ [event]) client)
    (told : Told at_ (state.connection client)) (met : at_ ≠ .connecting) (unread : at_ ≠ .reading true) :
    Sound (trace ++ [event]) (state.move client at_) := by
  have goes := sound.go other (fun still => ⟨waits still, sound.unwritten client still⟩) told met unread
  rwa [State.connect, Function.update_eq_self] at goes

omit [DecidableEq Client] in
theorem Sound.quits (sound : Sound trace state) (elsewhere : state.client client ≠ .reading true)
    (waits : Waits state client) : Quits trace client :=
  (sound.waits client waits).resolve_left elsewhere

omit [DecidableEq Client] in
theorem Sound.not_waits (sound : Sound trace state) (here : state.client client = .connecting) : ¬Waits state client := by
  rintro (member | writes)
  · exact sound.met client (List.mem_append_right _ member) here
  · exact sound.met client (List.mem_append_left _ (sound.attended client (by rw [writes]; rfl))) here

theorem Sound.connect (sound : Sound trace state) (here : state.client client = .connecting)
    (listens : state.server.listens = true) :
    Sound (trace ++ [.connected client]) ({ state with pending := state.pending ++ [client] }.move client (.reading true)) := by
  have unmet : client ∉ taken trace ++ state.pending := fun member => sound.met client member here
  have outside := sound.not_waits here
  have fresh : state.connection client = ⟨[], false⟩ := by
    have told := sound.told client
    rwa [here] at told
  have elsewhere {different : Client} (apart : different ≠ client) :
      ({ state with pending := state.pending ++ [client] }.move client (.reading true)).client different =
        state.client different := Function.update_of_ne apart _ _
  have own : ({ state with pending := state.pending ++ [client] }.move client (.reading true)).client client =
      .reading true := Function.update_self _ _ _
  have before {different : Client} (apart : different ≠ client)
      (waits : Waits ({ state with pending := state.pending ++ [client] }.move client (.reading true)) different) :
      Waits state different := by
    refine waits.imp_left fun member => ?_
    cases List.mem_append.mp member with
    | inl before => exact before
    | inr now => exact absurd (List.mem_singleton.mp now) apart
  constructor
  · rw [taken_other rfl]
    show (taken trace ++ (state.pending ++ [client])).Nodup
    rw [← List.append_assoc, List.nodup_append]
    refine ⟨sound.distinct, List.pairwise_singleton _ client, ?_⟩
    rintro different member _ last rfl
    obtain rfl := List.mem_singleton.mp last
    exact unmet member
  · intro different attends
    rw [taken_other rfl]
    exact sound.attended different attends
  · intro different member
    by_cases same : different = client
    · subst same
      rw [own]
      exact fun wrong => by cases wrong
    · rw [elsewhere same]
      rw [taken_other rfl] at member
      have member : different ∈ taken trace ++ (state.pending ++ [client]) := member
      rw [← List.append_assoc] at member
      cases List.mem_append.mp member with
      | inl before => exact sound.met different before
      | inr now => exact absurd (List.mem_singleton.mp now) same
  · intro quiet
    cases listens.symm.trans quiet
  · intro different waits
    by_cases same : different = client
    · subst same
      exact fresh
    · exact sound.unwritten different (before same waits)
  · intro different waits
    by_cases same : different = client
    · subst same
      exact .inl own
    · rw [elsewhere same]
      exact (sound.waits different (before same waits)).imp_right Quits.stays
  · intro different
    by_cases same : different = client
    · subst same
      rw [own]
      show (state.connection different).stream <+: msg
      rw [fresh]
      exact List.nil_prefix
    · rw [elsewhere same]
      exact sound.told different
  · intro different reads
    by_cases same : different = client
    · subst same
      exact .inl (.inl (List.mem_append_right _ (List.mem_singleton.mpr rfl)))
    · rw [elsewhere same] at reads
      cases sound.heard different reads with
      | inl waits =>
        left
        cases waits with
        | inl member => exact .inl (List.mem_append_left _ member)
        | inr writes => exact .inr writes
      | inr rest => exact .inr rest

theorem Sound.step (sound : Sound trace state) {label : Option (Event Client)} (step : Step backlog state label next) :
    Sound (trace ++ label.toList) next := by
  cases step with
  | socket here | bind here | listen here => exact sound.idle rfl (by rw [here]; rfl) rfl
  | accept here waiting => exact sound.accept here waiting
  | @write client count here some_ open_ =>
    have empty := sound.unwritten client (.inr here)
    have met := sound.met client (List.mem_append_left _ (sound.attended client (by rw [here]; rfl)))
    have told := sound.told client
    apply sound.attend rfl (by rw [here]; rfl) (.inl rfl)
    rw [empty]
    cases at_ : state.client client with
    | connecting => exact absurd at_ met
    | reading connected => exact List.take_prefix _ _
    | showing buf => rwa [at_] at told
    | closing status | exited status | killed => trivial
  | @close client here =>
    apply sound.attend rfl (by rw [here]; rfl) (.inr ⟨rfl, rfl⟩)
    have told := sound.told client
    have met := sound.met client (List.mem_append_left _ (sound.attended client (by rw [here]; rfl)))
    cases at_ : state.client client with
    | connecting => exact absurd at_ met
    | reading connected => rwa [at_] at told
    | showing buf => rwa [at_] at told
    | closing status | exited status | killed => trivial
  | sigpipe | socketError | bindError | listenError | acceptError => exact sound.gone rfl rfl
  | restart ended =>
    apply sound.idle rfl _ rfl
    cases ended with
    | inl here => rw [here]; rfl
    | inr here => rw [here]; rfl
  | connect here listens room => exact sound.connect here listens
  | @refuse client here =>
    have told := sound.told client
    rw [here] at told
    apply sound.move rfl (fun waits => absurd waits (sound.not_waits here)) _ (fun wrong => by cases wrong)
      (fun wrong => by cases wrong)
    rw [told]
    exact List.nil_prefix
  | @read client buf rest here some_ fits taken =>
    have apart : ¬Waits state client := by
      intro waits
      rw [sound.unwritten client waits] at taken
      exact some_ (List.append_eq_nil_iff.mp taken.symm).1
    have told := sound.told client
    rw [here] at told
    apply sound.go rfl (fun waits => absurd waits apart) _ (fun wrong => by cases wrong) (fun wrong => by cases wrong)
    have within : (state.connection client).stream <+: msg := told
    rw [taken] at within
    exact ⟨(List.prefix_append buf rest).trans within, some_⟩
  | @readError client connected num_read here less ended =>
    refine sound.move rfl ?_ trivial (fun wrong => by cases wrong) (fun wrong => by cases wrong)
    intro waits
    cases connected with
    | true =>
      have closed := (ended rfl).2
      rw [sound.unwritten client waits] at closed
      cases closed
    | false => exact (sound.quits (by rw [here]; exact fun wrong => by cases wrong) waits).stays
  | @readFails client here =>
    exact sound.move rfl (fun _ => .inr (List.mem_append_right _ (List.mem_singleton.mpr rfl))) trivial
      (fun wrong => by cases wrong) (fun wrong => by cases wrong)
  | show_ here | leave here =>
    refine sound.move rfl ?_ trivial (fun wrong => by cases wrong) (fun wrong => by cases wrong)
    exact fun waits => (sound.quits (by rw [here]; exact fun wrong => by cases wrong) waits).stays
  | @die client alive =>
    exact sound.move rfl (fun _ => .inl (List.mem_append_right _ (List.mem_singleton.mpr rfl))) trivial
      (fun wrong => by cases wrong) (fun wrong => by cases wrong)

theorem sound_of_reaches (reached : (main backlog file).Reaches trace state) : Sound trace state := by
  refine reached.invariant Sound ?_ fun _ _ _ _ _ sound step => sound.step step
  rintro _ rfl
  have nobody (client : Client) : ¬Waits ⟨.socket, file, [], fun _ => .connecting, fun _ => ⟨[], false⟩⟩ client := by
    rintro (wrong | wrong)
    · cases wrong
    · cases wrong
  exact ⟨List.nodup_nil, (fun _ wrong => by cases wrong), (fun _ wrong => by cases wrong), fun _ => rfl,
    fun client waits => absurd waits (nobody client), fun client waits => absurd waits (nobody client), fun _ => rfl,
    fun _ wrong => by cases wrong⟩

end Sound

end CppRt.UnixStreamServer

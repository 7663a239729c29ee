import CppRt.Library.Transition
import CppRt.Socknet.BaseSocket
import CppRt.ThreadPool.Construction
import Mathlib.Data.List.Count
import Mathlib.Logic.Function.Basic

/-!
tcp_server_threaded: main accepts connections and launches a detached thread for each. The
handle passes from main to the closure it launches and on to the tcp_socket of the
session, whose destructor closes it. Nothing in a session thread catches exceptions, and
main goes by launch_thread, which takes a failed pthread_create for a success.
-/

namespace CppRt.Socknet
open Library Transition
open ThreadPool (Created)

/-- Where main is. After pthread_detach of an identifier that was never stored nothing is known. -/
inductive Main where
  | accepting
  | launching (session : Nat)
  | returned
  | undefined
  deriving DecidableEq

/-- Where the handling of an accepted connection is: in the closure, at the next call of
handle_client, in the destructor of its socket, over, or never begun. -/
inductive Session where
  | absent
  | accepted (handle : Int)
  | started (handle : Int)
  | send (socket : BaseSocket)
  | peerDisconnected (socket : BaseSocket)
  | disconnect (socket : BaseSocket)
  | close (sockfd : Int)
  | ended
  | lost

structure Server where
  main : Main
  session : Nat → Session
  next : Nat
  terminated : Bool

inductive ServerEvent where
  | accepted (session : Nat) (handle : Int)
  | acceptFailed
  | launched (session : Nat) (created : Created)
  | sent (session : Nat) (attempts : Attempts Nat)
  | disconnected (session : Nat) (result : Except Errno Unit)
  | closed (session : Nat) (result : Except Errno Unit)

namespace Server

def setSession (server : Server) (i : Nat) (session : Session) : Server :=
  { server with session := Function.update server.session i session }

/-- The process is there as long as main has not returned and no exception has left a thread. -/
def Running (server : Server) : Prop :=
  server.terminated = false ∧ server.main ≠ .returned ∧ server.main ≠ .undefined

/-- After `if ( !handle ) return 1;`: the descriptor 0 is taken for a failure. -/
def accept (server : Server) (handle : Int) : Server :=
  if handle = 0 then { server.setSession server.next .lost with main := .returned, next := server.next + 1 }
  else { server.setSession server.next (.accepted handle) with
    main := .launching server.next, next := server.next + 1 }

/-- `launch_thread`, then pthread_detach. What it throws is no socket_exception. -/
def launch (server : Server) (i : Nat) (handle : Int) (created : Created) : Server :=
  if created.err = -1 then { server with terminated := true }
  else match created with
    | .success => { server.setSession i (.started handle) with main := .accepting }
    | .error _ _ => { server.setSession i .lost with main := .undefined }

def continues {Value : Type*} (server : Server) (i : Nat) (call : Except SocketException Value × BaseSocket)
    (next : BaseSocket → Session) : Server :=
  match call.1 with
  | .ok _ => server.setSession i (next call.2)
  | .error _ => { server with terminated := true }

inductive Step (server : Server) : Option ServerEvent → Server → Prop where
  | accept {handle : Int} (running : server.Running) (at_ : server.main = .accepting) (valid : 0 ≤ handle) :
      Step server (some (.accepted server.next handle)) (server.accept handle)
  -- accept throws, and main catches it and returns
  | acceptFails (running : server.Running) (at_ : server.main = .accepting) :
      Step server (some .acceptFailed) { server with main := .returned }
  | launch {i : Nat} {handle : Int} {created : Created} (running : server.Running) (at_ : server.main = .launching i)
      (accepted : server.session i = .accepted handle) :
      Step server (some (.launched i created)) (server.launch i handle created)
  | construct {i : Nat} {handle : Int} {errno : Errno} {socket : BaseSocket} (running : server.Running)
      (at_ : server.session i = .started handle) (valid : BaseSocket.ofHandle errno handle = .ok socket) :
      Step server none (server.setSession i (.send socket))
  | constructThrows {i : Nat} {handle : Int} {errno : Errno} {exception : SocketException} (running : server.Running)
      (at_ : server.session i = .started handle) (invalid : BaseSocket.ofHandle errno handle = .error exception) :
      Step server none { server with terminated := true }
  | send {i : Nat} {socket : BaseSocket} {attempts : Attempts Nat} (running : server.Running)
      (at_ : server.session i = .send socket) :
      Step server (some (.sent i attempts)) (server.continues i (socket.send attempts) .peerDisconnected)
  | peerDisconnected {i : Nat} {socket : BaseSocket} (running : server.Running)
      (at_ : server.session i = .peerDisconnected socket) :
      Step server none (server.setSession i
        (if socket.peerDisconnected then .close socket.sockfd else .disconnect socket))
  | disconnect {i : Nat} {socket : BaseSocket} {result : Except Errno Unit} (running : server.Running)
      (at_ : server.session i = .disconnect socket) :
      Step server (some (.disconnected i result))
        (server.continues i (socket.disconnect result) fun socket => .close socket.sockfd)
  -- one round of TEMP_FAILURE_RETRY in the destructor
  | close {i : Nat} {sockfd : Int} {result : Except Errno Unit} (running : server.Running)
      (at_ : server.session i = .close sockfd) :
      Step server (some (.closed i result)) (server.setSession i (if interrupted result then .close sockfd else .ended))

end Server

def tcpServerThreaded : System Server ServerEvent where
  start server := server = ⟨.accepting, fun _ => .absent, 0, false⟩
  step := Server.Step

def ServerEvent.closes (i : Nat) : ServerEvent → Bool
  | .closed session _ => session = i
  | _ => false

def closes (i : Nat) (trace : List ServerEvent) : Nat := trace.countP (ServerEvent.closes i)

def Session.finished : Session → Bool
  | .ended => true
  | .lost => true
  | _ => false

/-- From here the session can go on to its end, without a step of any other. -/
def Server.CanEnd (server : Server) (i : Nat) : Prop :=
  ∃ more later, tcpServerThreaded.Run server more later ∧ later.terminated = false ∧ later.session i = .ended ∧
    ∀ other, other ≠ i → later.session other = server.session other

section Steps
variable {trace : List ServerEvent} {server next : Server} {event : ServerEvent} {i : Nat}

theorem closes_snoc (quiet : event.closes i = false) : closes i (trace ++ [event]) = closes i trace := by
  simp [closes, quiet]

theorem closes_closed (result : Except Errno Unit) : closes i (trace ++ [.closed i result]) = closes i trace + 1 := by
  simp [closes, ServerEvent.closes]

namespace Server

theorem setSession_self (session : Session) : (server.setSession i session).session i = session :=
  Function.update_self _ _ _

theorem setSession_other (session : Session) (other : Nat) (different : other ≠ i) :
    (server.setSession i session).session other = server.session other := Function.update_of_ne different _ _

theorem launch_success (handle : Int) :
    server.launch i handle .success = { server.setSession i (.started handle) with main := .accepting } :=
  if_neg (by decide)

theorem launch_error (handle : Int) {number : Int} (positive : 0 < number) :
    server.launch i handle (.error number positive) = { server.setSession i .lost with main := .undefined } :=
  if_neg (by simp only [Created.err]; omega)

theorem continues_returned {Value : Type*} {value : Value} {socket : BaseSocket}
    {call : Except SocketException Value × BaseSocket} (goes : BaseSocket → Session)
    (returned : call = (.ok value, socket)) : server.continues i call goes = server.setSession i (goes socket) := by
  rw [continues, returned]

theorem continues_threw {Value : Type*} {exception : SocketException} {socket : BaseSocket}
    {call : Except SocketException Value × BaseSocket} (goes : BaseSocket → Session)
    (threw : call = (.error exception, socket)) : server.continues i call goes = { server with terminated := true } := by
  rw [continues, threw]

end Server

theorem Server.Step.running {label : Option ServerEvent} (step : server.Step label next) : server.Running := by
  cases step <;> assumption

theorem acceptFailed_stops (reached : tcpServerThreaded.Reaches trace server) (running : server.Running) :
    .acceptFailed ∉ trace := by
  refine reached.invariant (fun trace server => server.Running → .acceptFailed ∉ trace) ?_ ?_ running
  · intro first _ _ wrong
    cases wrong
  · intro trace server label next _ kept step running member
    rcases List.mem_append.mp member with before | now
    · exact kept step.running before
    · cases step with
      | acceptFails => exact running.2.1 rfl
      | _ => simp at now

namespace Server

theorem Step.alone {label : Option ServerEvent} (step : server.Step label next) :
    ∃ i, ∀ other, other ≠ i → next.session other = server.session other := by
  have goes {Value : Type} (i : Nat) (call : Except SocketException Value × BaseSocket)
      (goesOn : BaseSocket → Session) (other : Nat) (different : other ≠ i) :
      (server.continues i call goesOn).session other = server.session other := by
    unfold continues
    split
    · exact setSession_other _ other different
    · rfl
  cases step with
  | accept running at_ valid =>
    refine ⟨server.next, fun other different => ?_⟩
    unfold Server.accept
    split <;> exact setSession_other _ other different
  | acceptFails | constructThrows => exact ⟨0, fun _ _ => rfl⟩
  | @launch i handle created running at_ accepted =>
    refine ⟨i, fun other different => ?_⟩
    cases created with
    | success =>
      rw [launch_success]
      exact setSession_other _ other different
    | error number positive =>
      rw [launch_error]
      exact setSession_other _ other different
  | construct | peerDisconnected | close => exact ⟨_, setSession_other _⟩
  | send | disconnect => exact ⟨_, goes _ _ _⟩

theorem CanEnd.after {label : Option ServerEvent} (ends : next.CanEnd i) (step : server.Step label next)
    (others : ∀ other, other ≠ i → next.session other = server.session other) : server.CanEnd i := by
  obtain ⟨more, later, run, caught, ended, same⟩ := ends
  have first : tcpServerThreaded.Run server label.toList next := .single step
  exact ⟨_, later, first.trans run, caught, ended, fun other different =>
    (same other different).trans (others other different)⟩

theorem canEnd_close {sockfd : Int} (running : server.Running) (at_ : server.session i = .close sockfd) :
    server.CanEnd i := by
  have step : server.Step (some (.closed i (.ok ()))) (server.setSession i .ended) := .close running at_
  have run : tcpServerThreaded.Run server _ _ := .single step
  exact ⟨_, _, run, running.1, setSession_self _, setSession_other _⟩

theorem canEnd_disconnect {socket : BaseSocket} (running : server.Running)
    (at_ : server.session i = .disconnect socket) : server.CanEnd i := by
  have step : server.Step (some (.disconnected i (.ok ()))) (server.setSession i (.close socket.sockfd)) :=
    .disconnect running at_
  have ends : (server.setSession i (.close socket.sockfd)).CanEnd i :=
    canEnd_close running (setSession_self _)
  exact ends.after step (setSession_other _)

theorem canEnd_peerDisconnected {socket : BaseSocket} (running : server.Running)
    (at_ : server.session i = .peerDisconnected socket) : server.CanEnd i := by
  refine CanEnd.after ?_ (.peerDisconnected running at_) (setSession_other _)
  split
  · exact canEnd_close running (setSession_self _)
  · exact canEnd_disconnect running (setSession_self _)

theorem canEnd_send {socket : BaseSocket} (running : server.Running)
    (at_ : server.session i = .send socket) : server.CanEnd i := by
  have step : server.Step (some (.sent i (.once (.ok 0) rfl))) (server.setSession i (.peerDisconnected socket)) :=
    .send running at_
  have ends : (server.setSession i (.peerDisconnected socket)).CanEnd i :=
    canEnd_peerDisconnected running (setSession_self _)
  exact ends.after step (setSession_other _)

theorem canEnd_started {handle : Int} (running : server.Running) (at_ : server.session i = .started handle)
    (positive : 0 < handle) : server.CanEnd i := by
  have valid : BaseSocket.ofHandle .EBADF handle = .ok ⟨handle, false⟩ := if_neg (by omega)
  have ends : (server.setSession i (.send ⟨handle, false⟩)).CanEnd i :=
    canEnd_send running (setSession_self _)
  exact ends.after (.construct running at_ valid) (setSession_other _)

theorem canEnd_accepted {handle : Int} (running : server.Running) (at_ : server.main = .launching i)
    (accepted : server.session i = .accepted handle) (positive : 0 < handle) : server.CanEnd i := by
  have step : server.Step (some (.launched i .success)) (server.launch i handle .success) :=
    .launch running at_ accepted
  rw [launch_success] at step
  refine CanEnd.after ?_ step (setSession_other _)
  refine canEnd_started ⟨running.1, ?_, ?_⟩ (setSession_self _) positive
  · exact Main.noConfusion
  · exact Main.noConfusion

end Server

end Steps

end CppRt.Socknet

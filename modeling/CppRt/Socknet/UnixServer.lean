import CppRt.Library.Transition
import CppRt.Socknet.UnixDatagramSocket
import Mathlib.Logic.Function.Basic

/-!
unix_server and its clients. The loop answers each datagram it receives to the path of the
sender. It stands in a try block whose handler takes the exceptions of the library: each
of them ends the loop, and main returns 1.
-/

namespace CppRt.Socknet
open Library Transition

/-- Where the loop of main is; clientPath is what receiveFrom has filled in. -/
inductive Loop where
  | receiving
  | replying (clientPath : Bytes)
  | returned
  | terminated
  deriving DecidableEq

structure UnixServer (Client : Type*) where
  loop : Loop
  inbox : List Client
  live : Client → Bool

inductive DatagramEvent (Client : Type*) where
  | sent (client : Client)
  | exited (client : Client)
  | received (client : Client)
  | receiveFailed (errno : Errno)
  | tooLong
  | replied (destAddr : SunPath) (attempts : Attempts Nat)

def sendMsgSize : Nat := 44

/-- The handler of main takes a socket_exception and no other. -/
def Loop.caught : Except Thrown Loop → Loop
  | .ok loop => loop
  | .error (.socketException _) => .returned
  | .error .lengthError => .terminated

namespace UnixServer
variable {Client : Type*}

def receiveFrom (clientAddr : Reported) (attempts : Attempts Nat) : Loop :=
  .caught ((UnixDatagramSocket.receiveFrom clientAddr attempts).map fun got => .replying got.2)

def sendTo (errno : Errno) (clientPath : Bytes) (attempts : Attempts Nat) : Loop :=
  .caught ((UnixDatagramSocket.sendTo errno sendMsgSize clientPath attempts).map fun _ => .receiving)

/-- The kernel delivers to a path only as long as a client is there that is bound to it, and
takes no more bytes than it is offered. -/
inductive Step [DecidableEq Client] (name : Client → Option Pathname) (server : UnixServer Client) :
    Option (DatagramEvent Client) → UnixServer Client → Prop where
  | send {client : Client} (alive : server.live client = true) :
      Step name server (some (.sent client)) { server with inbox := server.inbox ++ [client] }
  | exit {client : Client} (alive : server.live client = true) :
      Step name server (some (.exited client)) { server with live := Function.update server.live client false }
  | receive {client : Client} {rest : List Client} {attempts : Attempts Nat} {length : Nat}
      (at_ : server.loop = .receiving) (waiting : server.inbox = client :: rest)
      (returned : attempts.result = .ok length) :
      Step name server (some (.received client))
        { server with loop := receiveFrom (reportSender (name client)) attempts, inbox := rest }
  | receiveFails {clientAddr : Reported} {attempts : Attempts Nat} {errno : Errno} (at_ : server.loop = .receiving)
      (failed : attempts.result = .error errno) :
      Step name server (some (.receiveFailed errno)) { server with loop := receiveFrom clientAddr attempts }
  | reply {clientPath : Bytes} {destAddr : SunPath} {errno : Errno} {attempts : Attempts Nat}
      (at_ : server.loop = .replying clientPath) (filled : fillAddress clientPath = some destAddr)
      (delivers : ∀ length, attempts.result = .ok length →
        ∃ client path, server.live client = true ∧ name client = some path ∧ path.bytes = destAddr.bytes)
      (offered : ∀ length, attempts.result = .ok length → length ≤ sendMsgSize) :
      Step name server (some (.replied destAddr attempts)) { server with loop := sendTo errno clientPath attempts }
  | replyTooLong {clientPath : Bytes} {errno : Errno} {attempts : Attempts Nat}
      (at_ : server.loop = .replying clientPath) (tooLong : fillAddress clientPath = none) :
      Step name server (some .tooLong) { server with loop := sendTo errno clientPath attempts }

end UnixServer

def unixServer {Client : Type*} [DecidableEq Client] (name : Client → Option Pathname) :
    System (UnixServer Client) (DatagramEvent Client) where
  start server := server = ⟨.receiving, [], fun _ => true⟩
  step := UnixServer.Step name

section Answers
variable {Client : Type*}

def whole (attempts : Attempts Nat) : Bool :=
  match attempts.result with
  | .ok sent => sent = sendMsgSize
  | .error _ => false

namespace DatagramEvent

def asked : DatagramEvent Client → Option Client
  | .received client => some client
  | _ => none

def answered : DatagramEvent Client → Option Bytes
  | .replied destAddr attempts => if whole attempts then some destAddr.bytes else none
  | _ => none

def fails : DatagramEvent Client → Bool
  | .receiveFailed _ => true
  | .tooLong => true
  | .replied _ attempts => !whole attempts
  | _ => false

end DatagramEvent

def asked (name : Client → Option Pathname) (trace : List (DatagramEvent Client)) : List (Option Bytes) :=
  (trace.filterMap DatagramEvent.asked).map fun client => (name client).map Pathname.bytes

def answered (trace : List (DatagramEvent Client)) : List (Option Bytes) :=
  (trace.filterMap DatagramEvent.answered).map some

def Unfailing (trace : List (DatagramEvent Client)) : Prop := ∀ event ∈ trace, event.fails = false

/-- Each datagram has been answered with one reply to its sender, but for the last one when
that is about to be answered, or when a call that failed has ended the loop. -/
def Answering (name : Client → Option Pathname) (trace : List (DatagramEvent Client)) : Loop → Prop
  | .receiving => Unfailing trace ∧ asked name trace = answered trace
  | .replying clientPath => Unfailing trace ∧ asked name trace = answered trace ++ [some clientPath] ∧ 0 ∉ clientPath
  | .returned => ¬Unfailing trace ∧ ∃ last, last.length ≤ 1 ∧ asked name trace = answered trace ++ last
  | .terminated => none ∈ asked name trace

section Answering
variable {name : Client → Option Pathname} {trace : List (DatagramEvent Client)} {event : DatagramEvent Client}

theorem asked_snoc : asked name (trace ++ [event]) =
    asked name trace ++ event.asked.toList.map fun client => (name client).map Pathname.bytes := by
  cases shape : event.asked <;> simp [asked, List.filterMap_append, shape]

theorem answered_snoc : answered (trace ++ [event]) = answered trace ++ event.answered.toList.map some := by
  cases shape : event.answered <;> simp [answered, List.filterMap_append, shape]

theorem unfailing_snoc : Unfailing (trace ++ [event]) ↔ Unfailing trace ∧ event.fails = false := by
  simp [Unfailing, or_imp, forall_and]

theorem whole_iff {attempts : Attempts Nat} : whole attempts = true ↔ attempts.result = .ok sendMsgSize := by
  unfold whole
  cases attempts.result with
  | ok sent => simp
  | error errno => simp

theorem Answering.elsewhere {loop : Loop} (answers : Answering name trace loop) (silent : event.asked = none)
    (fine : event.fails = false) (unanswered : event.answered = none) : Answering name (trace ++ [event]) loop := by
  have same : asked name (trace ++ [event]) = asked name trace := by simp [asked_snoc, silent]
  have also : answered (trace ++ [event]) = answered trace := by simp [answered_snoc, unanswered]
  cases loop <;> simpa only [Answering, same, also, unfailing_snoc, fine, and_true] using answers

theorem Answering.fails (last : List (Option Bytes)) (short : last.length ≤ 1)
    (before : asked name trace = answered trace ++ last) (silent : event.asked = none) (failed : event.fails = true)
    (unanswered : event.answered = none) : Answering name (trace ++ [event]) .returned := by
  have same : asked name (trace ++ [event]) = asked name trace := by simp [asked_snoc, silent]
  have also : answered (trace ++ [event]) = answered trace := by simp [answered_snoc, unanswered]
  refine ⟨fun unfailing => ?_, last, short, by rw [same, also, before]⟩
  cases failed.symm.trans (unfailing_snoc.mp unfailing).2

end Answering

namespace UnixServer
variable {attempts : Attempts Nat} {errno : Errno} {length : Nat} {clientPath : Bytes} {destAddr : SunPath}

theorem receiveFrom_bound (path : Pathname) (returned : attempts.result = .ok length) :
    receiveFrom (reportSender (some path)) attempts = .replying path.bytes := by
  rw [receiveFrom, UnixDatagramSocket.receiveFrom_bound path returned]
  rfl

theorem receiveFrom_unbound (returned : attempts.result = .ok length) :
    receiveFrom (reportSender none) attempts = .terminated := by
  rw [receiveFrom, UnixDatagramSocket.receiveFrom_unbound returned]
  rfl

theorem receiveFrom_fails {clientAddr : Reported} (failed : attempts.result = .error errno) :
    receiveFrom clientAddr attempts = .returned := by
  rw [receiveFrom, UnixDatagramSocket.receiveFrom_fails failed]
  rfl

theorem sendTo_whole (filled : fillAddress clientPath = some destAddr) (sent : whole attempts = true) :
    sendTo errno clientPath attempts = .receiving := by
  have result := whole_iff.mp sent
  have offered : ∀ length, attempts.result = .ok length → length ≤ sendMsgSize := by
    intro length returned
    cases result.symm.trans returned
    exact Nat.le_refl _
  rw [sendTo, UnixDatagramSocket.sendTo_returns filled ((datagramSent_iff (by decide) offered).mpr result)]
  rfl

theorem sendTo_fails (fails : fillAddress clientPath = none ∨ datagramSent errno sendMsgSize attempts ≠ .ok ()) :
    sendTo errno clientPath attempts = .returned := by
  obtain ⟨exception, threw⟩ := UnixDatagramSocket.sendTo_fails fails
  rw [sendTo, threw]
  rfl

theorem sendTo_short (offered : ∀ length, attempts.result = .ok length → length ≤ sendMsgSize)
    (short : whole attempts = false) : sendTo errno clientPath attempts = .returned := by
  refine sendTo_fails (.inr fun sent => ?_)
  cases short.symm.trans (whole_iff.mpr ((datagramSent_iff (by decide) offered).mp sent))

end UnixServer

section Run
variable [DecidableEq Client] {name : Client → Option Pathname} {trace : List (DatagramEvent Client)}
variable {server next : UnixServer Client}

theorem Answering.step {label : Option (DatagramEvent Client)} (answers : Answering name trace server.loop)
    (step : UnixServer.Step name server label next) : Answering name (trace ++ label.toList) next.loop := by
  cases step with
  | send alive => exact answers.elsewhere rfl rfl rfl
  | exit alive => exact answers.elsewhere rfl rfl rfl
  | @receive client rest attempts length at_ waiting returned =>
    rw [at_] at answers
    obtain ⟨unfailing, same⟩ := answers
    have more : asked name (trace ++ [.received client]) =
        answered (trace ++ [.received client]) ++ [(name client).map Pathname.bytes] := by
      simp [asked_snoc, answered_snoc, DatagramEvent.asked, DatagramEvent.answered, same]
    cases named : name client with
    | none =>
      rw [named] at more
      rw [UnixServer.receiveFrom_unbound returned]
      change none ∈ asked name (trace ++ [.received client])
      simp [more]
    | some path =>
      rw [named] at more
      rw [UnixServer.receiveFrom_bound path returned]
      exact ⟨unfailing_snoc.mpr ⟨unfailing, rfl⟩, more, path.ended⟩
  | @receiveFails clientAddr attempts errno at_ failed =>
    rw [at_] at answers
    rw [UnixServer.receiveFrom_fails failed]
    exact Answering.fails [] (Nat.zero_le 1) (by simpa using answers.2) rfl rfl rfl
  | @reply clientPath destAddr errno attempts at_ filled delivers offered =>
    rw [at_] at answers
    obtain ⟨unfailing, same, ended⟩ := answers
    have copied : destAddr.bytes = clientPath := bytes_of_fillAddress filled ended
    cases sent : whole attempts with
    | true =>
      rw [UnixServer.sendTo_whole filled sent]
      refine ⟨unfailing_snoc.mpr ⟨unfailing, by simp [DatagramEvent.fails, sent]⟩, ?_⟩
      simp [asked_snoc, answered_snoc, DatagramEvent.asked, DatagramEvent.answered, same, sent, copied]
    | false =>
      rw [UnixServer.sendTo_short offered sent]
      exact Answering.fails [some clientPath] (Nat.le_refl 1) same rfl (by simp [DatagramEvent.fails, sent])
        (by simp [DatagramEvent.answered, sent])
  | @replyTooLong clientPath errno attempts at_ tooLong =>
    rw [at_] at answers
    rw [UnixServer.sendTo_fails (.inl tooLong)]
    exact Answering.fails [some clientPath] (Nat.le_refl 1) answers.2.1 rfl rfl rfl

theorem answering_of_reaches (reached : (unixServer name).Reaches trace server) :
    Answering name trace server.loop := by
  refine reached.invariant (fun trace server => Answering name trace server.loop) ?_ ?_
  · intro first begins
    obtain rfl := begins
    exact ⟨fun event member => (by cases member), rfl⟩
  · intro trace server label next _ answers step
    exact answers.step step

def UnixServer.CanServe (name : Client → Option Pathname) (server : UnixServer Client) : Prop :=
  ∀ client rest path, server.inbox = client :: rest → server.live client = true → name client = some path →
    path.bytes.length < sunPathSize → ∃ more next, (unixServer name).Run server more next ∧
      answered more = [some path.bytes] ∧ next.loop = .receiving ∧ next.inbox = rest

theorem UnixServer.canServe (at_ : server.loop = .receiving) : server.CanServe name := by
  intro client rest path waiting alive named short
  let got : Attempts Nat := .once (.ok 1) rfl
  let sent : Attempts Nat := .once (.ok sendMsgSize) rfl
  let destAddr : SunPath := .copy path.bytes short
  have filled : fillAddress path.bytes = some destAddr := fillAddress_short short
  have copied : destAddr.bytes = path.bytes := copy_bytes short path.ended
  have receives : (unixServer name).step server (some (.received client)) _ :=
    @UnixServer.Step.receive _ _ _ _ _ _ got 1 at_ waiting rfl
  rw [named, UnixServer.receiveFrom_bound path rfl] at receives
  have delivers : ∀ length, sent.result = .ok length → ∃ client path, server.live client = true ∧
      name client = some path ∧ path.bytes = destAddr.bytes := fun _ _ => ⟨client, path, alive, named, copied.symm⟩
  have offered : ∀ length, sent.result = .ok length → length ≤ sendMsgSize := by
    intro length returned
    cases returned
    exact Nat.le_refl _
  have replies : (unixServer name).step { loop := .replying path.bytes, inbox := rest, live := server.live }
      (some (.replied destAddr sent)) _ := @UnixServer.Step.reply _ _ _ _ _ _ .EBADF _ rfl filled delivers offered
  rw [UnixServer.sendTo_whole filled rfl] at replies
  refine ⟨_, _, (System.Run.single receives).tail replies, ?_, rfl, rfl⟩
  change [some destAddr.bytes] = _
  rw [copied]

end Run

end Answers

/-- While no call fails, the loop goes on and has sent one reply to the path of each client it
has received a datagram from, in order, but for the one it is about to reply to. The first
call that fails, be it the reply to a client that has exited, ends it: main returns. -/
theorem serves_until_failure {Client : Type*} [DecidableEq Client] {name : Client → Option Pathname}
    {trace : List (DatagramEvent Client)} {server : UnixServer Client}
    (reached : (unixServer name).Reaches trace server) (named : none ∉ asked name trace) :
    (Unfailing trace →
      (server.loop = .receiving ∧ asked name trace = answered trace ∧ server.CanServe name) ∨
      ∃ clientPath, server.loop = .replying clientPath ∧ asked name trace = answered trace ++ [some clientPath]) ∧
    (¬Unfailing trace → server.loop = .returned ∧
      ∃ last, last.length ≤ 1 ∧ asked name trace = answered trace ++ last) := by
  have answers := answering_of_reaches reached
  cases at_ : server.loop with
  | receiving =>
    rw [at_] at answers
    obtain ⟨unfailing, same⟩ := answers
    exact ⟨fun _ => .inl ⟨rfl, same, UnixServer.canServe at_⟩, fun failing => absurd unfailing failing⟩
  | replying clientPath =>
    rw [at_] at answers
    obtain ⟨unfailing, same, _⟩ := answers
    exact ⟨fun _ => .inr ⟨clientPath, rfl, same⟩, fun failing => absurd unfailing failing⟩
  | returned =>
    rw [at_] at answers
    obtain ⟨failing, last, short, same⟩ := answers
    exact ⟨fun unfailing => absurd unfailing failing, fun _ => ⟨rfl, last, short, same⟩⟩
  | terminated =>
    rw [at_] at answers
    exact absurd answers named

def clientPaths : Bool → Option Pathname
  | false => some ⟨[47, 97], by decide, by decide, by decide⟩
  | true => some ⟨[47, 98], by decide, by decide, by decide⟩

def refusedTrace : List (DatagramEvent Bool) :=
  [.sent false, .sent true, .exited false, .received false,
    .replied ⟨[47, 97], by decide, by decide⟩ (.once (.error .ECONNREFUSED) rfl)]

theorem reaches_refused :
    (unixServer clientPaths).Reaches refusedTrace ⟨.returned, [true], Function.update (fun _ => true) false false⟩ := by
  have sends : (unixServer clientPaths).step ⟨.receiving, [], fun _ => true⟩ (some (.sent false)) _ :=
    UnixServer.Step.send rfl
  have sendsToo : (unixServer clientPaths).step ⟨.receiving, [false], fun _ => true⟩ (some (.sent true)) _ :=
    UnixServer.Step.send rfl
  have exits : (unixServer clientPaths).step ⟨.receiving, [false, true], fun _ => true⟩ (some (.exited false)) _ :=
    UnixServer.Step.exit rfl
  have receives : (unixServer clientPaths).step ⟨.receiving, [false, true], Function.update (fun _ => true) false false⟩
      (some (.received false)) ⟨.replying [47, 97], [true], Function.update (fun _ => true) false false⟩ :=
    @UnixServer.Step.receive _ _ _ _ _ _ (.once (.ok 1) rfl) 1 rfl rfl rfl
  have refused : UnixServer.sendTo .EBADF [47, 97] (.once (.error .ECONNREFUSED) rfl) = .returned :=
    UnixServer.sendTo_short (fun _ wrong => by cases wrong) rfl
  have filled : fillAddress [47, 97] = some ⟨[47, 97], by decide, by decide⟩ := by decide
  have replies : (unixServer clientPaths).step
      ⟨.replying [47, 97], [true], Function.update (fun _ => true) false false⟩
      (some (.replied ⟨[47, 97], by decide, by decide⟩ (.once (.error .ECONNREFUSED) rfl))) _ :=
    @UnixServer.Step.reply _ _ _ _ _ _ .EBADF _ rfl filled (fun _ wrong => by cases wrong)
      (fun _ wrong => by cases wrong)
  rw [refused] at replies
  exact (((((System.Reaches.first rfl).tail sends).tail sendsToo).tail exits).tail receives).tail replies

/-- The second client is bound and still there, and its datagram is never received. -/
theorem exited_client_stops_loop : ¬∀ trace server, (unixServer clientPaths).Reaches trace server →
    (∀ errno, .receiveFailed errno ∉ trace) →
      server.loop = .receiving ∨ ∃ clientPath, server.loop = .replying clientPath := by
  intro goes
  have stays := goes _ _ reaches_refused fun errno member => by simp [refusedTrace] at member
  rcases stays with wrong | ⟨_, wrong⟩ <;> cases wrong

theorem serves_until_failure_refused : ∃ server : UnixServer Bool,
    (unixServer clientPaths).Reaches refusedTrace server ∧ server.loop = .returned := by
  have failing : ¬Unfailing refusedTrace := by
    intro unfailing
    have last := unfailing (.replied ⟨[47, 97], by decide, by decide⟩ (.once (.error .ECONNREFUSED) rfl))
      (by simp [refusedTrace])
    cases last
  exact ⟨_, reaches_refused, ((serves_until_failure reaches_refused (by decide)).2 failing).1⟩

end CppRt.Socknet

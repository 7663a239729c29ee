import CppRt.Library.Transition
import CppRt.Socknet.BaseSocket

/-!
The flag peerDisconnected over any sequence of calls. A send that finds the peer gone sets
it. Of the calls that return with a new connection or with none, internet_socket's connect
and the disconnect of a reset connection clear it; unix_socket's connect and the
disconnect that succeeds leave it as it is.
-/

namespace CppRt.Socknet
open Library Transition

inductive SocketFamily where
  | internet
  | unix
  deriving DecidableEq

inductive SocketCall where
  | connect (filled : Except SocketException Unit) (result : Except Errno Unit)
  | send (attempts : Attempts Nat)
  | receive (attempts : Attempts Nat)
  | disconnect (result : Except Errno Unit)

def SocketFamily.connect : SocketFamily → BaseSocket → Except SocketException Unit → Except Errno Unit →
    Except SocketException Unit × BaseSocket
  | .internet => InternetSocket.connect
  | .unix => UnixSocket.connect

def SocketCall.perform (family : SocketFamily) (socket : BaseSocket) : SocketCall → BaseSocket
  | .connect filled result => (family.connect socket filled result).2
  | .send attempts => (socket.send attempts).2
  | .receive attempts => (socket.receive attempts).2
  | .disconnect result => (socket.disconnect result).2

def performed (family : SocketFamily) (sockfd : Int) (calls : List SocketCall) : BaseSocket :=
  calls.foldl (SocketCall.perform family) ⟨sockfd, false⟩

def SocketCall.renews : SocketCall → Bool
  | .connect filled result => filled.isOk && result.isOk
  | .disconnect (.ok ()) => true
  | .disconnect (.error errno) => errno = .ECONNRESET
  | .send _ => false
  | .receive _ => false

def SocketCall.losesPeer : SocketCall → Bool
  | .send attempts => match attempts.result with
    | .error errno => errno.gone
    | .ok _ => false
  | _ => false

/-- Whether the call renews the connection and leaves the flag: a connect of unix_socket, or a
disconnect whose connect succeeds. -/
def SocketCall.forgets (family : SocketFamily) : SocketCall → Bool
  | .connect filled result => family = .unix && filled.isOk && result.isOk
  | .disconnect result => result.isOk
  | .send _ => false
  | .receive _ => false

/-- Since the last connect or disconnect that returned normally some send has found the peer gone. -/
def LostPeer (calls : List SocketCall) : Prop :=
  ∃ before call after, calls = before ++ call :: after ∧ call.losesPeer = true ∧
    ∀ later ∈ after, later.renews = false

section Flag
variable {family : SocketFamily} {call : SocketCall} {calls : List SocketCall} {socket : BaseSocket}

theorem connect_returns (filled : Except SocketException Unit) (result : Except Errno Unit) :
    (family.connect socket filled result).1.isOk = (SocketCall.connect filled result).renews := by
  cases family <;> rcases filled with _ | _ <;> rcases result with _ | _ <;> rfl

theorem disconnect_returns (result : Except Errno Unit) :
    (socket.disconnect result).1.isOk = (SocketCall.disconnect result).renews := by
  rcases result with errno | _
  · cases errno <;> rfl
  · rfl

theorem perform_flag : (call.perform family socket).peerDisconnected =
    (call.losesPeer || socket.peerDisconnected && !(call.renews && !call.forgets family)) := by
  cases call with
  | connect filled result =>
    cases family <;> rcases filled with _ | _ <;> rcases result with _ | _ <;>
      simp [SocketCall.perform, SocketFamily.connect, InternetSocket.connect, UnixSocket.connect,
        SocketCall.losesPeer, SocketCall.renews, SocketCall.forgets, Except.isOk, Except.toBool]
  | send attempts =>
    cases failed : attempts.result with
    | ok sent => simp [SocketCall.perform, socket.send_ok failed, SocketCall.losesPeer, failed, SocketCall.renews]
    | error errno =>
      rw [SocketCall.perform, socket.send_error failed]
      cases gone : errno.gone <;> simp [SocketCall.losesPeer, failed, gone, SocketCall.renews]
  | receive attempts =>
    have same : (socket.receive attempts).2 = socket := by
      unfold BaseSocket.receive
      split <;> rfl
    simp [SocketCall.perform, same, SocketCall.losesPeer, SocketCall.renews]
  | disconnect result =>
    rcases result with errno | _
    · rw [SocketCall.perform, socket.disconnect_error]
      by_cases reset : errno = .ECONNRESET
      · simp [reset, SocketCall.losesPeer, SocketCall.renews, SocketCall.forgets, Except.isOk, Except.toBool]
      · simp [reset, SocketCall.losesPeer, SocketCall.renews]
    · simp [SocketCall.perform, BaseSocket.disconnect, SocketCall.losesPeer, SocketCall.renews, SocketCall.forgets,
        Except.isOk, Except.toBool]

theorem not_lostPeer_nil : ¬LostPeer [] := by
  intro lost
  obtain ⟨before, call, after, shape, _⟩ := lost
  exact absurd shape (by simp)

theorem lostPeer_snoc : LostPeer (calls ++ [call]) ↔
    call.losesPeer = true ∨ LostPeer calls ∧ call.renews = false := by
  constructor
  · intro lost
    obtain ⟨before, loser, after, shape, loses, quiet⟩ := lost
    rcases List.eq_nil_or_concat after with empty | ⟨rest, last, ends⟩
    · subst empty
      obtain ⟨_, same⟩ := List.append_inj' shape rfl
      cases List.singleton_inj.mp same
      exact .inl loses
    · rw [ends, List.concat_eq_append] at shape quiet
      rw [← List.cons_append, ← List.append_assoc] at shape
      obtain ⟨earlier, same⟩ := List.append_inj' shape rfl
      cases List.singleton_inj.mp same
      refine .inr ⟨⟨before, loser, rest, earlier, loses, fun later member => ?_⟩, ?_⟩
      · exact quiet later (List.mem_append_left _ member)
      · exact quiet call (List.mem_append_right _ List.mem_cons_self)
  · intro either
    rcases either with loses | ⟨lost, quiet⟩
    · exact ⟨calls, call, [], rfl, loses, by simp⟩
    · obtain ⟨before, loser, after, shape, loses, earlier⟩ := lost
      refine ⟨before, loser, after ++ [call], by simp [shape], loses, fun later member => ?_⟩
      rcases List.mem_append.mp member with before | now
      · exact earlier later before
      · cases List.mem_singleton.mp now
        exact quiet

/-- From a flag that is right, a call leaves a right flag exactly when it does not forget a
lost peer. -/
theorem perform_tracks (right_ : socket.peerDisconnected = true ↔ LostPeer calls) :
    ((call.perform family socket).peerDisconnected = true ↔ LostPeer (calls ++ [call])) ↔
      (LostPeer calls → call.forgets family = false) := by
  rw [perform_flag, lostPeer_snoc]
  have forgetting : call.forgets family = true → call.renews = true ∧ call.losesPeer = false := by
    cases call with
    | connect filled result => simp +contextual [SocketCall.forgets, SocketCall.renews, SocketCall.losesPeer]
    | disconnect result =>
      rcases result with errno | _ <;>
        simp [SocketCall.forgets, SocketCall.renews, SocketCall.losesPeer, Except.isOk, Except.toBool]
    | send | receive => simp [SocketCall.forgets]
  cases loses : call.losesPeer <;> cases renews : call.renews <;> cases forgets : call.forgets family <;>
    simp_all

end Flag

/-- The flag tracks the connection after every call of a sequence exactly when no call of it
forgets a lost peer. -/
theorem peerDisconnected_tracks_iff (family : SocketFamily) (sockfd : Int) (calls : List SocketCall) :
    (∀ before, before <+: calls → ((performed family sockfd before).peerDisconnected = true ↔ LostPeer before)) ↔
      Throughout (fun before call => LostPeer before → call.forgets family = false) calls := by
  induction calls using List.reverseRecOn with
  | nil =>
    simp [performed, not_lostPeer_nil]
  | append_singleton calls call ih =>
    rw [throughout_snoc, ← ih]
    have last : performed family sockfd (calls ++ [call]) = call.perform family (performed family sockfd calls) := by
      simp [performed]
    constructor
    · intro all
      have earlier := fun before (part : before <+: calls) => all before (part.trans (List.prefix_append _ _))
      have now := all (calls ++ [call]) (List.prefix_refl _)
      rw [last] at now
      exact ⟨earlier, (perform_tracks (earlier calls (List.prefix_refl _))).mp now⟩
    · intro both before part
      obtain ⟨earlier, remembers⟩ := both
      rcases List.prefix_concat_iff.mp part with whole | shorter
      · rw [whole, last]
        exact (perform_tracks (earlier calls (List.prefix_refl _))).mpr remembers
      · exact earlier before shorter

def resetSend : SocketCall := .send ⟨[.error .ECONNRESET], .error .ECONNRESET, rfl⟩

/-- A new connection of a unix socket, and a disconnect that succeeds on a socket of either
family, leave the flag set. -/
theorem flag_stays_set :
    ¬((performed .unix 3 [resetSend, .connect (.ok ()) (.ok ())]).peerDisconnected = true ↔
      LostPeer [resetSend, .connect (.ok ()) (.ok ())]) ∧
    ¬((performed .internet 3 [resetSend, .disconnect (.ok ())]).peerDisconnected = true ↔
      LostPeer [resetSend, .disconnect (.ok ())]) := by
  have renewed (call : SocketCall) (renews : call.renews = true) (quiet : call.losesPeer = false) :
      ¬LostPeer [resetSend, call] := by
    intro lost
    have split : LostPeer ([resetSend] ++ [call]) := lost
    rcases lostPeer_snoc.mp split with loses | ⟨_, wrong⟩
    · cases quiet.symm.trans loses
    · cases renews.symm.trans wrong
  exact ⟨fun same => renewed _ rfl rfl (same.mp rfl), fun same => renewed _ rfl rfl (same.mp rfl)⟩

end CppRt.Socknet

import CppRt.Socknet.Syscall

/-!
The calls of base_socket and of its derived classes on a connected socket. What the
system calls come to is given; what is modelled is what each call returns or throws and
what it does to the object.
-/

namespace CppRt.Socknet

structure SocketException where
  message : String
  errorcode : Errno

structure BaseSocket where
  sockfd : Int
  peerDisconnected : Bool

/-- A repeated system call that has come to an end: its attempts, of which all but the last
have been interrupted. -/
structure Attempts (Value : Type*) where
  results : List (Except Errno Value)
  result : Except Errno Value
  ends : tempFailureRetry results = some result

def Attempts.once {Value : Type*} (result : Except Errno Value) (final : interrupted result = false) :
    Attempts Value where
  results := [result]
  result := result
  ends := by simp [tempFailureRetry, final]

/-- The int in which a datagram's `sendto` is kept: -1 of a call that failed. -/
def Attempts.sent (attempts : Attempts Nat) : BitVec 32 :=
  match attempts.result with
  | .ok sent => BitVec.ofNat 32 sent
  | .error _ => -1

def Attempts.errno (errno : Errno) (attempts : Attempts Nat) : Errno :=
  match attempts.result with
  | .ok _ => errno
  | .error number => number

/-- What follows from `sendto` in the sendTo of both datagram sockets: the whole buffer is one
message. The comparison is one of ints, `sent != (int)len`. -/
def datagramSent (errno : Errno) (len : Nat) (attempts : Attempts Nat) : Except SocketException Unit :=
  if attempts.sent ≠ BitVec.ofNat 32 len then .error ⟨"Send failed (sendto)", attempts.errno errno⟩ else .ok ()

-- a length that is -1 as an int, and a call that failed
example : datagramSent .EBADF 4294967295 (.once (.error .ECONNREFUSED) rfl) = .ok () := rfl

namespace BaseSocket

def ofHandle (errno : Errno) (sockfd : Int) : Except SocketException BaseSocket :=
  if sockfd < 0 then .error ⟨"Tried to initialize Socket with invalid Handle", errno⟩
  else .ok ⟨sockfd, false⟩

def send (socket : BaseSocket) (attempts : Attempts Nat) : Except SocketException Int × BaseSocket :=
  match attempts.result with
  | .ok sent => (.ok sent, socket)
  | .error .ECONNRESET => (.ok (-1), { socket with peerDisconnected := true })
  | .error .ECONNREFUSED => (.ok (-1), { socket with peerDisconnected := true })
  | .error errno => (.error ⟨"Send failed (send)", errno⟩, socket)

def receive (socket : BaseSocket) (attempts : Attempts Nat) : Except SocketException Int × BaseSocket :=
  match attempts.result with
  | .ok received => (.ok received, socket)
  | .error errno => (.error ⟨"Received failed (receive)", errno⟩, socket)

/-- The connect with AF_UNSPEC is not repeated. The flag is cleared where the connection
turns out to be reset, not where the connect succeeds. -/
def disconnect (socket : BaseSocket) (result : Except Errno Unit) : Except SocketException Unit × BaseSocket :=
  match result with
  | .ok () => (.ok (), socket)
  | .error .ECONNRESET => (.ok (), { socket with peerDisconnected := false })
  | .error errno => (.error ⟨"Disconnect failed (connect)", errno⟩, socket)

end BaseSocket

def InternetSocket.connect (socket : BaseSocket) (filled : Except SocketException Unit) (result : Except Errno Unit) :
    Except SocketException Unit × BaseSocket :=
  match filled, result with
  | .error exception, _ => (.error exception, socket)
  | .ok (), .error errno => (.error ⟨"Connect failed (connect)", errno⟩, socket)
  | .ok (), .ok () => (.ok (), { socket with peerDisconnected := false })

def UnixSocket.connect (socket : BaseSocket) (filled : Except SocketException Unit) (result : Except Errno Unit) :
    Except SocketException Unit × BaseSocket :=
  match filled, result with
  | .error exception, _ => (.error exception, socket)
  | .ok (), .error errno => (.error ⟨"Connect failed (connect)", errno⟩, socket)
  | .ok (), .ok () => (.ok (), socket)

def Errno.gone : Errno → Bool
  | .ECONNRESET => true
  | .ECONNREFUSED => true
  | _ => false

theorem BaseSocket.send_error (socket : BaseSocket) {attempts : Attempts Nat} {errno : Errno}
    (failed : attempts.result = .error errno) : socket.send attempts =
      if errno.gone then (.ok (-1), { socket with peerDisconnected := true })
      else (.error ⟨"Send failed (send)", errno⟩, socket) := by
  unfold send
  rw [failed]
  cases errno <;> rfl

theorem BaseSocket.send_ok (socket : BaseSocket) {attempts : Attempts Nat} {sent : Nat}
    (succeeded : attempts.result = .ok sent) : socket.send attempts = (.ok (sent : Int), socket) := by
  unfold send
  rw [succeeded]

theorem BaseSocket.disconnect_error (socket : BaseSocket) {errno : Errno} :
    socket.disconnect (.error errno) =
      if errno = .ECONNRESET then (.ok (), { socket with peerDisconnected := false })
      else (.error ⟨"Disconnect failed (connect)", errno⟩, socket) := by
  cases errno <;> rfl

section Datagrams
variable {attempts : Attempts Nat} {errno : Errno} {len : Nat}

/-- Below the length that is -1, sendTo returns exactly where the kernel took the whole of it. -/
theorem datagramSent_iff (small : len < 4294967295) (offered : ∀ sent, attempts.result = .ok sent → sent ≤ len) :
    datagramSent errno len attempts = .ok () ↔ attempts.result = .ok len := by
  have returns : datagramSent errno len attempts = .ok () ↔ attempts.sent = BitVec.ofNat 32 len := by
    unfold datagramSent
    by_cases same : attempts.sent = BitVec.ofNat 32 len
    · rw [if_neg (fun wrong => wrong same)]
      exact ⟨fun _ => same, fun _ => rfl⟩
    · rw [if_pos same]
      exact ⟨fun wrong => (by cases wrong), fun wrong => absurd wrong same⟩
  rw [returns, Attempts.sent]
  cases result : attempts.result with
  | ok sent =>
    have most := offered sent result
    constructor
    · intro same
      have value := congrArg BitVec.toNat same
      rw [BitVec.toNat_ofNat, BitVec.toNat_ofNat, Nat.mod_eq_of_lt (by omega), Nat.mod_eq_of_lt (by omega)] at value
      rw [value]
    · intro same
      cases same
      rfl
  | error number =>
    constructor
    · intro same
      have value := congrArg BitVec.toNat same
      rw [BitVec.toNat_ofNat, Nat.mod_eq_of_lt (by omega)] at value
      have minus : (-1 : BitVec 32).toNat = 2 ^ 32 - 1 := rfl
      dsimp only at value
      omega
    · intro wrong
      cases wrong

end Datagrams

section Returns
variable (socket : BaseSocket) {attempts : Attempts Nat} {result : Except Errno Unit}

theorem BaseSocket.send_returns (tolerated : ∀ errno, attempts.result = .error errno → errno.gone = true) :
    ∃ value after, socket.send attempts = (.ok value, after) := by
  cases failed : attempts.result with
  | ok sent => exact ⟨_, _, socket.send_ok failed⟩
  | error errno =>
    rw [socket.send_error failed, if_pos (tolerated errno failed)]
    exact ⟨_, _, rfl⟩

theorem BaseSocket.send_throws (fatal : ¬∀ errno, attempts.result = .error errno → errno.gone = true) :
    ∃ exception, socket.send attempts = (.error exception, socket) := by
  simp only [not_forall] at fatal
  obtain ⟨errno, failed, stays⟩ := fatal
  exact ⟨_, by rw [socket.send_error failed, if_neg stays]⟩

theorem BaseSocket.disconnect_returns (tolerated : ∀ errno, result = .error errno → errno = .ECONNRESET) :
    ∃ after, socket.disconnect result = (.ok (), after) := by
  cases result with
  | ok => exact ⟨_, rfl⟩
  | error errno =>
    rw [socket.disconnect_error, if_pos (tolerated errno rfl)]
    exact ⟨_, rfl⟩

theorem BaseSocket.disconnect_throws (fatal : ¬∀ errno, result = .error errno → errno = .ECONNRESET) :
    ∃ exception, socket.disconnect result = (.error exception, socket) := by
  simp only [not_forall] at fatal
  obtain ⟨errno, failed, other⟩ := fatal
  subst failed
  exact ⟨_, by rw [socket.disconnect_error, if_neg other]⟩

end Returns

end CppRt.Socknet

import CppRt.Socknet.BaseSocket
import CppRt.Socknet.UnixAddress

/-!
The calls of unix_datagram_socket that carry an address. The datagrams that arrive are far
shorter than INT_MAX bytes, so the conversion to int keeps their lengths.
-/

namespace CppRt.Socknet

/-- The name of a socket in the file system. It may fill sun_path to its last byte, which the
library itself does not let happen. -/
structure Pathname where
  bytes : Bytes
  fits : bytes.length ≤ sunPathSize
  ended : 0 ∉ bytes
  named : bytes ≠ []

/-- What recvfrom reports of the sender: of a socket without a name, nothing at all. -/
def reportSender : Option Pathname → Reported
  | none => ⟨[], 0⟩
  | some path => ⟨path.bytes ++ [0], familySize + BitVec.ofNat 64 (path.bytes.length + 1)⟩

/-- An exception of the library, or std::length_error, which is none. -/
inductive Thrown where
  | socketException (exception : SocketException)
  | lengthError

namespace UnixDatagramSocket

def sendTo (errno : Errno) (len : Nat) (foreignPath : Bytes) (attempts : Attempts Nat) : Except Thrown Unit :=
  match fillAddress foreignPath with
  | none => .error (.socketException ⟨"Path to socket file is too long", errno⟩)
  | some _ => (datagramSent errno len attempts).mapError .socketException

def receiveFrom (clientAddr : Reported) (attempts : Attempts Nat) : Except Thrown (Nat × Bytes) :=
  match attempts.result with
  | .error errno => .error (.socketException ⟨"Receive failed (recvfrom)", errno⟩)
  | .ok received => match extractPath clientAddr with
    | none => .error .lengthError
    | some sourcePath => .ok (received, sourcePath)

variable {attempts : Attempts Nat} {errno : Errno} {len received : Nat} {foreignPath : Bytes} {destAddr : SunPath}

theorem sendTo_returns (filled : fillAddress foreignPath = some destAddr)
    (returned : datagramSent errno len attempts = .ok ()) : sendTo errno len foreignPath attempts = .ok () := by
  simp only [sendTo, filled, returned]
  rfl

theorem sendTo_fails (fails : fillAddress foreignPath = none ∨ datagramSent errno len attempts ≠ .ok ()) :
    ∃ exception, sendTo errno len foreignPath attempts = .error (.socketException exception) := by
  cases filled : fillAddress foreignPath with
  | none => exact ⟨_, by rw [sendTo, filled]⟩
  | some destAddr =>
    cases sent : datagramSent errno len attempts with
    | ok =>
      cases fails with
      | inl tooLong => cases filled.symm.trans tooLong
      | inr short => exact absurd sent short
    | error exception =>
      refine ⟨exception, ?_⟩
      simp only [sendTo, filled, sent]
      rfl

theorem receiveFrom_fails {clientAddr : Reported} (failed : attempts.result = .error errno) :
    receiveFrom clientAddr attempts = .error (.socketException ⟨"Receive failed (recvfrom)", errno⟩) := by
  rw [receiveFrom, failed]

theorem receiveFrom_bound (path : Pathname) (returned : attempts.result = .ok received) :
    receiveFrom (reportSender (some path)) attempts = .ok (received, path.bytes) := by
  have extracted : extractPath (reportSender (some path)) = some path.bytes := extractPath_named path.fits
  rw [receiveFrom, returned]
  simp only [extracted]

/-- A datagram from a socket without a name throws what the library does not. -/
theorem receiveFrom_unbound (returned : attempts.result = .ok received) :
    receiveFrom (reportSender none) attempts = .error .lengthError := by
  have nothing : extractPath (reportSender none) = none := by decide
  rw [receiveFrom, returned]
  simp only [nothing]

end UnixDatagramSocket

end CppRt.Socknet

import CppRt.Library.Decimal
import CppRt.Socknet.ResolveHostname

/-!
The addresses that internet_socket and udp_socket hand out as text: inet_ntoa writes what
inet_aton reads, so that the answer to a datagram goes to where it came from.
-/

namespace CppRt.Socknet
open Library.Decimal

def inetNtoa (addr : InAddr) : Bytes :=
  decimal addr.a.toNat ++ 46 :: (decimal addr.b.toNat ++ 46 :: (decimal addr.c.toNat ++ 46 :: decimal addr.d.toNat))

def ntohs (port : UInt8 × UInt8) : UInt16 := UInt16.ofNat (port.1.toNat * 256 + port.2.toNat)

namespace InternetSocket

def getLocalAddress (result : Except Errno SockaddrIn) : Except SocketException Bytes :=
  match result with
  | .error errno => .error ⟨"Fetch of local address failed (getsockname)", errno⟩
  | .ok addr => .ok (inetNtoa addr.sin_addr)

def getLocalPort (result : Except Errno SockaddrIn) : Except SocketException UInt16 :=
  match result with
  | .error errno => .error ⟨"Fetch of local port failed (getsockname)", errno⟩
  | .ok addr => .ok (ntohs addr.sin_port)

def getForeignAddress (result : Except Errno SockaddrIn) : Except SocketException Bytes :=
  match result with
  | .error errno => .error ⟨"Fetch of foreign address failed (getpeername)", errno⟩
  | .ok addr => .ok (inetNtoa addr.sin_addr)

def getForeignPort (result : Except Errno SockaddrIn) : Except SocketException UInt16 :=
  match result with
  | .error errno => .error ⟨"Fetch of foreign port failed (getpeername)", errno⟩
  | .ok addr => .ok (ntohs addr.sin_port)

end InternetSocket

namespace UdpSocket

/-- `sendto` is what the call comes to for a destination; `destAddr` is what the variable of
that name holds at first. -/
def sendTo (resolver : Resolver) (errno : Errno) (len : Nat) (foreignAddress : Bytes) (foreignPort : UInt16)
    (destAddr : SockaddrIn) (sendto : SockaddrIn → Attempts Nat) : Except SocketException Unit :=
  match InternetSocket.fillAddress resolver errno foreignAddress foreignPort destAddr with
  | .error exception => .error exception
  | .ok destAddr => datagramSent errno len (sendto destAddr)

def receiveFrom (clientAddr : SockaddrIn) (attempts : Attempts Nat) : Except SocketException (Nat × Bytes × UInt16) :=
  match attempts.result with
  | .error errno => .error ⟨"Receive failed (recvfrom)", errno⟩
  | .ok ret => .ok (ret, inetNtoa clientAddr.sin_addr, ntohs clientAddr.sin_port)

end UdpSocket

-- "10.0.0.255"
example : inetNtoa ⟨10, 0, 0, 255⟩ = [49, 48, 46, 48, 46, 48, 46, 50, 53, 53] := by decide

section Numbers
variable {value left word n : Nat} {rest : Bytes}

theorem digits_ten (value : Nat) (cp : Bytes) : digits 10 value cp = scanDigits value cp := by
  induction cp generalizing value with
  | nil => rfl
  | cons c cp ih =>
    rw [digits, scanDigits]
    by_cases digit : Library.Decimal.isDigit c = true
    · have range : 48 ≤ c && c ≤ 57 := digit
      have number : digitValue c = c.toNat - 48 := by
        rw [digitValue, if_pos range]
      have small : digitValue c < 10 := by
        simp only [Bool.and_eq_true, decide_eq_true_eq, UInt8.le_iff_toNat_le, UInt8.reduceToNat] at range
        omega
      rw [if_pos digit, if_pos small, ih, number]
    · have other : ¬(48 ≤ c && c ≤ 57) = true := digit
      have large : ¬digitValue c < 10 := by
        unfold digitValue
        rw [if_neg other]
        split
        · next letter =>
          simp only [Bool.and_eq_true, decide_eq_true_eq, UInt8.le_iff_toNat_le, UInt8.reduceToNat] at letter
          omega
        · split
          · next letter =>
            simp only [Bool.and_eq_true, decide_eq_true_eq, UInt8.le_iff_toNat_le, UInt8.reduceToNat] at letter
            omega
          · decide
      rw [if_neg digit, if_neg large]

theorem strtoul_decimal (n : Nat) (stops : rest = [] ∨ ∃ more, rest = 46 :: more) :
    strtoul (decimal n ++ rest) = (n, rest) := by
  have last : (rest.head?.map Library.Decimal.isDigit).getD false = false := by
    cases stops with
    | inl ended => rw [ended]; rfl
    | inr dot =>
      obtain ⟨more, rfl⟩ := dot
      rfl
  by_cases zero : n = 0
  · subst zero
    cases stops with
    | inl ended =>
      subst ended
      rfl
    | inr dot =>
      obtain ⟨more, rfl⟩ := dot
      cases more <;> rfl
  · obtain ⟨first, digits_, shown, digit⟩ := decimal_head (n := n)
    have head := decimal_head_ne_zero (Nat.pos_of_ne_zero zero)
    have other : first ≠ 48 := by
      rw [shown] at head
      exact fun same => head (congrArg some same)
    have read := scanDigits_decimal (n := n) last
    rw [← digits_ten] at read
    rw [shown, List.cons_append] at read ⊢
    unfold strtoul
    split
    · next same => exact absurd (List.cons.inj same).1 other
    · next same => exact absurd (List.cons.inj same).1 other
    · exact read

theorem begins_decimal (n : Nat) (rest : Bytes) : ((decimal n ++ rest).head?.map Socknet.isDigit).getD false = true := by
  obtain ⟨first, digits, shown, digit⟩ := decimal_head (n := n)
  rw [shown]
  exact digit

theorem inetParts_dot (small : n < 256) :
    inetParts (left + 1) word (decimal n ++ 46 :: rest) = inetParts left (word * 256 + n) rest := by
  have fits : n ≤ 255 := Nat.le_of_lt_succ small
  conv_lhs => unfold inetParts
  rw [if_pos (begins_decimal n _), strtoul_decimal n (.inr ⟨rest, rfl⟩)]
  exact if_pos fits

theorem inetParts_last (small : n < 256) : inetParts 0 word (decimal n) = some (word * 256 + n) := by
  have read := strtoul_decimal n (.inl rfl)
  have begins := begins_decimal n []
  rw [List.append_nil] at read begins
  unfold inetParts
  rw [if_pos begins, read]
  simp only [List.head?_nil, Option.map_none, Option.getD_none, Bool.true_and, decide_eq_true_eq]
  exact if_pos small

theorem inetAton_inetNtoa (addr : InAddr) : inetAton (inetNtoa addr) = some addr := by
  have a := addr.a.toNat_lt
  have b := addr.b.toNat_lt
  have c := addr.c.toNat_lt
  have d := addr.d.toNat_lt
  rw [inetAton, inetNtoa, inetParts_dot a, inetParts_dot b, inetParts_dot c, inetParts_last d, Option.map_some,
    Option.some.injEq]
  cases addr
  simp only [InAddr.ofNat, InAddr.mk.injEq, ← UInt8.toNat_inj, UInt8.toNat_ofNat'] at a b c d ⊢
  omega

end Numbers

section Replies
variable {resolver : Resolver} {errno : Errno} {attempts : Attempts Nat} {ret : Nat}

theorem inetNtoa_ended (addr : InAddr) : 0 ∉ inetNtoa addr := by
  have plain (n : Nat) (within : (0 : UInt8) ∈ decimal n) : False := by
    cases isDigit_of_decimal within
  intro within
  simp only [inetNtoa, List.mem_append, List.mem_cons] at within
  obtain a | dot | b | dot | c | dot | d := within
  · exact plain _ a
  · cases dot
  · exact plain _ b
  · cases dot
  · exact plain _ c
  · cases dot
  · exact plain _ d

theorem htons_ntohs (port : UInt8 × UInt8) : htons (ntohs port) = port := by
  obtain ⟨high, low⟩ := port
  have first := high.toNat_lt
  have second := low.toNat_lt
  have whole : (ntohs (high, low)).toNat = high.toNat * 256 + low.toNat := by
    rw [ntohs, UInt16.toNat_ofNat', Nat.mod_eq_of_lt (by show high.toNat * 256 + low.toNat < 2 ^ 16; omega)]
  simp only [htons, Prod.mk.injEq, ← UInt8.toNat_inj, UInt16.toNat_toUInt8, UInt16.toNat_shiftRight, whole]
  constructor
  · show ((high.toNat * 256 + low.toNat) >>> 8) % 2 ^ 8 = high.toNat
    rw [Nat.shiftRight_eq_div_pow]
    omega
  · omega

theorem fillAddress_inetNtoa (addr : InAddr) (port : UInt8 × UInt8) (stack : SockaddrIn) :
    InternetSocket.fillAddress resolver errno (inetNtoa addr) (ntohs port) stack =
      .ok ⟨AF_INET, port, addr, stack.sin_zero⟩ := by
  have string : cString (inetNtoa addr) = inetNtoa addr := cString_eq (inetNtoa_ended addr)
  unfold InternetSocket.fillAddress
  rw [string, inetAton_inetNtoa, htons_ntohs]

/-- What receiveFrom reports of a datagram brings the answer to the address and the port that
it came from, whatever names the resolver knows and whatever is in the variables. -/
theorem reply_reaches (resolver : Resolver) (errno : Errno) (clientAddr : SockaddrIn)
    (returned : attempts.result = .ok ret) :
    ∃ sourceAddress sourcePort, UdpSocket.receiveFrom clientAddr attempts = .ok (ret, sourceAddress, sourcePort) ∧
      ∀ len destAddr sendto, UdpSocket.sendTo resolver errno len sourceAddress sourcePort destAddr sendto =
        datagramSent errno len (sendto ⟨AF_INET, clientAddr.sin_port, clientAddr.sin_addr, destAddr.sin_zero⟩) := by
  refine ⟨inetNtoa clientAddr.sin_addr, ntohs clientAddr.sin_port, ?_, ?_⟩
  · rw [UdpSocket.receiveFrom, returned]
  · intro len destAddr sendto
    rw [UdpSocket.sendTo, fillAddress_inetNtoa]

-- a resolver that knows a name, and a datagram from 10.0.0.255
theorem reply_reaches_answer : ∃ sourceAddress sourcePort,
    UdpSocket.receiveFrom ⟨AF_INET, (31, 144), ⟨10, 0, 0, 255⟩, []⟩ (.once (.ok 5) rfl) = .ok (5, sourceAddress, sourcePort) ∧
      ∀ len destAddr sendto,
        UdpSocket.sendTo (hosts [97, 98, 99] ⟨97, 98, 99, 0⟩) .EINTR len sourceAddress sourcePort destAddr sendto =
          datagramSent .EINTR len (sendto ⟨AF_INET, (31, 144), ⟨10, 0, 0, 255⟩, destAddr.sin_zero⟩) :=
  reply_reaches (hosts [97, 98, 99] ⟨97, 98, 99, 0⟩) .EINTR ⟨AF_INET, (31, 144), ⟨10, 0, 0, 255⟩, []⟩ rfl

/-- Two sockets that report their addresses: what the one gets of its peer is what the other
one has of itself, and connect and bind fill it again. -/
theorem reported_fills (resolver : Resolver) (errno : Errno) (addr stack : SockaddrIn) :
    ∃ address port, InternetSocket.getLocalAddress (.ok addr) = .ok address ∧
      InternetSocket.getLocalPort (.ok addr) = .ok port ∧ InternetSocket.getForeignAddress (.ok addr) = .ok address ∧
      InternetSocket.getForeignPort (.ok addr) = .ok port ∧
      InternetSocket.fillAddress resolver errno address port stack = .ok ⟨AF_INET, addr.sin_port, addr.sin_addr, stack.sin_zero⟩ :=
  ⟨_, _, rfl, rfl, rfl, rfl, fillAddress_inetNtoa _ _ _⟩

end Replies

end CppRt.Socknet

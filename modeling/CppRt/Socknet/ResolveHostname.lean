import CppRt.Socknet.BaseSocket
import CppRt.Socknet.InetAton

/-!
The two functions that look a host name up. Both get the four bytes of its address from
gethostbyname; fillAddress copies them to the sockaddr_in, resolveHostname makes a std::string
of them as if they were a C string. An address given in numbers is read by inet_aton first.
-/

namespace CppRt.Socknet

/-- gethostbyname: the address of a host name. A name in numbers has no other address than that. -/
structure Resolver where
  gethostbyname : Bytes → Option InAddr
  numbers : ∀ name addr host, inetAton name = some addr → gethostbyname name = some host → host = addr

def AF_INET : Int := 2

structure SockaddrIn where
  sin_family : Int
  sin_port : UInt8 × UInt8
  sin_addr : InAddr
  sin_zero : Bytes

def htons (port : UInt16) : UInt8 × UInt8 := ((port >>> 8).toUInt8, port.toUInt8)

/-- The string that begins at h_addr; `none` where it goes on past the address. -/
def stringAt (host : InAddr) : Option Bytes :=
  if 0 ∈ host.bytes then some (cString host.bytes) else none

def resolveHostname (resolver : Resolver) (errno : Errno) (hostname : Bytes) :
    Except SocketException (Option Bytes) :=
  match resolver.gethostbyname (cString hostname) with
  | none => .error ⟨"Failed to resolve address (gethostbyname)", errno⟩
  | some host => .ok (stringAt host)

def InternetSocket.fillAddress (resolver : Resolver) (errno : Errno) (address : Bytes) (port : UInt16)
    (addr : SockaddrIn) : Except SocketException SockaddrIn :=
  let addr := { addr with sin_family := AF_INET, sin_port := htons port }
  match inetAton (cString address) with
  | some sin_addr => .ok { addr with sin_addr }
  | none =>
    match resolver.gethostbyname (cString address) with
    | none => .error ⟨"Failed to resolve address (gethostbyname)", errno⟩
    | some sin_addr => .ok { addr with sin_addr }

/-- What resolveHostname returns for a host name is an address that can be used for it. -/
def Agrees (resolver : Resolver) (hostname : Bytes) : Prop :=
  ∀ errno, ∃ resolved, resolveHostname resolver errno hostname = .ok (some resolved) ∧
    ∀ port addr, InternetSocket.fillAddress resolver errno resolved port addr =
      InternetSocket.fillAddress resolver errno hostname port addr

section Resolver
variable {resolver : Resolver} {hostname address : Bytes} {host : InAddr} {errno : Errno} {port : UInt16}
variable {addr : SockaddrIn}

theorem cString_cString (bytes : Bytes) : cString (cString bytes) = cString bytes := by
  apply cString_eq
  intro member
  have kept := List.mem_takeWhile_imp member
  simp at kept

theorem fillAddress_resolves (resolves : resolver.gethostbyname (cString address) = some host) :
    InternetSocket.fillAddress resolver errno address port addr =
      .ok { addr with sin_family := AF_INET, sin_port := htons port, sin_addr := host } := by
  unfold InternetSocket.fillAddress
  cases numeric : inetAton (cString address) with
  | some number =>
    rw [resolver.numbers _ _ _ numeric resolves]
  | none =>
    simp only [resolves]

theorem inetAton_cString (null : 0 ∈ host.bytes) : inetAton (cString host.bytes) ≠ some host := by
  intro numeric
  have short : (cString host.bytes).length ≤ 3 := by
    have shorter : (cString host.bytes).length < host.bytes.length := by
      apply Nat.lt_of_le_of_ne (List.takeWhile_prefix _).length_le
      intro whole
      have all := (List.takeWhile_prefix _).eq_of_length whole
      rw [← all] at null
      have kept := List.mem_takeWhile_imp null
      simp at kept
    exact Nat.le_of_lt_succ shorter
  apply inetAton_short short numeric
  have begins : cString host.bytes ≠ [] := by
    intro empty
    rw [empty] at numeric
    cases numeric
  cases host with
  | mk a b c d =>
    by_cases zero : a = 0
    · subst zero
      exact absurd rfl begins
    · simp [cString, InAddr.bytes, zero]

theorem resolveHostname_resolves (resolves : resolver.gethostbyname (cString hostname) = some host) :
    resolveHostname resolver errno hostname = .ok (stringAt host) := by
  simp only [resolveHostname, resolves]

/-- What resolveHostname returns can be used for the host exactly when a host of that name,
which is none in numbers, has the same address. -/
theorem agrees_iff (resolves : resolver.gethostbyname (cString hostname) = some host) :
    Agrees resolver hostname ↔ 0 ∈ host.bytes ∧ inetAton (cString host.bytes) = none ∧
      resolver.gethostbyname (cString host.bytes) = some host := by
  constructor
  · intro agrees
    obtain ⟨resolved, returned, fills⟩ := agrees .EINTR
    rw [resolveHostname_resolves resolves] at returned
    have string : stringAt host = some resolved := Except.ok.inj returned
    have null : 0 ∈ host.bytes := by
      by_contra absent
      rw [stringAt, if_neg absent] at string
      cases string
    rw [stringAt, if_pos null] at string
    obtain rfl := Option.some.inj string
    have same := fills 0 ⟨0, (0, 0), host, []⟩
    rw [fillAddress_resolves resolves, InternetSocket.fillAddress, cString_cString] at same
    cases numeric : inetAton (cString host.bytes) with
    | some number =>
      rw [numeric] at same
      cases same
      exact absurd numeric (inetAton_cString null)
    | none =>
      refine ⟨null, rfl, ?_⟩
      rw [numeric] at same
      cases known : resolver.gethostbyname (cString host.bytes) with
      | none =>
        rw [known] at same
        cases same
      | some other =>
        rw [known] at same
        cases same
        rfl
  · intro namesake errno
    obtain ⟨null, _, named⟩ := namesake
    refine ⟨cString host.bytes, ?_, ?_⟩
    · rw [resolveHostname_resolves resolves, stringAt, if_pos null]
    · intro port addr
      rw [← cString_cString] at named
      rw [fillAddress_resolves named, fillAddress_resolves resolves]

end Resolver

def hosts (name : Bytes) (host : InAddr) : Resolver where
  gethostbyname asked := (inetAton asked).or (if asked = name then some host else none)
  numbers := by
    intro name addr host numeric found
    rw [numeric] at found
    cases found
    rfl

/-- A host with the name abc at the address 97.98.99.0, whose first bytes are these letters. -/
theorem agrees_iff_namesake : Agrees (hosts [97, 98, 99] ⟨97, 98, 99, 0⟩) [97, 98, 99] := by
  have resolves : (hosts [97, 98, 99] ⟨97, 98, 99, 0⟩).gethostbyname (cString [97, 98, 99]) = some ⟨97, 98, 99, 0⟩ := by
    decide
  exact (agrees_iff resolves).mpr (by decide)

theorem localhost_not_agrees :
    ¬Agrees (hosts [108, 111, 99, 97, 108, 104, 111, 115, 116] ⟨127, 0, 0, 1⟩)
      [108, 111, 99, 97, 108, 104, 111, 115, 116] := by
  intro agrees
  obtain ⟨resolved, returned, fills⟩ := agrees .EINTR
  have string : stringAt ⟨127, 0, 0, 1⟩ = some resolved := Except.ok.inj returned
  obtain rfl : [127] = resolved := Option.some.inj string
  have filled := fills 80 ⟨0, (0, 0), ⟨0, 0, 0, 0⟩, []⟩
  cases filled

end CppRt.Socknet

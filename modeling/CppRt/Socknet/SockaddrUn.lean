import CppRt.Socknet.UnixDatagramSocket

/-!
The functions of unix_socket on the struct sockaddr_un itself: fillAddress writes a C
string into a buffer that holds whatever it held before, and extractPath recovers the
path from the buffer by a length that the kernel has reported, in unsigned arithmetic.
Writing or reading outside sun_path has no result here. Where these functions have one
they come to what the addresses without a buffer say.
-/

namespace CppRt.Socknet.SockaddrUn

structure Buffer where
  sun_family : BitVec 16
  sun_path : Bytes
  size : sun_path.length = sunPathSize

def afUnix : BitVec 16 := 1

def Buffer.name (addr : Buffer) : Bytes := cString addr.sun_path

/-- The length of an address with a path as the kernel reports it:
`sizeof(sa_family_t) + strlen(sun_path) + 1`. -/
def Buffer.pathLength (addr : Buffer) : BitVec 32 := BitVec.ofNat 32 (2 + addr.name.length + 1)

/-- Byte by byte up to the null byte; `none` where it would write past the end. -/
def strcpy : Bytes → Bytes → Option Bytes
  | [], _ => none
  | _ :: dest, [] => some (0 :: dest)
  | _ :: dest, byte :: src => if byte = 0 then some (0 :: dest) else (strcpy dest src).map (byte :: ·)

theorem strcpy_length {dest src copied : Bytes} (fits : strcpy dest src = some copied) :
    copied.length = dest.length := by
  induction dest generalizing src copied with
  | nil => cases fits
  | cons first dest ih =>
    cases src with
    | nil =>
      cases fits
      rfl
    | cons byte src =>
      unfold strcpy at fits
      split at fits
      · cases fits
        rfl
      · obtain ⟨rest, inner, rfl⟩ := Option.map_eq_some_iff.mp fits
        exact congrArg (· + 1) (ih inner)

theorem not_mem_cString (bytes : Bytes) : 0 ∉ cString bytes := by
  intro member
  have kept := List.mem_takeWhile_imp member
  simp at kept

theorem cString_append {bytes : Bytes} (ended : 0 ∉ bytes) (rest : Bytes) : cString (bytes ++ 0 :: rest) = bytes := by
  unfold cString
  rw [List.takeWhile_append_of_pos (fun byte member => by
    have different : byte ≠ 0 := fun same => ended (same ▸ member)
    simpa using different)]
  simp

theorem take_cString (bytes : Bytes) : bytes.take (cString bytes).length = cString bytes :=
  (List.prefix_iff_eq_take.mp (List.takeWhile_prefix _)).symm

theorem strcpy_eq {dest src : Bytes} (fits : (cString src).length < dest.length) :
    strcpy dest src = some (cString src ++ 0 :: dest.drop ((cString src).length + 1)) := by
  induction dest generalizing src with
  | nil => cases fits
  | cons first dest ih =>
    cases src with
    | nil => rfl
    | cons byte src =>
      unfold strcpy
      by_cases ends : byte = 0
      · simp [ends, cString]
      · have more : cString (byte :: src) = byte :: cString src := by simp [cString, ends]
        rw [more] at fits ⊢
        rw [if_neg ends, ih (Nat.lt_of_succ_lt_succ fits)]
        rfl

def fillAddress (errno : Errno) (path : Bytes) (addr : Buffer) : Option (Except SocketException Unit × Buffer) :=
  -- needed space is size plus null character
  if sunPathSize ≤ path.length then some (.error ⟨"Path to socket file is too long", errno⟩, addr)
  else match copied : strcpy addr.sun_path path with
    | none => none
    | some sun_path => some (.ok (), ⟨afUnix, sun_path, (strcpy_length copied).trans addr.size⟩)

/-- The length is a 32-bit socklen_t, the subtraction one of size_t. -/
def extractPath (addr : Buffer) (len : BitVec 32) : Option (Except Thrown Bytes) :=
  let count := len.setWidth 64 - familySize - 1
  if maxSize < count then some (.error .lengthError)
  else if sunPathSize < count.toNat then none
  else some (.ok (addr.sun_path.take count.toNat))

def destroy (errno : Errno) (reported : Buffer) (len : BitVec 32) (addr : Buffer) : Option (Except Thrown Bytes) :=
  match extractPath reported len with
  | none => none
  | some (.error thrown) => some (.error thrown)
  | some (.ok path) => match fillAddress errno path addr with
    | none => none
    | some (.error exception, _) => some (.error (.socketException exception))
    | some (.ok (), addr) => some (.ok addr.name)

def sendTo (errno : Errno) (len : Nat) (foreignPath : Bytes) (destAddr : Buffer) (attempts : Attempts Nat) :
    Option (Option Buffer × Except Thrown Unit) :=
  match fillAddress errno foreignPath destAddr with
  | none => none
  | some (.error exception, _) => some (none, .error (.socketException exception))
  | some (.ok (), destAddr) => some (some destAddr, (datagramSent errno len attempts).mapError .socketException)

def receiveFrom (clientAddr : Buffer) (addr_len : BitVec 32) (attempts : Attempts Nat) :
    Option (Except Thrown (Nat × Bytes)) :=
  match attempts.result with
  | .error errno => some (.error (.socketException ⟨"Receive failed (recvfrom)", errno⟩))
  | .ok received => match extractPath clientAddr addr_len with
    | none => none
    | some (.error thrown) => some (.error thrown)
    | some (.ok sourcePath) => some (.ok (received, sourcePath))

section Fill
variable {errno : Errno} {path : Bytes} {addr filled : Buffer}

theorem fillAddress_long (errno : Errno) (addr : Buffer) (long : sunPathSize ≤ path.length) :
    fillAddress errno path addr = some (.error ⟨"Path to socket file is too long", errno⟩, addr) := if_pos long

theorem fillAddress_short (errno : Errno) (addr : Buffer) (short : path.length < sunPathSize) :
    ∃ filled, fillAddress errno path addr = some (.ok (), filled) ∧ filled.sun_family = afUnix ∧
      filled.name = cString path := by
  have prefixed : (cString path).length ≤ path.length := (List.takeWhile_prefix _).length_le
  have fits := @strcpy_eq addr.sun_path path (by rw [addr.size]; omega)
  unfold fillAddress
  rw [if_neg (by omega)]
  split
  next absent => cases absent.symm.trans fits
  next sun_path copied =>
    refine ⟨_, rfl, rfl, ?_⟩
    obtain rfl := Option.some.inj (copied.symm.trans fits)
    exact cString_append (not_mem_cString path) _

theorem fillAddress_agrees (errno : Errno) (path : Bytes) (addr : Buffer) :
    match Socknet.fillAddress path with
    | none => fillAddress errno path addr = some (.error ⟨"Path to socket file is too long", errno⟩, addr)
    | some destination => ∃ filled, fillAddress errno path addr = some (.ok (), filled) ∧
        filled.sun_family = afUnix ∧ filled.name = destination.bytes := by
  by_cases short : path.length < sunPathSize
  · rw [Socknet.fillAddress_short short]
    exact fillAddress_short errno addr short
  · rw [Socknet.fillAddress, dif_neg short]
    exact fillAddress_long errno addr (Nat.le_of_not_lt short)

end Fill

section Extract
variable {addr : Buffer} {len : BitVec 32} {errno : Errno} {attempts : Attempts Nat}

theorem name_length (addr : Buffer) : addr.name.length ≤ sunPathSize := by
  rw [← addr.size]
  exact (List.takeWhile_prefix _).length_le

theorem extractPath_counted (counted : 3 ≤ len.toNat) (within : len.toNat ≤ 3 + sunPathSize) :
    extractPath addr len = some (.ok (addr.sun_path.take (len.toNat - 3))) := by
  unfold sunPathSize at within
  have count : (len.setWidth 64 - familySize - 1).toNat = len.toNat - 3 := by
    unfold familySize
    bv_omega
  have small : ¬maxSize < len.setWidth 64 - familySize - 1 := by
    unfold maxSize familySize
    bv_omega
  have inside : ¬sunPathSize < len.toNat - 3 := by
    unfold sunPathSize
    omega
  simp only [extractPath, if_neg small, count, if_neg inside]

theorem extractPath_pathLength (addr : Buffer) : extractPath addr addr.pathLength = some (.ok addr.name) := by
  have bound := name_length addr
  unfold sunPathSize at bound
  have value : addr.pathLength.toNat = addr.name.length + 3 := by
    unfold Buffer.pathLength
    bv_omega
  rw [extractPath_counted (by omega) (by unfold sunPathSize; omega), value, Nat.add_sub_cancel]
  have taken : addr.sun_path.take addr.name.length = addr.name := take_cString addr.sun_path
  rw [taken]

theorem extractPath_short (short : len.toNat < 3) : extractPath addr len = some (.error .lengthError) := by
  have large : maxSize < len.setWidth 64 - familySize - 1 := by
    unfold maxSize familySize
    bv_omega
  simp only [extractPath, if_pos large]

theorem extractPath_agrees {result : Except Thrown Bytes} (defined : extractPath addr len = some result) :
    Socknet.extractPath ⟨addr.sun_path, len.setWidth 64⟩ = result.toOption := by
  simp only [extractPath, Socknet.extractPath] at defined ⊢
  split at defined
  next large =>
    cases defined
    exact if_pos large
  next small =>
    split at defined
    · cases defined
    · cases defined
      exact if_neg small

theorem extractPath_error {thrown : Thrown} (threw : extractPath addr len = some (.error thrown)) :
    thrown = .lengthError := by
  simp only [extractPath] at threw
  split at threw
  · cases threw
    rfl
  · split at threw <;> cases threw

theorem receiveFrom_agrees {result : Except Thrown (Nat × Bytes)}
    (defined : receiveFrom addr len attempts = some result) :
    UnixDatagramSocket.receiveFrom ⟨addr.sun_path, len.setWidth 64⟩ attempts = result := by
  unfold receiveFrom at defined
  unfold UnixDatagramSocket.receiveFrom
  cases returned : attempts.result with
  | error errno =>
    rw [returned] at defined
    exact Option.some.inj defined
  | ok received =>
    rw [returned] at defined
    dsimp only at defined ⊢
    split at defined
    next => cases defined
    next thrown extracted =>
      rw [extractPath_agrees extracted]
      obtain rfl := extractPath_error extracted
      exact Option.some.inj defined
    next path extracted =>
      rw [extractPath_agrees extracted]
      exact Option.some.inj defined

theorem sendTo_agrees (errno : Errno) (count : Nat) (path : Bytes) (destAddr : Buffer) (attempts : Attempts Nat) :
    ∃ destination, sendTo errno count path destAddr attempts =
        some (destination, UnixDatagramSocket.sendTo errno count path attempts) ∧
      destination.map Buffer.name = (Socknet.fillAddress path).map SunPath.bytes := by
  have filled := fillAddress_agrees errno path destAddr
  unfold sendTo UnixDatagramSocket.sendTo
  cases fills : Socknet.fillAddress path with
  | none =>
    rw [fills] at filled
    rw [filled]
    exact ⟨none, rfl, rfl⟩
  | some destination =>
    rw [fills] at filled
    obtain ⟨addr, filled, -, named⟩ := filled
    rw [filled]
    exact ⟨some addr, rfl, congrArg some named⟩

end Extract

/-- Encoding a path and decoding it again. -/
structure RoundTrips (errno : Errno) (path : Bytes) : Prop where
  short : path.length < sunPathSize → ∀ addr, ∃ filled, fillAddress errno path addr = some (.ok (), filled) ∧
    filled.sun_family = afUnix ∧ filled.pathLength = BitVec.ofNat 32 (2 + path.length + 1) ∧
    extractPath filled filled.pathLength = some (.ok path)
  long : sunPathSize ≤ path.length → ∀ addr,
    fillAddress errno path addr = some (.error ⟨"Path to socket file is too long", errno⟩, addr)
  injective : ∀ other addr otherAddr filled otherFilled, 0 ∉ other →
    fillAddress errno path addr = some (.ok (), filled) →
    fillAddress errno other otherAddr = some (.ok (), otherFilled) → filled.name = otherFilled.name → path = other
  answers : ∀ (clientAddr : Buffer) (attempts : Attempts Nat) received, clientAddr.name = path →
    path.length < sunPathSize → attempts.result = .ok received →
    receiveFrom clientAddr clientAddr.pathLength attempts = some (.ok (received, path)) ∧
    ∀ count destAddr reply, ∃ destination outcome,
      sendTo errno count path destAddr reply = some (some destination, outcome) ∧ destination.name = clientAddr.name

section RoundTrip
variable {errno : Errno} {path : Bytes} {addr filled : Buffer}

theorem name_of_filled (ended : 0 ∉ path) (fills : fillAddress errno path addr = some (.ok (), filled)) :
    filled.name = path := by
  by_cases short : path.length < sunPathSize
  · obtain ⟨same, fillsToo, -, named⟩ := fillAddress_short errno addr short
    cases fills.symm.trans fillsToo
    exact named.trans (cString_eq ended)
  · cases fills.symm.trans (fillAddress_long errno addr (Nat.le_of_not_lt short))

/-- Every path without a null byte comes back as it was given, or does not fit and changes nothing. -/
theorem round_trips (errno : Errno) {path : Bytes} (ended : 0 ∉ path) : RoundTrips errno path where
  short short addr := by
    obtain ⟨filled, fills, family, -⟩ := fillAddress_short errno addr short
    have named := name_of_filled ended fills
    refine ⟨filled, fills, family, by rw [Buffer.pathLength, named], ?_⟩
    rw [extractPath_pathLength, named]
  long long addr := fillAddress_long errno addr long
  injective other addr otherAddr filled otherFilled otherEnded fills fillsOther same := by
    calc path = filled.name := (name_of_filled ended fills).symm
      _ = otherFilled.name := same
      _ = other := name_of_filled otherEnded fillsOther
  answers clientAddr attempts received named short returned := by
    constructor
    · simp only [receiveFrom, returned, extractPath_pathLength, named]
    · intro count destAddr reply
      obtain ⟨destination, sends, reaches⟩ := sendTo_agrees errno count path destAddr reply
      rw [Socknet.fillAddress_short short] at reaches
      obtain ⟨filled, rfl, named'⟩ := Option.map_eq_some_iff.mp reaches
      refine ⟨filled, _, sends, ?_⟩
      rw [named', named]
      exact copy_bytes short ended

theorem round_trips_socket : RoundTrips .EBADF [115, 111, 99, 107] := round_trips .EBADF (by decide)

end RoundTrip

inductive Reportable : BitVec 32 → Prop where
  /-- of the sender of a datagram that has no address -/
  | unbound : Reportable 0
  /-- of a socket without a name -/
  | unnamed : Reportable 2
  | pathname {n : Nat} (named : 1 ≤ n) (fits : n ≤ sunPathSize) : Reportable (BitVec.ofNat 32 (2 + n + 1))
  | abstract {n : Nat} (named : 1 ≤ n) (fits : n ≤ sunPathSize) : Reportable (BitVec.ofNat 32 (2 + n))

/-- An address of this length does no harm to those who extract its path. -/
structure Safe (addr : Buffer) (len : BitVec 32) : Prop where
  no_wrap : (len.setWidth 64 - familySize - 1).toNat + familySize.toNat + 1 = len.toNat
  returns : ∃ path, extractPath addr len = some (.ok path) ∧ path.length ≤ sunPathSize
  destroys : ∀ errno stale, destroy errno addr len stale ≠ some (.error .lengthError)
  receives : ∀ attempts received, attempts.result = .ok received →
    ∃ path, receiveFrom addr len attempts = some (.ok (received, path))

section Safety
variable {addr : Buffer} {len : BitVec 32}

theorem Reportable.bound (reportable : Reportable len) : len.toNat ≤ 3 + sunPathSize := by
  unfold sunPathSize
  cases reportable with
  | unbound | unnamed => decide
  | pathname named fits | abstract named fits =>
    unfold sunPathSize at fits
    rw [BitVec.toNat_ofNat]
    omega

theorem Reportable.counted_iff (reportable : Reportable len) : 3 ≤ len.toNat ↔ len ≠ 0 ∧ len ≠ 2 := by
  constructor
  · intro counted
    constructor
    · rintro rfl
      exact absurd counted (by decide)
    · rintro rfl
      exact absurd counted (by decide)
  · rintro ⟨bound, named⟩
    cases reportable with
    | unbound => exact absurd rfl bound
    | unnamed => exact absurd rfl named
    | pathname named fits | abstract named fits =>
      unfold sunPathSize at fits
      rw [BitVec.toNat_ofNat]
      omega

theorem safe_of_counted (counted : 3 ≤ len.toNat) (within : len.toNat ≤ 3 + sunPathSize) : Safe addr len := by
  have extracted := @extractPath_counted addr len counted within
  constructor
  case no_wrap =>
    unfold familySize
    bv_omega
  case returns =>
    refine ⟨_, extracted, ?_⟩
    rw [List.length_take, addr.size]
    exact Nat.min_le_right _ _
  case destroys =>
    intro errno stale wrong
    simp only [destroy, extracted] at wrong
    split at wrong <;> cases wrong
  case receives =>
    intro attempts received returned
    refine ⟨addr.sun_path.take (len.toNat - 3), ?_⟩
    simp only [receiveFrom, returned, extracted]

theorem not_safe_of_short (short : len.toNat < 3) : ¬Safe addr len := by
  intro safe
  obtain ⟨path, extracted, -⟩ := safe.returns
  cases extracted.symm.trans (extractPath_short short)

/-- Of the addresses that the kernel can report, those with a name are safe to extract. -/
theorem safe_iff (addr : Buffer) (reportable : Reportable len) : Safe addr len ↔ len ≠ 0 ∧ len ≠ 2 := by
  rw [← reportable.counted_iff]
  constructor
  · intro safe
    by_contra short
    exact not_safe_of_short (Nat.lt_of_not_le short) safe
  · intro counted
    exact safe_of_counted counted reportable.bound

theorem safe_iff_pathname : Safe ⟨afUnix, List.replicate sunPathSize 47, List.length_replicate⟩ 7 :=
  (safe_iff _ (@Reportable.pathname 4 (by decide) (by decide))).mpr (by decide)

def blank : Buffer := ⟨0, List.replicate sunPathSize 0, List.length_replicate⟩

/-- The destructor of a socket that was never bound, and the receipt of a datagram from one, throw
std::length_error. -/
theorem unnamed_throws : destroy .EBADF blank 2 blank = some (.error .lengthError) ∧
    receiveFrom blank 0 (.once (.ok 5) rfl) = some (.error .lengthError) ∧
    ¬∀ len, Reportable len → Safe blank len := by
  have wraps : extractPath blank 2 = some (.error .lengthError) := extractPath_short (by decide)
  have also : extractPath blank 0 = some (.error .lengthError) := extractPath_short (by decide)
  refine ⟨?_, ?_, fun safe => not_safe_of_short (by decide) (safe 2 .unnamed)⟩
  · simp only [destroy, wraps]
  · simp only [receiveFrom, Attempts.once, also]

end Safety

end CppRt.Socknet.SockaddrUn

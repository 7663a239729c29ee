import Mathlib.Data.List.TakeWhile
import Mathlib.Tactic.Common

/-!
Addresses of unix sockets. A path given to the library is any std::string; in sun_path it
ends at its first null byte, and the whole string has to be shorter than sun_path. What the
kernel reports for a bound socket is the path with its null byte and a length that counts
the family too, and for a socket without a name the family alone.
-/

namespace CppRt.Socknet

abbrev Bytes := List UInt8

def sunPathSize : Nat := 108

/-- A path in sun_path, without the null byte that ends it. -/
structure SunPath where
  bytes : Bytes
  fits : bytes.length < sunPathSize
  ended : 0 ∉ bytes
  deriving DecidableEq

def cString (bytes : Bytes) : Bytes := bytes.takeWhile (· ≠ 0)

theorem cString_eq {bytes : Bytes} (ended : 0 ∉ bytes) : cString bytes = bytes := by
  apply List.takeWhile_eq_self_iff.mpr
  intro byte member
  have different : byte ≠ 0 := fun same => ended (same ▸ member)
  simpa using different

def SunPath.copy (path : Bytes) (short : path.length < sunPathSize) : SunPath where
  bytes := path.takeWhile (· ≠ 0)
  fits := Nat.lt_of_le_of_lt (List.takeWhile_prefix _).length_le short
  ended := by
    intro member
    have kept := List.mem_takeWhile_imp member
    simp at kept

def fillAddress (path : Bytes) : Option SunPath :=
  if short : path.length < sunPathSize then some (.copy path short) else none

structure Reported where
  sun_path : Bytes
  addr_len : BitVec 64

def familySize : BitVec 64 := 2

def report : Option SunPath → Reported
  | none => ⟨[], familySize⟩
  | some path => ⟨path.bytes ++ [0], familySize + BitVec.ofNat 64 (path.bytes.length + 1)⟩

def maxSize : BitVec 64 := BitVec.intMax 64

/-- The length is unsigned; `none` where the constructor of the string throws std::length_error. -/
def extractPath (addr : Reported) : Option Bytes :=
  let count := addr.addr_len - familySize - 1
  if maxSize < count then none else some (addr.sun_path.take count.toNat)

theorem extractPath_named {path : Bytes} (fits : path.length ≤ sunPathSize) :
    extractPath ⟨path ++ [0], familySize + BitVec.ofNat 64 (path.length + 1)⟩ = some path := by
  have short : path.length ≤ 108 := fits
  have count : familySize + BitVec.ofNat 64 (path.length + 1) - familySize - 1 = BitVec.ofNat 64 path.length := by
    unfold familySize
    bv_omega
  have small : ¬maxSize < BitVec.ofNat 64 path.length := by
    unfold maxSize
    bv_omega
  have exact_ : (BitVec.ofNat 64 path.length).toNat = path.length := by
    rw [BitVec.toNat_ofNat]
    omega
  simp only [extractPath, count, if_neg small, exact_, List.take_left]

theorem extractPath_bound (path : SunPath) : extractPath (report (some path)) = some path.bytes :=
  extractPath_named (Nat.le_of_lt path.fits)

theorem extractPath_unbound : extractPath (report none) = none := by decide

theorem copy_bytes {path : Bytes} (short : path.length < sunPathSize) (ended : 0 ∉ path) :
    (SunPath.copy path short).bytes = path :=
  cString_eq ended

theorem fillAddress_short {path : Bytes} (short : path.length < sunPathSize) :
    fillAddress path = some (.copy path short) := dif_pos short

theorem fillAddress_bytes (path : SunPath) : fillAddress path.bytes = some path := by
  rw [fillAddress_short path.fits, Option.some.injEq, SunPath.mk.injEq]
  exact copy_bytes path.fits path.ended

theorem bytes_of_fillAddress {path : Bytes} {addr : SunPath} (filled : fillAddress path = some addr)
    (ended : 0 ∉ path) : addr.bytes = path := by
  by_cases short : path.length < sunPathSize
  · rw [fillAddress_short short] at filled
    cases filled
    exact copy_bytes short ended
  · rw [fillAddress, dif_neg short] at filled
    cases filled

end CppRt.Socknet

import CppRt.Socknet.UnixAddress
import Mathlib.Algebra.Group.Nat.Defs

/-!
inet_aton of the C library: an address of one to four parts with dots between them, each a
number as strtoul with base 0 reads it. The last part fills the bytes that the others leave,
and white space and what comes after it are not looked at.
-/

namespace CppRt.Socknet

structure InAddr where
  a : UInt8
  b : UInt8
  c : UInt8
  d : UInt8
  deriving DecidableEq

def InAddr.bytes (addr : InAddr) : Bytes := [addr.a, addr.b, addr.c, addr.d]

def InAddr.ofNat (value : Nat) : InAddr :=
  ⟨.ofNat (value / 256 ^ 3), .ofNat (value / 256 ^ 2), .ofNat (value / 256), .ofNat value⟩

def isDigit (c : UInt8) : Bool := 48 ≤ c && c ≤ 57

def isSpace (c : UInt8) : Bool := c == 32 || (9 ≤ c && c ≤ 13)

def digitValue (c : UInt8) : Nat :=
  if 48 ≤ c && c ≤ 57 then c.toNat - 48
  else if 97 ≤ c && c ≤ 102 then c.toNat - 87
  else if 65 ≤ c && c ≤ 70 then c.toNat - 55
  else 16

def digits (base value : Nat) : Bytes → Nat × Bytes
  | [] => (value, [])
  | c :: cp => if digitValue c < base then digits base (value * base + digitValue c) cp else (value, c :: cp)

/-- `strtoul` with base 0 of what begins with a digit, and where it stops. The x of a
hexadecimal number (120 or 88) is read only before a digit. -/
def strtoul : Bytes → Nat × Bytes
  | 48 :: x :: c :: cp =>
    if (x == 120 || x == 88) && digitValue c < 16 then digits 16 0 (c :: cp) else digits 8 0 (48 :: x :: c :: cp)
  | 48 :: cp => digits 8 0 (48 :: cp)
  | cp => digits 10 0 cp

/-- What the parts after the dots seen so far come to, when there may be so many more dots.
`word` is what is before them. -/
def inetParts : Nat → Nat → Bytes → Option Nat
  | left, word, cp =>
    if (cp.head?.map isDigit).getD false then
      match left, strtoul cp with
      | left + 1, (value, 46 :: cp) => if value ≤ 255 then inetParts left (word * 256 + value) cp else none
      | left, (value, cp) =>
        if (cp.head?.map isSpace).getD true && value < 256 ^ (left + 1) then some (word * 256 ^ (left + 1) + value)
        else none
    else none

def inetAton (cp : Bytes) : Option InAddr := (inetParts 3 0 cp).map .ofNat

-- "127.0.0.1", "0x7f.1 " and "010" are addresses, "256.1", "1.2.3.4.5" and "08" are not
example : inetAton [49, 50, 55, 46, 48, 46, 48, 46, 49] = some ⟨127, 0, 0, 1⟩ ∧
    inetAton [48, 120, 55, 102, 46, 49, 32] = some ⟨127, 0, 0, 1⟩ ∧ inetAton [48, 49, 48] = some ⟨0, 0, 0, 8⟩ ∧
    inetAton [50, 53, 54, 46, 49] = none ∧ inetAton [49, 46, 50, 46, 51, 46, 52, 46, 53] = none ∧
    inetAton [48, 56] = none := by decide

section Numbers
variable {base value left word : Nat} {cp rest : Bytes}

theorem digits_lt (small : base ≤ 16) {before : Nat} (bound : value < 16 ^ before) {result : Nat}
    (read : digits base value cp = (result, rest)) :
    ∃ taken, cp.length = taken + rest.length ∧ result < 16 ^ (before + taken) := by
  induction cp generalizing value before with
  | nil =>
    cases read
    exact ⟨0, rfl, bound⟩
  | cons c cp ih =>
    unfold digits at read
    by_cases digit : digitValue c < base
    · rw [if_pos digit] at read
      have next : value * base + digitValue c < 16 ^ (before + 1) := by
        have most : value * base ≤ value * 16 := Nat.mul_le_mul_left value small
        rw [Nat.pow_succ]
        omega
      obtain ⟨taken, length, less⟩ := ih next read
      refine ⟨taken + 1, ?_, ?_⟩
      · rw [List.length_cons, length]
        omega
      · rwa [Nat.add_comm taken 1, ← Nat.add_assoc]
    · rw [if_neg digit] at read
      cases read
      exact ⟨0, (Nat.zero_add _).symm, bound⟩

theorem strtoul_lt {result : Nat} (read : strtoul cp = (result, rest)) :
    ∃ taken, cp.length = taken + rest.length ∧ result < 16 ^ taken := by
  have plain {base : Nat} (small : base ≤ 16) {cp : Bytes} (read : digits base 0 cp = (result, rest)) :
      ∃ taken, cp.length = taken + rest.length ∧ result < 16 ^ taken := by
    have none_ : 0 < 16 ^ 0 := Nat.one_pos
    obtain ⟨taken, length, less⟩ := digits_lt small none_ read
    rw [Nat.zero_add] at less
    exact ⟨taken, length, less⟩
  unfold strtoul at read
  split at read
  · split at read
    · obtain ⟨taken, length, less⟩ := plain (Nat.le_refl 16) read
      refine ⟨taken + 2, ?_, ?_⟩
      · simp only [List.length_cons] at length ⊢
        omega
      · exact Nat.lt_of_lt_of_le less (Nat.pow_le_pow_right (by decide) (Nat.le_add_right taken 2))
    · exact plain (by decide) read
  · exact plain (by decide) read
  · exact plain (by decide) read

theorem inetParts_cases {parsed : Nat} (parses : inetParts left word cp = some parsed) :
    (cp.head?.map isDigit).getD false = true ∧
      ((∃ fewer value rest, left = fewer + 1 ∧ strtoul cp = (value, 46 :: rest) ∧ value ≤ 255 ∧
          inetParts fewer (word * 256 + value) rest = some parsed) ∨
        ∃ value rest, strtoul cp = (value, rest) ∧ value < 256 ^ (left + 1) ∧
          parsed = word * 256 ^ (left + 1) + value) := by
  unfold inetParts at parses
  split at parses
  · next digit =>
    refine ⟨digit, ?_⟩
    split at parses
    · next fewer value rest read =>
      split at parses
      · next small => exact .inl ⟨fewer, value, rest, rfl, read, small, parses⟩
      · cases parses
    · next value rest _ read =>
      split at parses
      · next last =>
        simp only [Bool.and_eq_true, decide_eq_true_eq] at last
        cases parses
        exact .inr ⟨value, rest, read, last.2, rfl⟩
      · cases parses
  · cases parses

theorem word_div {size : Nat} (less : value < 256 ^ size) : (word * 256 ^ size + value) / 256 ^ size = word := by
  rw [Nat.mul_comm, Nat.mul_add_div (Nat.pow_pos (by decide)), Nat.div_eq_of_lt less, Nat.add_zero]

theorem inetParts_div {parsed : Nat} (parses : inetParts left word cp = some parsed) :
    parsed / 256 ^ (left + 1) = word := by
  induction left generalizing word cp with
  | zero =>
    obtain ⟨_, more | last⟩ := inetParts_cases parses
    · obtain ⟨fewer, _, _, wrong, _⟩ := more
      cases wrong
    · obtain ⟨value, _, _, less, rfl⟩ := last
      exact word_div less
  | succ left ih =>
    obtain ⟨_, more | last⟩ := inetParts_cases parses
    · obtain ⟨fewer, value, rest, same, _, small, rests⟩ := more
      obtain rfl : left = fewer := Nat.succ.inj same
      rw [Nat.pow_succ, ← Nat.div_div_eq_div_mul, ih rests]
      omega
    · obtain ⟨value, _, _, less, rfl⟩ := last
      exact word_div less

theorem inetParts_short {parsed : Nat} (short : cp.length ≤ 3) (parses : inetParts 3 0 cp = some parsed) :
    parsed / 256 ^ 3 < 16 := by
  obtain ⟨_, more | last⟩ := inetParts_cases parses
  · obtain ⟨fewer, value, rest, same, read, small, rests⟩ := more
    obtain rfl : 2 = fewer := Nat.succ.inj same
    rw [inetParts_div rests, Nat.zero_mul, Nat.zero_add]
    obtain ⟨taken, length, less⟩ := strtoul_lt read
    have some_ : rest ≠ [] := by
      intro none
      subst none
      have digit := (inetParts_cases rests).1
      cases digit
    have positive := List.length_pos_iff.mpr some_
    rw [List.length_cons] at length
    exact Nat.lt_of_lt_of_le less (Nat.pow_le_pow_right (by decide) (by omega : taken ≤ 1))
  · obtain ⟨value, rest, read, _, rfl⟩ := last
    obtain ⟨taken, length, less⟩ := strtoul_lt read
    have bound : value < 16 ^ 3 := Nat.lt_of_lt_of_le less (Nat.pow_le_pow_right (by decide) (by omega))
    omega

/-- An address of fewer than four bytes is none that begins with the same bytes. -/
theorem inetAton_short {addr : InAddr} (short : cp.length ≤ 3) (parses : inetAton cp = some addr) :
    cp.head? ≠ some addr.a := by
  obtain ⟨parsed, parts, rfl⟩ := Option.map_eq_some_iff.mp parses
  intro same
  have digit := (inetParts_cases parts).1
  rw [same] at digit
  have small := inetParts_short short parts
  have value : (InAddr.ofNat parsed).a.toNat = parsed / 256 ^ 3 := by
    change (UInt8.ofNat (parsed / 256 ^ 3)).toNat = _
    rw [UInt8.toNat_ofNat_of_lt']
    exact Nat.lt_trans small (by decide)
  have least : 48 ≤ (InAddr.ofNat parsed).a.toNat := by
    simp only [Option.map_some, Option.getD_some, isDigit, Bool.and_eq_true, decide_eq_true_eq] at digit
    exact digit.1
  omega

end Numbers

end CppRt.Socknet

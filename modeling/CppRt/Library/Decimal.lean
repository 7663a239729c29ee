import Mathlib.Algebra.Group.Nat.Defs

/-!
Decimal numbers as text, as printf writes them with %d and scanf reads them. A number is read
back from what was printed of it, whatever white space comes before it, as long as no digit
follows.
-/

namespace CppRt.Library.Decimal

abbrev Bytes := List UInt8

def isSpace (c : UInt8) : Bool := c == 32 || (9 ≤ c && c ≤ 13)

def isDigit (c : UInt8) : Bool := 48 ≤ c && c ≤ 57

def decimal (n : Nat) : Bytes := (Nat.toDigits 10 n).map fun c => UInt8.ofNat c.toNat

def printInt (v : Int) : Bytes := if v < 0 then 45 :: decimal v.natAbs else decimal v.natAbs

def skipSpace (text : Bytes) : Bytes := text.dropWhile isSpace

def scanDigits (value : Nat) : Bytes → Nat × Bytes
  | [] => (value, [])
  | c :: text => if isDigit c then scanDigits (value * 10 + (c.toNat - 48)) text else (value, c :: text)

def scanNat (text : Bytes) : Option Nat × Bytes :=
  if (text.head?.map isDigit).getD false then (some (scanDigits 0 text).1, (scanDigits 0 text).2) else (none, text)

/-- `%d` of scanf: white space, a sign and at least one digit. Without a digit nothing is
stored, and the text goes on behind what could have begun a number. -/
def scanInt (text : Bytes) : Option Int × Bytes :=
  match skipSpace text with
  | 45 :: text => ((scanNat text).1.map fun (n : Nat) => -(n : Int), (scanNat text).2)
  | 43 :: text => ((scanNat text).1.map Int.ofNat, (scanNat text).2)
  | text => ((scanNat text).1.map Int.ofNat, (scanNat text).2)

-- " -17,5" is read as -17, "+x" stops at the x
example : scanInt [32, 45, 49, 55, 44, 53] = (some (-17), [44, 53]) ∧ scanInt [43, 120] = (none, [120]) ∧
    printInt (-17) = [45, 49, 55] ∧ printInt 0 = [48] := by decide

section Digits
variable {c : UInt8} {n : Nat} {gap text rest : Bytes}

theorem byte_of_digit {c : Char} (digit : c.isDigit = true) :
    isDigit (UInt8.ofNat c.toNat) = true ∧ (UInt8.ofNat c.toNat).toNat = c.toNat := by
  have range : 48 ≤ c.toNat ∧ c.toNat ≤ 57 := by
    simpa [Char.isDigit, UInt32.le_iff_toNat_le] using digit
  have value : (UInt8.ofNat c.toNat).toNat = c.toNat := UInt8.toNat_ofNat_of_lt' (Nat.lt_of_le_of_lt range.2 (by decide))
  refine ⟨?_, value⟩
  simp only [isDigit, Bool.and_eq_true, decide_eq_true_eq, UInt8.le_iff_toNat_le, value]
  exact range

theorem isDigit_of_decimal (within : c ∈ decimal n) : isDigit c = true := by
  obtain ⟨digit, printed, rfl⟩ := List.mem_map.mp within
  exact (byte_of_digit (Nat.isDigit_of_mem_toDigits (by decide) (by decide) printed)).1

theorem decimal_ne_nil : decimal n ≠ [] := by
  simp [decimal]

theorem decimal_length {size : Nat} (positive : 0 < size) : (decimal n).length ≤ size ↔ n < 10 ^ size := by
  rw [decimal, List.length_map]
  exact Nat.length_toDigits_le_iff (by decide) positive

theorem isSpace_of_digit (digit : isDigit c = true) : isSpace c = false := by
  simp only [isDigit, isSpace, Bool.and_eq_true, decide_eq_true_eq, UInt8.le_iff_toNat_le, Bool.or_eq_false_iff,
    Bool.and_eq_false_iff, decide_eq_false_iff_not, beq_eq_false_iff_ne, ne_eq, ← UInt8.toNat_inj] at digit ⊢
  simp only [UInt8.reduceToNat] at digit ⊢
  omega

theorem decimal_head : ∃ first more, decimal n = first :: more ∧ isDigit first = true := by
  cases text : decimal n with
  | nil => exact absurd text decimal_ne_nil
  | cons first more => exact ⟨first, more, rfl, isDigit_of_decimal (text ▸ List.mem_cons_self)⟩

theorem decimal_head_ne_zero (positive : 0 < n) : (decimal n).head? ≠ some 48 := by
  induction n using Nat.strongRecOn with
  | ind n ih =>
    by_cases small : n < 10
    · rw [decimal, Nat.toDigits_of_lt_base small, List.map_cons, List.head?_cons]
      intro zero
      have digit := congrArg UInt8.toNat (Option.some.inj zero)
      have value := Nat.toNat_digitChar_of_lt_ten small
      rw [value, UInt8.toNat_ofNat_of_lt' (by have least := Nat.le_of_lt_succ small; show 48 + n < 256; omega)] at digit
      have none_ : 48 + n = 48 := digit
      omega
    · have more : 10 ≤ n := Nat.le_of_not_lt small
      have fewer : n / 10 < n := Nat.div_lt_self positive (by decide)
      have left : 0 < n / 10 := Nat.div_pos more (by decide)
      have head := ih (n / 10) fewer left
      obtain ⟨first, digits, shown, _⟩ := decimal_head (n := n / 10)
      rw [shown] at head
      rw [decimal] at shown
      rw [decimal, Nat.toDigits_of_base_le (by decide) more, List.map_append, shown]
      exact head

theorem scanDigits_chars {digits : List Char} (all : ∀ c ∈ digits, c.isDigit = true)
    (stops : (rest.head?.map isDigit).getD false = false) (value : Nat) :
    scanDigits value (digits.map (fun c => UInt8.ofNat c.toNat) ++ rest) = (Nat.ofDigitChars 10 digits value, rest) := by
  induction digits generalizing value with
  | nil =>
    cases rest with
    | nil => simp [scanDigits]
    | cons c rest =>
      have last : isDigit c = false := stops
      simp [scanDigits, last]
  | cons c digits ih =>
    have digit := byte_of_digit (all c List.mem_cons_self)
    rw [List.map_cons, List.cons_append, scanDigits, if_pos digit.1, digit.2, Nat.ofDigitChars_cons, Nat.mul_comm]
    exact ih (fun c within => all c (List.mem_cons_of_mem _ within)) _

theorem scanDigits_decimal (stops : (rest.head?.map isDigit).getD false = false) :
    scanDigits 0 (decimal n ++ rest) = (n, rest) := by
  have all : ∀ c ∈ Nat.toDigits 10 n, c.isDigit = true := fun c printed =>
    Nat.isDigit_of_mem_toDigits (by decide) (by decide) printed
  rw [decimal, scanDigits_chars all stops, Nat.ofDigitChars_ten_toDigits]

theorem scanNat_decimal (stops : (rest.head?.map isDigit).getD false = false) :
    scanNat (decimal n ++ rest) = (some n, rest) := by
  obtain ⟨first, more, shown, digit⟩ := decimal_head (n := n)
  have begins : ((decimal n ++ rest).head?.map isDigit).getD false = true := by
    rw [shown]
    exact digit
  rw [scanNat, if_pos begins, scanDigits_decimal stops]

end Digits

section Spaces
variable {gap text : Bytes}

theorem skipSpace_append (spaces : ∀ c ∈ gap, isSpace c = true) : skipSpace (gap ++ text) = skipSpace text := by
  induction gap with
  | nil => rfl
  | cons c gap ih =>
    rw [List.cons_append, skipSpace, List.dropWhile_cons_of_pos (spaces c List.mem_cons_self)]
    exact ih fun c within => spaces c (List.mem_cons_of_mem _ within)

theorem skipSpace_stops (stops : (text.head?.map isSpace).getD false = false) : skipSpace text = text := by
  cases text with
  | nil => rfl
  | cons c text => exact List.dropWhile_cons_of_neg (Bool.eq_false_iff.mp stops)

theorem skipSpace_head : ((skipSpace text).head?.map isSpace).getD false = false := by
  induction text with
  | nil => rfl
  | cons c text ih =>
    rw [skipSpace]
    by_cases space : isSpace c = true
    · rw [List.dropWhile_cons_of_pos space]
      exact ih
    · rw [List.dropWhile_cons_of_neg space]
      exact Bool.eq_false_iff.mpr space

end Spaces

/-- What was printed is read back, behind any white space. -/
theorem scanInt_printInt {gap rest : Bytes} (v : Int) (spaces : ∀ c ∈ gap, isSpace c = true)
    (stops : (rest.head?.map isDigit).getD false = false) : scanInt (gap ++ (printInt v ++ rest)) = (some v, rest) := by
  rw [scanInt, skipSpace_append spaces]
  unfold printInt
  by_cases negative : v < 0
  · rw [if_pos negative, List.cons_append, skipSpace_stops rfl]
    have value : -(v.natAbs : Int) = v := by omega
    show ((scanNat (decimal v.natAbs ++ rest)).1.map fun (n : Nat) => -(n : Int), (scanNat (decimal v.natAbs ++ rest)).2) = _
    rw [scanNat_decimal stops, Option.map_some, value]
  · rw [if_neg negative]
    obtain ⟨first, more, shown, digit⟩ := decimal_head (n := v.natAbs)
    have begins : skipSpace (decimal v.natAbs ++ rest) = decimal v.natAbs ++ rest := by
      apply skipSpace_stops
      rw [shown]
      exact isSpace_of_digit digit
    have unsigned : first ≠ 45 ∧ first ≠ 43 := by
      constructor
      · rintro rfl
        cases digit
      · rintro rfl
        cases digit
    have read := scanNat_decimal (n := v.natAbs) stops
    rw [shown, List.cons_append] at read begins ⊢
    rw [begins]
    split
    · next same => exact absurd (List.cons.inj same).1 unsigned.1
    · next same => exact absurd (List.cons.inj same).1 unsigned.2
    · have value : (v.natAbs : Int) = v := by omega
      rw [read, Option.map_some]
      exact congrArg (fun v => (some v, rest)) value

end CppRt.Library.Decimal

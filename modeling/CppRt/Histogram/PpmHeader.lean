import CppRt.Histogram.WritePPM
import Mathlib.Data.List.TakeWhile

/-!
What WritePPM prints before the pixels of an image is read back by ReadPPM: the mode and the
size, and the comment is skipped. Where there is a maximum, the white space behind it is
skipped too, and with it the white space that the pixels begin with.
-/

namespace CppRt.Histogram
open Library.Decimal

structure Ctime where
  stamp : Bytes
  plain : 10 ∉ stamp
  length : stamp.length = 24

def Ctime.text (now : Ctime) : Bytes := now.stamp ++ [10]

/-- An image of so many pixels, with a size that is computed in ints. -/
structure Sized (image : Image) (w h : Nat) : Prop where
  length : image.length = 3 * w * h
  width : w < 2 ^ 31
  height : 3 * h < 2 ^ 31
  small : 3 * w * h < 2 ^ 31

section Lines
variable {text rest : Bytes}

theorem line_newline (plain : 10 ∉ text) {room : Nat} (short : text.length < room) :
    line room (text ++ 10 :: rest) = (text ++ [10], rest) := by
  induction text generalizing room with
  | nil =>
    obtain ⟨room, rfl⟩ := Nat.exists_eq_add_one_of_ne_zero (Nat.ne_of_gt short)
    rfl
  | cons c text ih =>
    obtain ⟨room, rfl⟩ := Nat.exists_eq_add_one_of_ne_zero (Nat.ne_of_gt (Nat.lt_of_le_of_lt (Nat.zero_le _) short))
    have other : ¬c = 10 := fun same => plain (same ▸ List.mem_cons_self)
    have left : text.length < room := Nat.lt_of_succ_lt_succ short
    rw [List.cons_append, line, if_neg other, ih (fun within => plain (List.mem_cons_of_mem _ within)) left]
    rfl

theorem fgets_newline (plain : 10 ∉ text) (short : text.length < 255) (string : Option Bytes) :
    fgets string (text ++ 10 :: rest) = (some (text ++ [10]), rest) := by
  have some_ : ¬text ++ 10 :: rest = [] := fun empty => by cases text <;> cases empty
  rw [fgets, if_neg some_, line_newline plain short]

theorem printInt_nat (n : Nat) : printInt n = decimal n := by
  have positive : ¬(n : Int) < 0 := by omega
  rw [printInt, if_neg positive, Int.natAbs_natCast]

theorem decimal_plain (n : Nat) {c : UInt8} (other : isDigit c = false) : c ∉ decimal n := by
  intro within
  rw [isDigit_of_decimal within] at other
  cases other

theorem decimal_short {n : Nat} (small : n < 2 ^ 31) : (decimal n).length ≤ 10 :=
  (decimal_length (by decide)).mpr (Nat.lt_trans small (by decide))

theorem comment_plain (now : Ctime) : 10 ∉ ascii "# File created by Chris Wyman's PPM Library on " ++ now.stamp := by
  intro within
  cases List.mem_append.mp within with
  | inl first => exact absurd first (by decide)
  | inr stamp => exact now.plain stamp

end Lines

section Header
variable {mode : Int} {w h : Nat} {body : Bytes}

theorem mode_cases (valid : isValidMode mode = true) :
    mode = 3 ∨ mode = 2 ∨ mode = 1 ∨ mode = 6 ∨ mode = 5 ∨ mode = 4 := by
  unfold isValidMode at valid
  split_ifs at valid with ppm pgm pbm ppmRaw pgmRaw pbmRaw
  · exact .inl ppm
  · exact .inr (.inl pgm)
  · exact .inr (.inr (.inl pbm))
  · exact .inr (.inr (.inr (.inl ppmRaw)))
  · exact .inr (.inr (.inr (.inr (.inl pgmRaw))))
  · exact .inr (.inr (.inr (.inr (.inr pbmRaw))))

theorem readMode_signature (f : Bytes) (valid : isValidMode mode = true) :
    10 ∉ ascii "P" ++ printInt mode ∧ (ascii "P" ++ printInt mode).length < 255 ∧
      readMode f (ascii "P" ++ printInt mode ++ [10]) = .ok mode := by
  obtain rfl | rfl | rfl | rfl | rfl | rfl := mode_cases valid
  all_goals exact ⟨by decide, by decide, rfl⟩

def sizeText (w h : Nat) : Bytes := decimal w ++ 32 :: decimal h

theorem sizeText_plain {c : UInt8} (other : isDigit c = false) (black : c ≠ 32) : c ∉ sizeText w h := by
  intro within
  cases List.mem_append.mp within with
  | inl width => exact decimal_plain w other width
  | inr height =>
    cases List.mem_cons.mp height with
    | inl space => exact black space
    | inr height => exact decimal_plain h other height

theorem sizeText_short (width : w < 2 ^ 31) (height : h < 2 ^ 31) : (sizeText w h).length < 255 := by
  have left := decimal_short width
  have right := decimal_short height
  rw [sizeText, List.length_append, List.length_cons]
  omega

theorem asInt_nat {n : Nat} (small : n < 2 ^ 31) : asInt n = some (n : Int) := by
  have range : -2 ^ 31 ≤ (n : Int) ∧ (n : Int) < 2 ^ 31 := by
    constructor
    · omega
    · exact_mod_cast small
  rw [asInt, if_pos range]

theorem writePPM_upright {image : Image} {mode : Int} (positive : ¬mode < 0) (height : h < 2 ^ 31)
    (length : image.length = 3 * w * h) (small : 3 * w * h < 2 ^ 31) (ctime : Bytes) (i : Int32) (f : Bytes) :
    writePPM ctime true i f mode w h image = .ok ⟨gfxioOk,
      if mode = pbmRaw ∨ mode = pbmAscii then warning (ascii "LIBGFX: Distortions occur converting to PBM format!") else [],
      some (header ctime mode w h ++ writePixels mode w (cells image w h false) ⟨i, 0⟩ ++ [10])⟩ := by
  have upright : ¬(h : Int) < 0 := by omega
  have whole : ¬(asInt (h : Int)).isNone = true := by
    rw [asInt_nat height]
    exact Bool.false_ne_true
  unfold writePPM
  rw [decide_eq_false upright, if_neg upright]
  simp only []
  rw [if_neg whole, if_neg positive, if_neg (indexes_fit length small)]
  rfl

theorem scanVariable_nat {n : Nat} (small : n < 2 ^ 31) {rest : Bytes} (gap : Bytes) (held : Option Int)
    (spaces : ∀ c ∈ gap, isSpace c = true) (stops : (rest.head?.map isDigit).getD false = false) :
    scanVariable held (gap ++ (decimal n ++ rest)) = (some (n : Int), true, rest) := by
  have read := scanInt_printInt n spaces stops
  rw [printInt_nat] at read
  rw [scanVariable, read]
  show (asInt n, true, rest) = _
  rw [asInt_nat small]

theorem scanSize_text (width : w < 2 ^ 31) (height : h < 2 ^ 31) (width0 height0 : Option Int) :
    scanSize (sizeText w h ++ [10]) width0 height0 = (some (w : Int), some (h : Int)) := by
  have whole : (sizeText w h ++ [10]).takeWhile (· ≠ 0) = sizeText w h ++ [10] := by
    rw [List.takeWhile_eq_self_iff]
    intro c within
    cases List.mem_append.mp within with
    | inl size =>
      have other : c ≠ 0 := fun same => sizeText_plain (c := 0) rfl (by decide) (same ▸ size)
      exact decide_eq_true other
    | inr last =>
      rw [List.mem_singleton.mp last]
      rfl
  have first : scanVariable width0 (sizeText w h ++ [10]) = (some (w : Int), true, 32 :: (decimal h ++ [10])) := by
    rw [sizeText, List.append_assoc]
    exact scanVariable_nat width [] width0 (fun c within => by cases within) rfl
  have second : scanVariable height0 (32 :: (decimal h ++ [10])) = (some (h : Int), true, [10]) := by
    apply scanVariable_nat height [32] height0 _ rfl
    intro c within
    rw [List.mem_singleton.mp within]
    rfl
  rw [scanSize, whole, first]
  show (some (w : Int), (scanVariable height0 (32 :: (decimal h ++ [10]))).1) = _
  rw [second]

def maximum (mode : Int) : Bytes := if mode ≠ pbmRaw ∧ mode ≠ pbmAscii then printInt 255 ++ [10] else []

def afterMax (mode : Int) (body : Bytes) : Bytes := if mode ≠ pbmRaw ∧ mode ≠ pbmAscii then skipSpace body else body

theorem readMax_maximum : readMax mode (maximum mode ++ body) = .ok (afterMax mode body) := by
  unfold readMax maximum afterMax
  by_cases grey : mode ≠ pbmRaw ∧ mode ≠ pbmAscii
  · rw [if_pos grey, if_pos grey, if_pos grey, List.append_assoc]
    have read : scanVariable none (printInt 255 ++ ([10] ++ body)) = (some 255, true, 10 :: body) :=
      scanVariable_nat (n := 255) (by decide) [] none (fun c within => by cases within) rfl
    rw [read]
    cases rawMode mode <;> rfl
  · rw [if_neg grey, if_neg grey, if_neg grey, List.nil_append]

theorem header_lines (now : Ctime) : header now.text mode w h ++ body =
    (ascii "P" ++ printInt mode) ++ 10 :: ((ascii "# File created by Chris Wyman's PPM Library on " ++ now.stamp) ++
      10 :: (sizeText w h ++ 10 :: (maximum mode ++ body))) := by
  rw [header, comment, Ctime.text, printInt_nat, printInt_nat, sizeText, maximum]
  simp only [List.append_assoc, List.cons_append, List.nil_append]

/-- The comment is skipped, and the line of the size is not another one. -/
theorem skipComments_size (width : w < 2 ^ 31) (height : h < 2 ^ 31) (stamp rest : Bytes) (lines : Nat) :
    skipComments (lines + 1) (ascii "# File created by Chris Wyman's PPM Library on " ++ stamp)
      (sizeText w h ++ 10 :: rest) = .ok (sizeText w h ++ [10], rest) := by
  obtain ⟨first, more, shown, digit⟩ := decimal_head (n := w)
  have begins : sizeText w h ++ 10 :: rest = first :: (more ++ 32 :: decimal h ++ 10 :: rest) := by
    rw [sizeText, shown]
    rfl
  have other : ¬charAt (sizeText w h ++ [10]) 0 = 35 := by
    intro same
    rw [sizeText, shown] at same
    have sign : first = 35 := same
    rw [sign] at digit
    cases digit
  have next : line 255 (first :: (more ++ 32 :: decimal h ++ 10 :: rest)) = (sizeText w h ++ [10], rest) := by
    rw [← begins]
    exact line_newline (sizeText_plain rfl (by decide)) (sizeText_short width height)
  rw [begins, skipComments_comment rfl, next]
  exact skipComments_stops other lines

theorem readPPM_header (now : Ctime) (valid : isValidMode mode = true) (width : w < 2 ^ 31) (height : h < 2 ^ 31)
    (calloc : Nat → Bool) (width0 height0 : Option Int) (f : Bytes) :
    readPPM calloc width0 height0 f (some (header now.text mode w h ++ body)) =
      readImage calloc mode (some w) (some h) (afterMax mode body) := by
  obtain ⟨plain, short, mode_⟩ := readMode_signature f valid
  have stampShort : (ascii "# File created by Chris Wyman's PPM Library on " ++ now.stamp).length < 255 := by
    rw [List.length_append, now.length]
    decide
  obtain ⟨lines, count⟩ : ∃ lines, (sizeText w h ++ 10 :: (maximum mode ++ body)).length = lines + 1 :=
    ⟨_, List.length_append.trans (Nat.add_succ _ _)⟩
  rw [header_lines, readPPM, fgets_newline plain short]
  have comments := skipComments_size width height (now.stamp ++ [10]) (maximum mode ++ body) lines
  rw [← List.append_assoc] at comments
  simp only [bind, Except.bind, mode_, fgets_newline (comment_plain now) stampShort, count, Option.getD_some, comments,
    scanSize_text width height, readMax_maximum]

end Header

end CppRt.Histogram

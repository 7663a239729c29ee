import CppRt.Histogram.PpmAnyFile
import CppRt.Histogram.PpmPixels

/-!
An image that WritePPM saves and ReadPPM loads again. In the modes of text nothing that the
counter of WritePPM holds at first makes a difference. In the raw modes with a maximum the
bytes that the image begins with are lost as far as they are white space.
-/

namespace CppRt.Histogram
open Library.Decimal

/-- What the two calls find: the time, the counter before it is set, the memory, and the
variables for the size. -/
structure Env where
  now : Ctime
  i : Int32
  calloc : Nat → Bool
  width : Option Int
  height : Option Int

def reload (env : Env) (f : Bytes) (mode width height : Int) (image : Image) : Except Stop Texture :=
  (writePPM env.now.text true env.i f mode width height image).bind fun written =>
    readPPM env.calloc env.width env.height f written.file

section Assembly
variable {image : Image} {w h : Nat} {mode : Int} {env : Env}

def firstPixel (infile : Bytes) : Reader := ⟨infile, none, none, none, 0, 0, []⟩

def pixelText (env : Env) (mode : Int) (w h : Nat) (image : Image) : Bytes :=
  writePixels mode w (cells image w h false) ⟨env.i, 0⟩ ++ [10]

theorem reload_eq (valid : isValidMode mode = true) (sized : Sized image w h) (f : Bytes) :
    reload env f mode w h image = readImage env.calloc mode (some w) (some h) (afterMax mode (pixelText env mode w h image)) := by
  have positive : ¬mode < 0 := by
    obtain rfl | rfl | rfl | rfl | rfl | rfl := mode_cases valid
    all_goals decide
  have height : h < 2 ^ 31 := Nat.lt_of_le_of_lt (Nat.le_mul_of_pos_left h (by decide)) sized.height
  rw [reload, writePPM_upright positive height sized.length sized.small, ok_bind]
  simp only [List.append_assoc]
  exact readPPM_header env.now valid sized.width height _ _ _ f

theorem sizeT_nat {n : Nat} (small : (n : Int) < 2 ^ 64) : ((n : Int) % 2 ^ 64).toNat = n := by
  rw [Int.emod_eq_of_lt (Int.natCast_nonneg n) small, Int.toNat_natCast]

theorem allocate_sized (sized : Sized image w h) (memory : env.calloc (3 * w * h) = true) :
    allocate env.calloc w h = .ok (3 * w * h) := by
  have product : (3 * (h : Int) * w) = ((3 * w * h : Nat) : Int) := by
    push_cast
    rw [Int.mul_assoc, Int.mul_assoc, Int.mul_comm (h : Int)]
  have height : asInt (3 * (h : Int)) = some ((3 * h : Nat) : Int) := asInt_nat sized.height
  have small : ((3 * w * h : Nat) : Int) < 2 ^ 64 := by
    have few := sized.small
    omega
  rw [allocate, height, product, asInt_nat sized.small]
  simp only [Option.bind_some, sizeT_nat small, if_pos memory]

theorem readImage_some (infile : Bytes) : readImage env.calloc mode (some w) (some h) infile =
    (allocate env.calloc w h).bind fun size => (readPixels mode w (columns w h) (firstPixel infile)).bind fun s =>
      .ok ⟨mode, w, h, s.texImage ++ List.replicate (size - s.texImage.length) 0⟩ := rfl

theorem readImage_eq (sized : Sized image w h) (memory : env.calloc (3 * w * h) = true) {infile : Bytes} {last : Reader}
    (read : readPixels mode w ((cells image w h false).map Cell.x) (firstPixel infile) = .ok last)
    (full : last.texImage.length = 3 * w * h) :
    readImage env.calloc mode (some w) (some h) infile = .ok ⟨mode, w, h, last.texImage⟩ := by
  rw [cells_columns] at read
  rw [readImage_some, allocate_sized sized memory, read]
  show Except.ok (Texture.mk mode w h (last.texImage ++ List.replicate (3 * w * h - last.texImage.length) 0)) = _
  rw [full, Nat.sub_self, List.replicate_zero, List.append_nil]

theorem restored_image (sized : Sized image w h) :
    (cells image w h false).flatMap (Cell.restored mode) = eachPixel (restored mode) image :=
  cells_eachPixel (restored mode) sized.length

theorem restored_full (sized : Sized image w h) : (eachPixel (restored mode) image).length = 3 * w * h := by
  rw [Nat.mul_assoc]
  apply eachPixel_length (restored_length mode)
  rw [sized.length, Nat.mul_assoc]

/-- Where each pixel is read back as it was written, the image is. -/
theorem reload_of_step (valid : isValidMode mode = true) (sized : Sized image w h)
    (memory : env.calloc (3 * w * h) = true) {same : Bytes → Bytes → Prop}
    (step : ∀ cell pen s rest, same (Reader.infile s) ((writePixel mode w cell pen).1 ++ rest) →
      ∃ s', readPixel mode w s cell.x = .ok s' ∧ same s'.infile rest ∧ s'.texImage = s.texImage ++ cell.restored mode)
    {tail : Bytes} (begins : same (afterMax mode (pixelText env mode w h image))
      (writePixels mode w (cells image w h false) ⟨env.i, 0⟩ ++ tail)) (f : Bytes) :
    reload env f mode w h image = .ok ⟨mode, w, h, eachPixel (restored mode) image⟩ := by
  obtain ⟨last, read, stored⟩ := readPixels_writePixels step (cells image w h false) ⟨env.i, 0⟩
    (firstPixel (afterMax mode (pixelText env mode w h image))) begins
  have copied : last.texImage = eachPixel (restored mode) image := by
    rw [stored, restored_image sized]
    rfl
  rw [reload_eq valid sized, readImage_eq sized memory read (by rw [copied, restored_full sized]), copied]

end Assembly

section Text
variable {width : Int} {text rest : Bytes}

def SameText (left right : Bytes) : Prop := skipSpace left = skipSpace right

theorem scanVariable_number {v : Nat} (small : v < 2 ^ 31) (same : SameText text (number v ++ rest))
    (held : Option Int) : ∃ left, scanVariable held text = (some (v : Int), true, left) ∧ SameText left rest := by
  have read : scanVariable held text = scanVariable held (number v ++ rest) := by
    unfold scanVariable scanInt
    rw [same]
  refine ⟨32 :: rest, ?_, rfl⟩
  rw [read, number, printInt_nat, List.append_assoc]
  exact scanVariable_nat small [] held (fun c within => by cases within) rfl

theorem sameText_newline (i size : Int32) : SameText (newline i size ++ rest) rest := by
  unfold newline
  split
  · rfl
  · rfl

theorem grey_lt (cell : Cell) : cell.grey < 256 := by
  have red := cell.r.toNat_lt
  have green := cell.g.toNat_lt
  have blue := cell.b.toNat_lt
  rw [Cell.grey]
  omega

theorem byte_lt (c : UInt8) : c.toNat < 2 ^ 31 := Nat.lt_trans c.toNat_lt (by decide)

theorem step_ppmAscii (cell : Cell) (pen : Pen) (s : Reader) (rest : Bytes)
    (same : SameText s.infile ((writePixel ppmAscii width cell pen).1 ++ rest)) :
    ∃ s', readPixel ppmAscii width s cell.x = .ok s' ∧ SameText s'.infile rest ∧
      s'.texImage = s.texImage ++ cell.restored ppmAscii := by
  have written : (writePixel ppmAscii width cell pen).1 ++ rest = number cell.r.toNat ++ (number cell.g.toNat ++
      (number cell.b.toNat ++ (newline (pen.i + 1) 5 ++ rest))) := by
    show (number cell.r.toNat ++ number cell.g.toNat ++ number cell.b.toNat ++ newline (pen.i + 1) 5) ++ rest = _
    simp only [List.append_assoc]
  rw [written] at same
  obtain ⟨afterRed, red, same⟩ := scanVariable_number (byte_lt _) same s.r
  obtain ⟨afterGreen, green, same⟩ := scanVariable_number (byte_lt _) same s.g
  obtain ⟨afterBlue, blue, same⟩ := scanVariable_number (byte_lt _) same s.b
  have scanned : s.ppmAscii = { s with r := some cell.r.toNat, g := some cell.g.toNat, b := some cell.b.toNat, infile := afterBlue } := by
    simp only [Reader.ppmAscii, red, green, blue]
  refine ⟨{ s.ppmAscii with texImage := s.texImage ++ cell.restored ppmAscii }, ?_, ?_, rfl⟩
  · show s.ppmAscii.store = _
    rw [scanned]
    simp only [Reader.store, ofInt_toNat]
    rfl
  · rw [scanned]
    exact same.trans (sameText_newline _ _)

theorem store_grey (s : Reader) (v : Nat) (infile : Bytes) : Reader.store { s.setGrey v with infile := infile } =
    .ok { s.setGrey v with infile := infile, texImage := s.texImage ++ List.replicate 3 (UInt8.ofNat v) } := by
  simp only [Reader.store, Reader.setGrey, ofInt_nat]
  rfl

theorem step_pgmAscii (cell : Cell) (pen : Pen) (s : Reader) (rest : Bytes)
    (same : SameText s.infile ((writePixel pgmAscii width cell pen).1 ++ rest)) :
    ∃ s', readPixel pgmAscii width s cell.x = .ok s' ∧ SameText s'.infile rest ∧
      s'.texImage = s.texImage ++ cell.restored pgmAscii := by
  have written : (writePixel pgmAscii width cell pen).1 ++ rest =
      number cell.grey ++ (newline (pen.i + 1) 15 ++ rest) := List.append_assoc _ _ _
  rw [written] at same
  obtain ⟨left, read, same⟩ := scanVariable_number (Nat.lt_trans (grey_lt cell) (by decide)) same s.r
  have scanned : s.pgmAscii = .ok { s.setGrey cell.grey with infile := left } := by
    simp only [Reader.pgmAscii, read]
  refine ⟨{ s.setGrey cell.grey with infile := left, texImage := s.texImage ++ cell.restored pgmAscii }, ?_,
    same.trans (sameText_newline _ _), rfl⟩
  · show s.pgmAscii.bind Reader.store = _
    rw [scanned]
    exact store_grey s cell.grey left

theorem step_pbmAscii (cell : Cell) (pen : Pen) (s : Reader) (rest : Bytes)
    (same : SameText s.infile ((writePixel pbmAscii width cell pen).1 ++ rest)) :
    ∃ s', readPixel pbmAscii width s cell.x = .ok s' ∧ SameText s'.infile rest ∧
      s'.texImage = s.texImage ++ cell.restored pbmAscii := by
  have written : (writePixel pbmAscii width cell pen).1 ++ rest =
      number (if cell.grey < 128 then 1 else 0) ++ (newline (pen.i + 1) 15 ++ rest) := List.append_assoc _ _ _
  have small : (if cell.grey < 128 then 1 else 0) < 2 ^ 31 := by
    split <;> decide
  rw [written] at same
  obtain ⟨left, read, same⟩ := scanVariable_number small same s.r
  have value : (if ((if cell.grey < 128 then 1 else 0 : Nat) : Int) ≠ 1 ∧ ((if cell.grey < 128 then 1 else 0 : Nat) : Int) ≠ 0 then 0
      else ((if cell.grey < 128 then 1 else 0 : Nat) : Int)) * 255 = ((if cell.grey < 128 then 255 else 0 : Nat) : Int) := by
    by_cases dark : cell.grey < 128
    · rw [if_pos dark, if_pos dark]
      rfl
    · rw [if_neg dark, if_neg dark]
      rfl
  have scanned : s.pbmAscii =
      .ok { s.setGrey ((if cell.grey < 128 then 255 else 0 : Nat) : Int) with infile := left } := by
    simp only [Reader.pbmAscii, read, value]
  have negative : cell.restored pbmAscii = List.replicate 3 (UInt8.ofNat (if cell.grey < 128 then 255 else 0)) := by
    show List.replicate 3 (if cell.grey < 128 then 255 else 0) = _
    by_cases dark : cell.grey < 128
    · rw [if_pos dark, if_pos dark]
      rfl
    · rw [if_neg dark, if_neg dark]
      rfl
  refine ⟨{ s.setGrey ((if cell.grey < 128 then 255 else 0 : Nat) : Int) with
    infile := left, texImage := s.texImage ++ cell.restored pbmAscii }, ?_, same.trans (sameText_newline _ _), rfl⟩
  show s.pbmAscii.bind Reader.store = _
  rw [scanned, negative]
  exact store_grey s _ left

theorem sameText_afterMax (mode : Int) (text : Bytes) : SameText (afterMax mode text) text := by
  unfold afterMax
  split
  · exact skipSpace_stops skipSpace_head
  · rfl

end Text

section Raw
variable {width : Int} {rest infile : Bytes} {mode : Int} {s : Reader} {j : Nat}

theorem step_ppmRaw (cell : Cell) (pen : Pen) (s : Reader) (rest : Bytes)
    (same : s.infile = (writePixel ppmRaw width cell pen).1 ++ rest) :
    ∃ s', readPixel ppmRaw width s cell.x = .ok s' ∧ s'.infile = rest ∧
      s'.texImage = s.texImage ++ cell.restored ppmRaw := by
  have begins : s.infile = cell.r :: cell.g :: cell.b :: rest := same
  refine ⟨{ s.ppmRaw with texImage := s.texImage ++ cell.restored ppmRaw }, ?_, ?_, rfl⟩
  · show s.ppmRaw.store = _
    simp only [Reader.ppmRaw, begins, fgetc, Reader.store, ofInt_toNat]
    rfl
  · simp only [Reader.ppmRaw, begins, fgetc]

theorem step_pgmRaw (cell : Cell) (pen : Pen) (s : Reader) (rest : Bytes)
    (same : s.infile = (writePixel pgmRaw width cell pen).1 ++ rest) :
    ∃ s', readPixel pgmRaw width s cell.x = .ok s' ∧ s'.infile = rest ∧
      s'.texImage = s.texImage ++ cell.restored pgmRaw := by
  have begins : s.infile = UInt8.ofNat cell.grey :: rest := same
  have value : ((UInt8.ofNat cell.grey).toNat : Int) = cell.grey := by
    rw [UInt8.toNat_ofNat', Nat.mod_eq_of_lt (grey_lt cell)]
  refine ⟨{ s.setGrey cell.grey with infile := rest, texImage := s.texImage ++ cell.restored pgmRaw }, ?_, rfl, rfl⟩
  show s.pgmRaw.store = _
  simp only [Reader.pgmRaw, begins, fgetc, value]
  exact store_grey s cell.grey rest

theorem raw_head (raw : mode = ppmRaw ∨ mode = pgmRaw) (cells : List Cell) (pen : Pen) :
    (writePixels mode width cells pen).head? = (cells.flatMap (Cell.restored mode)).head? := by
  cases cells with
  | nil => rfl
  | cons cell cells =>
    cases raw with
    | inl colour =>
      rw [colour]
      rfl
    | inr grey =>
      rw [grey]
      rfl

theorem skipSpace_tail {text : Bytes} (black : (text.head?.map isSpace).getD false = false) (rest : Bytes) :
    ∃ tail, skipSpace (text ++ rest) = text ++ tail := by
  cases text with
  | nil => exact ⟨skipSpace rest, rfl⟩
  | cons c text => exact ⟨rest, skipSpace_stops black⟩

/-- The first byte that is stored is no white space when what is left of the file does not
begin with it: behind the end of the file it is 255. -/
theorem raw_stores (raw : mode = ppmRaw ∨ mode = pgmRaw) (black : (infile.head?.map isSpace).getD false = false)
    {last : Reader} (read : readPixel mode width (firstPixel infile) j = .ok last) :
    ∃ c more, last.texImage = c :: more ∧ isSpace c = false := by
  have first : isSpace (UInt8.ofInt (fgetc infile).1) = false := by
    cases infile with
    | nil => rfl
    | cons c infile =>
      show isSpace (UInt8.ofInt (c.toNat : Int)) = false
      rw [ofInt_toNat]
      exact black
  cases raw with
  | inl colour =>
    rw [colour] at read
    cases read
    exact ⟨_, _, rfl, first⟩
  | inr grey =>
    rw [grey] at read
    cases read
    exact ⟨_, _, rfl, first⟩

end Raw

section Reload
variable {image : Image} {w h : Nat} {env : Env} {mode : Int}

/-- An image that is saved in colour as text is the image that is loaded. -/
theorem ppmAscii_reload (sized : Sized image w h) (memory : env.calloc (3 * w * h) = true) (f : Bytes) :
    reload env f ppmAscii w h image = .ok ⟨ppmAscii, w, h, image⟩ := by
  have copied : eachPixel (restored ppmAscii) image = image := by
    apply eachPixel_colour (.inl rfl)
    rw [sized.length, Nat.mul_assoc]
  rw [reload_of_step rfl sized memory step_ppmAscii (sameText_afterMax _ _) f, copied]

def someEnv : Env := ⟨⟨List.replicate 24 46, by decide, rfl⟩, 3, fun _ => true, none, none⟩

theorem ppmAscii_reload_row :
    reload someEnv [] ppmAscii (2 : Nat) (1 : Nat) [1, 20, 255, 0, 10, 32] = .ok ⟨ppmAscii, 2, 1, [1, 20, 255, 0, 10, 32]⟩ :=
  ppmAscii_reload ⟨rfl, by decide, by decide, by decide⟩ rfl []

theorem textReload (text : mode = pgmAscii ∨ mode = pbmAscii) (sized : Sized image w h)
    (memory : env.calloc (3 * w * h) = true) (f : Bytes) :
    reload env f mode w h image = .ok ⟨mode, w, h, eachPixel (restored mode) image⟩ := by
  cases text with
  | inl grey =>
    rw [grey]
    exact reload_of_step rfl sized memory step_pgmAscii (sameText_afterMax _ _) f
  | inr bitmap =>
    rw [bitmap]
    exact reload_of_step rfl sized memory step_pbmAscii (sameText_afterMax _ _) f

theorem readImage_first {infile : Bytes} {t : Texture}
    (read : readImage env.calloc mode (some w) (some h) infile = .ok t) :
    ∃ last zeros, readPixels mode w (columns w h) (firstPixel infile) = .ok last ∧ t.texImage = last.texImage ++ zeros := by
  rw [readImage_some] at read
  obtain ⟨size, _, read⟩ := bind_ok read
  obtain ⟨last, loop, result⟩ := bind_ok read
  cases result
  exact ⟨last, _, loop, rfl⟩

/-- Saved raw, an image is loaded as it should be where its first byte is no white space, and
only there. -/
theorem raw_reload_iff (raw : mode = ppmRaw ∨ mode = pgmRaw) (sized : Sized image w h)
    (memory : env.calloc (3 * w * h) = true) (f : Bytes) :
    reload env f mode w h image = .ok ⟨mode, w, h, eachPixel (restored mode) image⟩ ↔
      ((eachPixel (restored mode) image).head?.map isSpace).getD false = false := by
  have valid : isValidMode mode = true := by
    cases raw with
    | inl colour => rw [colour]; rfl
    | inr grey => rw [grey]; rfl
  have skips (text : Bytes) : afterMax mode text = skipSpace text := by
    cases raw with
    | inl colour => rw [colour]; rfl
    | inr grey => rw [grey]; rfl
  have heads : (writePixels mode w (cells image w h false) ⟨env.i, 0⟩).head? = (eachPixel (restored mode) image).head? := by
    rw [raw_head raw, restored_image sized]
  constructor
  · intro loaded
    rw [reload_eq valid sized, skips] at loaded
    obtain ⟨last, zeros, loop, stored⟩ := readImage_first loaded
    cases pixels : columns w h with
    | nil =>
      have none_ : 3 * w * h = 0 := by
        have length := columns_length w h
        rw [pixels, Int.toNat_natCast, Int.toNat_natCast] at length
        rw [Nat.mul_assoc, Nat.mul_comm w h, ← length]
        rfl
      rw [List.length_eq_zero_iff.mp ((restored_full sized).trans none_)]
      rfl
    | cons j js =>
      rw [pixels] at loop
      obtain ⟨next, first, rest⟩ := readPixels_cons loop
      obtain ⟨c, more, head, black⟩ := raw_stores raw skipSpace_head first
      obtain ⟨bytes, appended, _⟩ := readPixels_appends rest
      have whole : eachPixel (restored mode) image = c :: (more ++ bytes ++ zeros) := by
        refine stored.trans ?_
        rw [appended, head]
        rfl
      rw [whole]
      exact black
  · intro black
    rw [← heads] at black
    obtain ⟨tail, kept⟩ := skipSpace_tail black [10]
    have begins : afterMax mode (pixelText env mode w h image) =
        writePixels mode w (cells image w h false) ⟨env.i, 0⟩ ++ tail := (skips _).trans kept
    cases raw with
    | inl colour =>
      subst colour
      exact reload_of_step rfl sized memory step_ppmRaw begins f
    | inr grey =>
      subst grey
      exact reload_of_step rfl sized memory step_pgmRaw begins f

-- a first pixel that begins with a space
theorem raw_reload_iff_space : reload someEnv [] ppmRaw (1 : Nat) (1 : Nat) [32, 1, 2] ≠
    .ok ⟨ppmRaw, (1 : Nat), (1 : Nat), eachPixel (restored ppmRaw) [32, 1, 2]⟩ := by
  intro loaded
  have black := (raw_reload_iff (.inl rfl) ⟨rfl, by decide, by decide, by decide⟩ rfl []).mp loaded
  cases black

end Reload

end CppRt.Histogram

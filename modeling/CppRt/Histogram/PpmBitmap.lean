import CppRt.Histogram.PpmRoundTrip

/-!
The raw bitmap, of which WritePPM puts eight pixels of a row into a byte, the first of them
in the highest bit, and fills the last byte of a row with zeros. ReadPPM takes the byte
before WritePPM would have completed it: while the two go over the same row, what the writer
has collected is the upper part of the byte that the reader holds.
-/

namespace CppRt.Histogram
open Library.Decimal (Bytes)

def Follows (w : Nat) : Nat → List Nat → Prop
  | x, [] => x = 0
  | x, j :: js => j = x ∧ x < w ∧ Follows w (if x + 1 = w then 0 else x + 1) js

theorem follows_row {w : Nat} {rest : List Nat} (after : Follows w 0 rest) (left x : Nat) (ends : x + left + 1 = w) :
    Follows w x (List.range' x (left + 1) ++ rest) := by
  induction left generalizing x with
  | zero =>
    have last : x + 1 = w := ends
    refine ⟨rfl, by omega, ?_⟩
    rw [if_pos last]
    exact after
  | succ left ih =>
    have more : ¬x + 1 = w := by omega
    refine ⟨rfl, by omega, ?_⟩
    rw [if_neg more]
    exact ih (x + 1) (by omega)

theorem follows_columns (w h : Nat) : Follows w 0 (columns w h) := by
  have rows (rows : List Nat) : Follows w 0 (rows.flatMap fun _ => List.range w) := by
    induction rows with
    | nil => rfl
    | cons y rows ih =>
      rw [List.flatMap_cons, List.range_eq_range']
      cases w with
      | zero => exact ih
      | succ w => exact follows_row (List.range_eq_range' ▸ ih) w 0 (by omega)
  exact rows _

/-- What the writer holds before column x, with so many pixels left. -/
structure PenAt (pen : Pen) (x left : Nat) : Prop where
  counted : 0 ≤ pen.i.toInt
  room : pen.i.toInt + left < 2 ^ 31
  column : pen.i.toInt % 8 = (x % 8 : Nat)
  bits : pen.bw.toNat < 2 ^ (x % 8)

def Cell.add (cell : Cell) : Nat := if cell.grey < 128 then 1 else 0

def Pen.collected (pen : Pen) (cell : Cell) : Nat := pen.bw.toNat * 2 + cell.add

section Writer
variable {w x left : Nat} {pen : Pen} {cell : Cell}

theorem add_le (cell : Cell) : cell.add ≤ 1 := by
  unfold Cell.add
  split <;> decide

theorem i_next (at_ : PenAt pen x (left + 1)) : (pen.i + 1).toInt = pen.i.toInt + 1 := by
  have counted := at_.counted
  have room := at_.room
  rw [Int32.toInt_add, Int32.toInt_one]
  apply Int.bmod_eq_of_le <;> omega

theorem i_rest (at_ : PenAt pen x (left + 1)) : ((pen.i + 1) % 8).toInt = (pen.i.toInt + 1) % 8 := by
  have counted := at_.counted
  rw [Int32.toInt_mod, i_next at_]
  exact Int.tmod_eq_emod_of_nonneg (by omega)

theorem i_full (at_ : PenAt pen x (left + 1)) : (pen.i + 1) % 8 = 0 ↔ (pen.i.toInt + 1) % 8 = 0 := by
  rw [← Int32.toInt_inj, i_rest at_]
  rfl

theorem i_bits (at_ : PenAt pen x (left + 1)) : (8 - (pen.i + 1) % 8).toInt = 8 - (pen.i.toInt + 1) % 8 := by
  have eight : (8 : Int32).toInt = 8 := rfl
  rw [Int32.toInt_sub, i_rest at_, eight]
  apply Int.bmod_eq_of_le <;> omega

theorem collected_lt (at_ : PenAt pen x left) : pen.collected cell < 2 ^ (x % 8 + 1) := by
  have bits := at_.bits
  have bit := add_le cell
  rw [Pen.collected, Nat.pow_succ]
  omega

theorem collected_byte (at_ : PenAt pen x left) : (UInt8.ofNat (pen.collected cell)).toNat = pen.collected cell := by
  have below : pen.collected cell < 2 ^ 8 := by
    apply Nat.lt_of_lt_of_le (collected_lt at_)
    apply Nat.pow_le_pow_right (by decide)
    omega
  rw [UInt8.toNat_ofNat', Nat.mod_eq_of_lt below]

/-- A byte is written when it is full or the row ends, with the collected bits above the
zeros; else the bits are kept. -/
theorem writePbmRaw_cases (at_ : PenAt pen x (left + 1)) (column : cell.x = x) :
    (∃ full next, writePbmRaw w cell pen = ([full], next) ∧ full.toNat / 2 ^ (7 - x % 8) = pen.collected cell ∧
        PenAt next (if x + 1 = w then 0 else x + 1) left ∧ (if x + 1 = w then 0 else x + 1) % 8 = 0) ∨
      ∃ next, writePbmRaw w cell pen = ([], next) ∧ next.bw.toNat = pen.collected cell ∧ x % 8 < 7 ∧ ¬x + 1 = w ∧
        PenAt next (x + 1) left := by
  have counted := at_.counted
  have room := at_.room
  have place := at_.column
  have next := i_next at_
  have add_ : pen.bw.toNat * 2 + (if cell.grey < 128 then 1 else 0) = pen.collected cell := rfl
  unfold writePbmRaw
  rw [column]
  simp only [add_]
  by_cases full : (pen.i.toInt + 1) % 8 = 0
  · rw [if_pos ((i_full at_).mpr full)]
    have last : x % 8 = 7 := by omega
    have aligned : (if x + 1 = w then 0 else x + 1) % 8 = 0 := by
      split <;> omega
    refine .inl ⟨_, _, rfl, ?_, ⟨?_, ?_, ?_, ?_⟩, aligned⟩
    · rw [collected_byte at_, last]
      exact Nat.div_one _
    · show 0 ≤ (pen.i + 1).toInt
      omega
    · show (pen.i + 1).toInt + left < 2 ^ 31
      omega
    · show (pen.i + 1).toInt % 8 = _
      rw [next, full, aligned]
      rfl
    · rw [aligned]
      exact Nat.one_pos
  · rw [if_neg ((i_full at_).not.mpr full)]
    have more : x % 8 < 7 := by omega
    by_cases ended : (x : Int) + 1 = w
    · rw [if_pos ended]
      have row : x + 1 = w := by omega
      have bits : (8 - (pen.i + 1) % 8).toInt.toNat = 7 - x % 8 := by
        rw [i_bits at_]
        omega
      have below : pen.collected cell * 2 ^ (7 - x % 8) < 2 ^ 8 := by
        have split_ : x % 8 + 1 + (7 - x % 8) = 8 := by omega
        calc
          _ < 2 ^ (x % 8 + 1) * 2 ^ (7 - x % 8) := Nat.mul_lt_mul_of_pos_right (collected_lt at_) (Nat.two_pow_pos _)
          _ = 2 ^ 8 := by rw [← Nat.pow_add, split_]
      rw [if_pos row]
      refine .inl ⟨_, _, rfl, ?_, ⟨Int.le_refl 0, ?_, rfl, Nat.one_pos⟩, rfl⟩
      · rw [collected_byte at_, bits, UInt8.toNat_ofNat', Nat.mod_eq_of_lt below]
        exact Nat.mul_div_cancel _ (Nat.two_pow_pos _)
      · show (0 : Int) + left < 2 ^ 31
        omega
    · rw [if_neg ended]
      refine .inr ⟨_, rfl, collected_byte at_, more, by omega, ⟨?_, ?_, ?_, ?_⟩⟩
      · show 0 ≤ (pen.i + 1).toInt
        omega
      · show (pen.i + 1).toInt + left < 2 ^ 31
        omega
      · show (pen.i + 1).toInt % 8 = _
        omega
      · have next : (x + 1) % 8 = x % 8 + 1 := by omega
        rw [next, collected_byte at_]
        exact collected_lt at_

theorem writePixels_head (cells : List Cell) (at_ : PenAt pen x (cells.length + 1)) (follows : Follows w x ((cell :: cells).map Cell.x)) :
    ∃ full rest, writePixels pbmRaw w (cell :: cells) pen = full :: rest ∧
      full.toNat / 2 ^ (7 - x % 8) = pen.collected cell := by
  induction cells generalizing cell pen x with
  | nil =>
    obtain ⟨column, _, after⟩ := follows
    cases writePbmRaw_cases at_ column with
    | inl complete =>
      obtain ⟨full, next, written, bits, _⟩ := complete
      refine ⟨full, [], ?_, bits⟩
      show (writePbmRaw w cell pen).1 ++ [] = _
      rw [written]
      rfl
    | inr kept =>
      obtain ⟨next, _, _, _, inner, _⟩ := kept
      rw [if_neg inner] at after
      cases after
  | cons second cells ih =>
    obtain ⟨column, _, after⟩ := follows
    cases writePbmRaw_cases at_ column with
    | inl complete =>
      obtain ⟨full, next, written, bits, _⟩ := complete
      refine ⟨full, writePixels pbmRaw w (second :: cells) next, ?_, bits⟩
      show (writePbmRaw w cell pen).1 ++ writePixels pbmRaw w (second :: cells) (writePbmRaw w cell pen).2 = _
      rw [written]
      rfl
    | inr kept =>
      obtain ⟨next, written, held, more, inner, nextAt⟩ := kept
      rw [if_neg inner] at after
      obtain ⟨full, rest, text, bits⟩ := ih nextAt after
      refine ⟨full, rest, ?_, ?_⟩
      · show (writePbmRaw w cell pen).1 ++ writePixels pbmRaw w (second :: cells) (writePbmRaw w cell pen).2 = _
        rw [written]
        exact text
      · have wider : 7 - x % 8 = 7 - (x + 1) % 8 + 1 := by omega
        have bit := add_le second
        rw [wider, Nat.pow_succ, ← Nat.div_div_eq_div_mul, bits, Pen.collected, held]
        omega

end Writer

section Reading
variable {w x : Nat} {pen : Pen} {cell : Cell} {s : Reader} {tail : Bytes}

/-- What the reader holds before column x, where `text` is what the writer goes on to write:
inside a byte the reader has taken the whole of it. -/
structure ReaderAt (s : Reader) (x : Nat) (text : Bytes) : Prop where
  column : s.count = x
  between : x % 8 = 0 → s.infile = text
  inside : x % 8 ≠ 0 → ∃ full : UInt8, text = full :: s.infile ∧ s.bw = full.toNat

def Reader.taken (s : Reader) : Reader :=
  if s.count % 8 = 0 then { s with bw := (fgetc s.infile).1, infile := (fgetc s.infile).2 } else s

theorem taken_byte {full : UInt8} {rest : Bytes} (at_ : ReaderAt s x (full :: rest)) :
    s.taken.bw = full.toNat ∧ s.taken.infile = rest ∧ s.taken.count = x ∧ s.taken.texImage = s.texImage := by
  unfold Reader.taken
  rw [at_.column]
  by_cases first : x % 8 = 0
  · rw [if_pos first, at_.between first]
    exact ⟨rfl, rfl, rfl, rfl⟩
  · rw [if_neg first]
    obtain ⟨held, same, bits⟩ := at_.inside first
    cases same
    exact ⟨bits, rfl, at_.column, rfl⟩

theorem bit_read {full : UInt8} (bits : full.toNat / 2 ^ (7 - x % 8) = pen.collected cell) :
    ((full.toNat : Int) / 2 ^ (7 - x % 8) % 2 = 1) ↔ cell.grey < 128 := by
  have value : (full.toNat : Int) / 2 ^ (7 - x % 8) = (pen.collected cell : Nat) := by
    rw [← bits]
    push_cast
    rfl
  rw [value, Pen.collected, Cell.add]
  split
  · next dark => exact ⟨fun _ => dark, fun _ => by omega⟩
  · next light => exact ⟨fun wrong => by omega, fun dark => absurd dark light⟩

theorem step_pbmRaw {full : UInt8} {rest : Bytes} (at_ : ReaderAt s x (full :: rest)) (column : cell.x = x)
    (bits : full.toNat / 2 ^ (7 - x % 8) = pen.collected cell) :
    ∃ s', readPixel pbmRaw w s cell.x = .ok s' ∧ s'.infile = rest ∧ s'.bw = full.toNat ∧
      s'.count = (if x + 1 = w then 0 else x + 1) ∧ s'.texImage = s.texImage ++ cell.restored pbmRaw := by
  obtain ⟨byte_, left, counted, kept⟩ := taken_byte at_
  have bit : (if s.taken.bw / 2 ^ (7 - s.taken.count % 8) % 2 = 1 then 0 else 255 : Int) =
      ((if cell.grey < 128 then 0 else 255 : Nat) : Int) := by
    rw [byte_, counted]
    by_cases dark : cell.grey < 128
    · rw [if_pos ((bit_read bits).mpr dark), if_pos dark]
      rfl
    · rw [if_neg (fun wrong => dark ((bit_read bits).mp wrong)), if_neg dark]
      rfl
  have next : (if (cell.x : Int) + 1 = w then 0 else s.taken.count + 1) = if x + 1 = w then 0 else x + 1 := by
    rw [column, counted]
    by_cases ended : x + 1 = w
    · rw [if_pos ended, if_pos (by omega)]
    · rw [if_neg ended, if_neg (by omega)]
  have black : cell.restored pbmRaw = List.replicate 3 (UInt8.ofNat (if cell.grey < 128 then 0 else 255)) := by
    show List.replicate 3 (if cell.grey < 128 then 0 else 255) = _
    by_cases dark : cell.grey < 128
    · rw [if_pos dark, if_pos dark]
      rfl
    · rw [if_neg dark, if_neg dark]
      rfl
  have read : s.pbmRaw w cell.x = { s.taken.setGrey ((if cell.grey < 128 then 0 else 255 : Nat) : Int) with
      count := if x + 1 = w then 0 else x + 1 } := by
    rw [← bit, ← next]
    rfl
  refine ⟨{ s.taken.setGrey ((if cell.grey < 128 then 0 else 255 : Nat) : Int) with
    count := if x + 1 = w then 0 else x + 1, texImage := s.texImage ++ cell.restored pbmRaw }, ?_, left, byte_, rfl, rfl⟩
  show (s.pbmRaw w cell.x).store = _
  rw [read, black, ← kept]
  simp only [Reader.store, Reader.setGrey, ofInt_nat]
  rfl

theorem readPixels_bitmap (cells : List Cell) (follows : Follows w x (cells.map Cell.x)) (penAt : PenAt pen x cells.length)
    (readerAt : ReaderAt s x (writePixels pbmRaw w cells pen ++ tail)) :
    ∃ s', readPixels pbmRaw w (cells.map Cell.x) s = .ok s' ∧
      s'.texImage = s.texImage ++ cells.flatMap (Cell.restored pbmRaw) := by
  induction cells generalizing x pen s with
  | nil => exact ⟨s, rfl, (List.append_nil _).symm⟩
  | cons cell cells ih =>
    obtain ⟨full, rest, text, bits⟩ := writePixels_head cells penAt follows
    obtain ⟨column, _, after⟩ := follows
    rw [text, List.cons_append] at readerAt
    obtain ⟨next, read, left, held, counted, stored⟩ := step_pbmRaw readerAt column bits
    have written : (writePbmRaw w cell pen).1 ++ writePixels pbmRaw w cells (writePbmRaw w cell pen).2 = full :: rest := text
    have goesOn : ∃ pen', PenAt pen' (if x + 1 = w then 0 else x + 1) cells.length ∧
        ReaderAt next (if x + 1 = w then 0 else x + 1) (writePixels pbmRaw w cells pen' ++ tail) := by
      cases writePbmRaw_cases penAt column with
      | inl complete =>
        obtain ⟨byte_, pen', wrote, _, penAt', aligned⟩ := complete
        rw [wrote] at written
        cases written
        exact ⟨pen', penAt', counted, fun _ => left, fun inner => absurd aligned inner⟩
      | inr kept =>
        obtain ⟨pen', wrote, _, more, inner, penAt'⟩ := kept
        rw [wrote] at written
        have same : writePixels pbmRaw w cells pen' = full :: rest := written
        rw [if_neg inner] at counted ⊢
        refine ⟨pen', penAt', counted, fun between => by omega, fun _ => ⟨full, ?_, held⟩⟩
        rw [same, left]
        rfl
    obtain ⟨pen', penAt', readerAt'⟩ := goesOn
    obtain ⟨last, reads, image⟩ := ih after penAt' readerAt'
    refine ⟨last, ?_, ?_⟩
    · rw [readPixels, List.map_cons, List.foldlM_cons, read]
      exact reads
    · rw [image, stored, List.flatMap_cons, List.append_assoc]

end Reading

section Reload
variable {image : Image} {w h : Nat} {env : Env}

theorem pbmRaw_reload (sized : Sized image w h) (memory : env.calloc (3 * w * h) = true)
    (positive : 0 ≤ env.i.toInt) (whole : env.i.toInt % 8 = 0) (room : env.i.toInt + w * h < 2 ^ 31) (f : Bytes) :
    reload env f pbmRaw w h image = .ok ⟨pbmRaw, w, h, eachPixel (restored pbmRaw) image⟩ := by
  have left : (cells image w h false).length = w * h := by
    rw [← List.length_map Cell.x, cells_columns, columns_length, Int.toNat_natCast, Int.toNat_natCast, Nat.mul_comm]
  have penAt : PenAt ⟨env.i, 0⟩ 0 (cells image w h false).length := ⟨positive, by rw [left]; exact_mod_cast room, whole, Nat.one_pos⟩
  have readerAt : ReaderAt (firstPixel (pixelText env pbmRaw w h image)) 0 (pixelText env pbmRaw w h image) :=
    ⟨rfl, fun _ => rfl, fun wrong => absurd rfl wrong⟩
  have follows : Follows w 0 ((cells image w h false).map Cell.x) := by
    rw [cells_columns]
    exact follows_columns w h
  obtain ⟨last, read, stored⟩ := readPixels_bitmap (cells image w h false) follows penAt readerAt
  have copied : last.texImage = eachPixel (restored pbmRaw) image := by
    rw [stored, restored_image sized]
    rfl
  have kept : afterMax pbmRaw (pixelText env pbmRaw w h image) = pixelText env pbmRaw w h image := rfl
  rw [reload_eq rfl sized, kept, readImage_eq sized memory read (by rw [copied, restored_full sized]), copied]

theorem restored_negative (r g b : UInt8) : restored pbmAscii r g b = (restored pbmRaw r g b).map (255 - ·) := by
  show List.replicate 3 (if (r.toNat + g.toNat + b.toNat) / 3 < 128 then 255 else 0) =
    (List.replicate 3 (if (r.toNat + g.toNat + b.toNat) / 3 < 128 then 0 else 255)).map (255 - ·)
  split <;> rfl

theorem eachPixel_map (change : UInt8 → UInt8 → UInt8 → Image) (value : UInt8 → UInt8) (image : Image) :
    eachPixel (fun r g b => (change r g b).map value) image = (eachPixel change image).map value := by
  induction image using eachPixel.induct with
  | case1 r g b image ih => rw [eachPixel, eachPixel, List.map_append, ih]
  | case2 image short => rw [eachPixel, eachPixel, List.map_nil] <;> exact short

/-- Of the two bitmaps of an image the one that was saved as text is loaded as the negative of
the one that was saved raw. -/
theorem bitmaps_opposite (sized : Sized image w h) (memory : env.calloc (3 * w * h) = true)
    (positive : 0 ≤ env.i.toInt) (whole : env.i.toInt % 8 = 0) (room : env.i.toInt + w * h < 2 ^ 31) (f : Bytes) :
    ∃ bitmap, reload env f pbmRaw w h image = .ok ⟨pbmRaw, w, h, bitmap⟩ ∧
      bitmap = eachPixel (restored pbmRaw) image ∧
      reload env f pbmAscii w h image = .ok ⟨pbmAscii, w, h, bitmap.map (255 - ·)⟩ := by
  refine ⟨_, pbmRaw_reload sized memory positive whole room f, rfl, ?_⟩
  have negative : restored pbmAscii = fun r g b => (restored pbmRaw r g b).map (255 - ·) := by
    funext r g b
    exact restored_negative r g b
  rw [textReload (.inr rfl) sized memory f, negative, eachPixel_map]

theorem bitmaps_opposite_row : ∃ bitmap,
    reload { someEnv with i := 0 } [] pbmRaw (2 : Nat) (1 : Nat) [0, 0, 0, 200, 200, 200] = .ok ⟨pbmRaw, 2, 1, bitmap⟩ ∧
      bitmap = [0, 0, 0, 255, 255, 255] ∧
      reload { someEnv with i := 0 } [] pbmAscii (2 : Nat) (1 : Nat) [0, 0, 0, 200, 200, 200] =
        .ok ⟨pbmAscii, 2, 1, bitmap.map (255 - ·)⟩ :=
  bitmaps_opposite ⟨rfl, by decide, by decide, by decide⟩ rfl (by decide) rfl (by decide) []

end Reload

end CppRt.Histogram

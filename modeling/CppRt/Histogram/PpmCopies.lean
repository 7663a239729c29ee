import CppRt.Histogram.Counts
import CppRt.Histogram.PpmRoundTrip
import Mathlib.Data.List.GetD

/-!
Two uses of the files: a negative height turns the image upside down, whatever the mode, and
a copy in grey has the histogram of the image in colour.
-/

namespace CppRt.Histogram
open Library.Decimal (Bytes)

section Blocks
variable {α β : Type}

/-- Of equal blocks one after the other, a place is in the block that division by their size
gives. -/
theorem blocks_getD {block : β → List α} {size : Nat} (blocks : List β) (equal : ∀ b ∈ blocks, (block b).length = size)
    {n : Nat} {b : β} (there : blocks[n]? = some b) {k : Nat} (below : k < size) (default_ : α) :
    (blocks.flatMap block).getD (size * n + k) default_ = (block b).getD k default_ := by
  induction blocks generalizing n with
  | nil => cases there
  | cons first blocks ih =>
    have length := equal first List.mem_cons_self
    rw [List.flatMap_cons]
    cases n with
    | zero =>
      cases there
      rw [Nat.mul_zero, Nat.zero_add]
      exact List.getD_append _ _ _ _ (length ▸ below)
    | succ n =>
      have later : (block first).length ≤ size * (n + 1) + k := by
        rw [length, Nat.mul_succ]
        omega
      have place : size * (n + 1) + k - (block first).length = size * n + k := by
        rw [length, Nat.mul_succ]
        omega
      rw [List.getD_append_right _ _ _ _ later, place]
      exact ih (fun b within => equal b (List.mem_cons_of_mem _ within)) there

end Blocks

section Flip
variable {image : Image} {w h : Nat}

def imageRow (image : Image) (w y : Nat) : Image := (image.drop (3 * w * y)).take (3 * w)

def flipRows (image : Image) (w h : Nat) : Image := (List.range h).reverse.flatMap (imageRow image w)

theorem imageRow_length (length : image.length = 3 * w * h) {y : Nat} (row : y < h) : (imageRow image w y).length = 3 * w := by
  have fits : 3 * w * (y + 1) ≤ 3 * w * h := Nat.mul_le_mul_left _ row
  rw [Nat.mul_succ] at fits
  rw [imageRow, List.length_take, List.length_drop, length]
  omega

theorem imageRow_getD {y k : Nat} (below : k < 3 * w) : (imageRow image w y).getD k 0 = image.getD (3 * w * y + k) 0 := by
  rw [imageRow, List.getD_eq_getElem?_getD, List.getD_eq_getElem?_getD, List.getElem?_take_of_lt below, List.getElem?_drop]

theorem reverse_range (h : Nat) : (List.range h).reverse = (List.range h).map fun y => h - 1 - y := by
  rw [List.range_eq_range', List.reverse_range', Nat.zero_add, ← List.range_eq_range']

theorem flipRows_getD (length : image.length = 3 * w * h) {y k : Nat} (row : y < h) (below : k < 3 * w) :
    (flipRows image w h).getD (3 * w * y + k) 0 = image.getD (3 * w * (h - 1 - y) + k) 0 := by
  have there : ((List.range h).reverse)[y]? = some (h - 1 - y) := by
    rw [reverse_range, List.getElem?_map, List.getElem?_range row]
    rfl
  have equal : ∀ y ∈ (List.range h).reverse, (imageRow image w y).length = 3 * w := fun y within =>
    imageRow_length length (List.mem_range.mp (List.mem_reverse.mp within))
  rw [flipRows, blocks_getD _ equal there below, imageRow_getD below]

theorem flipRows_length (length : image.length = 3 * w * h) : (flipRows image w h).length = 3 * w * h := by
  have equal : (List.range h).reverse.map (fun y => (imageRow image w y).length) = List.replicate h (3 * w) := by
    rw [List.eq_replicate_iff]
    constructor
    · rw [List.length_map, List.length_reverse, List.length_range]
    · intro size within
      obtain ⟨y, row, rfl⟩ := List.mem_map.mp within
      exact imageRow_length length (List.mem_range.mp (List.mem_reverse.mp row))
  rw [flipRows, List.length_flatMap, equal, List.sum_replicate_nat, Nat.mul_comm]

theorem cells_flipRows (length : image.length = 3 * w * h) : cells image w h true = cells (flipRows image w h) w h false := by
  have pixel (y x byte_ : Nat) (row : y < h) (column : x < w) (three : byte_ < 3) :
      image.getD (3 * ((h - 1 - y) * w + x) + byte_) 0 = (flipRows image w h).getD (3 * (y * w + x) + byte_) 0 := by
    have place (row : Nat) : 3 * (row * w + x) + byte_ = 3 * w * row + (3 * x + byte_) := by
      rw [Nat.mul_add, Nat.mul_comm row w, Nat.mul_assoc, Nat.add_assoc]
    rw [place, place, flipRows_getD length row (by omega)]
  rw [cells, cells, if_pos rfl, if_neg Bool.false_ne_true, reverse_range, List.flatMap_map, List.flatMap_def, List.flatMap_def]
  congr 1
  apply List.map_congr_left
  intro y row
  apply List.map_congr_left
  intro x column
  have row := List.mem_range.mp row
  have column := List.mem_range.mp column
  simp only [cellAt, Cell.mk.injEq]
  exact ⟨trivial, pixel y x 0 row column (by decide), pixel y x 1 row column (by decide), pixel y x 2 row column (by decide)⟩

/-- A negative height writes the file of the image that is upside down. -/
theorem writePPM_flipped (sized : Sized image w h) (ctime : Bytes) (opened : Bool) (i : Int32) (f : Bytes)
    (mode : Int) : writePPM ctime opened i f mode w (-h) image = writePPM ctime opened i f mode w h (flipRows image w h) := by
  have upright : ¬(h : Int) < 0 := by omega
  by_cases some_ : 0 < h
  · have inverted : (-h : Int) < 0 := by omega
    simp only [writePPM, if_pos inverted, if_neg upright, decide_eq_true inverted, decide_eq_false upright, Int.neg_neg,
      Int.toNat_natCast, cells_flipRows sized.length, flipRows_length sized.length, sized.length]
  · have none_ : h = 0 := by omega
    subst none_
    rfl

theorem writePPM_flipped_column : writePPM [] true 0 [] ppmRaw (1 : Nat) (-(2 : Nat)) [1, 2, 3, 4, 5, 6] =
    writePPM [] true 0 [] ppmRaw (1 : Nat) (2 : Nat) [4, 5, 6, 1, 2, 3] :=
  writePPM_flipped ⟨rfl, by decide, by decide, by decide⟩ [] true 0 [] ppmRaw

end Flip

section Grey
variable {image : Image} {w h : Nat}

theorem copy_byte (length : image.length = 3 * w * h) {k byte_ : Nat} (pixel : k < h * w) (three : byte_ < 3) :
    byte (eachPixel (restored pgmAscii) image) (3 * k + byte_) = (grey image (3 * k)).toNat := by
  have pixels : image.length = 3 * (h * w) := by
    rw [length, Nat.mul_assoc, Nat.mul_comm w h]
  have equal : ∀ k ∈ List.range (h * w), (restored pgmAscii (image.getD (3 * k) 0) (image.getD (3 * k + 1) 0)
      (image.getD (3 * k + 2) 0)).length = 3 := fun k _ => restored_length _ _ _ _
  rw [byte, eachPixel_range _ pixels, ← List.flatMap_def, blocks_getD _ equal (List.getElem?_range pixel) three]
  show ((List.replicate 3 (grey image (3 * k))).getD byte_ 0).toNat = _
  rw [List.getD_eq_getElem?_getD, List.getElem?_replicate, if_pos three]
  rfl

theorem grey_copy (length : image.length = 3 * w * h) {k : Nat} (pixel : k < h * w) :
    grey (eachPixel (restored pgmAscii) image) (3 * k) = grey image (3 * k) := by
  rw [← UInt8.toNat_inj, grey_toNat]
  have first := copy_byte length pixel (by decide : 0 < 3)
  have second := copy_byte length pixel (by decide : 1 < 3)
  have third := copy_byte length pixel (by decide : 2 < 3)
  rw [Nat.add_zero] at first
  rw [first, second, third]
  omega

/-- The copy in grey that is saved as text and loaded has the histogram of the image. -/
theorem histogram_of_copy {env : Env} (sized : Sized image w h) (memory : env.calloc (3 * w * h) = true) (f : Bytes)
    (histogram : List UInt32) :
    ∃ copy, reload env f pgmAscii w h image = .ok ⟨pgmAscii, w, h, copy⟩ ∧
      makeHistogram copy w h histogram = makeHistogram image w h histogram := by
  refine ⟨_, textReload (.inl rfl) sized memory f, ?_⟩
  have same : (places w h).map (grey (eachPixel (restored pgmAscii) image)) = (places w h).map (grey image) := by
    apply List.map_congr_left
    intro place passed
    simp only [places, List.mem_flatMap, List.mem_map, List.mem_range] at passed
    obtain ⟨x, column, y, row, rfl⟩ := passed
    have pixel : x + y * w < h * w := by
      calc x + y * w < w + y * w := by omega
        _ = (y + 1) * w := by rw [Nat.succ_mul, Nat.add_comm]
        _ ≤ h * w := Nat.mul_le_mul_right w row
    rw [(offset_eq sized.small column row).1]
    exact grey_copy sized.length pixel
  have counted (image : Image) : makeHistogram image w h histogram =
      ((places w h).map (grey image)).foldl count histogram := by
    rw [makeHistogram_places, List.foldl_map]
  rw [counted, counted, same]

theorem histogram_of_copy_row : ∃ copy, reload someEnv [] pgmAscii (2 : Nat) (1 : Nat) [9, 9, 9, 0, 1, 5] =
    .ok ⟨pgmAscii, 2, 1, copy⟩ ∧ makeHistogram copy 2 1 (List.replicate 256 0) =
      makeHistogram [9, 9, 9, 0, 1, 5] 2 1 (List.replicate 256 0) :=
  histogram_of_copy ⟨rfl, by decide, by decide, by decide⟩ rfl [] (List.replicate 256 0)

end Grey

end CppRt.Histogram

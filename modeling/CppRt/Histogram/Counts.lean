import CppRt.Histogram.MakeHistogram
import Mathlib.Algebra.BigOperators.Intervals

/-!
What the loops over an image count. A histogram is a first histogram plus, bin by bin and
modulo 2^32, the numbers of pixels of each brightness that have been passed; the order in
which the loops pass them does not show.
-/

namespace CppRt.Histogram
open Finset

def brightness (image : Image) (width x y : Nat) : Nat :=
  let first := 3 * (x + y * width)
  (byte image first + byte image (first + 1) + byte image (first + 2)) / 3

def pixelCount (image : Image) (width columns fromY toY value : Nat) : Nat :=
  ((range columns ×ˢ Ico fromY toY).filter fun pixel => brightness image width pixel.1 pixel.2 = value).card

def columnCount (image : Image) (width x fromY toY value : Nat) : Nat :=
  ((Ico fromY toY).filter fun y => brightness image width x y = value).card

def bins (counts : Nat → Nat) : List UInt32 := (List.range 256).map fun value => UInt32.ofNat (counts value)

def addBins (left right : List UInt32) : List UInt32 := List.zipWith (· + ·) left right

section Counts
variable {image : Image} {width x y fromY middleY toY value : Nat}

theorem columnCount_empty : columnCount image width x y y value = 0 := by
  simp [columnCount]

theorem columnCount_succ (below : fromY ≤ y) : columnCount image width x fromY (y + 1) value =
    columnCount image width x fromY y value + if brightness image width x y = value then 1 else 0 := by
  simp only [columnCount, card_filter]
  rw [sum_Ico_succ_top below]

theorem pixelCount_columns (columns : Nat) : pixelCount image width columns fromY toY value =
    ∑ x ∈ range columns, columnCount image width x fromY toY value := by
  simp only [pixelCount, columnCount, card_filter]
  rw [sum_product]

theorem pixelCount_zero : pixelCount image width 0 fromY toY value = 0 := by
  rw [pixelCount_columns, sum_range_zero]

theorem pixelCount_succ : pixelCount image width (x + 1) fromY toY value =
    pixelCount image width x fromY toY value + columnCount image width x fromY toY value := by
  rw [pixelCount_columns, pixelCount_columns, sum_range_succ]

theorem pixelCount_rows {columns : Nat} (left : fromY ≤ middleY) (right : middleY ≤ toY) :
    pixelCount image width columns fromY toY value =
      pixelCount image width columns fromY middleY value + pixelCount image width columns middleY toY value := by
  simp only [pixelCount_columns, columnCount, card_filter]
  rw [← sum_add_distrib]
  apply sum_congr rfl
  intro x _
  exact (sum_Ico_consecutive _ left right).symm

theorem pixelCount_empty {columns : Nat} : pixelCount image width columns y y value = 0 := by
  simp [pixelCount]

end Counts

section Bins
variable {counts more : Nat → Nat} {histogram : List UInt32}

@[simp] theorem length_bins : (bins counts).length = 256 := by simp [bins]

@[simp] theorem length_addBins {left right : List UInt32} : (addBins left right).length = min left.length right.length := by
  simp [addBins]

@[simp] theorem getElem_bins {value : Nat} (inside : value < (bins counts).length) :
    (bins counts)[value] = UInt32.ofNat (counts value) := by
  simp [bins]

theorem addBins_bins : addBins (bins counts) (bins more) = bins fun value => counts value + more value := by
  apply List.ext_getElem
  · simp
  · intro value _ _
    simp [addBins]

theorem addBins_none (full : histogram.length = 256) (none_ : ∀ value, counts value = 0) :
    addBins histogram (bins counts) = histogram := by
  apply List.ext_getElem
  · simp [full]
  · intro value _ _
    simp [addBins, none_]

theorem count_bins (value : UInt8) : count (addBins histogram (bins counts)) value =
    addBins histogram (bins fun other => counts other + if value.toNat = other then 1 else 0) := by
  apply List.ext_getElem
  · simp [count]
  · intro other _ _
    simp only [count, addBins, List.getElem_modify, List.getElem_zipWith, getElem_bins, UInt32.ofNat_add]
    split
    · rw [UInt32.add_assoc]
      rfl
    · exact (congrArg _ (UInt32.add_zero _)).symm

end Bins

section Loops
variable {image : Image} {width height x y : Nat}

/-- In an image of less than 2^31 bytes no offset is reduced. -/
theorem offset_eq (small : 3 * width * height < 2 ^ 31) (column : x < width) (row : y < height) :
    offset width x y = 3 * (x + y * width) ∧ offset width x y + 2 < 3 * width * height := by
  have pixel : x + y * width < width * height := by
    calc x + y * width < width + y * width := by omega
      _ = width * (y + 1) := by rw [Nat.mul_succ, Nat.mul_comm width y, Nat.add_comm]
      _ ≤ width * height := Nat.mul_le_mul_left width row
  rw [Nat.mul_assoc] at small ⊢
  unfold offset
  omega

theorem grey_toNat (place : Nat) : (grey image place).toNat =
    (byte image place + byte image (place + 1) + byte image (place + 2)) / 3 := by
  have bytes (at_ : Nat) : byte image at_ < 256 := UInt8.toNat_lt _
  have first := bytes place
  have second := bytes (place + 1)
  have third := bytes (place + 2)
  unfold grey
  rw [UInt8.toNat_ofNat']
  omega

theorem grey_offset (small : 3 * width * height < 2 ^ 31) (column : x < width) (row : y < height) :
    (grey image (offset width x y)).toNat = brightness image width x y := by
  rw [grey_toNat, (offset_eq small column row).1]
  rfl

theorem column_loop (small : 3 * width * height < 2 ^ 31) (column : x < width) {rows : Nat} (bound : rows ≤ height)
    (histogram : List UInt32) (counts : Nat → Nat) :
    (List.range rows).foldl (fun histogram y => count histogram (grey image (offset width x y)))
        (addBins histogram (bins counts)) =
      addBins histogram (bins fun value => counts value + columnCount image width x 0 rows value) := by
  induction rows with
  | zero => simp [columnCount_empty]
  | succ rows ih =>
    rw [List.range_succ, List.foldl_append, ih (by omega)]
    simp only [List.foldl_cons, List.foldl_nil, count_bins, grey_offset small column bound]
    simp only [columnCount_succ (Nat.zero_le rows), Nat.add_assoc]

theorem image_loop (small : 3 * width * height < 2 ^ 31) {columns : Nat} (bound : columns ≤ width)
    {histogram : List UInt32} (full : histogram.length = 256) :
    (List.range columns).foldl (fun histogram x =>
        (List.range height).foldl (fun histogram y => count histogram (grey image (offset width x y))) histogram)
        histogram =
      addBins histogram (bins (pixelCount image width columns 0 height)) := by
  induction columns with
  | zero => exact (addBins_none full fun _ => pixelCount_zero).symm
  | succ columns ih =>
    rw [List.range_succ, List.foldl_append, ih (by omega)]
    simp only [List.foldl_cons, List.foldl_nil, column_loop small bound (Nat.le_refl height)]
    simp only [← pixelCount_succ]

theorem makeHistogram_eq (small : 3 * width * height < 2 ^ 31) {histogram : List UInt32}
    (full : histogram.length = 256) : makeHistogram image width height histogram =
      addBins histogram (bins (pixelCount image width width 0 height)) :=
  image_loop small (Nat.le_refl width) full

def places (width height : Nat) : List Nat :=
  (List.range width).flatMap fun x => (List.range height).map fun y => offset width x y

theorem makeHistogram_places (histogram : List UInt32) : makeHistogram image width height histogram =
    (places width height).foldl (fun histogram place => count histogram (grey image place)) histogram := by
  simp only [makeHistogram, places, List.foldl_flatMap, List.foldl_map]

theorem places_inside (small : 3 * width * height < 2 ^ 31) {place : Nat} (passed : place ∈ places width height) :
    place + 2 < 3 * width * height := by
  simp only [places, List.mem_flatMap, List.mem_map, List.mem_range] at passed
  obtain ⟨x, column, y, row, rfl⟩ := passed
  exact (offset_eq small column row).2

end Loops

end CppRt.Histogram

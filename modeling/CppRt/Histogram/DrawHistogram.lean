import CppRt.Histogram.MakeHistogram
import Mathlib.Tactic.Ring

/-!
draw_histogram. Both of its loops go on to the value their bound has: the outer one to a bin
256 that the histogram does not have, and the inner one to a row below the last. What it does
is given as the list of its accesses; a write past the end changes nothing that is modelled.
-/

namespace CppRt.Histogram

/-- What is computed for the height of a bar, in floats, from the height of the image, a count
and the greatest count. -/
abbrev Scale := Nat → UInt32 → UInt32 → UInt32

/-- `value`; `beyond` is what is found past the end of the vector. -/
def barHeight (scale : Scale) (height : Nat) (histogram : List UInt32) (beyond : UInt32) (idx : Nat) : Nat :=
  (scale height (histogram.getD idx beyond) (histogram.foldl max 0)).toNat

def barRows (height value : Nat) : List Nat :=
  let start := (height + 2 ^ 32 - value) % 2 ^ 32
  List.range' start (height + 1 - start)

inductive Touch where
  | read (index : Nat)
  | write (place : Nat)
  deriving DecidableEq

def paints (width idx start : Nat) : List Touch :=
  [.write ((start * width + idx) * 3 % 2 ^ 32), .write (((start * width + idx) * 3 + 1) % 2 ^ 32),
    .write (((start * width + idx) * 3 + 2) % 2 ^ 32)]

def drawBar (width height : Nat) (value : Nat → Nat) (idx : Nat) : List Touch :=
  .read idx :: (barRows height (value idx)).flatMap (paints width idx)

def touches (width height : Nat) (value : Nat → Nat) : List Touch :=
  (List.range 257).flatMap (drawBar width height value)

def Touch.apply (image : Image) : Touch → Image
  | .read _ => image
  | .write place => image.set place 255

def drawHistogram (scale : Scale) (image : Image) (width height : Nat) (histogram : List UInt32) (beyond : UInt32) :
    Image :=
  (touches width height (barHeight scale height histogram beyond)).foldl Touch.apply image

def OnBar (width height : Nat) (value : Nat → Nat) (place : Nat) : Prop :=
  ∃ idx row byte_, idx < 256 ∧ height - value idx ≤ row ∧ row < height ∧ byte_ < 3 ∧
    place = 3 * (row * width + idx) + byte_

/-- draw_histogram stays inside the histogram and the image, and draws the bars and nothing else. -/
structure DrawsBars (scale : Scale) (image : Image) (width height : Nat) (histogram : List UInt32) (beyond : UInt32) :
    Prop where
  reads : ∀ index, .read index ∈ touches width height (barHeight scale height histogram beyond) →
    index < 256
  writes : ∀ place, .write place ∈ touches width height (barHeight scale height histogram beyond) →
    place < image.length
  bars : ∀ place, OnBar width height (barHeight scale height histogram beyond) place →
    (drawHistogram scale image width height histogram beyond)[place]? = some 255
  frame : ∀ place, ¬OnBar width height (barHeight scale height histogram beyond) place →
    (drawHistogram scale image width height histogram beyond)[place]? = image[place]?

section Touches
variable {image : Image} {width height : Nat} {value : Nat → Nat} {place : Nat}

theorem length_apply (touch : Touch) : (touch.apply image).length = image.length := by
  cases touch with
  | read => rfl
  | write => exact List.length_set

theorem foldl_apply (accesses : List Touch) (inside : place < image.length) :
    (accesses.foldl Touch.apply image)[place]? = if .write place ∈ accesses then some 255 else image[place]? := by
  induction accesses generalizing image with
  | nil => simp
  | cons touch accesses ih =>
    have kept : place < (touch.apply image).length := by rwa [length_apply]
    rw [List.foldl_cons, ih kept]
    by_cases later : .write place ∈ accesses
    · rw [if_pos later, if_pos (List.mem_cons_of_mem _ later)]
    · rw [if_neg later]
      cases touch with
      | read index => simp [later, Touch.apply]
      | write at_ =>
        by_cases same : at_ = place
        · subst same
          simp [Touch.apply, inside]
        · have other : place ≠ at_ := Ne.symm same
          simp [Touch.apply, later, same, other]

theorem read_mem {index : Nat} : .read index ∈ touches width height value ↔ index < 257 := by
  simp [touches, drawBar, paints]

theorem write_mem : .write place ∈ touches width height value ↔
    ∃ idx start byte_, idx < 257 ∧ start ∈ barRows height (value idx) ∧ byte_ < 3 ∧
      place = ((start * width + idx) * 3 + byte_) % 2 ^ 32 := by
  simp only [touches, drawBar, paints, List.mem_flatMap, List.mem_range, List.mem_cons, Touch.write.injEq,
    List.not_mem_nil, or_false, reduceCtorEq, false_or]
  constructor
  · rintro ⟨idx, bin, start, row, first | second | third⟩
    · exact ⟨idx, start, 0, bin, row, by decide, first⟩
    · exact ⟨idx, start, 1, bin, row, by decide, second⟩
    · exact ⟨idx, start, 2, bin, row, by decide, third⟩
  · rintro ⟨idx, start, byte_, bin, row, less, rfl⟩
    refine ⟨idx, bin, start, row, ?_⟩
    obtain rfl | rfl | rfl : byte_ = 0 ∨ byte_ = 1 ∨ byte_ = 2 := by omega
    · exact .inl rfl
    · exact .inr (.inl rfl)
    · exact .inr (.inr rfl)

/-- The rows of a bar that is not higher than the image, and one row more. A higher one wraps
around to a first row that is past the last. -/
theorem mem_barRows {bar row : Nat} (unsigned : bar < 2 ^ 32) (small : height < 2 ^ 31) :
    row ∈ barRows height bar ↔ bar ≤ height ∧ height - bar ≤ row ∧ row ≤ height := by
  unfold barRows
  rw [List.mem_range'_1]
  by_cases fits : bar ≤ height
  · have start : (height + 2 ^ 32 - bar) % 2 ^ 32 = height - bar := by omega
    rw [start]
    omega
  · have start : (height + 2 ^ 32 - bar) % 2 ^ 32 = height + 2 ^ 32 - bar := by omega
    rw [start]
    omega

theorem barHeight_lt (scale : Scale) (histogram : List UInt32) (beyond : UInt32) (idx : Nat) :
    barHeight scale height histogram beyond idx < 2 ^ 32 := UInt32.toNat_lt _

theorem place_below (idx byte_ : Nat) : 3 * width * height ≤ (height * width + idx) * 3 + byte_ := by
  have area : 3 * width * height = height * width * 3 := by ring
  omega

theorem place_above {idx row byte_ : Nat} (column : idx < width) (above : row < height) (less : byte_ < 3) :
    (row * width + idx) * 3 + byte_ < 3 * width * height := by
  have pixel : row * width + idx < height * width := by
    calc row * width + idx < row * width + width := by omega
      _ = (row + 1) * width := by rw [Nat.succ_mul]
      _ ≤ height * width := Nat.mul_le_mul_right width above
  have area : 3 * width * height = height * width * 3 := by ring
  omega

end Touches

/-- The histogram has no bin 256, on no input. -/
theorem draws_never (scale : Scale) (image : Image) (width height : Nat) (histogram : List UInt32) (beyond : UInt32) :
    ¬DrawsBars scale image width height histogram beyond := by
  intro draws
  have past := draws.reads 256 (read_mem.mpr (by decide))
  omega

theorem draws_not_one_row : ¬DrawsBars (fun _ _ _ => 0) (List.replicate 768 0) 256 1 (256 :: List.replicate 255 0) 0 :=
  fun draws => absurd (draws.reads 256 (read_mem.mpr (by decide))) (by decide)

section Drawn
variable {scale : Scale} {image : Image} {width height : Nat} {histogram : List UInt32} {beyond : UInt32} {place : Nat}

theorem bars_drawn (wide : 256 ≤ width) (size : image.length = 3 * width * height) (small : 3 * width * height < 2 ^ 31)
    (low : ∀ idx, idx < 256 → barHeight scale height histogram beyond idx ≤ height / 2)
    (bar : OnBar width height (barHeight scale height histogram beyond) place) :
    (drawHistogram scale image width height histogram beyond)[place]? = some 255 := by
  obtain ⟨idx, row, byte_, bin, from_, above, less, rfl⟩ := bar
  have inside := place_above (Nat.lt_of_lt_of_le bin wide) above less
  have same : 3 * (row * width + idx) + byte_ = (row * width + idx) * 3 + byte_ := by omega
  have written : .write (3 * (row * width + idx) + byte_) ∈
      touches width height (barHeight scale height histogram beyond) := by
    have fits := low idx bin
    have short : height < 2 ^ 31 := by
      have factor : 1 * height ≤ 3 * width * height := Nat.mul_le_mul_right height (by omega)
      omega
    refine write_mem.mpr ⟨idx, row, byte_, by omega, ?_, less, ?_⟩
    · rw [mem_barRows (barHeight_lt _ _ _ _) short]
      omega
    · rw [Nat.mod_eq_of_lt (by omega), same]
  rw [drawHistogram, foldl_apply _ (by omega), if_pos written]

/-- Inside the image nothing else is drawn but a bar for bin 256. -/
theorem others_kept (size : image.length = 3 * width * height) (small : (height * width + 257) * 3 < 2 ^ 31)
    (short : height < 2 ^ 31) (inside : place < image.length)
    (offBar : ¬OnBar width height (barHeight scale height histogram beyond) place)
    (offLast : ∀ row byte_, row < height → byte_ < 3 → place ≠ (row * width + 256) * 3 + byte_) :
    (drawHistogram scale image width height histogram beyond)[place]? = image[place]? := by
  have unwritten : .write place ∉ touches width height (barHeight scale height histogram beyond) := by
    intro written
    obtain ⟨idx, row, byte_, bin, member, less, reduced⟩ := write_mem.mp written
    obtain ⟨_, from_, upto⟩ := (mem_barRows (barHeight_lt _ _ _ _) short).mp member
    have rows : row * width ≤ height * width := Nat.mul_le_mul_right width upto
    rw [Nat.mod_eq_of_lt (by omega)] at reduced
    rcases Nat.lt_or_eq_of_le upto with above | last
    · by_cases last : idx = 256
      · exact offLast row byte_ above less (last ▸ reduced)
      · exact offBar ⟨idx, row, byte_, by omega, from_, above, less, by omega⟩
    · have below : 3 * width * height ≤ (height * width + idx) * 3 + byte_ := place_below idx byte_
      rw [last] at reduced
      omega
  rw [drawHistogram, foldl_apply _ inside, if_neg unwritten]

/-- Every bar that is not higher than the image goes on past the end of the image. -/
theorem written_below {idx : Nat} (size : image.length = 3 * width * height)
    (small : (height * width + 257) * 3 < 2 ^ 31) (short : height < 2 ^ 31) (bin : idx ≤ 256)
    (fits : barHeight scale height histogram beyond idx ≤ height) :
    ∃ place, .write place ∈ touches width height (barHeight scale height histogram beyond) ∧ image.length ≤ place := by
  refine ⟨(height * width + idx) * 3 + 0, ?_, ?_⟩
  · refine write_mem.mpr ⟨idx, height, 0, by omega, ?_, by decide, ?_⟩
    · rw [mem_barRows (barHeight_lt _ _ _ _) short]
      omega
    · rw [Nat.mod_eq_of_lt (by omega)]
  · rw [size]
    exact place_below idx 0

end Drawn

end CppRt.Histogram

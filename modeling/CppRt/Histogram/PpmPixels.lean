import CppRt.Histogram.PpmHeader

/-!
The pixels of an image in the order in which the loops of WritePPM and ReadPPM go over
them, and the simulation of the one loop by the other. What a mode keeps of a pixel is
`restored`: nothing is lost in colour, grey has one byte left of three, and a bitmap has
one bit, of which the two bitmap modes make the opposite.
-/

namespace CppRt.Histogram
open Library.Decimal

def eachPixel (change : UInt8 → UInt8 → UInt8 → Image) : Image → Image
  | r :: g :: b :: image => change r g b ++ eachPixel change image
  | _ => []

def restored (mode : Int) (r g b : UInt8) : Image :=
  let grey := (r.toNat + g.toNat + b.toNat) / 3
  if mode = ppmAscii ∨ mode = ppmRaw then [r, g, b]
  else if mode = pgmAscii ∨ mode = pgmRaw then List.replicate 3 (UInt8.ofNat grey)
  else if mode = pbmAscii then List.replicate 3 (if grey < 128 then 255 else 0)
  else List.replicate 3 (if grey < 128 then 0 else 255)

def Cell.restored (mode : Int) (cell : Cell) : Image := Histogram.restored mode cell.r cell.g cell.b

section Order
variable {image : Image} {w h : Nat}

theorem rows_flatMap {α : Type} (f : Nat → α) (w h : Nat) :
    ((List.range h).flatMap fun y => (List.range w).map fun x => f (y * w + x)) = (List.range (h * w)).map f := by
  induction h with
  | zero => rw [Nat.zero_mul]; rfl
  | succ h ih =>
    rw [List.range_succ, List.flatMap_append, ih, Nat.succ_mul, List.range_add, List.map_append, List.map_map]
    simp only [List.flatMap_cons, List.flatMap_nil, List.append_nil]
    rfl

theorem eachPixel_range (change : UInt8 → UInt8 → UInt8 → Image) {n : Nat} (length : image.length = 3 * n) :
    eachPixel change image = ((List.range n).map fun k =>
      change (image.getD (3 * k) 0) (image.getD (3 * k + 1) 0) (image.getD (3 * k + 2) 0)).flatten := by
  induction n generalizing image with
  | zero =>
    rw [List.length_eq_zero_iff.mp length]
    rfl
  | succ n ih =>
    match image, length with
    | r :: g :: b :: image, length =>
      have shorter : image.length = 3 * n := by
        simp only [List.length_cons] at length
        omega
      rw [List.range_succ_eq_map, List.map_cons, List.flatten_cons, List.map_map, eachPixel, ih shorter]
      rfl

theorem cells_eachPixel (change : UInt8 → UInt8 → UInt8 → Image) (length : image.length = 3 * w * h) :
    ((cells image w h false).flatMap fun cell => change cell.r cell.g cell.b) = eachPixel change image := by
  have pixels : image.length = 3 * (h * w) := by
    rw [length, Nat.mul_assoc, Nat.mul_comm w h]
  rw [eachPixel_range change pixels, ← rows_flatMap, List.flatMap_def, cells, if_neg Bool.false_ne_true, List.map_flatMap]
  simp only [List.map_map]
  rfl

theorem cells_columns (inverted : Bool) : (cells image w h inverted).map Cell.x = columns w h := by
  have row (rows : List Nat) : (rows.flatMap fun y => (List.range w).map (cellAt image w y)).map Cell.x =
      (List.replicate rows.length (List.range w)).flatten := by
    induction rows with
    | nil => rfl
    | cons y rows ih =>
      rw [List.flatMap_cons, List.map_append, ih, List.map_map, List.length_cons, List.replicate_succ, List.flatten_cons]
      congr 1
      exact List.map_id _
  have same (rows : List Nat) : (rows.flatMap fun _ => List.range w) = (List.replicate rows.length (List.range w)).flatten := by
    rw [List.flatMap_def, List.map_const']
  rw [cells, row, columns, Int.toNat_natCast, Int.toNat_natCast, same]
  cases inverted
  · rfl
  · rw [if_pos rfl, List.length_reverse]

theorem restored_length (mode : Int) (r g b : UInt8) : (restored mode r g b).length = 3 := by
  unfold restored
  split_ifs <;> rfl

theorem eachPixel_length {change : UInt8 → UInt8 → UInt8 → Image} (three : ∀ r g b, (change r g b).length = 3) {n : Nat}
    (length : image.length = 3 * n) : (eachPixel change image).length = 3 * n := by
  induction n generalizing image with
  | zero =>
    rw [List.length_eq_zero_iff.mp length]
    rfl
  | succ n ih =>
    match image, length with
    | r :: g :: b :: image, length =>
      have shorter : image.length = 3 * n := by
        simp only [List.length_cons] at length
        omega
      rw [eachPixel, List.length_append, three, ih shorter, Nat.mul_succ, Nat.add_comm]

theorem eachPixel_colour {mode : Int} (colour : mode = ppmAscii ∨ mode = ppmRaw) {n : Nat}
    (length : image.length = 3 * n) : eachPixel (restored mode) image = image := by
  induction n generalizing image with
  | zero =>
    rw [List.length_eq_zero_iff.mp length]
    rfl
  | succ n ih =>
    match image, length with
    | r :: g :: b :: image, length =>
      have shorter : image.length = 3 * n := by
        simp only [List.length_cons] at length
        omega
      rw [eachPixel, ih shorter, restored, if_pos colour]
      rfl

end Order

section Simulation
variable {mode width : Int} {same : Bytes → Bytes → Prop}

/-- Where each pixel that is written is read back, all of them are. -/
theorem readPixels_writePixels {change : Cell → Image} {tail : Bytes}
    (step : ∀ cell pen s rest, same (Reader.infile s) ((writePixel mode width cell pen).1 ++ rest) →
      ∃ s', readPixel mode width s cell.x = .ok s' ∧ same s'.infile rest ∧ s'.texImage = s.texImage ++ change cell)
    (cells : List Cell) (pen : Pen) (s : Reader) (begins : same s.infile (writePixels mode width cells pen ++ tail)) :
    ∃ s', readPixels mode width (cells.map Cell.x) s = .ok s' ∧ s'.texImage = s.texImage ++ cells.flatMap change := by
  induction cells generalizing pen s with
  | nil => exact ⟨s, rfl, (List.append_nil _).symm⟩
  | cons cell cells ih =>
    rw [writePixels, List.append_assoc] at begins
    obtain ⟨next, read, left, stored⟩ := step cell pen s _ begins
    obtain ⟨last, reads, image⟩ := ih _ next left
    refine ⟨last, ?_, ?_⟩
    · rw [readPixels, List.map_cons, List.foldlM_cons, read]
      exact reads
    · rw [image, stored, List.flatMap_cons, List.append_assoc]

theorem ofInt_toNat (c : UInt8) : UInt8.ofInt (c.toNat : Int) = c := by
  rw [← UInt8.toNat_inj, UInt8.ofInt, UInt8.toNat_ofNat']
  have small := c.toNat_lt
  omega

theorem ofInt_nat (n : Nat) : UInt8.ofInt (n : Int) = UInt8.ofNat n := by
  rw [← UInt8.toNat_inj, UInt8.ofInt, UInt8.toNat_ofNat', UInt8.toNat_ofNat']
  omega

end Simulation

end CppRt.Histogram

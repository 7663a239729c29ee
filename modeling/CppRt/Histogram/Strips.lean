import CppRt.Histogram.Counts
import CppRt.Histogram.MainThreaded

/-!
make_histogram_th on strips of rows, each with a histogram of its own. Whatever the strips
and however the workers are interleaved, the histograms add up to that of the whole image.
-/

namespace CppRt.Histogram
open Library Transition ForkJoin

structure Strips (height : Nat) where
  number : Nat
  cut : Nat → Nat
  begins : cut 0 = 0
  ends : cut number = height
  ordered : ∀ i, i < number → cut i ≤ cut (i + 1)

variable {height : Nat}

abbrev Histograms (strips : Strips height) := Fin strips.number → List UInt32

/-- One worker a strip. What is done with the histograms comes after all the joins. -/
def stripWorkers (image : Image) (width : Nat) (strips : Strips height) :
    ForkJoin strips.number (Histograms strips) Scan Note where
  memory := fun _ => zeros
  entry := .column 0
  exited := .exited
  step index histograms pc :=
    (makeHistogramTh image width (strips.cut index) (strips.cut (index + 1)) (histograms index) pc).map
      fun (note, histogram, after) => (note, Function.update histograms index histogram, after)
  merge _ histograms := histograms

def total (strips : Strips height) (histograms : Histograms strips) : List UInt32 :=
  (List.ofFn histograms).foldl addBins zeros

/-- How far a worker's histogram has got at each of its positions. -/
def Passed (image : Image) (width : Nat) (strips : Strips height) (index : Fin strips.number)
    (histograms : Histograms strips) : Option Scan → Prop
  | none => histograms index = bins fun _ => 0
  | some (.column x) => x ≤ width ∧
      histograms index = bins (pixelCount image width x (strips.cut index) (strips.cut (index + 1)))
  | some (.row x y) => x < width ∧ strips.cut index ≤ y ∧ y ≤ strips.cut (index + 1) ∧
      histograms index = bins fun value => pixelCount image width x (strips.cut index) (strips.cut (index + 1)) value +
        columnCount image width x (strips.cut index) y value
  | some .exited =>
      histograms index = bins (pixelCount image width width (strips.cut index) (strips.cut (index + 1)))

theorem Strips.cut_le (strips : Strips height) {i : Nat} (bound : i ≤ strips.number) : strips.cut i ≤ height := by
  obtain ⟨left, total⟩ := Nat.exists_eq_add_of_le bound
  induction left generalizing i with
  | zero =>
    rw [Nat.add_zero] at total
    rw [← total, strips.ends]
  | succ left ih =>
    have next := ih (i := i + 1) (by omega) (by omega)
    have grows := strips.ordered i (by omega)
    omega

theorem zeros_eq : zeros = bins fun _ => 0 := by
  unfold zeros bins
  rw [List.map_const', List.length_range]
  rfl

theorem addBins_zeros (counts : Nat → Nat) : addBins zeros (bins counts) = bins counts := by
  rw [zeros_eq, addBins_bins]
  simp only [Nat.zero_add]

section Scan
variable {image : Image} {width fromY toY x y : Nat} {histogram : List UInt32}

theorem makeHistogramTh_inside (less : y < toY) : makeHistogramTh image width fromY toY histogram (.row x y) =
    some (.pixel (offset width x y) (grey image (offset width x y)),
      count histogram (grey image (offset width x y)), .row x (y + 1)) := by
  simp [makeHistogramTh, less]

theorem makeHistogramTh_past (past : ¬y < toY) : makeHistogramTh image width fromY toY histogram (.row x y) =
    some (.test, histogram, .column (x + 1)) := by
  simp [makeHistogramTh, past]

end Scan

section Worker
variable {image : Image} {width : Nat} {strips : Strips height} {index other : Fin strips.number}
variable {histograms later : Histograms strips} {pc after : Scan} {note : Note} {position : Option Scan}

theorem stripWorkers_step (stepped : (stripWorkers image width strips).step index histograms pc =
    some (note, later, after)) : ∃ histogram, later = Function.update histograms index histogram ∧
      makeHistogramTh image width (strips.cut index) (strips.cut (index + 1)) (histograms index) pc =
        some (note, histogram, after) := by
  obtain ⟨⟨shown, histogram, now⟩, scanned, same⟩ := Option.map_eq_some_iff.mp stepped
  cases same
  exact ⟨histogram, rfl, scanned⟩

theorem stripWorkers_act {histogram : List UInt32} (scanned : makeHistogramTh image width (strips.cut index)
    (strips.cut (index + 1)) (histograms index) pc = some (note, histogram, after)) :
    (stripWorkers image width strips).step index histograms pc =
      some (note, Function.update histograms index histogram, after) :=
  Option.map_eq_some_iff.mpr ⟨_, scanned, rfl⟩

theorem Passed.frame (different : other ≠ index) (passed : Passed image width strips other histograms position)
    (stepped : (stripWorkers image width strips).step index histograms pc = some (note, later, after)) :
    Passed image width strips other later position := by
  obtain ⟨histogram, rfl, _⟩ := stripWorkers_step stepped
  have same : Function.update histograms index histogram other = histograms other :=
    Function.update_of_ne different _ _
  cases position with
  | none => simpa only [Passed, same] using passed
  | some at_ => cases at_ <;> simpa only [Passed, same] using passed

theorem Passed.step (small : 3 * width * height < 2 ^ 31) (passed : Passed image width strips index histograms (some pc))
    (stepped : (stripWorkers image width strips).step index histograms pc = some (note, later, after)) :
    Passed image width strips index later (some after) := by
  obtain ⟨histogram, rfl, scanned⟩ := stripWorkers_step stepped
  cases pc with
  | column x =>
    obtain ⟨bound, counted⟩ := passed
    cases scanned
    by_cases less : x < width
    · rw [if_pos less]
      refine ⟨less, Nat.le_refl _, strips.ordered index index.isLt, ?_⟩
      simp only [Function.update_self, columnCount_empty, Nat.add_zero]
      exact counted
    · rw [if_neg less]
      obtain rfl : x = width := by omega
      simpa only [Passed, Function.update_self] using counted
  | row x y =>
    obtain ⟨column, above, below, counted⟩ := passed
    by_cases less : y < strips.cut (index + 1)
    · rw [makeHistogramTh_inside less] at scanned
      cases scanned
      have row : y < height := Nat.lt_of_lt_of_le less (strips.cut_le index.isLt)
      refine ⟨column, by omega, less, ?_⟩
      rw [Function.update_self, counted, ← addBins_zeros, count_bins, addBins_zeros]
      simp only [grey_offset small column row, columnCount_succ above, Nat.add_assoc]
    · rw [makeHistogramTh_past less] at scanned
      cases scanned
      have last : y = strips.cut (index + 1) := by omega
      rw [last] at counted
      refine ⟨column, ?_⟩
      have next : pixelCount image width (x + 1) (strips.cut index) (strips.cut (index + 1)) = _ :=
        funext fun _ => pixelCount_succ
      rw [Function.update_self, next]
      exact counted
  | exited => cases scanned

def stripDiscipline (small : 3 * width * height < 2 ^ 31) : (stripWorkers image width strips).Discipline where
  Own := Passed image width strips
  Merged _ _ := True
  own_start _ := zeros_eq
  own_create {index histograms} empty := by
    have nothing : pixelCount image width 0 (strips.cut index) (strips.cut (index + 1)) = fun _ => 0 :=
      funext fun _ => pixelCount_zero
    refine ⟨Nat.zero_le _, ?_⟩
    rw [nothing]
    exact empty
  own_step passed stepped := passed.step small stepped
  own_frame different stepped passed := passed.frame different stepped
  own_merge passed := passed
  merged_start := trivial
  merged_step _ _ := trivial
  merged_merge _ _ := trivial

end Worker

section Joined
variable {image : Image} {width : Nat} {strips : Strips height}
variable {trace : List (Event strips.number Note)} {state : State strips.number (Histograms strips) Scan}

theorem joined_histogram (small : 3 * width * height < 2 ^ 31)
    (reached : (stripWorkers image width strips).system.Reaches trace state) (joined : state.main = .joined)
    (index : Fin strips.number) :
    state.memory index = bins (pixelCount image width width (strips.cut index) (strips.cut (index + 1))) := by
  have still : ∀ index histograms, (stripWorkers image width strips).step index histograms .exited = none :=
    fun _ _ => rfl
  have own := ((stripDiscipline small).holds still reached).own index
  rw [exited_of_joined still reached joined index] at own
  exact own

theorem foldl_strips (image : Image) (width : Nat) (strips : Strips height) {i : Nat} (bound : i ≤ strips.number) :
    ((List.range i).map fun index =>
      bins (pixelCount image width width (strips.cut index) (strips.cut (index + 1)))).foldl addBins zeros = bins (pixelCount image width width 0 (strips.cut i)) := by
  induction i with
  | zero =>
    have nothing : pixelCount image width width 0 (strips.cut 0) = fun _ => 0 := by
      rw [strips.begins]
      exact funext fun _ => pixelCount_empty
    rw [nothing]
    exact zeros_eq
  | succ i ih =>
    have more : pixelCount image width width 0 (strips.cut (i + 1)) = _ :=
      funext fun _ => pixelCount_rows (Nat.zero_le _) (strips.ordered i bound)
    rw [List.range_succ, List.map_append, List.foldl_append, ih (Nat.le_of_succ_le bound), more]
    exact addBins_bins

theorem total_eq (small : 3 * width * height < 2 ^ 31)
    (reached : (stripWorkers image width strips).system.Reaches trace state) (joined : state.main = .joined) :
    total strips state.memory = bins (pixelCount image width width 0 height) := by
  have histograms : state.memory = fun index : Fin strips.number =>
      bins (pixelCount image width width (strips.cut index) (strips.cut (index + 1))) :=
    funext fun index => joined_histogram small reached joined index
  have sums := foldl_strips image width strips (Nat.le_refl strips.number)
  rw [strips.ends, ← List.map_coe_finRange_eq_range, List.map_map] at sums
  rw [total, histograms, List.ofFn_eq_map]
  exact sums

theorem pixel_inside (small : 3 * width * height < 2 ^ 31)
    (reached : (stripWorkers image width strips).system.Reaches trace state) {index : Fin strips.number} {place : Nat}
    {value : UInt8} (counted : .act index (.pixel place value) ∈ trace) : place + 2 < 3 * width * height := by
  have still : ∀ index histograms, (stripWorkers image width strips).step index histograms .exited = none :=
    fun _ _ => rfl
  refine reached.invariant (fun trace _ => ∀ index place value, .act index (.pixel place value) ∈ trace →
    place + 2 < 3 * width * height) ?_ ?_ index place value counted
  · intro first _ index place value wrong
    cases wrong
  · intro trace state label next before inside step index place value member
    rcases List.mem_append.mp member with earlier | now
    · exact inside index place value earlier
    · cases step with
      | create | join | merge => cases List.mem_singleton.mp now
      | created | joined => cases now
      | @act worker pc after note histograms runs stepped =>
        cases List.mem_singleton.mp now
        obtain ⟨histogram, _, scanned⟩ := stripWorkers_step stepped
        have own := ((stripDiscipline small).holds still before).own index
        rw [runs] at own
        cases pc with
        | column x => cases scanned
        | exited => cases scanned
        | row x y =>
          by_cases less : y < strips.cut (index + 1)
          · rw [makeHistogramTh_inside less] at scanned
            cases scanned
            have row : y < height := Nat.lt_of_lt_of_le less (strips.cut_le index.isLt)
            exact (offset_eq small own.1 row).2
          · rw [makeHistogramTh_past less] at scanned
            cases scanned

end Joined

structure CountsExactly (image : Image) (width height : Nat) : Prop where
  counts : ∀ histogram, histogram.length = 256 →
    makeHistogram image width height histogram = addBins histogram (bins (pixelCount image width width 0 height))
  passes : ∀ histogram, makeHistogram image width height histogram =
    (places width height).foldl (fun histogram place => count histogram (grey image place)) histogram
  inside : ∀ place ∈ places width height, place + 2 < image.length ∧ (grey image place).toNat < zeros.length

structure AddsUp (image : Image) (width : Nat) (strips : Strips height) : Prop where
  inside : ∀ trace state, (stripWorkers image width strips).system.Reaches trace state →
    ∀ index place value, .act index (.pixel place value) ∈ trace →
      place + 2 < image.length ∧ value.toNat < zeros.length
  total : ∀ trace state, (stripWorkers image width strips).system.Reaches trace state → state.main = .joined →
    total strips state.memory = makeHistogram image width height zeros

theorem byte_inside (value : UInt8) : value.toNat < zeros.length := by
  have full : zeros.length = 256 := List.length_replicate
  rw [full]
  exact UInt8.toNat_lt value

/-- Histograms are exact, and additive over any strips of rows. -/
theorem exact_and_additive (image : Image) (width height : Nat) (size : image.length = 3 * width * height)
    (small : 3 * width * height < 2 ^ 31) :
    CountsExactly image width height ∧ ∀ strips : Strips height, AddsUp image width strips := by
  refine ⟨⟨fun histogram full => makeHistogram_eq small full, fun _ => makeHistogram_places _, ?_⟩, fun strips => ⟨?_, ?_⟩⟩
  · intro place passed
    rw [size]
    exact ⟨places_inside small passed, byte_inside _⟩
  · intro trace state reached index place value counted
    rw [size]
    exact ⟨pixel_inside small reached counted, byte_inside _⟩
  · intro trace state reached joined
    have full : zeros.length = 256 := List.length_replicate
    rw [total_eq small reached joined, makeHistogram_eq small full, addBins_zeros]

section Ends
variable {strips : Strips height}

theorem row_ends (image : Image) (width : Nat) (strips : Strips height) (index : Fin strips.number) (x : Nat)
    (rest : ∀ histograms, ∃ last, (stripWorkers image width strips).Alone index histograms (.column (x + 1)) last .exited)
    (y : Nat) (histograms : Histograms strips) :
    ∃ last, (stripWorkers image width strips).Alone index histograms (.row x y) last .exited := by
  generalize left : strips.cut (index + 1) - y = distance
  induction distance generalizing y histograms with
  | zero =>
    have past : ¬y < strips.cut (index + 1) := by omega
    obtain ⟨last, alone⟩ := rest (Function.update histograms index (histograms index))
    exact ⟨last, .head (stripWorkers_act (makeHistogramTh_past past)) alone⟩
  | succ distance ih =>
    have less : y < strips.cut (index + 1) := by omega
    have shorter : strips.cut (index + 1) - (y + 1) = distance := by omega
    obtain ⟨last, alone⟩ := ih (y + 1) (Function.update histograms index
      (count (histograms index) (grey image (offset width x y)))) shorter
    exact ⟨last, .head (stripWorkers_act (makeHistogramTh_inside less)) alone⟩

theorem column_ends (image : Image) (width : Nat) (strips : Strips height) (index : Fin strips.number) (x : Nat)
    (histograms : Histograms strips) :
    ∃ last, (stripWorkers image width strips).Alone index histograms (.column x) last .exited := by
  generalize left : width - x = distance
  induction distance generalizing x histograms with
  | zero =>
    have past : ¬x < width := by omega
    have tests : makeHistogramTh image width (strips.cut index) (strips.cut (index + 1)) (histograms index) (.column x) =
        some (.test, histograms index, .exited) := by
      simp [makeHistogramTh, past]
    exact ⟨_, .head (stripWorkers_act tests) .refl⟩
  | succ distance ih =>
    have less : x < width := by omega
    have shorter : width - (x + 1) = distance := by omega
    have tests : makeHistogramTh image width (strips.cut index) (strips.cut (index + 1)) (histograms index) (.column x) =
        some (.test, histograms index, .row x (strips.cut index)) := by
      simp [makeHistogramTh, less]
    obtain ⟨last, alone⟩ := row_ends image width strips index x (fun later => ih (x + 1) later shorter) (strips.cut index)
      (Function.update histograms index (histograms index))
    exact ⟨last, .head (stripWorkers_act tests) alone⟩

end Ends

def threeStrips : Strips 2 where
  number := 3
  cut := fun i => i - 1
  begins := rfl
  ends := rfl
  ordered := by
    intro i _
    omega

theorem exact_and_additive_two : ∃ trace state,
    (stripWorkers [0, 0, 0, 255, 255, 255] 1 threeStrips).system.Reaches trace state ∧ state.main = .joined ∧
      total threeStrips state.memory = makeHistogram [0, 0, 0, 255, 255, 255] 1 2 zeros := by
  obtain ⟨trace, state, reached, joined⟩ := reaches_joined (stripWorkers [0, 0, 0, 255, 255, 255] 1 threeStrips)
    fun index histograms => column_ends _ 1 threeStrips index 0 histograms
  have both := exact_and_additive [0, 0, 0, 255, 255, 255] 1 2 rfl (by decide)
  exact ⟨trace, state, reached, joined, (both.2 threeStrips).total trace state reached joined⟩

end CppRt.Histogram

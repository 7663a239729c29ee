import CppRt.Histogram.MakeHistogram
import CppRt.Library.ForkJoin

/-!
main_threaded: two strips of rows, a worker on each, and a loop that joins the
workers and adds their histograms to the final one. Vectors are indexed without a
check; every index the code uses is recorded together with the size of the vector,
and a write past the end changes nothing that is modelled here.
-/

namespace CppRt.Histogram
open Library Transition ForkJoin

structure ThreadData where
  width : Nat
  fromY : Nat
  toY : Nat
  histogram : List UInt32

def zeros : List UInt32 := List.replicate 256 0

def hardwareConcurrency : Nat := 2

/-- The loop that pushes the strips back, for so many more turns. -/
def strips (width blockSize : Nat) : Nat → Nat → List ThreadData
  | 0, _ => []
  | left + 1, start => ⟨width, start, start + blockSize, zeros⟩ :: strips width blockSize left (start + blockSize)

inductive Vector where
  | parameters
  | finalHistograms
  | histogram (i : Nat)

structure Access where
  vector : Vector
  index : Nat
  size : Nat

def pushed (width height : Nat) : List ThreadData :=
  strips width (height / hardwareConcurrency) hardwareConcurrency 0

def parameters (width height : Nat) : List ThreadData :=
  (pushed width height).modify hardwareConcurrency fun p => { p with toY := height }

def setupAccesses (width height : Nat) : List Access :=
  [⟨.parameters, hardwareConcurrency, (pushed width height).length⟩]

structure Memory where
  parameters : List ThreadData
  finalHistograms : List UInt32

def addHistogram (final histogram : List UInt32) : List UInt32 :=
  (List.range 257).foldl (fun final idx => final.modify idx (· + histogram.getD idx 0)) final

def makeHistogramThreaded (image : Image) (index : Fin hardwareConcurrency) (memory : Memory) (pc : Scan) :
    Option (Note × Memory × Scan) :=
  memory.parameters[index.val]?.bind fun p =>
    (makeHistogramTh image p.width p.fromY p.toY p.histogram pc).map fun (note, histogram, after) =>
      (note, { memory with parameters := memory.parameters.set index { p with histogram } }, after)

def mainThreaded (image : Image) (width height : Nat) : ForkJoin hardwareConcurrency Memory Scan Note where
  memory := ⟨parameters width height, zeros⟩
  entry := .column 0
  exited := .exited
  step := makeHistogramThreaded image
  merge index memory :=
    { memory with
      finalHistograms := addHistogram memory.finalHistograms
        ((memory.parameters[index.val]?.map ThreadData.histogram).getD []) }

def accesses : Event hardwareConcurrency Note → List Access
  | .create index => [⟨.parameters, index, hardwareConcurrency⟩]
  | .act index (.pixel _ value) => [⟨.histogram index, value.toNat, 256⟩]
  | .act _ .test => []
  | .join index => [⟨.parameters, index, hardwareConcurrency⟩]
  | .merge index => (List.range 257).flatMap fun idx =>
      [⟨.finalHistograms, idx, 256⟩, ⟨.parameters, index, hardwareConcurrency⟩, ⟨.histogram index, idx, 256⟩]

def Covered (width height : Nat) : Prop :=
  ∀ y, y < height → ∃! i : Nat, ∃ p : ThreadData, (parameters width height)[i]? = some p ∧ p.fromY ≤ y ∧ y < p.toY

/-- main_threaded agrees with main_seq on an image: it indexes its vectors within their
sizes, its strips cover every row once, and it draws the same histogram. -/
structure AgreesWithSeq (image : Image) (width height : Nat) : Prop where
  inside : ∀ trace state, (mainThreaded image width height).system.Reaches trace state →
    ∀ access ∈ setupAccesses width height ++ trace.flatMap accesses, access.index < access.size
  covered : Covered width height
  same : ∀ trace state, (mainThreaded image width height).system.Reaches trace state → state.main = .joined →
    state.memory.finalHistograms = makeHistogram image width height zeros

theorem length_strips (width blockSize left start : Nat) : (strips width blockSize left start).length = left := by
  induction left generalizing start with
  | zero => rfl
  | succ left ih => rw [strips, List.length_cons, ih]

/-- The assignment after the loop is past the end of parameters. -/
theorem not_inside (image : Image) (width height : Nat) : ¬∀ trace state,
    (mainThreaded image width height).system.Reaches trace state →
      ∀ access ∈ setupAccesses width height ++ trace.flatMap accesses, access.index < access.size := by
  intro inside
  have assigned : hardwareConcurrency < (pushed width height).length :=
    inside [] _ (.first rfl) _ (List.mem_singleton_self _)
  rw [pushed, length_strips] at assigned
  exact Nat.lt_irrefl _ assigned

/-- So main_threaded agrees with main_seq on no image. -/
theorem main_threaded_never (image : Image) (width height : Nat) : ¬AgreesWithSeq image width height :=
  fun agrees => not_inside image width height agrees.inside

theorem main_threaded_two_rows : ¬AgreesWithSeq [0, 0, 0, 0, 0, 0] 1 2 :=
  fun agrees => not_inside _ _ _ agrees.inside

end CppRt.Histogram

import CppRt.Library.Transition
import Mathlib.Algebra.Group.Nat.Defs
import Mathlib.Data.List.Basic

/-!
The histogram of an image of three bytes per pixel, by one thread over all rows and
by a worker over a strip of rows. Rows, columns and offsets are unsigned ints, bins
are counted modulo 2^32.
-/

namespace CppRt.Histogram

abbrev Image := List UInt8

def offset (width x y : Nat) : Nat := (x + y * width) * 3 % 2 ^ 32

/-- image[at], which the code does not check. -/
def byte (image : Image) (place : Nat) : Nat := (image.getD place 0).toNat

def grey (image : Image) (place : Nat) : UInt8 :=
  UInt8.ofNat ((byte image place + byte image (place + 1) + byte image (place + 2)) / 3)

def count (histogram : List UInt32) (value : UInt8) : List UInt32 :=
  histogram.modify value.toNat (· + 1)

def makeHistogram (image : Image) (width height : Nat) (histogram : List UInt32) : List UInt32 :=
  (List.range width).foldl (fun histogram x =>
    (List.range height).foldl (fun histogram y => count histogram (grey image (offset width x y))) histogram)
    histogram

/-- Where make_histogram_th is: at the test of its outer or of its inner loop, or returned. -/
inductive Scan where
  | column (x : Nat)
  | row (x y : Nat)
  | exited

inductive Note where
  | test
  | pixel (offset : Nat) (value : UInt8)

/-- One step of make_histogram_th on the rows from `fromY` up to `toY`. -/
def makeHistogramTh (image : Image) (width fromY toY : Nat) (histogram : List UInt32) :
    Scan → Option (Note × List UInt32 × Scan)
  | .column x => some (.test, histogram, if x < width then .row x fromY else .exited)
  | .row x y =>
    if y < toY then
      let place := offset width x y
      some (.pixel place (grey image place), count histogram (grey image place), .row x (y + 1))
    else some (.test, histogram, .column (x + 1))
  | .exited => none

end CppRt.Histogram

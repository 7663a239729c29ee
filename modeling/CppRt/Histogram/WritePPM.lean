import CppRt.Histogram.ReadPPM

/-!
WritePPM of appm.cpp. Nothing sets the counter `i` before it is used, so that what it holds
at first is an argument here; it wraps. An index of the pixels or a height that is no int
makes the call undefined.
-/

namespace CppRt.Histogram
open Library.Decimal (Bytes printInt)

def gfxioOk : Int := 0
def gfxioOpenError : Int := 1
def gfxioUnsupported : Int := 3

structure Written where
  code : Int
  stderr : Bytes
  file : Option Bytes
  deriving DecidableEq

def error (msg : Bytes) : Bytes := ascii "Error: " ++ msg ++ [10]

def warning (msg : Bytes) : Bytes := ascii "Warning: " ++ msg ++ [10]

structure Cell where
  x : Nat
  r : UInt8
  g : UInt8
  b : UInt8

def Cell.grey (cell : Cell) : Nat := (cell.r.toNat + cell.g.toNat + cell.b.toNat) / 3

def cellAt (ptr : Image) (width y x : Nat) : Cell where
  x := x
  r := ptr.getD (3 * (y * width + x)) 0
  g := ptr.getD (3 * (y * width + x) + 1) 0
  b := ptr.getD (3 * (y * width + x) + 2) 0

structure Pen where
  i : Int32
  bw : UInt8

def number (v : Nat) : Bytes := printInt v ++ [32]

/-- if (((++i) % size) == 0) fprintf(out, "\n"), of the i that is incremented. -/
def newline (i size : Int32) : Bytes := if i % size = 0 then [10] else []

def writePpmAscii (cell : Cell) (pen : Pen) : Bytes × Pen :=
  (number cell.r.toNat ++ number cell.g.toNat ++ number cell.b.toNat ++ newline (pen.i + 1) 5,
    { pen with i := pen.i + 1 })

def writePgmAscii (cell : Cell) (pen : Pen) : Bytes × Pen :=
  (number cell.grey ++ newline (pen.i + 1) 15, { pen with i := pen.i + 1 })

def writePbmAscii (cell : Cell) (pen : Pen) : Bytes × Pen :=
  (number (if cell.grey < 128 then 1 else 0) ++ newline (pen.i + 1) 15, { pen with i := pen.i + 1 })

def writePbmRaw (width : Int) (cell : Cell) (pen : Pen) : Bytes × Pen :=
  let add := if cell.grey < 128 then 1 else 0
  let bw := UInt8.ofNat (pen.bw.toNat * 2 + add)
  let i := pen.i + 1
  if i % 8 = 0 then ([bw], ⟨i, 0⟩)
  else if (cell.x : Int) + 1 = width then
    let bits := (8 - i % 8).toInt.toNat
    ([UInt8.ofNat (bw.toNat * 2 ^ bits)], ⟨0, 0⟩)
  else ([], ⟨i, bw⟩)

def writePixel (mode width : Int) (cell : Cell) (pen : Pen) : Bytes × Pen :=
  if mode = ppmRaw then ([cell.r, cell.g, cell.b], pen)
  else if mode = ppmAscii then writePpmAscii cell pen
  else if mode = pgmRaw then ([UInt8.ofNat cell.grey], pen)
  else if mode = pgmAscii then writePgmAscii cell pen
  else if mode = pbmAscii then writePbmAscii cell pen
  else if mode = pbmRaw then writePbmRaw width cell pen
  else ([], pen)

def writePixels (mode width : Int) : List Cell → Pen → Bytes
  | [], _ => []
  | cell :: cells, pen =>
    let (text, pen) := writePixel mode width cell pen
    text ++ writePixels mode width cells pen

def cells (ptr : Image) (width height : Nat) (invertedHeight : Bool) : List Cell :=
  (if invertedHeight then (List.range height).reverse else List.range height).flatMap fun y =>
    (List.range width).map (cellAt ptr width y)

def comment (ctime : Bytes) : Bytes := ascii "# File created by Chris Wyman's PPM Library on " ++ ctime

def header (ctime : Bytes) (mode width height : Int) : Bytes :=
  ascii "P" ++ printInt mode ++ [10] ++ comment ctime ++ (printInt width ++ [32] ++ printInt height ++ [10]) ++
    if mode ≠ pbmRaw ∧ mode ≠ pbmAscii then printInt 255 ++ [10] else []

/-- WritePPM to the file `f`, where `opened` is whether fopen succeeds. -/
def writePPM (ctime : Bytes) (opened : Bool) (i : Int32) (f : Bytes) (mode width height : Int) (ptr : Image) :
    Except Stop Written :=
  let invertedHeight := decide (height < 0)
  let height := if height < 0 then -height else height
  if (asInt height).isNone then .error .undefined
  else if mode < 0 then .ok ⟨gfxioUnsupported, error (ascii "LIBGFX: Bad image format type!"), none⟩
  else
    let stderr :=
      if mode = pbmRaw ∨ mode = pbmAscii then warning (ascii "LIBGFX: Distortions occur converting to PBM format!") else []
    if !opened then
      let buf := ascii "LIBGFX: Unable to open file '" ++ f ++ ascii "', output lost!"
      if buf.length < 256 then .ok ⟨gfxioOpenError, stderr ++ error buf, none⟩ else .error .undefined
    -- of the pixels that are read, the last one has the greatest index and the greatest address
    else if 2 ^ 31 ≤ 3 * (width * height - 1) ∨ (ptr.length : Int) < 3 * width * height then .error .undefined
    else
      let pixels := writePixels mode width (cells ptr width.toNat height.toNat invertedHeight) ⟨i, 0⟩
      .ok ⟨gfxioOk, stderr, some (header ctime mode width height ++ pixels ++ [10])⟩

theorem indexes_fit {ptr : Image} {w h : Nat} (length : ptr.length = 3 * w * h) (small : 3 * w * h < 2 ^ 31) :
    ¬(2 ^ 31 ≤ 3 * ((w : Int) * h - 1) ∨ (ptr.length : Int) < 3 * w * h) := by
  have product : (3 * (w : Int)) * h = ((3 * w * h : Nat) : Int) := by
    rw [Int.natCast_mul, Int.natCast_mul]
    rfl
  rw [product, length]
  rw [Int.mul_assoc] at product
  omega

-- nine dark pixels in a row are two bytes of bits
example : writePPM (ascii "now\n") true 0 [] 4 9 1 (List.replicate 27 0) =
    .ok ⟨0, ascii "Warning: LIBGFX: Distortions occur converting to PBM format!\n",
      some (ascii "P4\n# File created by Chris Wyman's PPM Library on now\n9 1\n" ++ [255, 128, 10])⟩ := by decide +kernel

end CppRt.Histogram

import CppRt.Histogram.MakeHistogram
import CppRt.Library.Decimal
import Mathlib.Algebra.Group.Int.Defs

/-!
ReadPPM of appm.cpp on the bytes of a file. What a variable holds before it is set is no
value, and using it is undefined; so are a number that no int has and a text longer than
the buffer it is printed to. ReadPPM ends the process with a message, or goes on for ever
where the comments of a file do not end.
-/

namespace CppRt.Histogram
open Library.Decimal (Bytes isSpace skipSpace scanInt)

def ascii (text : String) : Bytes := text.toList.map fun c => UInt8.ofNat c.toNat

def ppmAscii : Int := 3
def ppmRaw : Int := 6
def pgmAscii : Int := 2
def pgmRaw : Int := 5
def pbmAscii : Int := 1
def pbmRaw : Int := 4

def isValidMode (mode : Int) : Bool :=
  if mode = ppmAscii then true
  else if mode = pgmAscii then true
  else if mode = pbmAscii then true
  else if mode = ppmRaw then true
  else if mode = pgmRaw then true
  else if mode = pbmRaw then true
  else false

def rawMode (mode : Int) : Bool :=
  if mode = ppmRaw then true
  else if mode = pgmRaw then true
  else if mode = pbmRaw then true
  else false

/-- How ReadPPM does not return: by FatalError with what it prints, in undefined behaviour,
or not at all. -/
inductive Stop where
  | fatal (stderr : Bytes)
  | undefined
  | endless
  deriving DecidableEq

structure Texture where
  mode : Int
  width : Int
  height : Int
  texImage : Image
  deriving DecidableEq

def fatalError (msg : Bytes) : Stop := .fatal (ascii "Fatal Error: " ++ msg ++ [10])

def fatalBuffer (size : Nat) (msg : Bytes) : Stop := if msg.length < size then fatalError msg else .undefined

def cantOpen (f : Bytes) : Bytes := ascii "LIBGFX: Can't open file '" ++ f ++ ascii "'!"

def invalidFormat (f : Bytes) : Bytes := ascii "LIBGFX: Invalid PPM format specification in '" ++ f ++ ascii "'!"

def asInt (v : Int) : Option Int := if -2 ^ 31 ≤ v ∧ v < 2 ^ 31 then some v else none

def line : Nat → Bytes → Bytes × Bytes
  | 0, infile => ([], infile)
  | _ + 1, [] => ([], [])
  | room + 1, c :: infile =>
    if c = 10 then ([c], infile)
    else
      let (string, rest) := line room infile
      (c :: string, rest)

/-- fgets(string, 256, infile). At the end of the file `string` stays as it is. -/
def fgets (string : Option Bytes) (infile : Bytes) : Option Bytes × Bytes :=
  if infile = [] then (string, [])
  else
    let (string, rest) := line 255 infile
    (some string, rest)

def charAt (string : Bytes) (place : Nat) : UInt8 := string.getD place 0

def readMode (f string : Bytes) : Except Stop Int :=
  let mode := (charAt string 1).toInt8.toInt - 48
  if !isValidMode mode || (charAt string 0 != 80 && charAt string 0 != 112) then
    .error (fatalBuffer 80 (invalidFormat f))
  else .ok mode

/-- Reads lines as long as `string` is a comment. There are no more lines than bytes. -/
def skipComments : Nat → Bytes → Bytes → Except Stop (Bytes × Bytes)
  | lines, string, infile =>
    if charAt string 0 = 35 then
      match lines, infile with
      | lines + 1, c :: infile =>
        let (string, rest) := line 255 (c :: infile)
        skipComments lines string rest
      | _, _ => .error .endless
    else .ok (string, infile)

theorem skipComments_comment {string : Bytes} (begins : charAt string 0 = 35) {lines : Nat} {c : UInt8}
    {infile : Bytes} : skipComments (lines + 1) string (c :: infile) =
      skipComments lines (line 255 (c :: infile)).1 (line 255 (c :: infile)).2 := by
  simp only [skipComments, if_pos begins]

theorem skipComments_end {string : Bytes} (begins : charAt string 0 = 35) (lines : Nat) :
    skipComments lines string [] = .error .endless := by
  cases lines <;> simp only [skipComments, if_pos begins]

theorem skipComments_stops {string infile : Bytes} (other : ¬charAt string 0 = 35) (lines : Nat) :
    skipComments lines string infile = .ok (string, infile) := by
  cases lines <;> cases infile <;> simp only [skipComments, if_neg other]

/-- One %d of scanf: what the variable holds after it, and whether it was read. -/
def scanVariable (held : Option Int) (text : Bytes) : Option Int × Bool × Bytes :=
  match scanInt text with
  | (some v, rest) => (asInt v, true, rest)
  | (none, rest) => (held, false, rest)

def scanSize (string : Bytes) (width height : Option Int) : Option Int × Option Int :=
  match scanVariable width (string.takeWhile (· ≠ 0)) with
  | (width, true, rest) => (width, (scanVariable height rest).1)
  | (width, false, _) => (width, height)

def readMax (mode : Int) (infile : Bytes) : Except Stop Bytes :=
  if mode ≠ pbmRaw ∧ mode ≠ pbmAscii then
    match scanVariable none infile with
    | (some imgMax, _, infile) =>
      if (rawMode mode && 255 < imgMax) || imgMax ≤ 0 then
        .error (fatalError (ascii "LIBGFX: Invalid value for maximum image color!"))
      else .ok (skipSpace infile)
    | (none, _, _) => .error .undefined
  else .ok infile

def allocate (calloc : Nat → Bool) (width height : Int) : Except Stop Nat :=
  match (asInt (3 * height)).bind fun _ => asInt (3 * height * width) with
  | some imgSize =>
    let bytes := (imgSize % 2 ^ 64).toNat
    if calloc bytes then .ok bytes else .error (fatalError (ascii "LIBGFX: Cannot allocate memory for image!"))
  | none => .error .undefined

structure Reader where
  infile : Bytes
  r : Option Int
  g : Option Int
  b : Option Int
  bw : Int
  count : Nat
  texImage : Image

def fgetc : Bytes → Int × Bytes
  | [] => (-1, [])
  | c :: infile => (c.toNat, infile)

def Reader.store (s : Reader) : Except Stop Reader :=
  match s.r, s.g, s.b with
  | some r, some g, some b => .ok { s with texImage := s.texImage ++ [.ofInt r, .ofInt g, .ofInt b] }
  | _, _, _ => .error .undefined

def Reader.setGrey (s : Reader) (v : Int) : Reader := { s with r := some v, g := some v, b := some v }

def Reader.pbmRaw (s : Reader) (width : Int) (j : Nat) : Reader :=
  let s := if s.count % 8 = 0 then { s with bw := (fgetc s.infile).1, infile := (fgetc s.infile).2 } else s
  let bitPos := 7 - s.count % 8
  let s := s.setGrey (if s.bw / 2 ^ bitPos % 2 = 1 then 0 else 255)
  { s with count := if (j : Int) + 1 = width then 0 else s.count + 1 }

def Reader.pgmRaw (s : Reader) : Reader :=
  { s.setGrey (fgetc s.infile).1 with infile := (fgetc s.infile).2 }

def Reader.ppmRaw (s : Reader) : Reader :=
  let (r, infile) := fgetc s.infile
  let (g, infile) := fgetc infile
  let (b, infile) := fgetc infile
  { s with r := some r, g := some g, b := some b, infile := infile }

def Reader.pbmAscii (s : Reader) : Except Stop Reader :=
  match scanVariable s.r s.infile with
  | (some r, _, infile) => .ok { s.setGrey ((if r ≠ 1 ∧ r ≠ 0 then 0 else r) * 255) with infile := infile }
  | (none, _, _) => .error .undefined

def Reader.pgmAscii (s : Reader) : Except Stop Reader :=
  match scanVariable s.r s.infile with
  | (some r, _, infile) => .ok { s.setGrey r with infile := infile }
  | (none, _, _) => .error .undefined

/-- fscanf(infile, "%d %d %d", &r, &g, &b), which stops where a number is missing. -/
def Reader.ppmAscii (s : Reader) : Reader :=
  match scanVariable s.r s.infile with
  | (r, false, infile) => { s with r := r, infile := infile }
  | (r, true, infile) =>
    match scanVariable s.g infile with
    | (g, false, infile) => { s with r := r, g := g, infile := infile }
    | (g, true, infile) =>
      let (b, _, infile) := scanVariable s.b infile
      { s with r := r, g := g, b := b, infile := infile }

def readPixel (mode width : Int) (s : Reader) (j : Nat) : Except Stop Reader :=
  if rawMode mode then
    if mode = pbmRaw then (s.pbmRaw width j).store
    else if mode = pgmRaw then s.pgmRaw.store
    else if mode = ppmRaw then s.ppmRaw.store
    else s.store
  else
    if mode = pbmAscii then s.pbmAscii.bind Reader.store
    else if mode = pgmAscii then s.pgmAscii.bind Reader.store
    else if mode = ppmAscii then s.ppmAscii.store
    else s.store

def columns (width height : Int) : List Nat :=
  (List.range height.toNat).flatMap fun _ => List.range width.toNat

def readPixels (mode width : Int) (js : List Nat) (s : Reader) : Except Stop Reader :=
  js.foldlM (readPixel mode width) s

def readImage (calloc : Nat → Bool) (mode : Int) (width height : Option Int) (infile : Bytes) : Except Stop Texture :=
  match width, height with
  | some width, some height => do
    let size ← allocate calloc width height
    let s ← readPixels mode width (columns width height) ⟨infile, none, none, none, 0, 0, []⟩
    .ok ⟨mode, width, height, s.texImage ++ List.replicate (size - s.texImage.length) 0⟩
  | _, _ => .error .undefined

/-- ReadPPM of the file `f`, of which fopen gives the bytes or NULL. `width` and `height` are
what the variables of the caller hold before. -/
def readPPM (calloc : Nat → Bool) (width height : Option Int) (f : Bytes) (fopen : Option Bytes) :
    Except Stop Texture :=
  match fopen with
  | none => .error (fatalBuffer 80 (cantOpen f))
  | some infile =>
    match fgets none infile with
    | (none, _) => .error .undefined
    | (some string, infile) => do
      let mode ← readMode f string
      let (next, infile) := fgets (some string) infile
      let (string, infile) ← skipComments infile.length (next.getD []) infile
      let (width, height) := scanSize string width height
      let infile ← readMax mode infile
      readImage calloc mode width height infile

-- a file of two pixels, the last of them not there
example : readPPM (fun _ => true) none none [] (some (ascii "P3\n# a\n2 1\n255\n1 2 3 4")) =
    .ok ⟨3, 2, 1, [1, 2, 3, 4, 2, 3]⟩ := by decide +kernel

end CppRt.Histogram

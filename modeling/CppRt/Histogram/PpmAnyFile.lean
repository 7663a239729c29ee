import CppRt.Histogram.ReadPPM
import Mathlib.Tactic.Ring

/-!
ReadPPM of a file that may hold anything. Each pixel stores three bytes whatever is left to
read, so that the loop ends where the block does that was allocated for the image. The only
files on which it goes on for ever are those of nothing but comments behind the first line.
-/

namespace CppRt.Histogram
open Library.Decimal (Bytes isSpace)

section Stores
variable {mode width : Int} {s s' : Reader} {j : Nat}

theorem store_appends {image : Image} (stored : s.store = .ok s') (kept : s.texImage = image) :
    ∃ r g b, s'.texImage = image ++ [r, g, b] := by
  unfold Reader.store at stored
  split at stored
  · cases stored
    exact ⟨_, _, _, congrArg (· ++ _) kept⟩
  · cases stored

theorem pbmRaw_texImage (width : Int) (j : Nat) : (s.pbmRaw width j).texImage = s.texImage := by
  unfold Reader.pbmRaw
  by_cases first : s.count % 8 = 0
  · rw [if_pos first]
    rfl
  · rw [if_neg first]
    rfl

theorem pbmAscii_texImage (read : s.pbmAscii = .ok s') : s'.texImage = s.texImage := by
  unfold Reader.pbmAscii at read
  split at read
  · cases read
    rfl
  · cases read

theorem pgmAscii_texImage (read : s.pgmAscii = .ok s') : s'.texImage = s.texImage := by
  unfold Reader.pgmAscii at read
  split at read
  · cases read
    rfl
  · cases read

theorem ppmAscii_texImage : s.ppmAscii.texImage = s.texImage := by
  unfold Reader.ppmAscii
  split
  · rfl
  · split
    · rfl
    · rfl

theorem bind_ok {α β : Type} {first : Except Stop α} {next : α → Except Stop β} {result : β}
    (ok : first.bind next = .ok result) : ∃ value, first = .ok value ∧ next value = .ok result := by
  cases first with
  | error stop => cases ok
  | ok value => exact ⟨value, rfl, ok⟩

theorem ok_bind {α β : Type} (value : α) (next : α → Except Stop β) : (Except.ok value).bind next = next value := rfl

theorem bind_of_error {α β : Type} {first : Except Stop α} {next : α → Except Stop β} {stop : Stop}
    (failed : first = .error stop) : first.bind next = .error stop := by
  rw [failed]
  rfl

theorem bind_error {α β : Type} {first : Except Stop α} {next : α → Except Stop β} {stop : Stop}
    (failed : first.bind next = .error stop) :
    first = .error stop ∨ ∃ value, first = .ok value ∧ next value = .error stop := by
  cases first with
  | error other =>
    cases failed
    exact .inl rfl
  | ok value => exact .inr ⟨value, rfl, failed⟩

theorem readPixel_appends (read : readPixel mode width s j = .ok s') :
    ∃ r g b, s'.texImage = s.texImage ++ [r, g, b] := by
  unfold readPixel at read
  split_ifs at read
  · exact store_appends read (pbmRaw_texImage width j)
  · exact store_appends read rfl
  · exact store_appends read rfl
  · exact store_appends read rfl
  · obtain ⟨next, scanned, stored⟩ := bind_ok read
    exact store_appends stored (pbmAscii_texImage scanned)
  · obtain ⟨next, scanned, stored⟩ := bind_ok read
    exact store_appends stored (pgmAscii_texImage scanned)
  · exact store_appends read ppmAscii_texImage
  · exact store_appends read rfl

theorem readPixels_cons {js : List Nat} (read : readPixels mode width (j :: js) s = .ok s') :
    ∃ next, readPixel mode width s j = .ok next ∧ readPixels mode width js next = .ok s' := by
  rw [readPixels, List.foldlM_cons] at read
  exact bind_ok read

theorem readPixels_appends {js : List Nat} (read : readPixels mode width js s = .ok s') :
    ∃ bytes, s'.texImage = s.texImage ++ bytes ∧ bytes.length = 3 * js.length := by
  induction js generalizing s with
  | nil =>
    cases read
    exact ⟨[], (List.append_nil _).symm, rfl⟩
  | cons j js ih =>
    obtain ⟨next, first, rest⟩ := readPixels_cons read
    obtain ⟨r, g, b, stored⟩ := readPixel_appends first
    obtain ⟨bytes, image, length⟩ := ih rest
    refine ⟨[r, g, b] ++ bytes, ?_, ?_⟩
    · rw [image, stored, List.append_assoc]
    · simp only [List.length_append, List.length_cons, List.length_nil, length]
      omega

theorem columns_length (width height : Int) : (columns width height).length = height.toNat * width.toNat := by
  rw [columns, List.length_flatMap]
  rw [List.map_const', List.sum_replicate_nat, List.length_range, List.length_range]

end Stores

section Image
variable {calloc : Nat → Bool} {mode : Int} {width height : Option Int} {infile : Bytes} {t : Texture}

theorem asInt_some {v n : Int} (value : asInt v = some n) : n = v ∧ -2 ^ 31 ≤ v ∧ v < 2 ^ 31 := by
  unfold asInt at value
  split at value
  · next range =>
    cases value
    exact ⟨rfl, range⟩
  · cases value

theorem allocate_ok {w h : Int} {size : Nat} (allocated : allocate calloc w h = .ok size) :
    size = ((3 * h * w) % 2 ^ 64).toNat ∧ -2 ^ 31 ≤ 3 * h * w ∧ 3 * h * w < 2 ^ 31 ∧ calloc size = true := by
  unfold allocate at allocated
  split at allocated
  · next imgSize product =>
    obtain ⟨_, _, value⟩ := Option.bind_eq_some_iff.mp product
    obtain ⟨rfl, least, most⟩ := asInt_some value
    by_cases memory : calloc ((3 * h * w) % 2 ^ 64).toNat = true
    · simp only [if_pos memory] at allocated
      cases allocated
      exact ⟨rfl, least, most, memory⟩
    · simp only [if_neg memory] at allocated
      cases allocated
  · cases allocated

/-- The loop stores no more than was allocated. -/
theorem stored_fits {w h : Int} {size : Nat} (allocated : allocate calloc w h = .ok size) :
    3 * (columns w h).length ≤ size := by
  obtain ⟨rfl, least, most, memory⟩ := allocate_ok allocated
  rw [columns_length]
  by_cases none_ : h ≤ 0 ∨ w ≤ 0
  · have empty : h.toNat * w.toNat = 0 := by
      cases none_ with
      | inl rows => rw [Int.toNat_of_nonpos rows, Nat.zero_mul]
      | inr columns => rw [Int.toNat_of_nonpos columns, Nat.mul_zero]
    rw [empty]
    exact Nat.zero_le _
  · obtain ⟨rows, columns⟩ := not_or.mp none_
    have pixels : 3 * (h.toNat * w.toNat) = (3 * h * w).toNat := by
      have product : 3 * h * w = ((3 * (h.toNat * w.toNat) : Nat) : Int) := by
        push_cast
        rw [Int.toNat_of_nonneg (by omega), Int.toNat_of_nonneg (by omega)]
        ring
      rw [product, Int.toNat_natCast]
    rw [pixels]
    omega

theorem readImage_ok (read : readImage calloc mode width height infile = .ok t) :
    t.mode = mode ∧ allocate calloc t.width t.height = .ok t.texImage.length := by
  unfold readImage at read
  split at read
  · next w h =>
    obtain ⟨size, allocated, read⟩ := bind_ok read
    obtain ⟨last, loop, result⟩ := bind_ok read
    cases result
    obtain ⟨bytes, image, length⟩ := readPixels_appends loop
    have fits := stored_fits allocated
    have full : (last.texImage ++ List.replicate (size - last.texImage.length) 0).length = size := by
      rw [List.length_append, List.length_replicate, image]
      simp only [List.nil_append, length]
      omega
    exact ⟨rfl, allocated.trans (congrArg Except.ok full.symm)⟩
  · cases read

theorem readMode_ok {f string : Bytes} {mode : Int} (read : readMode f string = .ok mode) :
    isValidMode mode = true ∧ ¬charAt string 0 = 35 := by
  unfold readMode at read
  by_cases wrong : (!isValidMode ((charAt string 1).toInt8.toInt - 48) ||
    (charAt string 0 != 80 && charAt string 0 != 112)) = true
  · simp only [if_pos wrong] at read
    cases read
  · simp only [if_neg wrong] at read
    cases read
    constructor
    · cases valid : isValidMode ((charAt string 1).toInt8.toInt - 48) with
      | true => rfl
      | false => exact absurd (by rw [valid]; rfl) wrong
    · intro comment
      exact wrong (by rw [comment, Bool.or_eq_true]; exact .inr rfl)

end Image

section Files
variable {calloc : Nat → Bool} {width height : Option Int} {f : Bytes} {fopen : Option Bytes} {t : Texture}

theorem readPPM_file {infile : Bytes} (some_ : infile ≠ []) : readPPM calloc width height f (some infile) =
    (readMode f (line 255 infile).1).bind fun mode =>
      (let (next, infile) := fgets (some (line 255 infile).1) (line 255 infile).2
       skipComments infile.length (next.getD []) infile).bind fun size =>
        (readMax mode size.2).bind fun infile =>
          readImage calloc mode (scanSize size.1 width height).1 (scanSize size.1 width height).2 infile := by
  rw [readPPM, fgets, if_neg some_]
  rfl

/-- What ReadPPM returns has one of the six modes and fills the block that was allocated for
it, three bytes for each pixel. -/
theorem readPPM_image (read : readPPM calloc width height f fopen = .ok t) :
    isValidMode t.mode = true ∧ calloc t.texImage.length = true ∧
      (0 ≤ t.width → 0 ≤ t.height → (t.texImage.length : Int) = 3 * t.width * t.height) := by
  have opened : ∃ infile, fopen = some infile ∧ infile ≠ [] := by
    cases fopen with
    | none => cases read
    | some infile =>
      refine ⟨infile, rfl, ?_⟩
      rintro rfl
      cases read
  obtain ⟨infile, rfl, some_⟩ := opened
  rw [readPPM_file some_] at read
  obtain ⟨mode, modeRead, read⟩ := bind_ok read
  obtain ⟨size, _, read⟩ := bind_ok read
  obtain ⟨pixels, _, read⟩ := bind_ok read
  obtain ⟨rfl, allocated⟩ := readImage_ok read
  obtain ⟨length, _, most, memory⟩ := allocate_ok allocated
  refine ⟨(readMode_ok modeRead).1, memory, ?_⟩
  intro columns rows
  have positive : 0 ≤ 3 * t.height * t.width := Int.mul_nonneg (Int.mul_nonneg (by decide) rows) columns
  have pixels : 3 * t.width * t.height = 3 * t.height * t.width := by ring
  rw [length, pixels]
  omega

-- the block is filled though the numbers end after the first pixel
theorem readPPM_image_short : ∃ t, readPPM (fun _ => true) none none [] (some (ascii "P3\n2 1\n255\n1 2 3")) = .ok t ∧
    isValidMode t.mode = true ∧ true = true ∧
      (0 ≤ t.width → 0 ≤ t.height → (t.texImage.length : Int) = 3 * t.width * t.height) := by
  have read : readPPM (fun _ => true) none none [] (some (ascii "P3\n2 1\n255\n1 2 3")) =
      .ok ⟨3, 2, 1, [1, 2, 3, 1, 2, 3]⟩ := by decide +kernel
  exact ⟨_, read, readPPM_image read⟩

inductive Comments : Bytes → Prop where
  | last {infile : Bytes} (some_ : infile ≠ []) (comment : charAt (line 255 infile).1 0 = 35)
      (ended : (line 255 infile).2 = []) : Comments infile
  | more {infile : Bytes} (some_ : infile ≠ []) (comment : charAt (line 255 infile).1 0 = 35)
      (rest : Comments (line 255 infile).2) : Comments infile

theorem line_shorter (room : Nat) (c : UInt8) (infile : Bytes) :
    (line (room + 1) (c :: infile)).2.length ≤ infile.length := by
  induction room generalizing c infile with
  | zero =>
    unfold line
    split
    · exact Nat.le_refl _
    · exact Nat.le_refl _
  | succ room ih =>
    unfold line
    split
    · exact Nat.le_refl _
    · cases infile with
      | nil => exact Nat.le_refl _
      | cons d infile => exact Nat.le_succ_of_le (ih d infile)

/-- Behind a comment the file ends or goes on with comments only. No file has more lines than
bytes, so that the number of them is never what ends the search. -/
theorem skipComments_endless {lines : Nat} {string infile : Bytes} (enough : infile.length ≤ lines)
    (begins : charAt string 0 = 35) :
    skipComments lines string infile = .error .endless ↔ infile = [] ∨ Comments infile := by
  induction lines generalizing string infile with
  | zero =>
    have empty : infile = [] := List.length_eq_zero_iff.mp (Nat.le_zero.mp enough)
    rw [empty, skipComments_end begins]
    exact ⟨fun _ => .inl rfl, fun _ => rfl⟩
  | succ lines ih =>
    cases infile with
    | nil =>
      rw [skipComments_end begins]
      exact ⟨fun _ => .inl rfl, fun _ => rfl⟩
    | cons c infile =>
      have some_ : c :: infile ≠ [] := List.cons_ne_nil c infile
      have fewer : (line 255 (c :: infile)).2.length ≤ lines :=
        Nat.le_trans (line_shorter 254 c infile) (Nat.le_of_succ_le_succ enough)
      rw [skipComments_comment begins]
      by_cases comment : charAt (line 255 (c :: infile)).1 0 = 35
      · rw [ih fewer comment]
        constructor
        · intro rest
          cases rest with
          | inl ended => exact .inr (.last some_ comment ended)
          | inr rest => exact .inr (.more some_ comment rest)
        · intro comments
          cases comments with
          | inl empty => cases empty
          | inr comments =>
            cases comments with
            | last _ _ ended => exact .inl ended
            | more _ _ rest => exact .inr rest
      · rw [skipComments_stops comment]
        constructor
        · intro endless
          cases endless
        · intro comments
          cases comments with
          | inl empty => cases empty
          | inr comments =>
            cases comments with
            | last _ first _ => exact absurd first comment
            | more _ first _ => exact absurd first comment

def Ends {α : Type} (call : Except Stop α) : Prop := call ≠ .error .endless

theorem Ends.ok {α : Type} (value : α) : Ends (.ok value) := fun wrong => by cases wrong

theorem Ends.undefined {α : Type} : Ends (.error .undefined : Except Stop α) := fun wrong => by cases wrong

theorem Ends.fatal {α : Type} (msg : Bytes) : Ends (.error (fatalError msg) : Except Stop α) :=
  fun wrong => by cases wrong

theorem Ends.fatalBuffer {α : Type} (size : Nat) (msg : Bytes) : Ends (.error (fatalBuffer size msg) : Except Stop α) := by
  unfold Histogram.fatalBuffer
  split
  · exact .fatal msg
  · exact .undefined

theorem Ends.bind {α β : Type} {first : Except Stop α} {next : α → Except Stop β} (ends : Ends first)
    (rest : ∀ value, Ends (next value)) : Ends (first.bind next) := by
  intro wrong
  cases bind_error wrong with
  | inl here => exact ends here
  | inr later =>
    obtain ⟨value, _, there⟩ := later
    exact rest value there

theorem readMode_ends (string : Bytes) : Ends (readMode f string) := by
  unfold readMode
  by_cases wrong : (!isValidMode ((charAt string 1).toInt8.toInt - 48) ||
    (charAt string 0 != 80 && charAt string 0 != 112)) = true
  · simp only [if_pos wrong]
    exact .fatalBuffer _ _
  · simp only [if_neg wrong]
    exact .ok _

theorem readMax_ends (mode : Int) (infile : Bytes) : Ends (readMax mode infile) := by
  unfold readMax
  split_ifs
  · split
    · split_ifs
      · exact .fatal _
      · exact .ok _
    · exact .undefined
  · exact .ok _

theorem allocate_ends (w h : Int) : Ends (allocate calloc w h) := by
  unfold allocate
  split
  · next imgSize _ =>
    by_cases memory : calloc (imgSize % 2 ^ 64).toNat = true
    · simp only [if_pos memory]
      exact .ok _
    · simp only [if_neg memory]
      exact .fatal _
  · exact .undefined

theorem store_ends (s : Reader) : Ends s.store := by
  unfold Reader.store
  split
  · exact .ok _
  · exact .undefined

theorem pbmAscii_ends (s : Reader) : Ends s.pbmAscii := by
  unfold Reader.pbmAscii
  split
  · exact .ok _
  · exact .undefined

theorem pgmAscii_ends (s : Reader) : Ends s.pgmAscii := by
  unfold Reader.pgmAscii
  split
  · exact .ok _
  · exact .undefined

theorem readPixels_ends (mode width : Int) (js : List Nat) (s : Reader) : Ends (readPixels mode width js s) := by
  induction js generalizing s with
  | nil => exact .ok s
  | cons j js ih =>
    have pixel : Ends (readPixel mode width s j) := by
      unfold readPixel
      split_ifs
      · exact store_ends _
      · exact store_ends _
      · exact store_ends _
      · exact store_ends _
      · exact (pbmAscii_ends s).bind store_ends
      · exact (pgmAscii_ends s).bind store_ends
      · exact store_ends _
      · exact store_ends _
    rw [readPixels, List.foldlM_cons]
    exact pixel.bind ih

theorem readImage_ends (mode : Int) (infile : Bytes) : Ends (readImage calloc mode width height infile) := by
  unfold readImage
  split
  · exact (allocate_ends _ _).bind fun size => (readPixels_ends _ _ _ _).bind fun s => .ok _
  · exact .undefined

theorem comments_endless {string infile : Bytes} (other : ¬charAt string 0 = 35) :
    (let (next, rest) := fgets (some string) infile
     skipComments rest.length (next.getD []) rest) = .error .endless ↔ Comments infile := by
  by_cases empty : infile = []
  · rw [fgets, if_pos empty]
    show skipComments 0 string [] = _ ↔ _
    rw [skipComments_stops other, empty]
    constructor
    · intro endless
      cases endless
    · intro comments
      cases comments with
      | last some_ => exact absurd rfl some_
      | more some_ => exact absurd rfl some_
  · rw [fgets, if_neg empty]
    show skipComments (line 255 infile).2.length (line 255 infile).1 (line 255 infile).2 = _ ↔ _
    by_cases comment : charAt (line 255 infile).1 0 = 35
    · rw [skipComments_endless (Nat.le_refl _) comment]
      constructor
      · intro rest
        cases rest with
        | inl ended => exact .last empty comment ended
        | inr rest => exact .more empty comment rest
      · intro comments
        cases comments with
        | last _ _ ended => exact .inl ended
        | more _ _ rest => exact .inr rest
    · rw [skipComments_stops comment]
      constructor
      · intro endless
        cases endless
      · intro comments
        cases comments with
        | last _ first _ => exact absurd first comment
        | more _ first _ => exact absurd first comment

/-- ReadPPM goes on for ever where all that follows the first line is comments, and only there. -/
theorem readPPM_endless : readPPM calloc width height f fopen = .error .endless ↔
    ∃ infile mode, fopen = some infile ∧ infile ≠ [] ∧ readMode f (line 255 infile).1 = .ok mode ∧
      Comments (line 255 infile).2 := by
  constructor
  · intro endless
    have opened : ∃ infile, fopen = some infile ∧ infile ≠ [] := by
      cases fopen with
      | none => exact absurd endless (Ends.fatalBuffer 80 (cantOpen f))
      | some infile =>
        refine ⟨infile, rfl, ?_⟩
        rintro rfl
        cases endless
    obtain ⟨infile, rfl, some_⟩ := opened
    rw [readPPM_file some_] at endless
    cases bind_error endless with
    | inl first => exact absurd first (readMode_ends _)
    | inr later =>
      obtain ⟨mode, read, later⟩ := later
      refine ⟨infile, mode, rfl, some_, read, ?_⟩
      cases bind_error later with
      | inl comments => exact (comments_endless (readMode_ok read).2).mp comments
      | inr later =>
        obtain ⟨size, _, later⟩ := later
        exact absurd later ((readMax_ends _ _).bind fun infile => readImage_ends _ _)
  · rintro ⟨infile, mode, rfl, some_, read, comments⟩
    have endless := (comments_endless (readMode_ok read).2).mpr comments
    rw [readPPM_file some_, read, ok_bind]
    exact bind_of_error endless

end Files

end CppRt.Histogram

import MagicLantern.Library.CString
import MagicLantern.Library.Runs

/-!
# Silent pictures in MLV files

`save_mlv` appends a picture to the MLV file of a series. Each call looks for the file to append to:
the main file, or else the chunks with the extensions M00, M01 and so on; a file that is larger than
the limit is passed over. There is one header for all files. It is written at the start of a new
file, and again after each picture, with the number of pictures in this file.

The names are built in a buffer of 16 characters. The name of the main file is copied to it without
a check. Complete names, as `silent_pic_get_name` makes them, do not fit. What then happens is
undefined.

Files are lists of blocks. All file operations succeed. Sizes are known modulo `2 ^ 32`, as
`FIO_GetFileSize` gives them. The first test, of `silent_pic_mlv_available`, is left out.

Source: `src/modules/silent/silent.c`, `src/modules/raw_video/mlv_rec/mlv.h`.

## Main results

* `series_valid` — the files of a series.
* `series_of_frameSize` — pictures of one size.
* `series_overflow`.
-/

namespace MagicLantern.Silent

open Function List Option

/-! ### Files -/

/-- The blocks in the files. -/
inductive Block
  | mlvi (fileNum videoFrameCount : ℕ)
  | rawi
  | idnt
  | wbal
  | styl
  | rtci
  | expo
  | lens
  | vidf (frameNumber frameSize : ℕ)
  deriving DecidableEq

/-- `blockSize`. -/
def Block.size : Block → ℕ
  | .mlvi _ _ => 52
  | .rawi => 180
  | .idnt => 84
  | .wbal => 44
  | .styl => 52
  | .rtci => 44
  | .expo => 40
  | .lens => 96
  | .vidf _ frameSize => 32 + frameSize

/-- The contents of the files, by their names. -/
abbrev Files := List Char → Option (List Block)

/-- The position of the end of a file. -/
def endPosition (content : List Block) : ℕ := (content.map Block.size).sum

/-- The size that `FIO_GetFileSize` gives. -/
def fileSize (content : List Block) : ℕ := endPosition content % 2 ^ 32

/-- Blocks that are written at the start of a file. -/
def overwrite (content blocks : List Block) : List Block := blocks ++ content.drop blocks.length

/-! ### Names -/

/-- The size of `filename` in `open_mlv_file`. -/
def filenameSize : ℕ := 16

/-- Characters that are written to a buffer. -/
def writeAt (buf : List Char) (i : ℕ) (text : List Char) : List Char :=
  buf.take i ++ text ++ buf.drop (i + text.length)

/-- What `strncpy` writes. -/
def strncpy (text : List Char) (n : ℕ) : List Char :=
  text.take n ++ List.replicate (n - text.length) '\x00'

/-- `get_chunk_filename`. -/
def getChunkFilename (baseName buf : List Char) (chunk : ℕ) : List Char :=
  let buf := writeAt buf 0 (strncpy baseName 13)
  if chunk > 0 then
    let len := (CString.ofBuffer buf).length
    writeAt buf (len - 2) ((CString.formatPadded 2 (chunk - 1 : ℕ)).take 2 ++ ['\x00'])
  else buf

/-- The loop of `open_mlv_file` for `chunk + 1`, with the number of iterations that are left. The
result is the name of the file that is opened or created. -/
def openLoop (files : Files) (baseFilename : List Char) (maxFilesize : ℕ) :
    ℕ → ℕ → List Char → Option (List Char)
  | 0, _, _ => none
  | n + 1, next, buf =>
    let buf := if next ≥ 1 then getChunkFilename baseFilename buf (next - 1) else buf
    let filename := CString.ofBuffer buf
    match files filename with
    | some content =>
      if fileSize content > maxFilesize then
        openLoop files baseFilename maxFilesize n (next + 1) buf
      else some filename
    | none => some filename

/-- What can happen in `open_mlv_file`. -/
inductive OpenResult
  /-- The name does not fit into the buffer. -/
  | overflow
  | failed
  | opened (filename : List Char)
  deriving DecidableEq

/-- `open_mlv_file`; `stack` is what is in the buffer at first. -/
def openMlvFile (files : Files) (baseFilename : List Char) (maxFilesize : ℕ) (stack : List Char) :
    OpenResult :=
  if baseFilename.length ≥ filenameSize then .overflow
  else
    match openLoop files baseFilename maxFilesize 101 0
      (writeAt stack 0 (baseFilename ++ ['\x00'])) with
    | none => .failed
    | some filename => .opened filename

/-! ### Saving a picture -/

/-- The fields of `mlv_file_hdr` that change. -/
structure FileHdr where
  fileNum : ℕ
  videoFrameCount : ℕ
  deriving DecidableEq

/-- The header as a block. -/
def FileHdr.block (hdr : FileHdr) : Block := .mlvi hdr.fileNum hdr.videoFrameCount

/-- The variables of the module, and the files. -/
structure SilentState where
  files : Files
  mlvFileHdr : FileHdr
  mlvFileFrameNumber : ℕ
  intervalometerWasRunning : Bool
  imageFileName : List Char

/-- What a call of `save_mlv` depends on. -/
structure Call where
  /-- One of the burst modes is selected. -/
  burst : Bool
  /-- `get_interval_count`, if the intervalometer is running. -/
  intervalCount : Option ℕ
  /-- What `silent_pic_get_name` gives. -/
  newName : List Char
  frameSize : ℕ
  stack : List Char

/-- `max_size`. -/
def maxSize (mlvMaxFilesize frameSize : ℕ) : ℕ :=
  (mlvMaxFilesize + 2 ^ 32 - frameSize * 2 % 2 ^ 32) % 2 ^ 32

/-- The blocks of a picture are appended, and the header is written. -/
def appendFrame (hdr : FileHdr) (content : List Block) (frameNumber frameSize : ℕ) :
    FileHdr × List Block :=
  let new := endPosition content = 0
  let hdr := if new then ⟨hdr.fileNum + 1, 0⟩ else hdr
  let content := if new then [hdr.block] else content
  let content := content ++ [.rtci, .expo, .lens, .vidf frameNumber frameSize]
  let hdr := { hdr with videoFrameCount := hdr.videoFrameCount + 1 }
  (hdr, overwrite content [hdr.block])

namespace SilentState

/-- The start of a new series by the intervalometer. -/
def resetCounter (s : SilentState) (call : Call) : SilentState :=
  if call.burst then s
  else
    match call.intervalCount with
    | some intervalCount =>
      { s with
        mlvFileFrameNumber :=
          if intervalCount = 0 || intervalCount < s.mlvFileFrameNumber then 0
          else s.mlvFileFrameNumber
        intervalometerWasRunning := true }
    | none =>
      if s.intervalometerWasRunning then
        { s with mlvFileFrameNumber := 0, intervalometerWasRunning := false }
      else s

/-- `save_mlv`, with the value that is returned; `none` if a name does not fit into its buffer. -/
def saveMlv (mlvMaxFilesize : ℕ) (s : SilentState) (call : Call) : Option (SilentState × Bool) :=
  let s := s.resetCounter call
  let frameNumber := s.mlvFileFrameNumber
  let filename := if frameNumber = 0 then call.newName else s.imageFileName
  let s := { s with mlvFileFrameNumber := frameNumber + 1, imageFileName := filename }
  match openMlvFile s.files filename (maxSize mlvMaxFilesize call.frameSize) call.stack with
  | .overflow => none
  | .failed => some (s, false)
  | .opened file =>
    let content := (s.files file).getD []
    let hdr := if frameNumber = 0 then ⟨0, 0⟩ else s.mlvFileHdr
    let content :=
      if frameNumber = 0 then overwrite content [hdr.block, .rawi, .idnt, .wbal, .styl]
      else content
    let (hdr, content) := appendFrame hdr content frameNumber call.frameSize
    some ({ s with
      files := Function.update s.files file (some content)
      mlvFileHdr := hdr }, true)

/-- The state after a call. -/
def step (mlvMaxFilesize : ℕ) (s : SilentState) (call : Call) : Option SilentState :=
  (s.saveMlv mlvMaxFilesize call).map (·.1)

end SilentState

/-! ### Series -/

/-- The name of the main file of a series, without the extension. -/
structure SeriesName where
  stem : List Char
  noZero : '\x00' ∉ stem

namespace SeriesName

variable (name : SeriesName)

/-- The names of the files of a series. -/
def file : ℕ → List Char
  | 0 => name.stem ++ ['.', 'M', 'L', 'V']
  | i + 1 => name.stem ++ ['.', 'M'] ++ CString.formatPadded 2 (i : ℕ)

end SeriesName

/-- The numbers of the pictures in a file. -/
def frameNumbers (content : List Block) : List ℕ :=
  content.filterMap fun
    | .vidf frameNumber _ => some frameNumber
    | _ => none

/-- The numbers of the pictures in the first `n` files of a series. -/
def seriesNumbers (name : SeriesName) (files : Files) (n : ℕ) : List ℕ :=
  (List.range n).flatMap fun i => frameNumbers ((files (name.file i)).getD [])

/-- The files of a series, if there were the files `before`. -/
structure ValidSeries (name : SeriesName) (before files : Files) (n : ℕ) : Prop where
  /-- Each file begins with a header that has the number of the file and the number of pictures. -/
  headers : ∀ i < n, ∃ rest,
    files (name.file i) = some (.mlvi i (frameNumbers rest).length :: rest)
  /-- The pictures are numbered in order. -/
  numbers : seriesNumbers name files n = List.range (seriesNumbers name files n).length
  /-- No other file is written. -/
  others : ∀ x, (∀ i < n, x ≠ name.file i) → files x = before x

namespace SilentState

/-- A call that does not start a new series. -/
def Continues (s : SilentState) (call : Call) : Prop :=
  (s.resetCounter call).mlvFileFrameNumber ≠ 0

/-- Each file of the series that has a successor is larger than the limit. If a picture has been
lost because there was no file for it, then the last file is larger too. -/
def SizesOk (mlvMaxFilesize : ℕ) (name : SeriesName) (s : SilentState) (call : Call) : Prop :=
  (∀ i < 99, (s.files (name.file (i + 1))).getD [] ≠ [] →
    maxSize mlvMaxFilesize call.frameSize < fileSize ((s.files (name.file i)).getD [])) ∧
  ((seriesNumbers name s.files 100).length ≠ s.mlvFileFrameNumber →
    maxSize mlvMaxFilesize call.frameSize < fileSize ((s.files (name.file 99)).getD []))

instance (s : SilentState) (call : Call) : Decidable (s.Continues call) :=
  inferInstanceAs (Decidable (_ ≠ _))

instance (mlvMaxFilesize : ℕ) (name : SeriesName) (s : SilentState) (call : Call) :
    Decidable (SizesOk mlvMaxFilesize name s call) :=
  inferInstanceAs (Decidable ((∀ i < 99, _ → _) ∧ (_ → _)))

end SilentState

/-! ### The names that are tried -/

variable {buf : List Char}

namespace SeriesName

variable {name : SeriesName} {x y : Char}

theorem file_inj {i j : ℕ} (hi : i < 100) (hj : j < 100) (h : name.file i = name.file j) :
    i = j := by
  -- The extension of the main file has a letter where the others have a digit.
  have hne (k : ℕ) (h : ['L', 'V'] = CString.formatPadded 2 (k : ℕ)) : False := by
    have hmem : 'L' ∈ CString.formatPadded 2 (k : ℕ) := h ▸ mem_cons_self
    exact absurd (CString.isDigit_of_mem_formatPadded hmem) (by decide)
  cases i with
  | zero =>
    cases j with
    | zero => rfl
    | succ j =>
      simp only [file] at h
      exact (hne j (by simpa using h)).elim
  | succ i =>
    cases j with
    | zero =>
      simp only [file] at h
      exact (hne i (by simpa using h.symm)).elim
    | succ j =>
      have hdigits := append_cancel_left h
      rw [CString.formatPadded_two_inj (by omega) (by omega) hdigits]

/-- The buffer holds a name of the series, up to the last two characters. -/
def Stored (name : SeriesName) (x y : Char) (buf : List Char) : Prop :=
  ∃ garbage, buf = name.stem ++ ['.', 'M'] ++ [x, y] ++ '\x00' :: garbage

theorem Stored.ofBuffer (h : name.Stored x y buf) (hx : x ≠ '\x00') (hy : y ≠ '\x00') :
    CString.ofBuffer buf = name.stem ++ ['.', 'M'] ++ [x, y] := by
  obtain ⟨garbage, rfl⟩ := h
  have hall : ∀ c ∈ name.stem ++ ['.', 'M'] ++ [x, y], decide (c ≠ '\x00') = true := by
    intro c hc
    simp only [mem_append, mem_cons, not_mem_nil, or_false] at hc
    rcases hc with (hc | rfl | rfl) | rfl | rfl
    · simpa using ne_of_mem_of_not_mem hc name.noZero
    · decide
    · decide
    · simpa using hx
    · simpa using hy
  rw [CString.ofBuffer, takeWhile_append_of_pos hall]
  simp

variable (hlen : (name.file 0).length ≤ 15)
include hlen

/-- The name of the main file is copied once more, up to 13 characters. -/
theorem Stored.strncpy (h : name.Stored x y buf) : ∃ x' y', (x' = x ∨ x' = 'L') ∧
    (y' = y ∨ y' = 'V') ∧ name.Stored x' y' (writeAt buf 0 (Silent.strncpy (name.file 0) 13)) := by
  obtain ⟨garbage, rfl⟩ := h
  have hfile : name.file 0 = name.stem ++ ['.', 'M'] ++ ['L', 'V'] := by simp [file]
  have hp : (name.stem ++ ['.', 'M']).length ≤ 13 := by simpa [file] using hlen
  unfold Stored
  rw [hfile]
  generalize name.stem ++ ['.', 'M'] = p at hp
  have htake : p.take 13 = p := take_of_length_le hp
  have hdrop : p.drop 13 = [] := drop_eq_nil_of_le hp
  -- How much of the last two characters is copied depends on the length of the name.
  rcases hp.eq_or_lt with hp | hp
  · simp [writeAt, Silent.strncpy, hp]
  rcases (Nat.lt_succ_iff.1 hp).eq_or_lt with hp | hp
  · simp [writeAt, Silent.strncpy, take_append, drop_append, hp, htake, hdrop]
  rcases (Nat.lt_succ_iff.1 hp).eq_or_lt with hp | hp
  · simp [writeAt, Silent.strncpy, take_append, drop_append, hp, htake, hdrop]
  · obtain ⟨k, hk⟩ : ∃ k, 13 - (p.length + 2) = k + 1 := ⟨13 - (p.length + 2) - 1, by omega⟩
    have hall : (p ++ ['L', 'V']).take 13 = p ++ ['L', 'V'] :=
      take_of_length_le (by simp; omega)
    have hzero : Silent.strncpy (p ++ ['L', 'V']) 13 =
        p ++ ['L', 'V'] ++ '\x00' :: replicate k '\x00' := by
      rw [Silent.strncpy, hall, length_append, length_cons, length_singleton, hk,
        replicate_succ]
    refine ⟨'L', 'V', .inr rfl, .inr rfl, replicate k '\x00' ++
      (p ++ [x, y] ++ '\x00' :: garbage).drop
        (0 + (Silent.strncpy (p ++ ['L', 'V']) 13).length), ?_⟩
    rw [writeAt, take_zero, nil_append]
    nth_rewrite 1 [hzero]
    simp only [append_assoc, cons_append]

/-- The number of a chunk is written over the last two characters. -/
theorem Stored.getChunkFilename (h : name.Stored x y buf) (hx : x ≠ '\x00') (hy : y ≠ '\x00')
    {k : ℕ} {d e : Char} (hdigits : CString.formatPadded 2 (k : ℕ) = [d, e]) :
    name.Stored d e (Silent.getChunkFilename (name.file 0) buf (k + 1)) := by
  obtain ⟨x', y', hx', hy', hstored⟩ := h.strncpy hlen
  have hne : x' ≠ '\x00' ∧ y' ≠ '\x00' := by
    refine ⟨?_, ?_⟩
    · rcases hx' with rfl | rfl
      · exact hx
      · decide
    · rcases hy' with rfl | rfl
      · exact hy
      · decide
  have hname := hstored.ofBuffer hne.1 hne.2
  obtain ⟨garbage, hbuf⟩ := hstored
  refine ⟨garbage, ?_⟩
  simp only [Silent.getChunkFilename, hname, Nat.succ_pos, Nat.add_sub_cancel,
    hdigits]
  rw [hbuf]
  generalize name.stem ++ ['.', 'M'] = p
  simp [writeAt]

theorem Stored.getChunkFilename_zero (h : name.Stored 'L' 'V' buf) :
    name.Stored 'L' 'V' (Silent.getChunkFilename (name.file 0) buf 0) := by
  obtain ⟨x', y', hx', hy', hstored⟩ := h.strncpy hlen
  obtain rfl : x' = 'L' := by simpa using hx'
  obtain rfl : y' = 'V' := by simpa using hy'
  exact hstored

/-- What is in the buffer before `chunk + 1` is tried. -/
def BufferOk (name : SeriesName) (next : ℕ) (buf : List Char) : Prop :=
  ∃ x y, x ≠ '\x00' ∧ y ≠ '\x00' ∧ (next ≤ 1 → x = 'L' ∧ y = 'V') ∧ name.Stored x y buf

theorem BufferOk.next {next : ℕ} (h : name.BufferOk next buf) (hnext : next ≤ 100) :
    let buf' := if next ≥ 1 then getChunkFilename (name.file 0) buf (next - 1) else buf
    CString.ofBuffer buf' = name.file (next - 1) ∧ name.BufferOk (next + 1) buf' := by
  obtain ⟨x, y, hx, hy, hmain, hstored⟩ := h
  have hfile : name.file 0 = name.stem ++ ['.', 'M'] ++ ['L', 'V'] := by simp [file]
  obtain _ | _ | k := next
  · obtain ⟨rfl, rfl⟩ := hmain (Nat.zero_le 1)
    exact ⟨(hstored.ofBuffer hx hy).trans hfile.symm, _, _, hx, hy, fun _ => ⟨rfl, rfl⟩, hstored⟩
  · obtain ⟨rfl, rfl⟩ := hmain le_rfl
    have hstored' := hstored.getChunkFilename_zero hlen
    exact ⟨(hstored'.ofBuffer hx hy).trans hfile.symm, _, _, hx, hy, fun h => by omega, hstored'⟩
  · obtain ⟨d, e, hdigits⟩ : ∃ d e, CString.formatPadded 2 (k : ℕ) = [d, e] :=
      length_eq_two.1 (CString.length_formatPadded_two (by omega))
    have hstored' := hstored.getChunkFilename hlen hx hy hdigits
    have hne {c : Char} (hc : c ∈ [d, e]) : c ≠ '\x00' := by
      have hdigit := CString.isDigit_of_mem_formatPadded (hdigits ▸ hc)
      rintro rfl
      exact absurd hdigit (by decide)
    have hd : d ≠ '\x00' := hne (by simp)
    have he : e ≠ '\x00' := hne (by simp)
    refine ⟨?_, d, e, hd, he, fun h => by omega, hstored'⟩
    exact (hstored'.ofBuffer hd he).trans (by simp [file, hdigits])

end SeriesName

/-! ### The file that is opened -/

section

theorem bufferOk_zero (name : SeriesName) (stack : List Char) :
    name.BufferOk 0 (writeAt stack 0 (name.file 0 ++ ['\x00'])) := by
  refine ⟨'L', 'V', by decide, by decide, fun _ => ⟨rfl, rfl⟩,
    stack.drop (name.file 0 ++ ['\x00']).length, ?_⟩
  simp [writeAt, SeriesName.file]

variable {name : SeriesName} {files : Files} {maxFilesize t : ℕ} (hlen : (name.file 0).length ≤ 15)
include hlen

/-- The loop goes past a file that is too large. -/
theorem openLoop_of_lt {n next : ℕ} (hnext : next ≤ 100) (hbuf : name.BufferOk next buf)
    (hsize : maxFilesize < fileSize ((files (name.file (next - 1))).getD [])) :
    ∃ buf', name.BufferOk (next + 1) buf' ∧
      openLoop files (name.file 0) maxFilesize (n + 1) next buf =
        openLoop files (name.file 0) maxFilesize n (next + 1) buf' := by
  obtain ⟨hname, hbuf'⟩ := hbuf.next hlen hnext
  refine ⟨_, hbuf', ?_⟩
  simp only [openLoop, hname]
  cases hfile : files (name.file (next - 1)) with
  | none => simp [hfile, fileSize, endPosition] at hsize
  | some content =>
    rw [hfile, getD_some] at hsize
    simp only [if_pos hsize]

/-- The loop finds the first file that may be appended to. -/
theorem openLoop_eq (ht : t < 100)
    (hbefore : ∀ i < t, maxFilesize < fileSize ((files (name.file i)).getD []))
    (hfound : fileSize ((files (name.file t)).getD []) ≤ maxFilesize) {n next : ℕ}
    (hn : next + n = 101) (hnext : next ≤ t + 1) (hbuf : name.BufferOk next buf) :
    openLoop files (name.file 0) maxFilesize n next buf = some (name.file t) := by
  induction n generalizing next buf with
  | zero => omega
  | succ n ih =>
    rcases Nat.lt_or_ge (next - 1) t with hlt | hge
    · obtain ⟨buf', hbuf', heq⟩ := openLoop_of_lt hlen (by omega) hbuf (hbefore (next - 1) hlt)
      rw [heq]
      exact ih (by omega) (by omega) hbuf'
    · obtain rfl : t = next - 1 := by omega
      simp only [openLoop, (hbuf.next hlen (by omega)).1]
      cases hfile : files (name.file (next - 1)) with
      | none => rfl
      | some content =>
        rw [hfile, getD_some] at hfound
        simp only [if_neg hfound.not_gt]

/-- The loop finds no file. -/
theorem openLoop_eq_none
    (hall : ∀ i < 100, maxFilesize < fileSize ((files (name.file i)).getD [])) {n next : ℕ}
    (hn : next + n = 101) (hbuf : name.BufferOk next buf) :
    openLoop files (name.file 0) maxFilesize n next buf = none := by
  induction n generalizing next buf with
  | zero => rfl
  | succ n ih =>
    obtain ⟨buf', hbuf', heq⟩ := openLoop_of_lt hlen (by omega) hbuf (hall (next - 1) (by omega))
    rw [heq]
    exact ih (by omega) hbuf'

theorem openMlvFile_eq (ht : t < 100)
    (hbefore : ∀ i < t, maxFilesize < fileSize ((files (name.file i)).getD []))
    (hfound : fileSize ((files (name.file t)).getD []) ≤ maxFilesize) (stack : List Char) :
    openMlvFile files (name.file 0) maxFilesize stack = .opened (name.file t) := by
  rw [openMlvFile, if_neg (by simp only [filenameSize]; omega),
    openLoop_eq hlen ht hbefore hfound rfl (Nat.zero_le _) (bufferOk_zero name stack)]

theorem openMlvFile_eq_failed
    (hall : ∀ i < 100, maxFilesize < fileSize ((files (name.file i)).getD []))
    (stack : List Char) : openMlvFile files (name.file 0) maxFilesize stack = .failed := by
  rw [openMlvFile, if_neg (by simp only [filenameSize]; omega),
    openLoop_eq_none hlen hall rfl (bufferOk_zero name stack)]

end

/-! ### Pictures in a file -/

@[simp] theorem frameNumbers_append (a b : List Block) :
    frameNumbers (a ++ b) = frameNumbers a ++ frameNumbers b :=
  filterMap_append

@[simp] theorem fileSize_nil : fileSize [] = 0 := rfl

theorem appendFrame_nil (hdr : FileHdr) (frameNumber frameSize : ℕ) :
    appendFrame hdr [] frameNumber frameSize = (⟨hdr.fileNum + 1, 1⟩,
      .mlvi (hdr.fileNum + 1) 1 :: [.rtci, .expo, .lens, .vidf frameNumber frameSize]) := rfl

theorem appendFrame_cons (hdr : FileHdr) (k l : ℕ) (rest : List Block) (frameNumber frameSize : ℕ) :
    appendFrame hdr (.mlvi k l :: rest) frameNumber frameSize =
      (⟨hdr.fileNum, hdr.videoFrameCount + 1⟩, .mlvi hdr.fileNum (hdr.videoFrameCount + 1) ::
        (rest ++ [.rtci, .expo, .lens, .vidf frameNumber frameSize])) := by
  have hpos : endPosition (.mlvi k l :: rest) ≠ 0 := by
    rw [endPosition, map_cons, sum_cons, Block.size]
    omega
  simp only [appendFrame, hpos]
  rfl

section

variable {name : SeriesName} {files : Files} {n j frameNumber : ℕ} {content : List Block}

theorem seriesNumbers_succ (name : SeriesName) (files : Files) (n : ℕ) :
    seriesNumbers name files (n + 1) =
      seriesNumbers name files n ++ frameNumbers ((files (name.file n)).getD []) := by
  simp [seriesNumbers, range_succ]

theorem seriesNumbers_of_fresh (hn : n ≤ 100)
    (hfresh : ∀ i, n ≤ i → i < 100 → (files (name.file i)).getD [] = []) :
    seriesNumbers name files 100 = seriesNumbers name files n := by
  obtain ⟨k, hk⟩ := Nat.exists_eq_add_of_le hn
  have hall (l : ℕ) (hl : n + l ≤ 100) :
      seriesNumbers name files (n + l) = seriesNumbers name files n := by
    induction l with
    | zero => rfl
    | succ l ih =>
      rw [← Nat.add_assoc, seriesNumbers_succ, ih (by omega), hfresh (n + l) (by omega) (by omega)]
      exact append_nil _
  rw [hk, hall k (by omega)]

theorem seriesNumbers_update (hj : j < 100)
    (hcontent : frameNumbers content =
      frameNumbers ((files (name.file j)).getD []) ++ [frameNumber]) :
    seriesNumbers name (update files (name.file j) (some content)) (j + 1) =
      seriesNumbers name files (j + 1) ++ [frameNumber] := by
  have hbefore : seriesNumbers name (update files (name.file j) (some content)) j =
      seriesNumbers name files j := by
    refine flatMap_congr fun i hi => ?_
    have hi := mem_range.1 hi
    have hne : name.file i ≠ name.file j := fun heq =>
      hi.ne (SeriesName.file_inj (by omega) hj heq)
    rw [update_of_ne hne]
  rw [seriesNumbers_succ, seriesNumbers_succ, hbefore, update_self, getD_some,
    hcontent, append_assoc]

end

/-! ### A series -/

namespace SilentState

variable {name : SeriesName} {before : Files} {s : SilentState} {call : Call} {n mlvMaxFilesize : ℕ}

/-- The state after at least one picture of the series. -/
structure Inv (name : SeriesName) (before : Files) (s : SilentState) (n : ℕ) : Prop where
  valid : ValidSeries name before s.files n
  pos : 0 < n
  le : n ≤ 100
  fresh : ∀ i, n ≤ i → i < 100 → (s.files (name.file i)).getD [] = []
  image : s.imageFileName = name.file 0
  hdr : s.mlvFileHdr =
    ⟨n - 1, (frameNumbers ((s.files (name.file (n - 1))).getD [])).length⟩

/-- Each file but the last one is larger than the limit. If a picture has been lost, then the last
file is larger too. -/
structure Sizes (limit : ℕ) (name : SeriesName) (s : SilentState) (n : ℕ) : Prop where
  before : ∀ i < n - 1, limit < fileSize ((s.files (name.file i)).getD [])
  counter : s.mlvFileFrameNumber = (seriesNumbers name s.files n).length ∨
    n = 100 ∧ limit < fileSize ((s.files (name.file 99)).getD [])

theorem Inv.sizes (h : Inv name before s n) (hsizes : SizesOk mlvMaxFilesize name s call) :
    Sizes (maxSize mlvMaxFilesize call.frameSize) name s n where
  before i hi := by
    have hle := h.le
    obtain ⟨rest, hrest⟩ := h.valid.headers (i + 1) (by omega)
    exact hsizes.1 i (by omega) (by simp [hrest])
  counter := by
    refine or_iff_not_imp_left.2 fun hlost => ?_
    have hlast := hsizes.2 (by rw [seriesNumbers_of_fresh h.le h.fresh]; exact Ne.symm hlost)
    rcases h.le.eq_or_lt with heq | hlt
    · exact ⟨heq, hlast⟩
    · rw [h.fresh 99 (by omega) (by omega)] at hlast
      exact absurd hlast (Nat.not_lt_zero _)

/-- A picture is appended to file `j`, the last one or the one after it. -/
theorem Inv.append {limit frameNumber j : ℕ} {running : Bool} {rest : List Block}
    (h : Inv name before s n) (hj : j < 100) (hjn : j + 1 = n ∨ j = n)
    (hbefore : ∀ i < j, limit < fileSize ((s.files (name.file i)).getD []))
    (hframe : frameNumber = (seriesNumbers name s.files n).length)
    (hrest : frameNumbers rest = frameNumbers ((s.files (name.file j)).getD []) ++ [frameNumber]) :
    let t : SilentState :=
      { files := update s.files (name.file j)
          (some (.mlvi j (frameNumbers rest).length :: rest))
        mlvFileHdr := ⟨j, (frameNumbers rest).length⟩
        mlvFileFrameNumber := frameNumber + 1
        intervalometerWasRunning := running
        imageFileName := name.file 0 }
    Inv name before t (j + 1) ∧ Sizes limit name t (j + 1) := by
  have hne {i : ℕ} (hi : i < 100) (hij : i ≠ j) : name.file i ≠ name.file j := fun heq =>
    hij (SeriesName.file_inj hi hj heq)
  have hsame : seriesNumbers name s.files (j + 1) = seriesNumbers name s.files n := by
    rcases hjn with rfl | rfl
    · rfl
    · rw [seriesNumbers_succ, h.fresh j le_rfl hj]
      exact append_nil _
  have hnumbers : seriesNumbers name (update s.files (name.file j)
      (some (.mlvi j (frameNumbers rest).length :: rest))) (j + 1) =
      range (frameNumber + 1) := by
    rw [seriesNumbers_update hj (by exact hrest), hsame, h.valid.numbers, range_succ, hframe]
  refine ⟨{
    valid := ⟨fun i hi => ?_, ?_, fun x hx => ?_⟩
    pos := Nat.succ_pos j
    le := hj
    fresh := fun i hle hi => ?_
    image := rfl
    hdr := ?_ }, fun i hi => ?_, .inl ?_⟩
  · rcases Nat.lt_succ_iff_lt_or_eq.1 hi with hi | rfl
    · obtain ⟨rest', hrest'⟩ := h.valid.headers i (by omega)
      exact ⟨rest', (update_of_ne (hne (by omega) (by omega)) ..).trans hrest'⟩
    · exact ⟨rest, update_self ..⟩
  · rw [hnumbers, length_range]
  · exact (update_of_ne (hx j (Nat.lt_succ_self j)) ..).trans
      (h.valid.others x fun i hi => hx i (by omega))
  · change (update s.files (name.file j) _ (name.file i)).getD [] = []
    rw [update_of_ne (hne hi (by omega))]
    exact h.fresh i (by omega) hi
  · simp [frameNumbers]
  · change limit < fileSize ((update s.files (name.file j) _ (name.file i)).getD [])
    rw [update_of_ne (hne (by omega) (by omega))]
    exact hbefore i (by omega)
  · rw [hnumbers, length_range]

/-- A call changes neither the files nor the header before it looks for the file. -/
theorem resetCounter_eq (s : SilentState) (call : Call) :
    (s.resetCounter call).files = s.files ∧ (s.resetCounter call).mlvFileHdr = s.mlvFileHdr ∧
      (s.resetCounter call).imageFileName = s.imageFileName ∧
      ((s.resetCounter call).mlvFileFrameNumber = 0 ∨
        (s.resetCounter call).mlvFileFrameNumber = s.mlvFileFrameNumber) := by
  unfold resetCounter
  cases call.burst with
  | true => exact ⟨rfl, rfl, rfl, .inr rfl⟩
  | false =>
    cases call.intervalCount with
    | none =>
      cases s.intervalometerWasRunning with
      | true => exact ⟨rfl, rfl, rfl, .inl rfl⟩
      | false => exact ⟨rfl, rfl, rfl, .inr rfl⟩
    | some intervalCount => exact ⟨rfl, rfl, rfl, ite_eq_or_eq ..⟩

theorem step_first (hlen : (name.file 0).length ≤ 15)
    (hfresh : ∀ i < 100, (s.files (name.file i)).getD [] = [])
    (hstart : (s.resetCounter call).mlvFileFrameNumber = 0) (hname : call.newName = name.file 0) :
    ∃ t, s.step mlvMaxFilesize call = some t ∧ Inv name s.files t 1 ∧
      Sizes (maxSize mlvMaxFilesize call.frameSize) name t 1 := by
  obtain ⟨hfiles, -, -, -⟩ := resetCounter_eq s call
  have hmain := hfresh 0 (by omega)
  have hopen : openMlvFile s.files (name.file 0) (maxSize mlvMaxFilesize call.frameSize)
      call.stack = .opened (name.file 0) :=
    openMlvFile_eq hlen (by omega) (fun i hi => absurd hi (Nat.not_lt_zero i)) (by simp [hmain])
      call.stack
  have hne {i : ℕ} (hi : i < 100) (hpos : 1 ≤ i) : name.file i ≠ name.file 0 := fun heq =>
    absurd (SeriesName.file_inj hi (by omega) heq) (by omega)
  refine ⟨_, by
    rw [step, saveMlv]
    simp only [hstart, if_true, hname, hfiles, hopen, hmain]
    rfl, {
    valid := ⟨fun i hi => ?_, ?_, fun x hx => ?_⟩
    pos := Nat.one_pos
    le := by omega
    fresh := fun i hle hi => ?_
    image := rfl
    hdr := ?_ }, fun i hi => absurd hi (Nat.not_lt_zero i), .inl ?_⟩
  · obtain rfl : i = 0 := by omega
    exact ⟨[.rawi, .idnt, .wbal, .styl, .rtci, .expo, .lens, .vidf 0 call.frameSize],
      update_self ..⟩
  · simp [seriesNumbers, frameNumbers, appendFrame, endPosition, overwrite, FileHdr.block,
      Block.size]
  · exact update_of_ne (hx 0 Nat.one_pos) ..
  · change (update s.files (name.file 0) _ (name.file i)).getD [] = []
    rw [update_of_ne (hne hi hle)]
    exact hfresh i hi
  · simp [frameNumbers, appendFrame, endPosition, overwrite, FileHdr.block, Block.size]
  · simp [seriesNumbers, frameNumbers, appendFrame, endPosition, overwrite, FileHdr.block,
      Block.size]

/-- A further picture, if there is a file for it. -/
theorem step_of_opened {file : List Char} (hcontinues : s.Continues call)
    (hopen : openMlvFile s.files s.imageFileName (maxSize mlvMaxFilesize call.frameSize)
      call.stack = .opened file) :
    s.step mlvMaxFilesize call = some
      { files := update s.files file (some (appendFrame s.mlvFileHdr
          ((s.files file).getD []) s.mlvFileFrameNumber call.frameSize).2)
        mlvFileHdr := (appendFrame s.mlvFileHdr ((s.files file).getD []) s.mlvFileFrameNumber
          call.frameSize).1
        mlvFileFrameNumber := s.mlvFileFrameNumber + 1
        intervalometerWasRunning := (s.resetCounter call).intervalometerWasRunning
        imageFileName := s.imageFileName } := by
  obtain ⟨hfiles, hhdr, himage, hcounter⟩ := resetCounter_eq s call
  have hcounter := hcounter.resolve_left hcontinues
  have hne : s.mlvFileFrameNumber ≠ 0 := hcounter ▸ hcontinues
  rw [step, saveMlv]
  simp only [hcounter, if_neg hne, himage, hfiles, hhdr, hopen]
  rfl

/-- **A further picture of a series.** -/
theorem Inv.step (h : Inv name before s n) (hlen : (name.file 0).length ≤ 15)
    (hcontinues : s.Continues call)
    (hsizes : Sizes (maxSize mlvMaxFilesize call.frameSize) name s n) :
    ∃ t m, s.step mlvMaxFilesize call = some t ∧ Inv name before t m ∧
      Sizes (maxSize mlvMaxFilesize call.frameSize) name t m := by
  obtain ⟨hfiles, hhdr, himage, hcounter⟩ := resetCounter_eq s call
  have hcounter := hcounter.resolve_left hcontinues
  have hne : s.mlvFileFrameNumber ≠ 0 := hcounter ▸ hcontinues
  have hpos := h.pos
  have hle := h.le
  by_cases hfull : n = 100 ∧
      maxSize mlvMaxFilesize call.frameSize < fileSize ((s.files (name.file 99)).getD [])
  · -- There is no file for the picture.
    obtain ⟨rfl, hlast⟩ := hfull
    have hopen := openMlvFile_eq_failed hlen (fun i hi => by
      rcases Nat.lt_succ_iff_lt_or_eq.1 hi with hi | rfl
      · exact hsizes.before i hi
      · exact hlast) call.stack
    refine ⟨_, 100, by
      rw [SilentState.step, saveMlv]
      simp only [hcounter, if_neg hne, himage, h.image, hfiles, hopen]
      rfl, ?_⟩
    exact ⟨{ h with
      image := rfl
      hdr := by
        rw [hhdr, h.hdr] }, hsizes.before, .inr ⟨rfl, hlast⟩⟩
  · -- No picture has been lost so far.
    have hframe := hsizes.counter.resolve_right hfull
    have hnumbers (rest : List Block) : frameNumbers (rest ++ [.rtci, .expo, .lens,
        .vidf s.mlvFileFrameNumber call.frameSize]) = frameNumbers rest ++ [s.mlvFileFrameNumber] :=
      frameNumbers_append ..
    by_cases hlast : fileSize ((s.files (name.file (n - 1))).getD []) ≤
        maxSize mlvMaxFilesize call.frameSize
    · -- The picture is appended to the last file.
      obtain ⟨rest, hrest⟩ := h.valid.headers (n - 1) (by omega)
      have hopen := openMlvFile_eq hlen (by omega) hsizes.before hlast call.stack
      have hold : frameNumbers ((s.files (name.file (n - 1))).getD []) = frameNumbers rest := by
        rw [hrest]
        rfl
      refine ⟨_, n - 1 + 1, step_of_opened hcontinues (h.image ▸ hopen), ?_⟩
      rw [hrest, getD_some, appendFrame_cons, h.hdr, hold, h.image]
      have hlength := congrArg length (hnumbers rest)
      rw [length_append, length_singleton] at hlength
      simp only [← hlength]
      exact h.append (by omega) (.inl (by omega)) hsizes.before hframe (by rw [hnumbers, hold])
    · -- A new file is created.
      have hlt : n < 100 := by
        refine lt_of_le_of_ne hle fun heq => hfull ⟨heq, ?_⟩
        rw [heq] at hlast
        exact not_le.1 hlast
      have hnew := h.fresh n le_rfl hlt
      have hbefore (i : ℕ) (hi : i < n) :
          maxSize mlvMaxFilesize call.frameSize < fileSize ((s.files (name.file i)).getD []) := by
        rcases Nat.lt_or_ge i (n - 1) with hi' | hi'
        · exact hsizes.before i hi'
        · obtain rfl : i = n - 1 := by omega
          exact not_le.1 hlast
      have hopen := openMlvFile_eq (t := n) hlen hlt hbefore (by rw [hnew]; exact Nat.zero_le _)
        call.stack
      refine ⟨_, n + 1, step_of_opened hcontinues (h.image ▸ hopen), ?_⟩
      rw [hnew, appendFrame_nil, h.hdr, h.image]
      simp only [Nat.sub_add_cancel hpos]
      have hrest : frameNumbers [.rtci, .expo, .lens, .vidf s.mlvFileFrameNumber call.frameSize] =
          frameNumbers ((s.files (name.file n)).getD []) ++ [s.mlvFileFrameNumber] := by
        rw [hnew]
        rfl
      exact h.append hlt (.inr rfl) hbefore hframe hrest

end SilentState

/-- **Silent pictures in MLV files.** Let the name of the main file fit into the buffer, and let
there be no files of the series before. Then the first picture is saved, and whenever the following
calls belong to the same series and find the earlier files larger than the limit, they are saved to
a valid series of files. -/
theorem series_valid (mlvMaxFilesize : ℕ) (name : SeriesName) (s₀ : SilentState) (first : Call)
    (hfits : (name.file 0).length < filenameSize)
    (hfresh : ∀ i < 100, (s₀.files (name.file i)).getD [] = [])
    (hstart : (s₀.resetCounter first).mlvFileFrameNumber = 0)
    (hname : first.newName = name.file 0) :
    ∃ s₁, s₀.step mlvMaxFilesize first = some s₁ ∧ ∀ calls,
      Runs.Meets (SilentState.step mlvMaxFilesize)
        (fun s call => s.Continues call ∧ SilentState.SizesOk mlvMaxFilesize name s call) s₁ calls →
      ∃ s, calls.foldlM (SilentState.step mlvMaxFilesize) s₁ = some s ∧
        ∃ n, 0 < n ∧ n ≤ 100 ∧ ValidSeries name s₀.files s.files n := by
  have hlen : (name.file 0).length ≤ 15 := Nat.le_of_lt_succ hfits
  obtain ⟨s₁, hfirst, hinv⟩ := SilentState.step_first hlen hfresh hstart hname
  refine ⟨s₁, hfirst, fun calls hmeets => ?_⟩
  obtain ⟨s, hrun, n, hinv⟩ := Runs.exists_of_meets
    (I := fun s => ∃ n, SilentState.Inv name s₀.files s n) (fun s call ⟨n, hinv⟩ hcall => by
      obtain ⟨t, m, ht, hinv, -⟩ := hinv.step hlen hcall.1 (hinv.sizes hcall.2)
      exact ⟨t, ht, m, hinv⟩) hmeets ⟨1, hinv.1⟩
  exact ⟨s, hrun, n, hinv.pos, hinv.le, hinv.valid⟩

/-- **Pictures of one size.** They need no condition on the sizes of the files. -/
theorem series_of_frameSize (mlvMaxFilesize : ℕ) (name : SeriesName) (s₀ : SilentState)
    (first : Call) (hfits : (name.file 0).length < filenameSize)
    (hfresh : ∀ i < 100, (s₀.files (name.file i)).getD [] = [])
    (hstart : (s₀.resetCounter first).mlvFileFrameNumber = 0)
    (hname : first.newName = name.file 0) :
    ∃ s₁, s₀.step mlvMaxFilesize first = some s₁ ∧ ∀ calls,
      Runs.Meets (SilentState.step mlvMaxFilesize)
        (fun s call => s.Continues call ∧ call.frameSize = first.frameSize) s₁ calls →
      ∃ s, calls.foldlM (SilentState.step mlvMaxFilesize) s₁ = some s ∧
        ∃ n, 0 < n ∧ n ≤ 100 ∧ ValidSeries name s₀.files s.files n := by
  have hlen : (name.file 0).length ≤ 15 := Nat.le_of_lt_succ hfits
  obtain ⟨s₁, hfirst, hinv⟩ := SilentState.step_first hlen hfresh hstart hname
  refine ⟨s₁, hfirst, fun calls hmeets => ?_⟩
  obtain ⟨s, hrun, n, hinv, -⟩ := Runs.exists_of_meets
    (I := fun s => ∃ n, SilentState.Inv name s₀.files s n ∧
      SilentState.Sizes (maxSize mlvMaxFilesize first.frameSize) name s n)
    (fun s call ⟨n, hinv, hsizes⟩ ⟨hcontinues, hsize⟩ => by
      rw [← hsize] at hsizes ⊢
      obtain ⟨t, m, ht, hinv⟩ := hinv.step hlen hcontinues hsizes
      exact ⟨t, ht, m, hinv⟩) hmeets ⟨1, hinv⟩
  exact ⟨s, hrun, n, hinv.pos, hinv.le, hinv.valid⟩

/-- The state before the first picture, with an empty card. -/
def emptyCard : SilentState where
  files _ := none
  mlvFileHdr := ⟨0, 0⟩
  mlvFileFrameNumber := 0
  intervalometerWasRunning := false
  imageFileName := []

/-- A picture of a burst. -/
def burstCall (name : SeriesName) (frameSize : ℕ) : Call where
  burst := true
  intervalCount := none
  newName := name.file 0
  frameSize
  stack := []

/-- The name `A:/12345678.MLV`. -/
def shortName : SeriesName := ⟨['A', ':', '/', '1', '2', '3', '4', '5', '6', '7', '8'], by decide⟩

/-- Four pictures, with a limit that is reached after two of them. -/
theorem series_valid_two :
    ∃ s₁, emptyCard.step 1000 (burstCall shortName 100) = some s₁ ∧
      ∃ s, (List.replicate 3 (burstCall shortName 100)).foldlM (SilentState.step 1000) s₁ = some s ∧
        ∃ n, 0 < n ∧ n ≤ 100 ∧ ValidSeries shortName emptyCard.files s.files n := by
  obtain ⟨s₁, hfirst, hrun⟩ := series_valid 1000 shortName emptyCard (burstCall shortName 100)
    (by decide) (fun _ _ => rfl) rfl rfl
  refine ⟨s₁, hfirst, hrun _ ?_⟩
  obtain rfl := some.inj
    ((show emptyCard.step 1000 (burstCall shortName 100) = some _ from rfl).symm.trans hfirst)
  decide +kernel

/-- The name `A:/DCIM/100CANON/12340000.MLV`. -/
def cameraName : SeriesName :=
  ⟨['A', ':', '/', 'D', 'C', 'I', 'M', '/', '1', '0', '0', 'C', 'A', 'N', 'O', 'N', '/',
    '1', '2', '3', '4', '0', '0', '0', '0'], by decide⟩

/-- A name as `silent_pic_get_name` makes it does not fit into the buffer. -/
theorem series_overflow :
    openMlvFile emptyCard.files (cameraName.file 0) (maxSize 0xFFFFFFFF 100) [] = .overflow ∧
      emptyCard.step 0xFFFFFFFF (burstCall cameraName 100) = none := by
  exact ⟨rfl, rfl⟩

end MagicLantern.Silent

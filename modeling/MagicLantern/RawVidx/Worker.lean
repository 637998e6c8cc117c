import Mathlib.Tactic
import MagicLantern.Memory.Address

/-!
# The worker of raw_vidx

The worker task takes events from a queue, one after the other. At a start command it gets two crop
buffers, creates a file, begins an MLV session and writes the file headers. Each image is put into
the current crop buffer behind the header of a VIDF block, and copied there by EDMAC. When a buffer
is full the buffers are swapped and a task (`raw_write`) writes the full one to the file. At a stop
command the buffers are freed, the headers are written again with the final number of frames, and
the file is closed.

The answers of the memory manager and of the file system are data. All file writes succeed.
The contents of a buffer and of a file are lists of blocks. A frame counter that reaches `2 ^ 32`
is not modelled.

Source: `src/modules/raw_video/raw_vidx/worker.c`, `raw_vid.h`, `raw_vid_worker.h`; `mlv_3.c`;
`src/src/mem.h`; `src/src/edmac-memcpy.h`.
-/

namespace MagicLantern.RawVidx

scoped instance neZeroTwo : NeZero 2 := ⟨two_ne_zero⟩

/-- `enum event_type`. -/
inductive EventType
  | empty
  | preparing
  | commandStart
  | commandStop
  | imageData
  deriving DecidableEq

/-- `struct raw_vid_event`, the fields the worker reads. -/
structure Event where
  type : EventType
  src : Option ℕ
  w : ℕ
  h : ℕ
  size : ℕ

/-- `enum recording_state`. -/
inductive RecordingState
  | error
  | inactive
  | active
  deriving DecidableEq

/-! ### The MLV library -/

/-- A VIDF block, by its number. -/
structure Vidf where
  frameNumber : ℕ
  deriving DecidableEq

/-- A file: the size of its headers, the number of frames in them, and the blocks that follow. -/
structure MlvFile where
  headerSize : ℕ
  videoFrameCount : ℕ
  blocks : List Vidf
  deriving DecidableEq

/-- `session_in_progress` and `session_frame_number`. -/
structure Session where
  inProgress : Bool
  frameNumber : ℕ

/-- `sizeof(mlv_file_block)`. -/
def fileBlockSize : ℕ := 0x34

/-- The sizes of the blocks MLVI, RAWI, RAWC, IDNT, EXPO, LENS, RTCI and WBAL. -/
def headerBlockSizes : List ℕ :=
  [fileBlockSize, 0xb4, 0x20, 0x54, 0x28, 0x60, 0x2c, 0x2c]

/-- `write_file_headers`, into a buffer of the given size. -/
def writeFileHeaders (bufSize : ℕ) : ℕ :=
  if bufSize < headerBlockSizes.sum then 0 else headerBlockSizes.sum

/-- `EDMAC_ALIGNMENT`, the alignment of images. -/
def imageDataAlignment : ℕ := 0x80

/-- `ALIGN_UP` in 32 bits, for a power of two. -/
def alignUp (x a : ℕ) : ℕ :=
  (x + (a - 1)) % 2 ^ 32 / a * a

/-- Where an image goes in a buffer with room from `start` to `stop`, and the header that
`write_video_frame_header` puts before it. -/
def writeVideoFrameHeader (session : Session) (imageSize start stop : ℕ) : Option (ℕ × Vidf) :=
  if start = 0 ∨ stop = 0 then none
  else
    let imageStart := alignUp ((start + 0x20) % 2 ^ 32) imageDataAlignment
    let imageEnd := (imageStart + imageSize) % 2 ^ 32
    if imageStart < start ∨ imageEnd < start then none
    else if imageEnd > stop then none
    else some (imageStart, ⟨session.frameNumber⟩)

/-! ### Crop buffers -/

/-- `struct crop_buf`, with the blocks from `start` to `cur`. Null pointers are `0`. -/
structure CropBuf where
  buf : Option ℕ
  start : ℕ
  cur : ℕ
  stop : ℕ
  blocks : List Vidf

/-- A buffer that is not allocated. -/
def CropBuf.null : CropBuf := ⟨none, 0, 0, 0, []⟩

/-- `CROP_BUF_ALIGN`. -/
def cropBufAlign : ℕ := 0x1000

/-- The buffer that begins at the first aligned address of a block of `bufSize` bytes. -/
def CropBuf.ofBlock (p bufSize : ℕ) : CropBuf :=
  let start := Memory.uncacheable
    (if p % cropBufAlign ≠ 0 then p + (cropBufAlign - p % cropBufAlign) else p)
  ⟨some p, start, start, start + bufSize, []⟩

/-- The sizes that are tried, from 16 MiB down to 4 MiB. -/
def cropBufSizes : List ℕ :=
  (List.range 13).map fun k => 16 * 1024 * 1024 + cropBufAlign - k * (1024 * 1024)

/-- The two buffers, if there is memory for both of them; `malloc` has the answers of `fio_malloc`.
-/
def allocPair (malloc : ℕ → Option ℕ × Option ℕ) (bufSize : ℕ) : Option (CropBuf × CropBuf) :=
  match malloc bufSize with
  | (some p, some q) => some (.ofBlock p bufSize, .ofBlock q bufSize)
  | _ => none

/-- `alloc_crop_bufs`. -/
def allocCropBufs (cropBufs : Fin 2 → CropBuf) (malloc : ℕ → Option ℕ × Option ℕ) :
    Fin 2 → CropBuf :=
  if (cropBufs 0).buf ≠ none ∨ (cropBufs 1).buf ≠ none then cropBufs
  else
    match cropBufSizes.findSome? (allocPair malloc) with
    | some (c, d) => fun b => if b = 0 then c else d
    | none => cropBufs

/-! ### The worker -/

/-- A `raw_write` task for one of the buffers. -/
inductive RawWrite
  /-- The task has been created. -/
  | created (b : Fin 2)
  /-- The buffer has been written, and is not yet reset. -/
  | written (b : Fin 2)
  deriving DecidableEq

/-- The variables of the worker and of the session, the `raw_write` tasks, and the files that have
been closed. -/
structure Worker where
  recordingState : RecordingState
  rawVidFp : Option MlvFile
  cropBufs : Fin 2 → CropBuf
  /-- `crop_buf`: which buffer is in use. -/
  cropBuf : Option (Fin 2)
  videoFrameCount : ℕ
  headerSize : ℕ
  session : Session
  /-- `edmac_sem` can be taken. -/
  edmacFree : Bool
  writes : List RawWrite
  files : List MlvFile

namespace Worker

variable (k : Worker)

/-- The header of an image of the given size goes into a buffer. -/
def headerFor (b : Fin 2) (size : ℕ) : Option (ℕ × Vidf) :=
  writeVideoFrameHeader k.session size (k.cropBufs b).cur (k.cropBufs b).stop

/-- A block has been put into a buffer, its image at `dst`. -/
def appendFrame (b : Fin 2) (size : ℕ) (hdr : ℕ × Vidf) : Worker :=
  { k with
    cropBufs := Function.update k.cropBufs b
      { k.cropBufs b with cur := hdr.1 + size, blocks := (k.cropBufs b).blocks ++ [hdr.2] }
    videoFrameCount := k.videoFrameCount + 1
    session := { k.session with frameNumber := k.session.frameNumber + 1 } }

/-- EDMAC copies the image, and a full buffer `flushSrc` is written. Nothing of this is done if
EDMAC is busy. -/
def copyFrame (flushSrc : Option (Fin 2)) : Worker :=
  if k.edmacFree then
    { k with edmacFree := false, writes := k.writes ++ (flushSrc.map RawWrite.created).toList }
  else k

/-- An image for the buffer `b`, which is full if there is no room for the header. -/
def imageInto (b : Fin 2) (size : ℕ) : Worker :=
  match k.headerFor b size with
  | some hdr => (k.appendFrame b size hdr).copyFrame none
  | none =>
    if (k.cropBufs (b + 1)).cur ≠ (k.cropBufs (b + 1)).start then { k with cropBuf := none }
    else
      match k.headerFor (b + 1) size with
      | none => { k with cropBuf := some (b + 1) }
      | some hdr =>
        ({ k with cropBuf := some (b + 1) }.appendFrame (b + 1) size hdr).copyFrame (some b)

/-- `IMAGE_DATA`. -/
def imageData (event : Event) : Worker :=
  if k.recordingState ≠ .active ∨ event.src = none ∨ k.rawVidFp = none then k
  else
    match k.cropBuf with
    | none => k
    | some b =>
      if event.size > (k.cropBufs b).stop - (k.cropBufs b).start then k
      else k.imageInto b event.size

/-- The last part of `COMMAND_START`: a session is started, and the headers are written. -/
def startSession : Worker :=
  if k.session.inProgress then k
  else
    let headerSize := writeFileHeaders 1024
    if headerSize = 0 then { k with session := ⟨true, 0⟩, headerSize }
    else
      { k with
        session := ⟨true, 0⟩
        headerSize
        rawVidFp := some ⟨headerSize, 0, []⟩
        recordingState := .active }

/-- `COMMAND_START`. With `create` a file can be created. -/
def commandStart (event : Event) (malloc : ℕ → Option ℕ × Option ℕ) (create : Bool) : Worker :=
  if event.w = 0 ∨ event.h = 0 ∨ k.recordingState ≠ .inactive ∨ k.cropBuf ≠ none then k
  else
    let k := { k with cropBufs := allocCropBufs k.cropBufs malloc }
    if (k.cropBufs 0).start = 0 ∨ (k.cropBufs 1).start = 0 then k
    else if k.rawVidFp ≠ none ∨ create = false then { k with cropBuf := some 0 }
    else { k with cropBuf := some 0, rawVidFp := some ⟨0, 0, []⟩ }.startSession

/-- `COMMAND_STOP`. What is left in the buffers is not written. -/
def commandStop : Worker :=
  if k.recordingState ≠ .active then k
  else
    let k := { k with
      cropBuf := none
      cropBufs := fun b => if (k.cropBufs b).buf ≠ none then .null else k.cropBufs b }
    match k.rawVidFp with
    | none =>
      { k with session := { k.session with inProgress := false }, recordingState := .inactive }
    | some file =>
      -- `update_video_frame_count` fails if there are no headers.
      if k.headerSize < fileBlockSize then k
      else
        { k with
          rawVidFp := none
          files := k.files ++
            [{ file with headerSize := k.headerSize, videoFrameCount := k.videoFrameCount }]
          session := { k.session with inProgress := false }
          recordingState := .inactive }

/-- What the environment answers while an event is handled. -/
structure Answers where
  malloc : ℕ → Option ℕ × Option ℕ
  create : Bool
  /-- The memory is RAM, which is below 2 GiB, its uncacheable alias included. -/
  inRam : ∀ bufSize ∈ cropBufSizes,
    (∀ p ∈ (malloc bufSize).1, p + cropBufAlign + bufSize ≤ 0x80000000) ∧
      ∀ p ∈ (malloc bufSize).2, p + cropBufAlign + bufSize ≤ 0x80000000

/-- The worker handles an event. -/
def handle (event : Event) (answers : Answers) : Worker :=
  match event.type with
  | .imageData => k.imageData event
  | .commandStart => k.commandStart event answers.malloc answers.create
  | .commandStop => k.commandStop
  | .empty => k
  | .preparing => k

/-- `edmac_cbr_w`. -/
def edmacDone : Worker :=
  { k with edmacFree := true }

/-- The first part of `write_buf_to_disk`: the buffer is written, if there are a buffer and a file.
-/
def writeBegin (b : Fin 2) : Option Worker :=
  if .created b ∈ k.writes then
    let c := k.cropBufs b
    match k.rawVidFp with
    | none => some { k with writes := k.writes.erase (.created b) }
    | some file =>
      if c.buf = none ∨ c.start = 0 ∨ c.cur = 0 ∨ c.stop = 0 then
        some { k with writes := k.writes.erase (.created b) }
      else
        some { k with
          rawVidFp := some { file with blocks := file.blocks ++ c.blocks }
          writes := .written b :: k.writes.erase (.created b) }
  else none

/-- The rest of `write_buf_to_disk`: the buffer can be used again. -/
def writeEnd (b : Fin 2) : Option Worker :=
  if .written b ∈ k.writes then
    some { k with
      cropBufs := Function.update k.cropBufs b
        { k.cropBufs b with cur := (k.cropBufs b).start, blocks := [] }
      writes := k.writes.erase (.written b) }
  else none

/-- The worker after the module has been loaded. -/
def init : Worker where
  recordingState := .inactive
  rawVidFp := none
  cropBufs := fun _ => .null
  cropBuf := none
  videoFrameCount := 0
  headerSize := 0
  session := ⟨false, 0⟩
  edmacFree := true
  writes := []
  files := []

end Worker

end MagicLantern.RawVidx

import MagicLantern.Library.RingQueue
import MagicLantern.MlvLite.SlotSafety

/-!
# The recorder of mlv_lite

The LiveView task captures a frame at each vsync (`process_frame`) and appends its slot to a ring,
the writing queue, before the frame is complete. The recording tasks, one for each card, take
groups of complete frames that follow each other in memory from the ring, write them and free their
slots. During pre-recording, captured frames are held back; they are queued all at once when the
recording is triggered, and the oldest one is discarded whenever there are too many.

A loop iteration of a recording task is two steps, `pick` and `complete`: the selection of a group,
and what comes after that, the write and the freeing of the slots. The answers of the file system
are data of the steps. After a write error the recording is aborted; here such a step is not
enabled (see `StopOp` for a full card).

Source: `src/modules/raw_video/mlv_lite/mlv_lite.c`.

## Main definitions

* `Recorder`, `RecOp.step` — the state of the tasks and their steps.
-/

namespace MagicLantern.MlvLite

open RingQueue

/-! ### Files -/

/-- What a recording task knows of the file it is writing, and the blocks in its files. The headers
at the start of a file are not among the blocks. -/
structure CardFile where
  chunkFrameCount : ℤ
  writtenChunk : ℕ
  /-- The blocks in the current chunk. -/
  chunk : List MlvHdr
  /-- The closed chunks, each with the `videoFrameCount` in its header. -/
  finished : List (ℤ × List MlvHdr)

/-- The blocks of all chunks. -/
def CardFile.blocks (file : CardFile) : List MlvHdr := file.finished.flatMap Prod.snd ++ file.chunk

/-- `finish_chunk`. -/
def CardFile.finishChunk (file : CardFile) : CardFile :=
  { file with
    finished := file.finished ++ [(file.chunkFrameCount, file.chunk)]
    chunk := []
    chunkFrameCount := 0 }

/-- The chunk is closed and another one opened, with headers of the given size. -/
def CardFile.nextChunk (file : CardFile) (headers : ℕ) : CardFile :=
  { file.finishChunk with writtenChunk := headers }

/-- Blocks of `size` bytes are appended, with `numFrames` frames. -/
def CardFile.append (file : CardFile) (blocks : List MlvHdr) (size : ℕ) (numFrames : ℤ) :
    CardFile :=
  { file with
    chunk := file.chunk ++ blocks
    writtenChunk := file.writtenChunk + size
    chunkFrameCount := file.chunkFrameCount + numFrames }

/-- The `NULL` block that covers an incomplete group at the end of a file. -/
def nulHdr : MlvHdr := ⟨false, 0, 0⟩

/-- An incomplete group is covered if anything was written up to the position `pos`. -/
def CardFile.cover (file : CardFile) (pos : ℕ) : CardFile :=
  if pos > file.writtenChunk + 1 then { file with chunk := file.chunk ++ [nulHdr] } else file

/-- The answers of the file system to a call of `write_frames`. -/
structure Disk where
  /-- The size of the headers of a chunk opened before the group is written, `0` on failure. -/
  headers : ℕ
  /-- The group has been written. -/
  written : Bool
  /-- The position in the file after a write that has failed. -/
  pos : ℕ
  /-- The size of the headers of a chunk opened after a write that has failed, `0` on failure. -/
  newHeaders : ℕ
  /-- The group has been written to that chunk. -/
  newWritten : Bool

/-- A new chunk is opened if it is known that the file would get too large. -/
def CardFile.splitBefore (file : CardFile) (fileSizeLimit : Bool) (disk : Disk) (groupSize : ℕ) :
    Option CardFile :=
  if fileSizeLimit = true ∧ file.writtenChunk + groupSize > 0xFFFFFFFF then
    if disk.headers = 0 then none else some (file.nextChunk disk.headers)
  else some file

/-- `write_frames`, with `file_size_limit`; `none` when it returns `0`. -/
def writeFrames (file : CardFile) (fileSizeLimit : Bool) (disk : Disk) (blocks : List MlvHdr)
    (groupSize : ℕ) (numFrames : ℤ) : Option (CardFile × Bool) :=
  (file.splitBefore fileSizeLimit disk groupSize).bind fun file =>
    if disk.written then some (file.append blocks groupSize numFrames, fileSizeLimit)
    -- A write that fails below the limit means that the card is full.
    else if file.writtenChunk + groupSize < 0xFFFFFFFF then none
    else if disk.newHeaders = 0 ∨ disk.newWritten = false then none
    else some (((file.cover disk.pos).nextChunk disk.newHeaders).append blocks groupSize numFrames,
      true)

/-! ### The state -/

/-- The settings that do not change during a recording. -/
structure Settings where
  maxFrameSize : ℕ
  preRecordNumFrames : ℤ
  /-- `rec_trigger` is `REC_TRIGGER_HALFSHUTTER_PRE_ONLY`. -/
  preOnly : Bool

/-- The recording tasks, by `card_index`. -/
abbrev Card := Fin 2

scoped instance neZeroTwo : NeZero 2 := ⟨two_ne_zero⟩

/-- `COUNT(writing_queue)`. -/
def queueSize : ℕ := maxSlots + 1

theorem queueSize_pos : 0 < queueSize := Nat.succ_pos _

/-- A group of frames that a recording task has taken from the queue. -/
structure Group where
  card : Card
  wHead : ℕ
  afterLastGrouped : ℕ
  /-- The addresses of the blocks in the memory that is written. -/
  blocks : List ℕ
  groupSize : ℕ
  /-- `num_frames - meta_slots`. -/
  numFrames : ℤ

/-- The state of a recording. -/
structure Recorder where
  /-- The slots, `capture_slot`, `force_new_buffer` and the state of the compression task. -/
  buf : Buffers
  writingQueue : ℕ → ℕ
  /-- `writing_queue_head`. -/
  head : ℕ
  /-- `writing_queue_tail`. -/
  tail : ℕ
  frameCount : ℤ
  /-- `raw_recording_state` is `RAW_PRE_RECORDING`; otherwise it is `RAW_RECORDING`. -/
  preRecording : Bool
  triggered : Bool
  /-- `pre_record_first_frame`. -/
  firstFrame : ℤ
  bufferFull : Bool
  skipFrames : ℕ
  skippedFrames : ℕ
  edmacActive : Bool
  fileSizeLimit : Bool
  /-- The groups that are being written, in the order in which they were picked. -/
  groups : List Group
  file : Card → CardFile

namespace Recorder

/-- The slots. -/
abbrev slots (r : Recorder) : List FrameSlot := r.buf.table.slots

/-- The recorder with another slot table. -/
def setTable (r : Recorder) (t : SlotTable) : Recorder :=
    { r with buf := { r.buf with table := t } }

/-- A slot is appended to the writing queue. -/
def push (r : Recorder) (slot : ℕ) : Recorder :=
  { r with
    writingQueue := Function.update r.writingQueue r.tail slot
    tail := advance queueSize r.tail 1 }

/-- The slots in the writing queue. -/
def waiting (r : Recorder) : List ℕ := slice queueSize r.writingQueue r.head r.tail

end Recorder

/-! ### Pre-recording -/

/-- The part of `pre_record_discard_frame` for slot `i`, on the table and `frame_count`. -/
def discardAt (maxFrameSize : ℕ) (firstFrame : ℤ) (t : SlotTable × ℤ) (i : ℕ) : SlotTable × ℤ :=
  match t.1.slots[i]? with
  | none => t
  | some s =>
    if s.status = .full then
      if s.frameNumber = firstFrame then (freeSlot maxFrameSize t.1 i, t.2 - 1)
      else if s.frameNumber > firstFrame then
        ((t.1.modify i fun s => { s with frameNumber := s.frameNumber - 1 }).setHdr i
          { t.1.hdr s.ptr with frameNumber := s.frameNumber - 1 - 1 }, t.2)
      else t
    else t

/-- `pre_record_discard_frame`. -/
def preRecordDiscardFrame (S : Settings) (r : Recorder) : Recorder :=
  let t := (List.range r.slots.length).foldl (discardAt S.maxFrameSize r.firstFrame)
    (r.buf.table, r.frameCount)
  { r.setTable t.1 with frameCount := t.2 }

/-- The inner loop of `pre_record_queue_frames`, from slot `i` on. The loop comes back to its first
slot after `total_slot_count` steps, so that it is endless (`none`) when that many steps are not
enough. -/
def findFrame (slots : List FrameSlot) (currentFrame : ℤ) : (fuel : ℕ) → (i : ℕ) → Option ℕ
  | 0, _ => none
  | fuel + 1, i =>
    match slots[i]? with
    | none => none
    | some s =>
      if s.status ≠ .full ∨ s.frameNumber ≠ currentFrame then
        findFrame slots currentFrame fuel (advance slots.length i 1)
      else some i

/-- The slots of `n` frames from `currentFrame` on, searched from slot `i` on. -/
def findFrames (slots : List FrameSlot) : (n : ℕ) → (currentFrame : ℤ) → (i : ℕ) → Option (List ℕ)
  | 0, _, _ => some []
  | n + 1, currentFrame, i => do
    let j ← findFrame slots currentFrame slots.length i
    let js ← findFrames slots n (currentFrame + 1) (advance slots.length j 1)
    some (j :: js)

/-- `pre_record_queue_frames`; `none` when it does not return. -/
def preRecordQueueFrames (r : Recorder) : Option Recorder :=
  (findFrames r.slots (r.frameCount - r.firstFrame).toNat r.firstFrame 0).map
    fun js => js.foldl Recorder.push r

/-- `pre_record_discard_frame_if_no_free_slots`. -/
def preRecordDiscardFrameIfNoFreeSlots (S : Settings) (r : Recorder) : Recorder :=
  if r.slots.any (·.status == .free) then r else preRecordDiscardFrame S r

/-- The first part of `pre_record_vsync_step`: the recording goes back to pre-recording when it is
not triggered any more, and the first frame of a pre-recording is noted. -/
def Recorder.enterPreRecording (r : Recorder) : Recorder :=
  let r :=
    if r.preRecording = false ∧ r.triggered = false then
      { r with firstFrame := r.frameCount, preRecording := true }
    else r
  if r.preRecording = true ∧ r.firstFrame = 0 then { r with firstFrame := r.frameCount } else r

/-- `pre_record_vsync_step`; `none` when it does not return. -/
def preRecordVsyncStep (S : Settings) (r : Recorder) : Option Recorder :=
  let r := r.enterPreRecording
  if r.preRecording then
    if r.triggered then
      (preRecordQueueFrames (preRecordDiscardFrameIfNoFreeSlots S r)).map fun r =>
        if S.preOnly then { r with triggered := false, firstFrame := r.frameCount }
        else { r with preRecording := false }
    else if r.frameCount - r.firstFrame ≥ S.preRecordNumFrames then
      some (preRecordDiscardFrame S r)
    else some r
  else some r

/-! ### Capturing -/

/-- `capture_slot = choose_next_capture_slot()`. -/
def chooseCaptureSlot (r : Recorder) : Recorder :=
  { r with buf := { r.buf with
      captureSlot := chooseNextCaptureSlot r.slots r.buf.captureSlot r.buf.forceNewBuffer
      forceNewBuffer := false } }

/-- The loop of `process_frame` that discards frames until there is a slot. A call of
`pre_record_discard_frame` that finds no frame to discard changes nothing, and at most all slots
have such frames, so that the loop is endless (`none`) when more steps than that are not enough. -/
def discardUntilFree (S : Settings) : (fuel : ℕ) → Recorder → Option Recorder
  | 0, _ => none
  | fuel + 1, r =>
    let r := chooseCaptureSlot (preRecordDiscardFrame S r)
    let r := { r with skippedFrames := r.skippedFrames + 1 }
    if r.buf.captureSlot = none then discardUntilFree S fuel r else some r

/-- The part of `process_frame` for a slot `c` that has been chosen. -/
def captureFrame (S : Settings) (r : Recorder) (c : ℕ) : Recorder :=
  let mark (s : FrameSlot) := { s with frameNumber := r.frameCount, status := .capturing }
  let r' := if r.preRecording then r else r.push c
  { r' with
    buf := { r.buf with
      table := (r.buf.table.modify c mark).setHdr c ⟨true, S.maxFrameSize, r.frameCount - 1⟩
      compressMq := r.buf.compressMq ++ [c] }
    frameCount := r.frameCount + 1 }

/-- Where `process_frame` saves the next frame; during pre-recording, frames are discarded for it as
needed. -/
def nextCaptureSlot (S : Settings) (r : Recorder) : Option Recorder :=
  let r := chooseCaptureSlot r
  if r.buf.captureSlot = none ∧ r.preRecording = true then
    discardUntilFree S (r.slots.length + 1) r
  else some r

/-- The end of `process_frame`. -/
def saveFrame (S : Settings) (r : Recorder) : Recorder :=
  match r.buf.captureSlot with
  | some c => captureFrame S r c
  | none => { r with bufferFull := true }

/-- `process_frame`; `none` when it does not return. -/
def processFrame (S : Settings) (r : Recorder) : Option Recorder :=
  if r.frameCount ≤ 0 then some { r with frameCount := r.frameCount + 1 }
  else if r.skipFrames > 0 then some { r with skipFrames := r.skipFrames - 1 }
  else if r.edmacActive then some { r with bufferFull := true }
  else ((preRecordVsyncStep S r).bind (nextCaptureSlot S)).map (saveFrame S)

/-! ### Writing -/

/-- The number of slots grouped so far, their size and the number of meta slots seen. -/
structure Scan where
  /-- `last_grouped - w_head + 1`. -/
  count : ℕ
  groupSize : ℕ
  metaSlots : ℕ
deriving DecidableEq, Repr

/-- The loop that groups the slots of the queue that follow each other in memory from `ptr` on. The
meta slots are counted before it is checked whether they belong to the group. -/
def scanGroup (slots : List FrameSlot) (ptr : ℕ) : Scan → List ℕ → Scan
  | g, [] => g
  | g, i :: rest =>
    match slots[i]? with
    | none => g
    | some s =>
      if s.status ≠ .full then g
      else
        let g := if s.isMeta then { g with metaSlots := g.metaSlots + 1 } else g
        if s.ptr = ptr + g.groupSize then
          scanGroup slots ptr { g with count := g.count + 1, groupSize := g.groupSize + s.size }
            rest
        else g

/-- The number of frames that are written, with the `frame_limit` that is computed when the
buffers are about to overflow. -/
def limitGroup (frameLimit : Option ℕ) (numFrames : ℕ) : ℕ :=
  match frameLimit with
  | none => numFrames
  | some l => if l < numFrames then max 1 l else numFrames

namespace Recorder

/-- The slots that are grouped behind the first one. -/
def scan (r : Recorder) (first : FrameSlot) : Scan :=
  scanGroup r.slots first.ptr ⟨0, 0, 0⟩ r.waiting

/-- The next group is taken from the queue and marked as being written. -/
def takeGroup (r : Recorder) (card : Card) (frameLimit : Option ℕ) (first : FrameSlot) : Recorder :=
  let numFrames := limitGroup frameLimit (r.scan first).count
  let afterLastGrouped := advance queueSize r.head numFrames
  let taken := slice queueSize r.writingQueue r.head afterLastGrouped
  let group : Group :=
    { card := card
      wHead := r.head
      afterLastGrouped := afterLastGrouped
      blocks := (taken.filterMap fun i => r.slots[i]?).map FrameSlot.ptr
      groupSize := ((taken.filterMap fun i => r.slots[i]?).map FrameSlot.size).sum
      numFrames := numFrames - (r.scan first).metaSlots }
  let mark (t : SlotTable) (i : ℕ) := t.modify i fun s => { s with status := .writing }
  { r with
    head := afterLastGrouped
    buf := { r.buf with
      table := taken.foldl mark r.buf.table
      forceNewBuffer := r.buf.forceNewBuffer || afterLastGrouped == r.tail }
    groups := r.groups ++ [group] }

/-- The selection of a group by the task of a card; nothing happens while the first frame of the
queue is not complete. A task that is writing a group picks no other one, and a task leaves its loop
when the buffers are full. -/
def pick (r : Recorder) (card : Card) (frameLimit : Option ℕ) : Option Recorder :=
  if r.bufferFull = true ∨ r.groups.any (·.card == card) = true then none
  else
    match r.waiting.head?.bind fun i => r.slots[i]? with
    | none => some r
    | some first =>
      if first.status ≠ .full then some r else some (r.takeGroup card frameLimit first)

/-- A slot that has been written is given back. -/
def releaseWritten (S : Settings) (t : SlotTable) (i : ℕ) : SlotTable :=
  freeSlot S.maxFrameSize (t.modify i fun s => { s with isMeta := false }) i

/-- The slots of a group that has been written are freed. -/
def finishGroup (S : Settings) (r : Recorder) (g : Group) (file : CardFile) (fileSizeLimit : Bool) :
    Recorder :=
  let taken := slice queueSize r.writingQueue g.wHead g.afterLastGrouped
  { r with
    head := g.afterLastGrouped
    buf := { r.buf with table := taken.foldl (releaseWritten S) r.buf.table }
    groups := r.groups.eraseP (·.card == g.card)
    file := Function.update r.file g.card file
    fileSizeLimit := fileSizeLimit }

/-- The task of a card writes its group and frees the slots. -/
def complete (S : Settings) (r : Recorder) (card : Card) (disk : Disk) : Option Recorder :=
  (r.groups.find? (·.card == card)).bind fun g =>
    (writeFrames (r.file g.card) r.fileSizeLimit disk (g.blocks.map r.buf.table.hdr) g.groupSize
      g.numFrames).map fun f => r.finishGroup S g f.1 f.2

/-- A slot that has been written at the end of a recording is freed. -/
def flushSlot (S : Settings) (r : Recorder) (i : ℕ) (file : CardFile) (fileSizeLimit : Bool) :
    Recorder :=
  let t := r.buf.table.modify i fun s => { s with status := .writing }
  { r.setTable (freeSlot S.maxFrameSize t i) with
    head := advance queueSize r.head 1
    file := Function.update r.file 0 file
    fileSizeLimit := fileSizeLimit }

/-- The loop that writes the frames that are left in the queue to the first card, whatever their
state, with the answers of the file system. -/
def flushSlots (S : Settings) : Recorder → List ℕ → List Disk → Option Recorder
  | r, [], _ => some r
  | _, _ :: _, [] => none
  | r, i :: rest, disk :: disks =>
    r.slots[i]?.bind fun s =>
      (writeFrames (r.file 0) r.fileSizeLimit disk [r.buf.table.hdr s.ptr] s.size
        (if s.isMeta then 0 else 1)).bind fun f => flushSlots S (r.flushSlot S i f.1 f.2) rest disks

/-- The frames that are left are written after the task has left its loop, where it has no group. -/
def flush (S : Settings) (r : Recorder) (disks : List Disk) : Option Recorder :=
  if r.groups.any (·.card == 0) then none else flushSlots S r r.waiting disks

end Recorder

/-! ### Runs -/

/-- The steps of the tasks. -/
inductive RecOp
  | vsync
  | skipFrames (count : ℕ)
  /-- A key that sets or clears `pre_record_triggered`. -/
  | trigger (on : Bool)
  /-- The compression task has compressed its next frame. -/
  | compress (size : ℕ)
  /-- The compression task copies its next frame without compression. -/
  | copy
  /-- The copy is complete. -/
  | edmacDone
  /-- The compression task marks its slot as full. -/
  | compressDone
  | getFreeSlot
  /-- `mlv_rec_release_slot` for a slot that has been taken. -/
  | releaseSlot (slot : ℕ) (write : Bool) (hdr : MlvHdr)
  /-- A recording task picks a group. -/
  | pick (card : Card) (frameLimit : Option ℕ)
  /-- A recording task writes its group and frees it. -/
  | complete (card : Card) (disk : Disk)

/-- An operation on the slots alone. -/
def Recorder.slotOp (S : Settings) (r : Recorder) (op : SlotOp) : Option Recorder :=
  (op.step S.maxFrameSize r.buf).map fun buf => { r with buf := buf }

/-- One step; `none` when it is not enabled. -/
def RecOp.step (S : Settings) (r : Recorder) : RecOp → Option Recorder
  | .vsync => if r.bufferFull then some r else processFrame S r
  | .skipFrames count => some { r with skipFrames := count }
  | .trigger on => some { r with triggered := on }
  | .compress size => r.slotOp S (.compress size)
  | .copy => (r.slotOp S .copy).map fun r => { r with edmacActive := true }
  | .edmacDone => some { r with edmacActive := false }
  | .compressDone => r.slotOp S .compressDone
  | .getFreeSlot => r.slotOp S .getFreeSlot
  | .releaseSlot i write hdr =>
    (r.slotOp S (.releaseSlot i write hdr)).map fun r => if write then r.push i else r
  | .pick card frameLimit => r.pick card frameLimit
  | .complete card disk => r.complete S card disk

/-- A sequence of steps; `none` when one of them is not enabled. -/
def Recorder.run (S : Settings) (r : Recorder) (ops : List RecOp) : Option Recorder :=
  ops.foldlM (RecOp.step S) r

/-- The state at the start of a recording; `frame_count` starts with `-1` or `0`, and `headers` are
the sizes of the headers of the files. -/
def Recorder.start (b : Buffers) (writingQueue : ℕ → ℕ) (pos : ℕ) (frameCount : ℤ)
    (preRecord recTrigger : Bool) (skipFrames : ℕ) (fileSizeLimit : Bool) (headers : Card → ℕ) :
    Recorder where
  buf := b
  writingQueue := writingQueue
  head := pos
  tail := pos
  frameCount := frameCount
  preRecording := preRecord
  triggered := !preRecord && !recTrigger
  firstFrame := 0
  bufferFull := false
  skipFrames := skipFrames
  skippedFrames := 0
  edmacActive := false
  fileSizeLimit := fileSizeLimit
  groups := []
  file card := ⟨0, headers card, [], []⟩

end MagicLantern.MlvLite

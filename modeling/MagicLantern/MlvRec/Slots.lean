import Mathlib.Tactic
import MagicLantern.Library.Runs

/-!
# The frame slots of mlv_rec

The memory of a recording is divided into slots. At each vsync `process_frame` chooses a free slot,
locks it and copies a frame there; other modules get slots of their own for their blocks and give
them back, either to be written or not. The dispatcher collects adjacent full slots to be written,
and frees them when the writer is done.

Choosing a slot is not atomic: the search reads the table, and the slot is then locked, with
interrupts disabled, if it is still free; otherwise the search is repeated. So a search and the
locking are two steps. What the modules and the dispatcher decide is data of the steps.

Source: `src/modules/raw_video/mlv_rec/mlv_rec.c`; `mlv_rec.h`.
-/

namespace MagicLantern.MlvRec

/-- `status` of a slot. -/
inductive SlotStatus
  | free
  | full
  | locked
  | writing
  deriving DecidableEq

/-- `struct frame_slot_group`: the slots from `slot` on. -/
structure SlotGroup where
  slot : ℕ
  len : ℕ

/-- The slots of a group in order. -/
def SlotGroup.slots (group : SlotGroup) : List ℕ :=
  List.range' group.slot group.len

/-- The slots in memory, and the settings. -/
structure Layout where
  slotCount : ℕ
  ptr : ℕ → ℕ
  size : ℕ → ℕ
  /-- `slot_groups`, the largest first. -/
  slotGroups : List SlotGroup
  bufferFillMethod : ℕ
  fastCardBuffers : ℕ
  groups_le : ∀ group ∈ slotGroups, group.slot + group.len ≤ slotCount

/-! ### Searches -/

section Searches

variable (L : Layout) (status : ℕ → SlotStatus)

/-- The first free slot of a list. -/
def firstFree (slots : List ℕ) : Option ℕ :=
  slots.find? fun slot => status slot = .free

/-- The first free slot of the first group that has one. -/
def firstFreeOfGroups (groups : List SlotGroup) : Option ℕ :=
  groups.findSome? fun group => firstFree status group.slots

/-- The variables of the search for the largest free section. -/
structure SectionScan where
  len : ℕ
  /-- The end of the slot before, if it is free. -/
  prevEnd : Option ℕ
  bestLen : ℕ
  allocatedSlot : Option ℕ

/-- One slot of the search for the largest free section. -/
def scanSection (scan : SectionScan) (i : ℕ) : SectionScan :=
  if status i = .free then
    if scan.prevEnd = some (L.ptr i) then
      let len := scan.len + 1
      { len
        prevEnd := some (L.ptr i + L.size i)
        bestLen := max scan.bestLen len
        allocatedSlot := if len > scan.bestLen then some (i - len + 1) else scan.allocatedSlot }
    else
      { len := 1
        prevEnd := some (L.ptr i + L.size i)
        bestLen := max scan.bestLen 1
        allocatedSlot := if 1 > scan.bestLen then some i else scan.allocatedSlot }
  else { scan with len := 0, prevEnd := none }

/-- The answer of a search for a slot to capture into. -/
inductive Choice
  /-- This slot is returned as it is, without being locked. -/
  | rolling (slot : ℕ)
  /-- This slot is to be locked, if there is one. -/
  | found (slot : Option ℕ)

/-- "Keep on rolling", or choose the largest contiguous free section. -/
def chooseSection (captureSlot : Option ℕ) (forceNewBuffer : Bool) (allocatedSlot : Option ℕ) :
    Choice :=
  let largest : Choice :=
    .found ((List.range L.slotCount).foldl (scanSection L status) ⟨0, none, 0, allocatedSlot⟩
      ).allocatedSlot
  match captureSlot with
  | none => largest
  | some slot =>
    if slot + 1 < L.slotCount ∧ L.ptr (slot + 1) = L.ptr slot + L.size slot ∧
        status (slot + 1) = .free ∧ forceNewBuffer = false then .rolling (slot + 1)
    else largest

/-- The search of `choose_next_capture_slot`. Method 3 falls through to the default one. -/
def chooseNextCaptureSlot (captureSlot : Option ℕ) (forceNewBuffer : Bool) : Choice :=
  match L.bufferFillMethod with
  | 0 => .found (firstFree status (List.range L.slotCount))
  | 1 | 4 => .found (firstFreeOfGroups status L.slotGroups)
  | 3 => chooseSection L status captureSlot forceNewBuffer
      (firstFreeOfGroups status (L.slotGroups.take L.fastCardBuffers))
  | _ => chooseSection L status captureSlot forceNewBuffer none

/-- The search of `mlv_rec_get_free_slot`, in the smallest groups first. -/
def findFreeSlot : Option ℕ :=
  firstFreeOfGroups status L.slotGroups.reverse

/-- `write_job_t`, what is to be written. -/
structure WriteJob where
  blockStart : ℕ
  blockLen : ℕ
  blockSize : ℕ
  blockPtr : ℕ
  deriving DecidableEq

/-- The job after `memset`. -/
def WriteJob.zero : WriteJob := ⟨0, 0, 0, 0⟩

/-- The slots of a job. -/
def WriteJob.slots (job : WriteJob) : List ℕ :=
  List.range' job.blockStart job.blockLen

/-- The job with more slots, the first one if they are equal. -/
def WriteJob.orLonger (job other : WriteJob) : WriteJob :=
  if other.blockLen > job.blockLen then other else job

/-- The full slots `block` and the slot after them. -/
def WriteJob.extend (block : WriteJob) (slot : ℕ) : WriteJob where
  blockStart := if block.blockLen = 0 then slot else block.blockStart
  blockLen := block.blockLen + 1
  blockSize := block.blockSize + L.size slot
  blockPtr := if block.blockLen = 0 then L.ptr slot else block.blockPtr

/-- The variables of the search for full slots. -/
structure GroupScan where
  /-- `block_start`, `block_len` and `block_size`: the full slots just before the current one. -/
  block : WriteJob
  groupFull : Bool
  job : WriteJob

/-- One slot of the search for full slots. -/
def scanSlot (scan : GroupScan) (slot : ℕ) : GroupScan :=
  if status slot = .full then
    { scan with
      block := scan.block.extend L slot
      job := scan.job.orLonger (scan.block.extend L slot) }
  else ⟨.zero, false, scan.job⟩

/-- The slots of a group, until the job has `maxSize` bytes. -/
def scanSlots (maxSize : ℕ) : List ℕ → GroupScan → GroupScan
  | [], scan => scan
  | slot :: slots, scan =>
    let scan := scanSlot L status scan slot
    if maxSize ≠ 0 ∧ scan.job.blockSize ≥ maxSize then scan else scanSlots maxSize slots scan

/-- `job` after a group. Methods 3 and 4 want the groups for the fast card to be full. -/
def groupJob (maxSize : ℕ) (getPartial : Bool) (job : WriteJob) (group : SlotGroup × ℕ) :
    WriteJob :=
  let scan := scanSlots L status maxSize group.1.slots ⟨.zero, true, job⟩
  if (L.bufferFillMethod = 3 ∨ L.bufferFillMethod = 4) ∧ scan.groupFull = false ∧
      group.2 < L.fastCardBuffers ∧ getPartial = false then .zero
  else scan.job

/-- `job` and `write_job` after a group. -/
def scanGroup (maxSize : ℕ) (getPartial : Bool) (jobs : WriteJob × WriteJob)
    (group : SlotGroup × ℕ) : WriteJob × WriteJob :=
  let job := groupJob L status maxSize getPartial jobs.1 group
  (job, jobs.2.orLonger job)

/-- One pass over the groups. -/
def findBuffer (startGroup maxSize : ℕ) (getPartial : Bool) : WriteJob :=
  ((L.slotGroups.zipIdx.drop startGroup).foldl (scanGroup L status maxSize getPartial)
    (.zero, .zero)).2

/-- `find_largest_buffer`: what it returns, and the job. -/
def findLargestBuffer (startGroup maxSize : ℕ) : Bool × WriteJob :=
  let job := findBuffer L status startGroup maxSize false
  let job := if job.blockLen = 0 then findBuffer L status startGroup maxSize true else job
  (decide (job.blockLen > 0), job)

end Searches

/-! ### States -/

/-- A search for a slot that has been tried `retries` times without success. -/
inductive Search
  /-- Before the table is searched. -/
  | searching (retries : ℕ)
  /-- Before the slot that was found, if any, is locked. -/
  | locking (retries : ℕ) (slot : Option ℕ)
  deriving DecidableEq

/-- Where the vsync callback is. -/
inductive Capture
  /-- No capture. -/
  | idle
  /-- In `choose_next_capture_slot`. -/
  | choosing (search : Search)
  /-- With a slot that is not yet marked as full. -/
  | pending (slot : ℕ)
  deriving DecidableEq

/-- The slots and who uses them. -/
structure Slots where
  status : ℕ → SlotStatus
  captureSlot : Option ℕ
  frameCount : ℕ
  capture : Capture
  /-- The calls of `mlv_rec_get_free_slot`. -/
  calls : ℕ → Option Search
  /-- The modules with a slot they have not yet released, and the slot. -/
  held : List (ℕ × ℕ)
  /-- The jobs that have been sent to a writer and have not come back. -/
  jobs : List WriteJob

namespace Slots

variable (L : Layout) (s : Slots)

/-- The state of a slot changes. -/
def setStatus (slot : ℕ) (status : SlotStatus) : Slots :=
  { s with status := Function.update s.status slot status }

/-- All slots of a job change their state. -/
def setJobStatus (job : WriteJob) (status : SlotStatus) : Slots :=
  { s with status := fun slot => if slot ∈ job.slots then status else s.status slot }

/-- A search has failed: it is repeated up to five times. -/
def retry (retries : ℕ) : Option Search :=
  if retries + 1 < 5 then some (.searching (retries + 1)) else none

/-! ### Captures -/

/-- `process_frame` is called. The first frame is skipped. -/
def captureBegin : Option Slots :=
  match s.capture with
  | .idle =>
    if s.frameCount = 0 then some { s with frameCount := 1 }
    else some { s with capture := .choosing (.searching 0) }
  | _ => none

/-- The search of `choose_next_capture_slot`. -/
def captureSearch (forceNewBuffer : Bool) : Option Slots :=
  match s.capture with
  | .choosing (.searching retries) =>
    match chooseNextCaptureSlot L s.status s.captureSlot forceNewBuffer with
    | .rolling slot => some { s with capture := .pending slot, captureSlot := some slot }
    | .found slot => some { s with capture := .choosing (.locking retries slot) }
  | _ => none

/-- After a search that failed the frame is skipped if there were too many. -/
def captureRetry (retries : ℕ) : Slots :=
  match retry retries with
  | some search => { s with capture := .choosing search }
  | none => { s with capture := .idle, captureSlot := none }

/-- The slot is locked if it is still free. -/
def captureLock : Option Slots :=
  match s.capture with
  | .choosing (.locking retries none) => some (s.captureRetry retries)
  | .choosing (.locking retries (some slot)) =>
    if s.status slot = .free then
      some { s.setStatus slot .locked with capture := .pending slot, captureSlot := some slot }
    else some (s.captureRetry retries)
  | _ => none

/-- The rest of `process_frame`; `skip` is the answer of `raw_rec_cbr_skip_frame`. -/
def captureFinish (skip : Bool) : Option Slots :=
  match s.capture with
  | .pending slot =>
    if skip then some { s with capture := .idle }
    else some { s.setStatus slot .full with capture := .idle, frameCount := s.frameCount + 1 }
  | _ => none

/-! ### Other modules -/

/-- A module calls `mlv_rec_get_free_slot`. -/
def moduleBegin (m : ℕ) : Option Slots :=
  match s.calls m with
  | none => some { s with calls := Function.update s.calls m (some (.searching 0)) }
  | some _ => none

/-- The search of `mlv_rec_get_free_slot`. -/
def moduleSearch (m : ℕ) : Option Slots :=
  match s.calls m with
  | some (.searching retries) =>
    some { s with
      calls := Function.update s.calls m (some (.locking retries (findFreeSlot L s.status))) }
  | _ => none

/-- The slot is locked if it is still free, and the module has it. -/
def moduleLock (m : ℕ) : Option Slots :=
  match s.calls m with
  | some (.locking retries none) =>
    some { s with calls := Function.update s.calls m (retry retries) }
  | some (.locking retries (some slot)) =>
    if s.status slot = .free then
      some { s.setStatus slot .locked with
        calls := Function.update s.calls m none
        held := (m, slot) :: s.held }
    else some { s with calls := Function.update s.calls m (retry retries) }
  | _ => none

/-- A module calls `mlv_rec_release_slot` for a slot it has. -/
def moduleRelease (m slot : ℕ) (write : Bool) : Option Slots :=
  if (m, slot) ∈ s.held then
    if slot < L.slotCount then
      some { s.setStatus slot (if write then .full else .free) with held := s.held.erase (m, slot) }
    else some { s with held := s.held.erase (m, slot) }
  else none

/-! ### The dispatcher -/

/-- The job that `enqueue_buffer` makes of what was found, if there is a limit on the number of
frames because of a coming overflow. -/
def limitJob (job : WriteJob) (frameLimit : Option ℕ) : WriteJob :=
  match frameLimit with
  | none => job
  | some limit =>
    if limit < job.blockLen then
      let blockLen := max 1 (limit - 1)
      { job with blockLen, blockSize := ((List.range' job.blockStart blockLen).map L.size).sum }
    else job

/-- The dispatcher sends a job to a writer. -/
def dispatch (startGroup maxSize : ℕ) (frameLimit : Option ℕ) : Option Slots :=
  let (found, job) := findLargestBuffer L s.status startGroup maxSize
  if found = false then none
  else
    let job := limitJob L job frameLimit
    some { s.setJobStatus job .writing with jobs := s.jobs ++ [job] }

/-- A job comes back. -/
def complete (job : WriteJob) : Option Slots :=
  if job ∈ s.jobs then some { s.setJobStatus job .free with jobs := s.jobs.erase job } else none

end Slots

/-! ### Runs -/

/-- A step of one of the tasks. -/
inductive SlotOp
  | captureBegin
  | captureSearch (forceNewBuffer : Bool)
  | captureLock
  | captureFinish (skip : Bool)
  | moduleBegin (m : ℕ)
  | moduleSearch (m : ℕ)
  | moduleLock (m : ℕ)
  | moduleRelease (m slot : ℕ) (write : Bool)
  | dispatch (startGroup maxSize : ℕ) (frameLimit : Option ℕ)
  | complete (job : WriteJob)

/-- `none` where the task is not at that step. -/
def SlotOp.step (L : Layout) (s : Slots) : SlotOp → Option Slots
  | .captureBegin => s.captureBegin
  | .captureSearch forceNewBuffer => s.captureSearch L forceNewBuffer
  | .captureLock => s.captureLock
  | .captureFinish skip => s.captureFinish skip
  | .moduleBegin m => s.moduleBegin m
  | .moduleSearch m => s.moduleSearch L m
  | .moduleLock m => s.moduleLock m
  | .moduleRelease m slot write => s.moduleRelease L m slot write
  | .dispatch startGroup maxSize frameLimit => s.dispatch L startGroup maxSize frameLimit
  | .complete job => s.complete job

/-- The state after the given steps. -/
def Slots.run (L : Layout) (s : Slots) (ops : List SlotOp) : Option Slots :=
  ops.foldlM (SlotOp.step L) s

end MagicLantern.MlvRec

import Mathlib.Data.Fintype.OfMap
import MagicLantern.Library.Custody

/-!
# The job records of mlv_rec

The dispatcher (`raw_video_rec_task`) has the frames written by one or two writer tasks
(`raw_writer_task`). They talk through queues of pointers to job records. The records are created
once and wait in the alloc queue: a task that wants to send a job takes a record from there, and
when the job is done the record is put back. A writer near the 4 GiB limit also sends jobs to the
dispatcher, to open the next file and to close the last one.

A step of a task is what it does up to, and with, the next call of `msg_queue_receive` or
`msg_queue_post`, so the steps of the tasks are interleaved at the queues. The answers of the file
system and of `find_largest_buffer` are data of the steps. A task that has to wait for a message has
no step. The result of `msg_queue_post` is not looked at anywhere in the source: a record that is
posted to a full queue is in no queue afterwards.

Source: `src/modules/raw_video/mlv_rec/mlv_rec.c`; `mlv_rec.h`.

## Main definitions

* `State`, `Op.step` — queues and tasks, and their steps.
-/

namespace MagicLantern.MlvRec

open Custody

/-- The index of a writer task, with its card. -/
abbrev Writer := Fin 2

scoped instance neZeroTwo : NeZero 2 := ⟨two_ne_zero⟩

/-- `job_type`. -/
inductive JobType
  | write
  | nextHandle
  | close
  deriving DecidableEq

/-- `largest_job_t`, the fields by which the tasks decide. The fields of the other members of the
union are not read before they are written again. -/
structure Job where
  jobType : JobType
  writer : Writer
  /-- `block_len`. It is `0` in an "abort" job. -/
  blockLen : ℕ
  blockSize : UInt32
  fileHandle : Option ℕ

/-- Where a record can be. -/
inductive Place
  /-- `mlv_job_alloc_queue`. -/
  | alloc
  /-- `mlv_writer_queues`. -/
  | writerQueue (w : Writer)
  /-- `mlv_mgr_queue`. -/
  | mgr
  /-- In the hands of the dispatcher, the last one it received first. -/
  | dispatcher
  /-- In the hands of a writer, the last one it received first. -/
  | writer (w : Writer)
  deriving DecidableEq

/-- All places. -/
def places : List Place :=
  [.alloc, .writerQueue 0, .writerQueue 1, .mgr, .dispatcher, .writer 0, .writer 1]

theorem mem_places (p : Place) : p ∈ places := by
  cases p with
  | alloc | mgr | dispatcher => simp [places]
  | writerQueue w | writer w =>
    have : w = 0 ∨ w = 1 := Fin.exists_fin_two.1 ⟨w, rfl⟩
    simpa [places] using this

instance : Fintype Place := Fintype.ofList places mem_places

/-- The sizes with which the queues are created. -/
def queueSize : Place → ℕ
  | .alloc => 100
  | .writerQueue _ => 10
  | .mgr => 10
  | .dispatcher => 0
  | .writer _ => 0

/-- Where a writer is in its loop. -/
inductive WriterPhase
  /-- There is no such task. -/
  | stopped
  /-- Before `msg_queue_receive`. -/
  | waiting
  /-- With a job in hand. -/
  | received
  /-- About to post an "abort" job and to end. -/
  | ending
  /-- About to post `close_job`. -/
  | closing
  /-- About to post `prepare_job`. -/
  | preparing
  /-- About to write the frames. -/
  | writing
  deriving DecidableEq

/-- The local variables of a writer. -/
structure WriterTask where
  phase : WriterPhase
  f : Option ℕ
  nextFileHandle : Option ℕ
  writtenChunk : UInt32
  handleRequested : Bool

/-- Where the dispatcher is. -/
inductive DispatcherPhase
  /-- No recording. -/
  | idle
  /-- Before `msg_queue_receive` on `mlv_mgr_queue`. -/
  | receive
  /-- Looking for frames for a writer. -/
  | fill (w : Writer)
  /-- About to post `queue_job`. -/
  | enqueue (w : Writer)
  /-- About to process `returned_job`. -/
  | process
  /-- Before it takes a record for an "abort" job. -/
  | abort (w : Writer)
  /-- About to post an "abort" job. -/
  | postAbort (w : Writer)
  /-- Before `flush_queue`. -/
  | flush
  deriving DecidableEq

/-- The settings that do not change. -/
structure Config where
  mlvMaxFilesize : UInt32
  largeFileSupport : Bool

/-- The tasks and the queues between them. -/
structure State where
  box : Place → List ℕ
  job : ℕ → Job
  dispatcher : DispatcherPhase
  /-- `mlv_writer_threads` is 2. -/
  cardSpanning : Bool
  writers : Writer → WriterTask
  writerJobCount : Writer → UInt32

namespace State

variable (s : State)

/-- The local variables of a writer change. -/
def setWriter (w : Writer) (t : WriterTask) : State :=
  { s with writers := Function.update s.writers w t }

/-- A writer goes on to the given phase. -/
def setPhase (w : Writer) (phase : WriterPhase) : State :=
  s.setWriter w { s.writers w with phase }

/-- `goto abort` in a writer: the task ends, and the job in its hands is not posted. -/
def abortWriter (w : Writer) : State :=
  { s with box := clear s.box (.writer w) }.setPhase w .stopped

/-- A writer counts down its queued writes. -/
def decJobCount (w : Writer) : State :=
  { s with writerJobCount := Function.update s.writerJobCount w (s.writerJobCount w - 1) }

/-- The dispatcher counts a write for a writer. -/
def incJobCount (w : Writer) : State :=
  { s with writerJobCount := Function.update s.writerJobCount w (s.writerJobCount w + 1) }

end State

/-! ### The writers -/

/-- What a writer has to do before it writes a block. -/
inductive ChunkCheck
  | fits
  | closes
  | prepares
  deriving DecidableEq

/-- The checks before a write, in 32 bits. -/
def chunkCheck (cfg : Config) (t : WriterTask) (blockSize : UInt32) : ChunkCheck :=
  if cfg.largeFileSupport then .fits
  else
    let freeSpace := cfg.mlvMaxFilesize - t.writtenChunk
    let limit := 8 * blockSize
    if freeSpace < blockSize then .closes
    else if freeSpace < limit ∧ t.handleRequested = false then .prepares
    else .fits

/-- A writer receives a job. -/
def writerReceive (s : State) (w : Writer) : Option State :=
  if (s.writers w).phase = .waiting ∧ s.box (.writerQueue w) ≠ [] then
    some ({ s with box := take s.box (.writerQueue w) (.writer w) }.setPhase w .received)
  else none

/-- A writer takes another record from the alloc queue, or aborts if there is none. -/
def writerTake (s : State) (w : Writer) (phase : WriterPhase) : State :=
  if s.box .alloc = [] then s.abortWriter w
  else { s with box := take s.box .alloc (.writer w) }.setPhase w phase

/-- A writer has a look at the job it received. -/
def writerBegin (cfg : Config) (s : State) (w : Writer) : Option State :=
  match (s.writers w).phase, s.box (.writer w) with
  | .received, j :: _ =>
    match (s.job j).jobType with
    | .write =>
      if (s.job j).blockLen = 0 then some ((s.decJobCount w).setPhase w .ending)
      else
        match chunkCheck cfg (s.writers w) (s.job j).blockSize with
        | .fits => some ((s.decJobCount w).setPhase w .writing)
        | .closes => some (writerTake (s.decJobCount w) w .closing)
        | .prepares => some (writerTake (s.decJobCount w) w .preparing)
    | .nextHandle =>
      -- Only the contents of `prepare_job` are kept.
      some ({ s with box := lose s.box (.writer w) }.setWriter w
        { s.writers w with phase := .waiting, nextFileHandle := (s.job j).fileHandle })
    | .close => some (s.abortWriter w)
  | _, _ => none

/-- A writer posts the record it has prepared; `size` is the size of the next file. -/
def writerPost (s : State) (w : Writer) (size : UInt32) : Option State :=
  let t := s.writers w
  match t.phase, s.box (.writer w) with
  | .ending, _ :: _ =>
    some ({ s with box := offer s.box queueSize (.writer w) .alloc }.setPhase w .stopped)
  | .closing, c :: _ :: _ =>
    let s := { s with
      job := Function.update s.job c
        { s.job c with jobType := .close, writer := w, fileHandle := t.f }
      box := offer s.box queueSize (.writer w) .mgr }
    match t.nextFileHandle with
    | none => some (s.abortWriter w)
    | some f => some (s.setWriter w ⟨.writing, some f, none, size, false⟩)
  | .preparing, p :: _ :: _ =>
    some ({ s with
      job := Function.update s.job p
        { s.job p with jobType := .nextHandle, writer := w, fileHandle := none }
      box := offer s.box queueSize (.writer w) .mgr }.setWriter w
        { t with phase := .writing, handleRequested := true })
  | _, _ => none

/-- A writer writes the frames and sends the job back, or aborts if the write has failed. -/
def writerWrite (s : State) (w : Writer) (written : Bool) : Option State :=
  match (s.writers w).phase, s.box (.writer w) with
  | .writing, j :: _ =>
    if written then
      some ({ s with box := offer s.box queueSize (.writer w) .mgr }.setWriter w
        { s.writers w with
          phase := .waiting
          writtenChunk := (s.writers w).writtenChunk + (s.job j).blockSize })
    else some (s.abortWriter w)
  | _, _ => none

/-! ### The dispatcher -/

/-- A recording begins: the files are open, the writers run. -/
def start (s : State) (cardSpanning : Bool) (handle : Writer → ℕ) (size : Writer → UInt32) :
    Option State :=
  if s.dispatcher = .idle ∧ ∀ w, (s.writers w).phase = .stopped then
    some { s with
      dispatcher := .receive
      cardSpanning
      writers := fun w =>
        if w = 0 ∨ cardSpanning = true then ⟨.waiting, some (handle w), none, size w, false⟩
        else s.writers w
      writerJobCount := fun w => if w = 0 ∨ cardSpanning = true then 0 else s.writerJobCount w }
  else none

/-- `returned_job` is received, unless the call times out. -/
def receive (s : State) (timeout : Bool) : Option State :=
  if s.dispatcher = .receive then
    if timeout then some { s with dispatcher := .fill 0 }
    else if s.box .mgr = [] then none
    else some { s with dispatcher := .fill 0, box := take s.box .mgr .dispatcher }
  else none

/-- After the CF queue comes the SD queue. -/
def afterFill (w : Writer) : DispatcherPhase :=
  if w = 0 then .fill 1 else .process

/-- The dispatcher looks for frames for a writer without a job; `found` is the answer of
`find_largest_buffer`, the number of frames and their size. It takes a record for them. -/
def fill (s : State) (found : Option (ℕ × UInt32)) : Option State :=
  match s.dispatcher with
  | .fill w =>
    if (w = 0 ∨ s.cardSpanning = true) ∧ s.writerJobCount w < 1 then
      match found, s.box .alloc with
      | none, _ => some { s with dispatcher := afterFill w }
      | some _, [] =>
        -- `enqueue_buffer` returns without having posted anything.
        some { s.incJobCount w with dispatcher := afterFill w }
      | some (blockLen, blockSize), q :: _ =>
        some { s with
          dispatcher := .enqueue w
          job := Function.update s.job q ⟨.write, w, blockLen, blockSize, (s.job q).fileHandle⟩
          box := take s.box .alloc .dispatcher }
    else some { s with dispatcher := afterFill w }
  | _ => none

/-- `queue_job` is posted. -/
def enqueue (s : State) : Option State :=
  match s.dispatcher, s.box .dispatcher with
  | .enqueue w, _ :: _ =>
    some { s.incJobCount w with
      dispatcher := afterFill w
      box := offer s.box queueSize .dispatcher (.writerQueue w) }
  | _, _ => none

/-- The queue to which a job that came back is posted. -/
def returnQueue (job : Job) : Place :=
  match job.jobType with
  | .write => .alloc
  | .nextHandle => .writerQueue job.writer
  | .close => .alloc

/-- `returned_job` is processed; `file` is the file that is opened for a handle job. -/
def process (s : State) (file : Option ℕ) : Option State :=
  match s.dispatcher, s.box .dispatcher with
  | .process, [] => some { s with dispatcher := .receive }
  | .process, j :: _ =>
    some { s with
      dispatcher := .receive
      job := if (s.job j).jobType = .nextHandle then
          Function.update s.job j { s.job j with fileHandle := file }
        else s.job
      box := offer s.box queueSize .dispatcher (returnQueue (s.job j)) }
  | _, _ => none

/-- The main loop ends. Nothing is ever posted to `mlv_mgr_queue_close`, so that the loop that
follows, over that queue, does nothing. -/
def finish (s : State) : Option State :=
  if s.dispatcher = .receive then some { s with dispatcher := .abort 0 } else none

/-- `goto cleanup`, on shutdown or when there are no writers any more. -/
def cleanup (s : State) (shutdown : Bool) : Option State :=
  if s.dispatcher = .receive ∧ (shutdown = true ∨ ∀ w, (s.writers w).phase = .stopped) then
    some { s with dispatcher := .idle }
  else none

/-- A record is taken for an "abort" job. -/
def abort (s : State) : Option State :=
  match s.dispatcher, s.box .alloc with
  | .abort w, j :: _ =>
    some { s with
      dispatcher := .postAbort w
      job := Function.update s.job j { s.job j with jobType := .write, blockLen := 0 }
      box := take s.box .alloc .dispatcher }
  | _, _ => none

/-- An "abort" job is posted. There are two of them, also if there is one writer only. -/
def postAbort (s : State) : Option State :=
  match s.dispatcher, s.box .dispatcher with
  | .postAbort w, _ :: _ =>
    some { s with
      dispatcher := if w = 0 then .abort 1 else .flush
      box := offer s.box queueSize .dispatcher (.writerQueue w) }
  | _, _ => none

/-- `flush_queue` for the queues of the writers and of the dispatcher. -/
def flush (s : State) : Option State :=
  if s.dispatcher = .flush then
    some { s with
      dispatcher := .idle
      box := clear (clear (clear s.box (.writerQueue 0)) (.writerQueue 1)) .mgr }
  else none

/-! ### Runs -/

/-- A step of one of the tasks. -/
inductive Op
  | start (cardSpanning : Bool) (handle : Writer → ℕ) (size : Writer → UInt32)
  | receive (timeout : Bool)
  | fill (found : Option (ℕ × UInt32))
  | enqueue
  | process (file : Option ℕ)
  | finish
  | cleanup (shutdown : Bool)
  | abort
  | postAbort
  | flush
  | writerReceive (w : Writer)
  | writerBegin (w : Writer)
  | writerPost (w : Writer) (size : UInt32)
  | writerWrite (w : Writer) (written : Bool)

/-- `none` where the task is not at that step. -/
def Op.step (cfg : Config) (s : State) : Op → Option State
  | .start cardSpanning handle size => MlvRec.start s cardSpanning handle size
  | .receive timeout => MlvRec.receive s timeout
  | .fill found => MlvRec.fill s found
  | .enqueue => MlvRec.enqueue s
  | .process file => MlvRec.process s file
  | .finish => MlvRec.finish s
  | .cleanup shutdown => MlvRec.cleanup s shutdown
  | .abort => MlvRec.abort s
  | .postAbort => MlvRec.postAbort s
  | .flush => MlvRec.flush s
  | .writerReceive w => MlvRec.writerReceive s w
  | .writerBegin w => MlvRec.writerBegin cfg s w
  | .writerPost w size => MlvRec.writerPost s w size
  | .writerWrite w written => MlvRec.writerWrite s w written

/-- The state after `raw_rec_init`, with the given records in the alloc queue. -/
def State.init (records : List ℕ) : State where
  box := fun p => if p = .alloc then records else []
  job := fun _ => ⟨.write, 0, 0, 0, none⟩
  dispatcher := .idle
  cardSpanning := false
  writers := fun _ => ⟨.stopped, none, none, 0, false⟩
  writerJobCount := fun _ => 0

/-- The state after the given steps. -/
def State.run (cfg : Config) (s : State) (ops : List Op) : Option State :=
  ops.foldlM (Op.step cfg) s

end MagicLantern.MlvRec

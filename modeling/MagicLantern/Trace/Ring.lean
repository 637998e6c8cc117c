import MagicLantern.Library.ByteMemory
import MagicLantern.Library.RingQueue
import MagicLantern.Library.Runs

/-!
# The ring buffer of a trace

Lines are written to a ring buffer, and a task writes its contents to a file. There are two
positions, one for reading, changed by the task, and one for writing, changed by `trace_vwrite`; the
buffer is empty if they are the same.

A call of `trace_vwrite` looks at the state of the task, builds the line, and then, with interrupts
disabled, reserves the room for it and copies it. The task can run at any time between these steps;
its own loop is divided where it reads or writes a variable of the context. Calls come one after the
other. Every write to the file is successful, but may be partial.

A line that does not fit is an error. If it fits exactly, then neither is the position changed nor
an error reported. If the buffer is empty, the number of free bytes is `-1` as an unsigned number,
and the line is copied in one piece, even over the end of the buffer. While the trace is shut down,
calls return without error, but nothing is written.

Source: `src/modules/trace/trace.c`, `src/modules/trace/trace.h`.

## Main definitions

* `TraceRing`, `TraceOp.step`, `TraceOp.Good`.
-/

namespace MagicLantern.Trace

open ByteMemory RingQueue

/-- `TRACE_MAX_LINE_LENGTH`. -/
def traceMaxLineLength : ℕ := 256

/-- `TRACE_BUFFER_SIZE`. -/
def traceBufferSize : ℕ := 512 * 1024

theorem traceBufferSize_pos : 0 < traceBufferSize := by decide

/-- `max_entries`. -/
def maxEntries : ℕ := 1000000

/-- A line with its line feed, as far as there is room in `linebuffer`. -/
structure TraceLine where
  bytes : List UInt8
  ne_nil : bytes ≠ []
  length_le : bytes.length ≤ traceMaxLineLength + 1

/-- `TRACE_TASK_STATE_DEAD`, `TRACE_TASK_STATE_RUNNING` and `TRACE_TASK_STATE_SHUTDOWN`. -/
inductive TaskState
  | dead
  | running
  | shutdown
  deriving DecidableEq

/-- Where the task is. -/
inductive Worker
  /-- At the condition of the loop. -/
  | check
  /-- Before the test whether there is something to write. -/
  | test
  /-- Before `wr_pos` is read. -/
  | fetch
  /-- Before `used` bytes are copied. -/
  | copy (used : ℕ)
  /-- Before `buffer_read_pos += used`; the copy has been made. -/
  | advance (used : ℕ) (data : List UInt8)
  /-- Before `buffer_read_pos %= buffer_size`. -/
  | wrap (data : List UInt8)
  /-- In the loop with `FIO_WriteFile`, with the rest of the data. -/
  | write (data : List UInt8)
  /-- In `msg_queue_receive`. -/
  | wait
  /-- The file has been closed and the buffer freed. -/
  | finished
  deriving DecidableEq

/-- Where the call of `trace_vwrite` is. -/
inductive Call
  | idle
  /-- The line is built. -/
  | building (line : TraceLine)
  /-- The line has been copied. -/
  | ending

/-- A copy from or to the ring buffer. -/
structure Copy where
  start : ℕ
  length : ℕ
  /-- The buffer has not been freed. -/
  live : Bool

/-- The context of a trace with its task. -/
structure TraceRing where
  taskState : TaskState
  buffer : ByteMemory
  /-- `buffer_read_pos`. -/
  readPos : ℕ
  /-- `buffer_write_pos`. -/
  writePos : ℕ
  curEntries : ℕ
  /-- `ml_shutdown_requested`. -/
  mlShutdown : Bool
  worker : Worker
  call : Call
  file : List UInt8
  /-- The lines for which `TRACE_OK` was returned. -/
  accepted : List TraceLine
  /-- All copies from and to the buffer. -/
  copies : List Copy

namespace TraceRing

variable (s : TraceRing)

/-! ### Writing a line -/

/-- `available`, an unsigned number. -/
def available : ℕ :=
  if s.writePos > s.readPos then traceBufferSize - (s.writePos - s.readPos) - 1
  else (s.readPos + 2 ^ 32 - s.writePos - 1) % 2 ^ 32

/-- `commit_size` for a line. -/
def commitSize (len : ℕ) : ℕ :=
  min len
    (if s.writePos > s.readPos then traceBufferSize - s.writePos
    else (s.readPos + 2 ^ 32 - s.writePos - 1) % 2 ^ 32)

/-- The buffer is not freed. -/
def live : Bool := s.worker ≠ .finished

/-- The line is copied. -/
def copyLine (bytes : List UInt8) : TraceRing :=
  let size := s.commitSize bytes.length
  { s with
    buffer := writeBytes (writeBytes s.buffer s.writePos (bytes.take size)) 0 (bytes.drop size)
    copies := s.copies ++ ⟨s.writePos, size, s.live⟩ ::
      (if size < bytes.length then [⟨0, bytes.length - size, s.live⟩] else []) }

/-- The part of `trace_vwrite` with interrupts disabled. -/
def commit (line : TraceLine) : TraceRing :=
  let len := line.bytes.length
  if len > s.available then { s with taskState := .shutdown, call := .idle }
  else
    { s.copyLine line.bytes with
      writePos := if len < s.available then (s.writePos + len) % traceBufferSize else s.writePos
      call := .ending
      accepted := s.accepted ++ [line] }

/-- The beginning of `trace_vwrite`. -/
def vwriteBegin (line : TraceLine) : TraceRing :=
  if s.taskState = .running then { s with call := .building line }
  else { s with accepted := s.accepted ++ [line] }

/-- The end of `trace_vwrite`: the line is counted. -/
def vwriteEnd : TraceRing :=
  { s with
    call := .idle
    curEntries := s.curEntries + 1
    taskState := if s.curEntries + 1 ≥ maxEntries then .shutdown else s.taskState }

/-! ### The task -/

/-- A step of `trace_task`; `written` is the result of `FIO_WriteFile`. -/
def workerStep (written : ℕ) : Option TraceRing :=
  match s.worker with
  | .check =>
    if s.taskState = .running ∨ s.readPos ≠ s.writePos then
      some { s with
        taskState := if s.mlShutdown then .shutdown else s.taskState
        worker := .test }
    else some { s with taskState := .dead, worker := .finished }
  | .test => some { s with worker := if s.readPos ≠ s.writePos then .fetch else .wait }
  | .fetch =>
    some { s with
      worker := .copy (if s.writePos > s.readPos then s.writePos - s.readPos
        else traceBufferSize - s.readPos) }
  | .copy used =>
    some { s with
      worker := .advance used (readBytes s.buffer s.readPos used)
      copies := s.copies ++ [⟨s.readPos, used, s.live⟩] }
  | .advance used data => some { s with worker := .wrap data, readPos := s.readPos + used }
  | .wrap data => some { s with worker := .write data, readPos := s.readPos % traceBufferSize }
  | .write data =>
    if data = [] then some { s with worker := .check }
    else if 0 < written ∧ written ≤ data.length then
      some { s with worker := .write (data.drop written), file := s.file ++ data.take written }
    else none
  | .wait => some { s with worker := .check }
  | .finished => none

/-- The context after `trace_start`. -/
def init (buffer : ByteMemory) : TraceRing where
  taskState := .running
  buffer := buffer
  readPos := 0
  writePos := 0
  curEntries := 0
  mlShutdown := false
  worker := .check
  call := .idle
  file := []
  accepted := []
  copies := []

end TraceRing

/-! ### Runs -/

/-- A step of a call or of the task, or the request to shut down. -/
inductive TraceOp
  | vwriteBegin (line : TraceLine)
  | commit
  | vwriteEnd
  | mlShutdown
  | worker (written : ℕ)

/-- `none` where the call or the task is not at that step. -/
def TraceOp.step (s : TraceRing) : TraceOp → Option TraceRing
  | .vwriteBegin line =>
    match s.call with
    | .idle => some (s.vwriteBegin line)
    | _ => none
  | .commit =>
    match s.call with
    | .building line => some (s.commit line)
    | _ => none
  | .vwriteEnd =>
    match s.call with
    | .ending => some s.vwriteEnd
    | _ => none
  | .mlShutdown => some { s with mlShutdown := true }
  | .worker written => s.workerStep written

/-- The state after the given steps. -/
def TraceRing.run (s : TraceRing) (ops : List TraceOp) : Option TraceRing :=
  ops.foldlM TraceOp.step s

/-! ### The property -/

namespace TraceRing

variable (s : TraceRing)

/-- What the task has copied and not written yet. -/
@[simp] def unwritten : List UInt8 :=
  match s.worker with
  | .wrap data => data
  | .write data => data
  | _ => []

/-- What is in the ring buffer. -/
def content : List UInt8 :=
  slice traceBufferSize s.buffer (s.readPos % traceBufferSize) s.writePos

/-- The bytes of the accepted lines. -/
def acceptedBytes : List UInt8 :=
  (s.accepted.map TraceLine.bytes).flatten

/-- The file, what the task has in hand, and the ring buffer are together the accepted lines, and
all copies were inside of the buffer. -/
def Delivers : Prop :=
  s.file ++ s.unwritten ++ s.content = s.acceptedBytes ∧
    ∀ c ∈ s.copies, c.live = true ∧ c.start + c.length ≤ traceBufferSize

end TraceRing

/-- The task is running when a call begins. When the line is copied, the buffer is not freed, the
line does not fit exactly, and it does not go over the end of an empty buffer. -/
def TraceOp.Good (s : TraceRing) : TraceOp → Prop
  | .vwriteBegin _ => s.taskState = .running
  | .commit =>
    match s.call with
    | .building line =>
      s.live = true ∧ line.bytes.length ≠ s.available ∧
        (s.writePos = s.readPos → s.writePos + line.bytes.length ≤ traceBufferSize)
    | _ => True
  | _ => True

end MagicLantern.Trace

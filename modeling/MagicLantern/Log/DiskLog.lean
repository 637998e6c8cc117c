import MagicLantern.Library.RingQueue
import MagicLantern.Library.Runs

/-!
# The disk log

`send_log_data` copies a block into a ring buffer, and `disk_write_task` writes the buffer to a file
whenever it is woken up. `stop_log` sets a flag and wakes the task, which is to write what is left
and to close the file.

Calls of `send_log_data` exclude each other by a semaphore that they take without waiting. The task
takes it only to change `buf_written`; it reads `buf_next` without it. Each read or write of a
shared variable is a step, and so is every byte that is copied to the buffer or to the file. The
steps before the semaphore is taken read constants only, and are one step with it.

Positions are offsets from `buf_start`. They are at most `buf_size`, so that nothing overflows in 32
bits. Logging is enabled, every write to the file succeeds, and the camera is not shut down.

Source: `src/src/log.c`, `src/src/log.h`.
-/

namespace MagicLantern.Log

open RingQueue

/-- `MIN_LOG_BUF_SIZE`. -/
def minLogBufSize : ℕ := 0x10000

/-- `MIN_LOG_WRITE_SIZE`. -/
def minLogWriteSize : ℕ := 0x1000

/-- What comes next in a call of `send_log_data` that has `log_mem_sem`. -/
inductive SendPhase
  /-- The computation of `available_space`. -/
  | check
  /-- `memcpy` of `src` to `dst`, then of `rest` to `buf_start`, and then `buf_next = next`. -/
  | copy (dst : ℕ) (src rest : List UInt8) (next : ℕ)
  /-- `buf_next = next`. -/
  | advance (next : ℕ)
  /-- The computation of `queued_write_size`. -/
  | wake
  /-- `give_semaphore(log_mem_sem)`, and the call returns `ret`. -/
  | give (ret : ℤ)
  deriving DecidableEq

/-- A call of `send_log_data` that has `log_mem_sem`. -/
structure Sender where
  data : List UInt8
  phase : SendPhase
  /-- The buffer when the semaphore was taken. -/
  bufBefore : ℕ → UInt8
  /-- `buf_next` when the semaphore was taken. -/
  nextBefore : ℕ
  /-- The call has woken the task. -/
  woke : Bool

/-- What comes next in `disk_write_task`; `next` is its local variable. -/
inductive TaskPhase
  /-- The condition of the loop. -/
  | test
  /-- `take_semaphore(log_disk_sem, 0)`. -/
  | wait
  /-- `next = buf_next`. -/
  | fetch
  /-- `FIO_WriteFile` of the bytes from `pos` to `stop`; `again` if `buf_start` follows. -/
  | write (pos stop next : ℕ) (again : Bool)
  /-- `take_semaphore(log_mem_sem, 0)`. -/
  | lock (next : ℕ)
  /-- `buf_written = next`. -/
  | update (next : ℕ)
  /-- `give_semaphore(log_mem_sem)`. -/
  | unlock
  /-- `FIO_CloseFile`. -/
  | close
  | closed
  deriving DecidableEq

/-- Where the call of `stop_log` is. -/
inductive StopPhase
  | idle
  /-- `stop_logging = 1` is done. -/
  | flagged
  | given
  deriving DecidableEq

/-- The log. -/
structure LogState where
  /-- The memory from `buf_start` on. -/
  buf : ℕ → UInt8
  bufSize : ℕ
  bufWritten : ℕ
  bufNext : ℕ
  /-- `log_mem_sem` is unlocked. -/
  logMemSem : Bool
  /-- `log_disk_sem` is unlocked. -/
  logDiskSem : Bool
  stopLogging : Bool
  sender : Option Sender
  task : TaskPhase
  stop : StopPhase
  /-- What `log_fp` has received. -/
  file : List UInt8
  /-- The blocks that were copied to the buffer. -/
  accepted : List (List UInt8)
  /-- The blocks for which `0` was returned. -/
  returned : List (List UInt8)
  /-- The blocks for which `0` was returned before `stop_log` was called. -/
  beforeStop : Option (List (List UInt8))
  /-- The number of bytes that had been accepted when the task last read `buf_next`. -/
  seen : ℕ
  /-- The number of bytes that have been released by a change of `buf_written`. -/
  done : ℕ

/-- `init_log`, with a buffer of the given size. -/
def initLog (buf : ℕ → UInt8) (size : ℕ) : Option LogState :=
  if minLogBufSize ≤ size then
    some {
      buf
      bufSize := size
      bufWritten := 0
      bufNext := 0
      logMemSem := true
      logDiskSem := false
      stopLogging := false
      sender := none
      task := .test
      stop := .idle
      file := []
      accepted := []
      returned := []
      beforeStop := none
      seen := 0
      done := 0 }
  else none

namespace LogState

variable (s : LogState)

/-- All bytes that were accepted. -/
def stream : List UInt8 := s.accepted.flatten

/-! ### `send_log_data` -/

/-- `send_log_data` until the semaphore is taken, or the value that is returned. -/
def sendEnter (data : List UInt8) : Except ℤ LogState :=
  if data.length > s.bufSize then .error (-1)
  else if !s.logMemSem then .error (-2)
  else .ok { s with
    logMemSem := false
    sender := some ⟨data, .check, s.buf, s.bufNext, false⟩ }

/-- How a block is copied, if there is space for it. -/
def place (data : List UInt8) : SendPhase :=
  let size := data.length
  if s.bufNext ≥ s.bufWritten then
    let availableSpace := (s.bufSize - s.bufNext) + s.bufWritten
    if availableSpace ≤ size then .give (-3)
    else
      let unwrapSpace := s.bufSize - s.bufNext
      if unwrapSpace > size then .copy s.bufNext data [] (s.bufNext + size)
      else
        let remainingSize := size - unwrapSpace
        .copy s.bufNext (data.take unwrapSpace) (data.drop unwrapSpace)
          (if remainingSize > 0 then remainingSize else s.bufSize)
  else
    let availableSpace := s.bufWritten - s.bufNext
    if availableSpace ≤ size then .give (-3)
    else .copy s.bufNext data [] (s.bufNext + size)

/-- `queued_write_size`. -/
def queuedWriteSize : ℕ :=
  if s.bufNext > s.bufWritten then s.bufNext - s.bufWritten
  else (s.bufSize - s.bufWritten) + s.bufNext

/-- A step of the call that has the semaphore. -/
def sendStep (snd : Sender) : LogState :=
  match snd.phase with
  | .check => { s with sender := some { snd with phase := s.place snd.data } }
  | .copy dst (b :: src) rest next =>
    { s with
      buf := Function.update s.buf dst b
      sender := some { snd with phase := .copy (dst + 1) src rest next } }
  | .copy _ [] [] next => { s with sender := some { snd with phase := .advance next } }
  | .copy _ [] rest next => { s with sender := some { snd with phase := .copy 0 rest [] next } }
  | .advance next =>
    { s with
      bufNext := next
      accepted := s.accepted ++ [snd.data]
      sender := some { snd with phase := .wake } }
  | .wake =>
    if s.queuedWriteSize ≥ minLogWriteSize then
      { s with logDiskSem := true, sender := some { snd with phase := .give 0, woke := true } }
    else { s with sender := some { snd with phase := .give 0 } }
  | .give ret =>
    { s with
      logMemSem := true
      sender := none
      returned := if ret = 0 then s.returned ++ [snd.data] else s.returned }

/-! ### `disk_write_task` -/

/-- A step of the task; `none` while it waits for a semaphore, and after its end. -/
def taskStep : Option LogState :=
  match s.task with
  | .test => some { s with task := if s.stopLogging then .close else .wait }
  | .wait => if s.logDiskSem then some { s with logDiskSem := false, task := .fetch } else none
  | .fetch =>
    let next := s.bufNext
    some { s with
      seen := s.stream.length
      task :=
        if next = s.bufWritten then .test
        else if next > s.bufWritten then .write s.bufWritten next next false
        else .write s.bufWritten s.bufSize next true }
  | .write pos stop next again =>
    if pos < stop then
      some { s with file := s.file ++ [s.buf pos], task := .write (pos + 1) stop next again }
    else if again then some { s with task := .write 0 next next false }
    else some { s with task := .lock next }
  | .lock next =>
    if s.logMemSem then some { s with logMemSem := false, task := .update next } else none
  | .update next => some { s with bufWritten := next, done := s.seen, task := .unlock }
  | .unlock => some { s with logMemSem := true, task := .test }
  | .close => some { s with task := .closed }
  | .closed => none

end LogState

/-! ### Runs -/

/-- The steps. -/
inductive LogOp
  /-- A call of `send_log_data`, until it takes the semaphore or returns. -/
  | send (data : List UInt8)
  /-- The next step of the call that has the semaphore. -/
  | sendStep
  | task
  /-- `stop_logging = 1`. -/
  | stopFlag
  /-- `give_semaphore(log_disk_sem)` in `stop_log`. -/
  | stopGive

/-- What a step does. There is one call of `stop_log`. -/
def LogOp.step (s : LogState) : LogOp → Option LogState
  | .send data =>
    match s.sendEnter data with
    | .error _ => some s
    | .ok t => some t
  | .sendStep => s.sender.map s.sendStep
  | .task => s.taskStep
  | .stopFlag =>
    if s.stop = .idle then
      some { s with stopLogging := true, stop := .flagged, beforeStop := some s.returned }
    else none
  | .stopGive =>
    if s.stop = .flagged then some { s with logDiskSem := true, stop := .given } else none

/-! ### The properties -/

namespace LogState

/-- What holds at all times in a log whose memory was `buf` at first. -/
structure Safe (buf : ℕ → UInt8) (s : LogState) : Prop where
  /-- The file has the accepted blocks, in the order in which they were copied. -/
  file_order : s.file <+: s.stream
  /-- The bytes that are not yet in the file are in the buffer. -/
  unwritten : Holds s.bufSize s.buf (s.file.length % s.bufSize) (s.stream.drop s.file.length)
  /-- The next byte that is copied does not overwrite them, and is in the buffer. -/
  copies : ∀ snd dst b src rest next, s.sender = some snd →
    snd.phase = .copy dst (b :: src) rest next → dst < s.bufSize ∧
      ∀ t, s.file.length ≤ t → t < s.stream.length → dst ≠ t % s.bufSize
  /-- The task reads the buffer only. -/
  reads : ∀ pos stop next again, s.task = .write pos stop next again → pos < stop →
    pos < s.bufSize
  /-- The memory behind the buffer is unchanged. -/
  outside : ∀ i, s.bufSize ≤ i → s.buf i = buf i
  /-- A call that returns a negative value has changed nothing. -/
  refused : ∀ snd ret, s.sender = some snd → snd.phase = .give ret → ret < 0 →
    s.buf = snd.bufBefore ∧ s.bufNext = snd.nextBefore ∧ snd.woke = false

/-- The blocks for which `0` was returned before `stop_log` was called are in the file. -/
def Complete (s : LogState) : Prop := ∀ blocks ∈ s.beforeStop, blocks.flatten <+: s.file

instance : DecidablePred Complete := fun s =>
  inferInstanceAs (Decidable (∀ blocks ∈ s.beforeStop, blocks.flatten <+: s.file))

end LogState

/-- `stop_log` is called while the task is about to read `buf_next`, or if all blocks for which `0`
was returned were in the buffer when the task read it last. -/
def LogOp.StopsInTime (s : LogState) : LogOp → Prop
  | .stopFlag => s.task = .wait ∨ s.task = .fetch ∨ s.returned.flatten.length ≤ s.seen
  | _ => True

instance (s : LogState) : DecidablePred (LogOp.StopsInTime s) := fun op =>
  match op with
  | .stopFlag =>
    inferInstanceAs (Decidable (_ ∨ _ ∨ _))
  | .send _ | .sendStep | .task | .stopGive => isTrue trivial

end MagicLantern.Log

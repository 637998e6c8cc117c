import MagicLantern.Library.Resources
import MagicLantern.Trace.Ring

/-!
# The life cycle of a trace context

There are sixteen contexts. `trace_start` takes the first one that is not in use, creates a task, a
file and a buffer, and waits until the task runs. `trace_stop` tells the task to end, and can wait
for it. The task writes what is in the ring buffer; when it ends, it closes the file, frees the
buffer, and marks the context as not in use. If something fails, then `trace_start` and `trace_stop`
clean up too.

Each statement that changes the context, and each call that opens, closes, allocates or frees
something, is a step, so that the steps of any number of calls and tasks are interleaved. What they
touch belongs to one context, apart from the search for a context in `trace_start`. Files and
buffers are numbered for each context. What the operating system answers is data of the steps.

Source: `src/modules/trace/trace.c`, `src/modules/trace/trace.h`.
-/

namespace MagicLantern.Trace

/-- `TRACE_MAX_CONTEXT`. -/
abbrev traceMaxContext : ℕ := 16

/-- What comes next in a call of `trace_start` that has got a context. -/
inductive StartPhase
  /-- The fields are set, and `task_state = TRACE_TASK_STATE_DEAD`. -/
  | initFields
  | createTask
  | createFile
  /-- There is no file: `used = 0`. -/
  | fileFailed
  | allocBuffer
  /-- There is no buffer: the file is closed. -/
  | allocFailed
  /-- There is no buffer: `used = 0`. -/
  | allocUnused
  /-- The loop that waits for the task. -/
  | poll (loops : ℕ)
  /-- The task does not run: `used = 0`, and then the clean-up. -/
  | timedOut
  | closeFile
  | freeBuffer
  | clearHandle
  | clearBuffer
  deriving DecidableEq

/-- What comes next in `trace_task`; `writeBuf` is `write_buf`. -/
inductive TaskPhase
  | allocWriteBuf
  | setRunning (writeBuf : Option ℕ)
  /-- The condition of the loop, and the test of `ml_shutdown_requested`. -/
  | check (writeBuf : Option ℕ)
  /-- The test whether there is something to write. -/
  | test (writeBuf : Option ℕ)
  /-- The data are copied, and `buffer_read_pos` is advanced. -/
  | take (writeBuf : Option ℕ)
  | write (writeBuf : Option ℕ) (total used : ℕ)
  /-- `msg_queue_receive`. -/
  | wait (writeBuf : Option ℕ)
  /-- After the loop. -/
  | closeFile (writeBuf : Option ℕ)
  | freeBuffer (writeBuf : Option ℕ)
  | freeWriteBuf (writeBuf : Option ℕ)
  | clearHandle
  | clearBuffer
  | setDead
  | setUnused
  /-- After a write error. -/
  | failClose (writeBuf : Option ℕ)
  | failFree (writeBuf : Option ℕ)
  | failFreeWriteBuf (writeBuf : Option ℕ)
  | failDead
  deriving DecidableEq

/-- `write_buf`, from its allocation until it is freed. -/
def TaskPhase.writeBuf : TaskPhase → Option ℕ
  | .setRunning writeBuf | .check writeBuf | .test writeBuf | .take writeBuf | .write writeBuf _ _
  | .wait writeBuf | .closeFile writeBuf | .freeBuffer writeBuf | .freeWriteBuf writeBuf
  | .failClose writeBuf | .failFree writeBuf | .failFreeWriteBuf writeBuf => writeBuf
  | _ => none

/-- The task is in its loop. -/
def TaskPhase.Looping : TaskPhase → Prop
  | .check _ | .test _ | .take _ | .write _ _ _ | .wait _ => True
  | _ => False

/-- The task has left its loop without an error. -/
def TaskPhase.Leaving : TaskPhase → Prop
  | .closeFile _ | .freeBuffer _ | .freeWriteBuf _ | .clearHandle | .clearBuffer | .setDead
  | .setUnused => True
  | _ => False

instance : DecidablePred TaskPhase.Looping := fun phase => by
  cases phase <;> dsimp only [TaskPhase.Looping] <;> infer_instance

instance : DecidablePred TaskPhase.Leaving := fun phase => by
  cases phase <;> dsimp only [TaskPhase.Leaving] <;> infer_instance

/-- What comes next in a call of `trace_stop`; `generation` is the one whose task was told to end.
-/
inductive StopPhase
  /-- `task_state = TRACE_TASK_STATE_SHUTDOWN`. -/
  | shutdown (wait : Bool)
  /-- The loop that waits for the task. -/
  | poll (generation loops : ℕ)
  /-- The clean-up. -/
  | closeFile (generation : ℕ)
  | freeBuffer (generation : ℕ)
  | clearHandle (generation : ℕ)
  | clearBuffer (generation : ℕ)
  | setUnused (generation : ℕ)
  deriving DecidableEq

/-- `trace_entry_t` with the calls and tasks that work on it. -/
structure TraceEntry where
  used : Bool
  taskState : TaskState
  fileHandle : Option ℕ
  buffer : Option ℕ
  /-- `buffer_read_pos`. -/
  readPos : ℕ
  /-- `buffer_write_pos`. -/
  writePos : ℕ
  starts : List StartPhase
  tasks : List TaskPhase
  stops : List StopPhase
  files : Resources
  buffers : Resources
  /-- How often the context was handed out. -/
  generation : ℕ
  /-- The context was handed out while one of its tasks was running. -/
  overlapped : Bool
  /-- The generations for which `trace_stop` has returned. -/
  stopped : List ℕ

namespace TraceEntry

variable (e : TraceEntry)

/-- A context is handed out. -/
def handOut : TraceEntry :=
  { e with
    used := true
    starts := e.starts ++ [.initFields]
    generation := e.generation + 1
    overlapped := e.overlapped || !e.tasks.isEmpty }

/-! ### `trace_start` -/

def setStart (i : ℕ) (phase : StartPhase) : TraceEntry :=
  { e with starts := e.starts.set i phase }

def endStart (i : ℕ) : TraceEntry :=
  { e with starts := e.starts.eraseIdx i }

/-- A statement of `trace_start`; `ok` tells whether it succeeds if it can fail. -/
def startNext (i : ℕ) (ok : Bool) : StartPhase → TraceEntry
  | .initFields =>
    { e with readPos := 0, writePos := 0, taskState := .dead }.setStart i .createTask
  | .createTask =>
    { e with tasks := if ok then e.tasks ++ [TaskPhase.allocWriteBuf] else e.tasks }.setStart i
      .createFile
  | .createFile =>
    if ok then
      { e with fileHandle := some e.files.created, files := e.files.create }.setStart i .allocBuffer
    else { e with fileHandle := none }.setStart i .fileFailed
  | .fileFailed => { e with used := false }.endStart i
  | .allocBuffer =>
    if ok then
      { e with buffer := some e.buffers.created, buffers := e.buffers.create }.setStart i (.poll 0)
    else { e with buffer := none }.setStart i .allocFailed
  | .allocFailed => { e with files := e.files.release e.fileHandle }.setStart i .allocUnused
  | .allocUnused => { e with used := false }.endStart i
  | .poll loops =>
    if e.taskState ≠ .dead then e.endStart i
    else e.setStart i (if loops + 1 < 250 then .poll (loops + 1) else .timedOut)
  | .timedOut => { e with used := false }.setStart i .closeFile
  | .closeFile => { e with files := e.files.release e.fileHandle }.setStart i .freeBuffer
  | .freeBuffer => { e with buffers := e.buffers.release e.buffer }.setStart i .clearHandle
  | .clearHandle => { e with fileHandle := none }.setStart i .clearBuffer
  | .clearBuffer => { e with buffer := none }.endStart i

/-- A step of a call of `trace_start`. -/
def startStep (i : ℕ) (ok : Bool) : Option TraceEntry :=
  e.starts[i]?.map (e.startNext i ok)

/-! ### `trace_task` -/

def setTask (i : ℕ) (phase : TaskPhase) : TraceEntry :=
  { e with tasks := e.tasks.set i phase }

def endTask (i : ℕ) : TraceEntry :=
  { e with tasks := e.tasks.eraseIdx i }

/-- What a task gets from the system. -/
structure Answers where
  /-- There is memory for `write_buf`. -/
  alloc : Bool
  /-- `ml_shutdown_requested`. -/
  mlShutdown : Bool
  /-- The result of `FIO_WriteFile`. -/
  written : ℕ

/-- The number of bytes that are written next. -/
def pending : ℕ :=
  if e.writePos > e.readPos then e.writePos - e.readPos else traceBufferSize - e.readPos

/-- A statement of `trace_task`. -/
def taskNext (i : ℕ) (answers : Answers) : TaskPhase → TraceEntry
  | .allocWriteBuf =>
    if answers.alloc then
      { e with buffers := e.buffers.create }.setTask i (.setRunning (some e.buffers.created))
    else e.setTask i (.setRunning none)
  | .setRunning writeBuf => { e with taskState := .running }.setTask i (.check writeBuf)
  | .check writeBuf =>
    if e.taskState = .running ∨ e.readPos ≠ e.writePos then
      { e with taskState := if answers.mlShutdown then .shutdown else e.taskState }.setTask i
        (.test writeBuf)
    else e.setTask i (.closeFile writeBuf)
  | .test writeBuf =>
    e.setTask i (if e.readPos ≠ e.writePos then .take writeBuf else .wait writeBuf)
  | .take writeBuf =>
    { e with readPos := (e.readPos + e.pending) % traceBufferSize }.setTask i
      (.write writeBuf 0 e.pending)
  | .write writeBuf total used =>
    if total < used then
      if 0 < answers.written then e.setTask i
        (.write writeBuf ((total + answers.written) % 2 ^ 32) used)
      else e.setTask i (.failClose writeBuf)
    else e.setTask i (.check writeBuf)
  | .wait writeBuf => e.setTask i (.check writeBuf)
  | .closeFile writeBuf =>
    { e with files := e.files.release e.fileHandle }.setTask i (.freeBuffer writeBuf)
  | .freeBuffer writeBuf =>
    { e with buffers := e.buffers.release e.buffer }.setTask i (.freeWriteBuf writeBuf)
  | .freeWriteBuf writeBuf =>
    { e with buffers := e.buffers.release writeBuf }.setTask i .clearHandle
  | .clearHandle => { e with fileHandle := none }.setTask i .clearBuffer
  | .clearBuffer => { e with buffer := none }.setTask i .setDead
  | .setDead => { e with taskState := .dead }.setTask i .setUnused
  | .setUnused => { e with used := false }.endTask i
  | .failClose writeBuf =>
    { e with files := e.files.release e.fileHandle }.setTask i (.failFree writeBuf)
  | .failFree writeBuf =>
    { e with buffers := e.buffers.release e.buffer }.setTask i (.failFreeWriteBuf writeBuf)
  | .failFreeWriteBuf writeBuf =>
    { e with buffers := e.buffers.release writeBuf }.setTask i .failDead
  | .failDead => { e with taskState := .dead }.endTask i

/-- A step of a task. -/
def taskStep (i : ℕ) (answers : Answers) : Option TraceEntry :=
  e.tasks[i]?.map (e.taskNext i answers)

/-! ### `trace_stop` -/

def setStop (i : ℕ) (phase : StopPhase) : TraceEntry :=
  { e with stops := e.stops.set i phase }

/-- `trace_stop` returns. -/
def endStop (i generation : ℕ) : TraceEntry :=
  { e with stops := e.stops.eraseIdx i, stopped := generation :: e.stopped }

/-- The beginning of `trace_stop`, which is an error if the context is not in use. -/
def stopBegin (wait : Bool) : TraceEntry :=
  if e.used then { e with stops := e.stops ++ [.shutdown wait] } else e

/-- A statement of `trace_stop`. -/
def stopNext (i : ℕ) : StopPhase → TraceEntry
  | .shutdown wait =>
    if wait then { e with taskState := .shutdown }.setStop i (.poll e.generation 0)
    else { e with taskState := .shutdown }.endStop i e.generation
  | .poll generation loops =>
    if e.taskState = .dead then e.endStop i generation
    else e.setStop i (if loops + 1 < 500 then .poll generation (loops + 1)
      else .closeFile generation)
  | .closeFile generation =>
    { e with files := e.files.release e.fileHandle }.setStop i (.freeBuffer generation)
  | .freeBuffer generation =>
    { e with buffers := e.buffers.release e.buffer }.setStop i (.clearHandle generation)
  | .clearHandle generation => { e with fileHandle := none }.setStop i (.clearBuffer generation)
  | .clearBuffer generation => { e with buffer := none }.setStop i (.setUnused generation)
  | .setUnused generation => { e with used := false }.endStop i generation

/-- A step of a call of `trace_stop`. -/
def stopStep (i : ℕ) : Option TraceEntry :=
  e.stops[i]?.map (e.stopNext i)

/-! ### `trace_vwrite` -/

/-- A line is written, so that `buffer_write_pos` changes; with `shutdown` the trace is shut down
because of an overflow or of too many lines. -/
def vwrite (writePos : ℕ) (shutdown : Bool) : TraceEntry :=
  if e.used ∧ e.taskState = .running then
    { e with
      writePos := writePos % traceBufferSize
      taskState := if shutdown then .shutdown else .running }
  else e

/-- A context that was never used. -/
def init : TraceEntry where
  used := false
  taskState := .dead
  fileHandle := none
  buffer := none
  readPos := 0
  writePos := 0
  starts := []
  tasks := []
  stops := []
  files := ⟨0, []⟩
  buffers := ⟨0, []⟩
  generation := 0
  overlapped := false
  stopped := []

end TraceEntry

/-! ### Runs -/

/-- A step on a context: the `i`-th call or task goes on, `trace_stop` is called, or a line is
written. -/
inductive EntryOp
  | start (i : ℕ) (ok : Bool)
  | task (i : ℕ) (answers : TraceEntry.Answers)
  | stopBegin (wait : Bool)
  | stop (i : ℕ)
  | vwrite (writePos : ℕ) (shutdown : Bool)

/-- `none` if there is no such call or task. -/
def EntryOp.step (e : TraceEntry) : EntryOp → Option TraceEntry
  | .start i ok => e.startStep i ok
  | .task i answers => e.taskStep i answers
  | .stopBegin wait => some (e.stopBegin wait)
  | .stop i => e.stopStep i
  | .vwrite writePos shutdown => some (e.vwrite writePos shutdown)

/-- A context after the given steps. -/
def TraceEntry.run (e : TraceEntry) (ops : List EntryOp) : Option TraceEntry :=
  ops.foldlM EntryOp.step e

/-- `trace_contexts`. -/
abbrev TraceContexts := Fin traceMaxContext → TraceEntry

/-- The context that `trace_start` takes. -/
def TraceContexts.firstFree (s : TraceContexts) : Option (Fin traceMaxContext) :=
  (List.finRange traceMaxContext).find? fun context => (s context).used = false

/-- `trace_start` is called, or there is a step on a context. -/
inductive LifeOp
  | startBegin
  | on (context : Fin traceMaxContext) (op : EntryOp)

/-- Without a free context, `trace_start` is an error. -/
def LifeOp.step (s : TraceContexts) : LifeOp → Option TraceContexts
  | .startBegin =>
    match s.firstFree with
    | some context => some (Function.update s context (s context).handOut)
    | none => some s
  | .on context op => (op.step (s context)).map (Function.update s context)

/-- The contexts after the given steps. -/
def TraceContexts.run (s : TraceContexts) (ops : List LifeOp) : Option TraceContexts :=
  ops.foldlM LifeOp.step s

/-- No context was used yet. -/
def TraceContexts.init : TraceContexts := fun _ => .init

/-! ### The property -/

namespace TraceEntry

/-- The task alone comes to a state in which the context is not in use, without a request to shut
down. -/
def Reusable (e : TraceEntry) : Prop :=
  ∃ (answers : List Answers) (t : TraceEntry), (∀ a ∈ answers, a.mlShutdown = false) ∧
    e.run (answers.map (EntryOp.task 0)) = some t ∧ t.used = false

/-- A call or a task has still to do with the context. -/
def Busy (e : TraceEntry) : Prop :=
  e.used = true ∨ e.starts ≠ []

/-- Every file is closed exactly once, or belongs to a context that is used or cleaned up; every
buffer is freed exactly once, or belongs to such a context or its task; the context was not handed
out while one of its tasks was running; and after `trace_stop` has returned, the context can be
reused. -/
structure Safe (e : TraceEntry) : Prop where
  closed : ∀ n < e.files.created, e.files.released.count n = 1 ∨
    e.files.released.count n = 0 ∧ e.fileHandle = some n ∧ e.Busy
  closed_lt : ∀ n ∈ e.files.released, n < e.files.created
  freed : ∀ n < e.buffers.created, e.buffers.released.count n = 1 ∨
    e.buffers.released.count n = 0 ∧
      (e.buffer = some n ∧ e.Busy ∨ ∃ phase ∈ e.tasks, some n = phase.writeBuf)
  freed_lt : ∀ n ∈ e.buffers.released, n < e.buffers.created
  overlapped : e.overlapped = false
  stopped : ∀ generation ∈ e.stopped, generation = e.generation → e.Reusable

end TraceEntry

/-! ### The condition -/

/-- If a task was created, then the file and the buffer can be made and the task begins in time. A
task is told to end after `trace_start` has returned, and before it sets its state to `DEAD`, which
it does before `trace_stop` times out. Every write succeeds. Lines are written after `trace_start`
has returned. -/
def EntryOp.Good (e : TraceEntry) : EntryOp → Prop
  | .start i ok =>
    match e.starts[i]? with
    | some .createFile | some .allocBuffer => ok = true ∨ e.tasks = []
    | some (.poll loops) => loops + 1 < 250 ∨ e.taskState ≠ .dead ∨ e.tasks = []
    | _ => True
  | .task i answers =>
    match e.tasks[i]? with
    | some (.check _) => answers.mlShutdown = false ∨ e.starts = []
    | some (.write _ _ _) => answers.written ≠ 0
    | _ => True
  | .stopBegin _ => True
  | .stop i =>
    match e.stops[i]? with
    | some (.shutdown _) =>
      e.starts = [] ∧ ∃ phase ∈ e.tasks, (phase.Looping ∨ phase.Leaving) ∧ phase ≠ .setUnused
    | some (.poll _ loops) => loops + 1 < 500 ∨ e.taskState = .dead
    | _ => True
  | .vwrite _ _ => e.starts = []

/-- A context is not handed out while it is cleaned up by another call of `trace_start`. -/
def LifeOp.Good (s : TraceContexts) : LifeOp → Prop
  | .startBegin => ∀ context ∈ s.firstFree, (s context).starts = []
  | .on context op => op.Good (s context)

instance (e : TraceEntry) : DecidablePred (EntryOp.Good e) := fun op => by
  cases op <;> dsimp only [EntryOp.Good] <;> (try split) <;> infer_instance

instance (s : TraceContexts) : DecidablePred (LifeOp.Good s) := fun op => by
  cases op <;> dsimp only [LifeOp.Good] <;> infer_instance

end MagicLantern.Trace

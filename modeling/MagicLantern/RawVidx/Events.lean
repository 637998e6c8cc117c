import MagicLantern.Library.Runs
import MagicLantern.RawVidx.Worker

/-!
# The events of raw_vidx

The vsync callback, the key handler and the tasks that send a stop command tell the worker what to
do by events. There is a fixed number of event records; a record of type `EMPTY` can be used. A call
takes such a record, fills it in and posts a pointer to it to the queue of the worker, which sets
its type to `EMPTY` again when the event has been handled.

A call is divided where other tasks can see a difference: what comes before `get_empty_event`, this
function itself, which runs under a semaphore, and what comes after it. So the steps of several
calls and of the worker are interleaved. What the camera and the memory manager answer is data of
the steps.

Source: `src/modules/raw_video/raw_vidx/event_pusher.c`, `raw_vid.c`, `raw_vid.h`.

## Main definitions

* `RawVid`, `Op.step` — queue, calls and worker, and their steps.
-/

namespace MagicLantern.RawVidx

/-- `RAW_VID_Q_LEN`, the number of records and the length of the queue. -/
abbrev rawVidQLen : ℕ := 20

/-- The index of an event record. -/
abbrev EventId := Fin rawVidQLen

/-- Who sends events. -/
inductive Producer
  /-- `raw_vid_vsync_cbr`. -/
  | vsync
  /-- `raw_vid_keypress_cbr`. -/
  | key
  /-- A task that runs `send_stop_command`. -/
  | stop (task : ℕ)
  deriving DecidableEq

/-- Where a call is. -/
inductive Call
  /-- There is no such call. -/
  | idle
  /-- Before `get_empty_event`, which has been tried again `tries` times. -/
  | getting (tries : ℕ)
  /-- With a record; `msg_queue_post` has been tried again `tries` times. -/
  | holding (event : EventId) (tries : ℕ)
  deriving DecidableEq

/-- The record in the hands of a call. -/
def Call.event? : Call → Option EventId
  | .holding event _ => some event
  | _ => none

@[simp] theorem Call.event?_idle : Call.idle.event? = none := rfl

@[simp] theorem Call.event?_getting (tries : ℕ) : (Call.getting tries).event? = none := rfl

@[simp] theorem Call.event?_holding (event : EventId) (tries : ℕ) :
    (Call.holding event tries).event? = some event := rfl

/-- The module. -/
structure RawVid where
  events : EventId → Event
  lastIndex : EventId
  preventRecording : Bool
  /-- `count`, the number of frames of the recording. -/
  count : ℕ
  captureFrames : Fin 2 → Option ℕ
  frame : Option ℕ
  queue : List EventId
  calls : Producer → Call
  /-- The number of tasks that were created to send a stop command and do not run yet. -/
  spawned : ℕ
  /-- The event that the worker has received. -/
  received : Option EventId
  worker : Worker

/-- `max_tries`. -/
def maxTries : ℕ := 10

namespace RawVid

variable (s : RawVid)

/-- A call goes on. -/
@[simp] def setCall (p : Producer) (call : Call) : RawVid :=
  { s with calls := Function.update s.calls p call }

/-- A task is created to send a stop command. -/
def spawnStop : RawVid :=
  { s with spawned := s.spawned + 1 }

/-- An event record is filled in. -/
@[simp] def setEvent (i : EventId) (event : Event) : RawVid :=
  { s with events := Function.update s.events i event }

/-! ### Getting a record -/

/-- The index after `last_index`, which is tried first. -/
def nextIndex : EventId :=
  s.lastIndex + 1

/-- The record that `get_empty_event` finds. -/
def findEmpty : Option EventId :=
  if (s.events s.nextIndex).type = .empty then some s.nextIndex
  else (List.finRange rawVidQLen).find? fun i => (s.events i).type = .empty

/-- `get_empty_event` for a call. Without `sem` the semaphore could not be taken. -/
def getEmptyEvent (sem : Bool) : RawVid × Option EventId :=
  if sem then
    let s' := { s with lastIndex := s.nextIndex }
    match s.findEmpty with
    | some i => (s'.setEvent i ⟨.preparing, none, 0, 0, 0⟩, some i)
    | none => (s', none)
  else (s.spawnStop, none)

/-- The queue has no room: `msg_queue_post` fails. -/
def Full : Prop :=
  rawVidQLen ≤ s.queue.length

instance : Decidable s.Full :=
  inferInstanceAs (Decidable (_ ≤ _))

/-- A record is put into the queue. -/
def post (i : EventId) : RawVid :=
  { s with queue := s.queue ++ [i] }

/-! ### The vsync callback -/

/-- The setup for the first frame of a recording; `alloc` has the answers of `fio_malloc`. -/
def vsyncSetup (alloc : Fin 2 → Option ℕ) : RawVid :=
  match alloc 0, alloc 1 with
  | some p, some q =>
    { s with captureFrames := fun b => if b = 0 then some p else some q, frame := some p }.setCall
      .vsync (.getting 0)
  | none, _ => { s with captureFrames := Function.update s.captureFrames 0 none }.spawnStop
  | some _, none => { s with captureFrames := fun _ => none }.spawnStop

/-- The callback up to `get_empty_event`. With `rawInfo` the dimensions of the image are known. -/
def vsyncBegin (rawInfo : Bool) (alloc : Fin 2 → Option ℕ) : Option RawVid :=
  if s.calls .vsync = .idle then
    if s.worker.recordingState ≠ .active then some s
    else if s.preventRecording then some { s with count := 0, captureFrames := fun _ => none }
    else if rawInfo = false then some s
    else if s.count = 0 then some ({ s with count := 1 }.vsyncSetup alloc)
    else some ({ s with count := s.count + 1 }.setCall .vsync (.getting 0))
  else none

/-- The callback gets a record, or has the recording stopped. -/
def vsyncGet (sem : Bool) : Option RawVid :=
  match s.calls .vsync with
  | .getting _ =>
    match s.getEmptyEvent sem with
    | (s, none) => some (s.spawnStop.setCall .vsync .idle)
    | (s, some i) => some (s.setCall .vsync (.holding i 0))
  | _ => none

/-- The event for an image in the capture buffer `frame`. -/
def imageEvent (frame : Option ℕ) : Event :=
  ⟨.imageData, frame, 1280, 720, 1280 * 720 * 14 / 8⟩

/-- The capture buffers are swapped. -/
def swapFrame : RawVid :=
  { s with frame := if s.frame = s.captureFrames 0 then s.captureFrames 1 else s.captureFrames 0 }

/-- The rest of the callback: the record is filled in, the buffers are swapped, and the record is
posted. It is not posted for the first frame. -/
def vsyncPost : Option RawVid :=
  match s.calls .vsync with
  | .holding i _ =>
    let t := (s.setEvent i (imageEvent s.frame)).swapFrame
    if s.count > 1 then
      if s.Full then some (t.spawnStop.setCall .vsync .idle)
      else some ((t.post i).setCall .vsync .idle)
    else some (t.setCall .vsync .idle)
  | _ => none

/-! ### The key handler -/

/-- The record key is pressed. -/
def keyBegin : Option RawVid :=
  if s.calls .key = .idle then
    match s.worker.recordingState with
    | .active => some s.spawnStop
    | .inactive => some (s.setCall .key (.getting 0))
    | .error => some s
  else none

/-- The handler gets a record, or gives up. -/
def keyGet (sem : Bool) : Option RawVid :=
  match s.calls .key with
  | .getting _ =>
    match s.getEmptyEvent sem with
    | (s, none) => some (s.setCall .key .idle)
    | (s, some i) => some (s.setCall .key (.holding i 0))
  | _ => none

/-- The start command is posted. -/
def keyPost : Option RawVid :=
  match s.calls .key with
  | .holding i _ =>
    let t := s.setEvent i ⟨.commandStart, none, 1280, 720, 0⟩
    if s.Full then some (t.setCall .key .idle) else some ((t.post i).setCall .key .idle)
  | _ => none

/-! ### Stop commands -/

/-- A task begins to send a stop command. -/
def stopBegin (task : ℕ) : Option RawVid :=
  if s.calls (.stop task) = .idle ∧ s.spawned ≠ 0 then
    some ({ s with preventRecording := true, spawned := s.spawned - 1 }.setCall (.stop task)
      (.getting 0))
  else none

/-- The task tries to get a record. A record from the last try is not used. -/
def stopGet (task : ℕ) (sem : Bool) : Option RawVid :=
  match s.calls (.stop task) with
  | .getting tries =>
    match s.getEmptyEvent sem with
    | (s, none) =>
      if tries < maxTries then some (s.setCall (.stop task) (.getting (tries + 1)))
      else some (s.setCall (.stop task) .idle)
    | (s, some i) =>
      if tries = maxTries then some (s.setCall (.stop task) .idle)
      else some (s.setCall (.stop task) (.holding i 0))
  | _ => none

/-- The task tries to post the stop command. -/
def stopPost (task : ℕ) : Option RawVid :=
  match s.calls (.stop task) with
  | .holding i tries =>
    let t := s.setEvent i { s.events i with type := .commandStop }
    if s.Full then
      if tries < maxTries then some (t.setCall (.stop task) (.holding i (tries + 1)))
      else some (t.setCall (.stop task) .idle)
    else some ((t.post i).setCall (.stop task) .idle)
  | _ => none

/-! ### The worker -/

/-- The worker receives an event. -/
def workerReceive : Option RawVid :=
  match s.received, s.queue with
  | none, i :: queue => some { s with received := some i, queue }
  | _, _ => none

/-- The worker handles the event and releases the record. -/
def workerHandle (answers : Worker.Answers) : Option RawVid :=
  match s.received with
  | some i =>
    some { s.setEvent i { s.events i with type := .empty } with
      received := none
      worker := s.worker.handle (s.events i) answers }
  | none => none

/-- A step of a `raw_write` task. -/
def writeStep (next : Option Worker) : Option RawVid :=
  next.map fun worker => { s with worker }

end RawVid

/-! ### Runs -/

/-- A step of a call or of a task. -/
inductive Op
  | vsyncBegin (rawInfo : Bool) (alloc : Fin 2 → Option ℕ)
  | vsyncGet (sem : Bool)
  | vsyncPost
  | keyBegin
  | keyGet (sem : Bool)
  | keyPost
  | stopBegin (task : ℕ)
  | stopGet (task : ℕ) (sem : Bool)
  | stopPost (task : ℕ)
  | workerReceive
  | workerHandle (answers : Worker.Answers)
  | edmacDone
  | writeBegin (b : Fin 2)
  | writeEnd (b : Fin 2)

/-- `none` where the call or the task is not at that step. -/
def Op.step (s : RawVid) : Op → Option RawVid
  | .vsyncBegin rawInfo alloc => s.vsyncBegin rawInfo alloc
  | .vsyncGet sem => s.vsyncGet sem
  | .vsyncPost => s.vsyncPost
  | .keyBegin => s.keyBegin
  | .keyGet sem => s.keyGet sem
  | .keyPost => s.keyPost
  | .stopBegin task => s.stopBegin task
  | .stopGet task sem => s.stopGet task sem
  | .stopPost task => s.stopPost task
  | .workerReceive => s.workerReceive
  | .workerHandle answers => s.workerHandle answers
  | .edmacDone => some { s with worker := s.worker.edmacDone }
  | .writeBegin b => s.writeStep (s.worker.writeBegin b)
  | .writeEnd b => s.writeStep (s.worker.writeEnd b)

/-- The module after `init`; `init_worker` allows recordings. -/
def RawVid.init : RawVid where
  events := fun _ => ⟨.empty, none, 0, 0, 0⟩
  lastIndex := 0
  preventRecording := false
  count := 0
  captureFrames := fun _ => none
  frame := none
  queue := []
  calls := fun _ => .idle
  spawned := 0
  received := none
  worker := .init

/-- The state after the given steps. -/
def RawVid.run (s : RawVid) (ops : List Op) : Option RawVid :=
  ops.foldlM Op.step s

end MagicLantern.RawVidx

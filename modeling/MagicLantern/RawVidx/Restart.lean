import MagicLantern.RawVidx.EventOwnership
import MagicLantern.RawVidx.WorkerState

/-!
# Starting again

When a recording is over, it should be possible to start another one: the producer must not be
prevented from sending images, and the worker must have no buffer, no file and no session. A start
command then leads to a recording, and the next vsync captures a frame.

The flag `prevent_recording` is set when a stop command is sent, and the worker, which should clear
it, does so once only, when the module is loaded. So after the first stop command no frame is
captured any more. And a start command for which the file cannot be created leaves the worker with
buffers, so that it ignores all other start commands.

## Main results

* `run_restartable_iff` — when another recording is possible.
* `run_stop_prevents`.
-/

namespace MagicLantern.RawVidx

open Option

/-- Another recording can be started. -/
structure RawVid.Restartable (s : RawVid) : Prop where
  prevent : s.preventRecording = false
  cropBuf : s.worker.cropBuf = none
  file : s.worker.rawVidFp = none
  session : s.worker.session.inProgress = false

/-- A stop command is sent, or a start command fails for want of a file. -/
def Op.Blocks (s : RawVid) : Op → Prop
  | .stopBegin _ => True
  | .workerHandle answers => ∃ i ∈ s.received, s.worker.Accepts (s.events i) ∧
      Worker.Allocated answers.malloc ∧ answers.create = false
  | _ => False

instance (s : RawVid) : DecidablePred (Op.Blocks s) := by
  rintro ⟨⟩ <;> dsimp only [Op.Blocks] <;> infer_instance

/-- The states of the runs in which no step blocks: no stop command has been sent, so that a worker
that is not recording has never recorded. -/
structure RawVid.Fresh (s : RawVid) : Prop where
  prevent : s.preventRecording = false
  stops : ∀ task, s.calls (.stop task) = .idle
  events : ∀ i, (s.events i).type ≠ .commandStop
  consistent : s.worker.Consistent
  cropBuf : s.worker.recordingState = .inactive → s.worker.cropBuf = none
  count : s.worker.recordingState = .inactive → s.count = 0

/-- No start command leads to a recording with images. -/
def RawVid.Blocked (s : RawVid) : Prop :=
  s.preventRecording = true ∨ s.worker.recordingState = .inactive ∧ s.worker.cropBuf ≠ none

variable {s s' : RawVid} {op : Op} {k k' : Worker} {b : Fin 2} {i : EventId} {tries : ℕ}

/-! ### Steps that do not block -/

theorem RawVid.Fresh.of_callStep (h : s.Fresh) (hcall : CallStep s s') : s'.Fresh where
  prevent := hcall.prevent.trans h.prevent
  stops task := (hcall.stops task).trans (h.stops task)
  events i hi := h.events i (hcall.events i hi)
  consistent := by
    rw [hcall.worker]
    exact h.consistent
  cropBuf := by
    rw [hcall.worker]
    exact h.cropBuf
  count := by
    intro hstate
    rw [hcall.worker] at hstate
    rw [hcall.count (by simp [hstate]), h.count hstate]

theorem RawVid.Fresh.of_worker (h : s.Fresh) (hk : k.Consistent)
    (hstate : k.recordingState = .inactive → s.worker.recordingState = .inactive)
    (hfree : k.recordingState = .inactive → k.cropBuf = none) : { s with worker := k }.Fresh where
  __ := h
  consistent := hk
  cropBuf := hfree
  count hs := h.count (hstate hs)

theorem Worker.imageData_of_inactive (hstate : k.recordingState = .inactive) (event : Event) :
    k.imageData event = k := by
  simp [Worker.imageData, hstate]

/-- No recording ends without a stop command, and without a file there is no buffer. -/
theorem Worker.handle_fresh {event : Event} {answers : Answers} (h : k.Consistent)
    (htype : event.type ≠ .commandStop) (hfree : k.recordingState = .inactive → k.cropBuf = none)
    (hgood : ¬ (k.Accepts event ∧ Allocated answers.malloc ∧ answers.create = false))
    (hstate : (k.handle event answers).recordingState = .inactive) :
    k.recordingState = .inactive ∧ (k.handle event answers).cropBuf = none := by
  unfold handle at hstate ⊢
  split
  case h_1 htype' =>
    simp only [htype', (imageData_open event).1] at hstate
    rw [imageData_of_inactive hstate]
    exact ⟨hstate, hfree hstate⟩
  case h_2 htype' =>
    simp only [htype'] at hstate
    by_cases hstart : k.Accepts event ∧ Allocated answers.malloc
    · have hcreate : answers.create = true := by
        simpa using fun hno => hgood ⟨hstart.1, hstart.2, hno⟩
      rw [hcreate, commandStart_active h hstart.1 hstart.2] at hstate
      cases hstate
    · rw [commandStart_eq_self h htype' hstart] at hstate ⊢
      exact ⟨hstate, hfree hstate⟩
  case h_3 htype' => exact absurd htype' htype
  case h_4 htype' =>
    simp only [htype'] at hstate
    exact ⟨hstate, hfree hstate⟩
  case h_5 htype' =>
    simp only [htype'] at hstate
    exact ⟨hstate, hfree hstate⟩

theorem fresh_workerHandle (h : s.Fresh) {answers : Worker.Answers}
    (hgood : ¬ (Op.workerHandle answers).Blocks s) (hs : s.workerHandle answers = some s') :
    s'.Fresh := by
  obtain ⟨i, hi, rfl⟩ := workerHandle_eq hs
  have hgood' : ¬ (s.worker.Accepts (s.events i) ∧ Worker.Allocated answers.malloc ∧
      answers.create = false) := fun hbad => hgood ⟨i, hi, hbad⟩
  have hfresh := fun hstate =>
    Worker.handle_fresh h.consistent (h.events i) h.cropBuf hgood' hstate
  have hworker := h.of_worker (h.consistent.handle answers) (fun hs => (hfresh hs).1)
    (fun hs => (hfresh hs).2)
  refine ⟨hworker.prevent, hworker.stops, fun j => ?_, hworker.consistent, hworker.cropBuf,
    hworker.count⟩
  by_cases hj : j = i
  · subst hj
    simp
  · simpa [hj] using h.events j

theorem fresh_writeStep (h : s.Fresh) (hk : k.Consistent) (hopen : k.recordingState =
      s.worker.recordingState ∧ k.cropBuf = s.worker.cropBuf) : { s with worker := k }.Fresh := by
  refine h.of_worker hk (fun hs => hopen.1 ▸ hs) fun hs => ?_
  rw [hopen.2]
  exact h.cropBuf (hopen.1 ▸ hs)

theorem fresh_step (h : s.Fresh) (hgood : ¬ op.Blocks s) (hs : op.step s = some s') : s'.Fresh := by
  cases op with
  | vsyncBegin rawInfo alloc => exact h.of_callStep (callStep_vsyncBegin hs)
  | vsyncGet sem => exact h.of_callStep (callStep_vsyncGet hs)
  | vsyncPost => exact h.of_callStep (callStep_vsyncPost hs)
  | keyBegin => exact h.of_callStep (callStep_keyBegin hs)
  | keyGet sem => exact h.of_callStep (callStep_keyGet hs)
  | keyPost => exact h.of_callStep (callStep_keyPost hs)
  | stopBegin task => exact absurd trivial hgood
  -- No task sends a stop command.
  | stopGet task sem => simp [Op.step, RawVid.stopGet, h.stops task] at hs
  | stopPost task => simp [Op.step, RawVid.stopPost, h.stops task] at hs
  | workerReceive =>
    obtain ⟨i, queue, -, rfl⟩ := workerReceive_eq hs
    exact { h with }
  | workerHandle answers => exact fresh_workerHandle h hgood hs
  | edmacDone =>
    cases hs
    exact fresh_writeStep h h.consistent.edmacDone ⟨rfl, rfl⟩
  | writeBegin b =>
    obtain ⟨k, hk, rfl⟩ := map_eq_some_iff.1 hs
    exact fresh_writeStep h (h.consistent.writeBegin hk) (Worker.writeBegin_keeps hk).2
  | writeEnd b =>
    obtain ⟨k, hk, rfl⟩ := map_eq_some_iff.1 hs
    exact fresh_writeStep h (h.consistent.writeEnd hk) (Worker.writeEnd_keeps hk).2

/-! ### Steps that block -/

theorem blocked_of_blocks (h : s.Fresh) (hbad : op.Blocks s) (hs : op.step s = some s') :
    s'.Blocked := by
  cases op with
  | stopBegin task => exact .inl (stopBegin_keeps hs).2
  | workerHandle answers =>
    obtain ⟨i, hi, haccepts, halloc, hcreate⟩ := hbad
    obtain ⟨j, hj, rfl⟩ := workerHandle_eq hs
    obtain rfl := some.inj (hi.symm.trans hj)
    refine .inr ?_
    simp only [Worker.handle, haccepts.type, hcreate,
      Worker.commandStart_fails h.consistent haccepts halloc]
    exact ⟨haccepts.inactive, by simp⟩
  | _ => exact hbad.elim

/-- Commands are ignored, and no image is expected. -/
theorem Worker.handle_of_blocked (hstate : k.recordingState = .inactive) (hbuf : k.cropBuf ≠ none)
    (event : Event) (answers : Answers) : k.handle event answers = k := by
  unfold handle
  split
  · exact imageData_of_inactive hstate event
  · simp [commandStart, hbuf]
  · exact commandStop_of_inactive hstate
  · rfl
  · rfl

theorem blocked_step (h : s.Blocked) (hs : op.step s = some s') : s'.Blocked := by
  rcases h with hprevent | ⟨hstate, hbuf⟩
  · exact .inl ((step_keeps hs).2 hprevent)
  · have hopen {k : Worker} (hk : k.recordingState = s.worker.recordingState ∧
        k.cropBuf = s.worker.cropBuf) : k.recordingState = .inactive ∧ k.cropBuf ≠ none :=
      ⟨hk.1.trans hstate, hk.2 ▸ hbuf⟩
    have hworker := (step_keeps hs).1
    refine .inr ?_
    generalize s'.worker = k at hworker
    cases hworker with
    | call => exact ⟨hstate, hbuf⟩
    | handle hi answers =>
      rw [Worker.handle_of_blocked hstate hbuf]
      exact ⟨hstate, hbuf⟩
    | edmacDone => exact ⟨hstate, hbuf⟩
    | writeBegin hk => exact hopen (Worker.writeBegin_keeps hk).2
    | writeEnd hk => exact hopen (Worker.writeEnd_keeps hk).2

/-! ### A recording from a fresh state -/

theorem RawVid.findEmpty_ne_none (h : (s.events i).type = .empty) : s.findEmpty ≠ none := by
  rw [findEmpty]
  split_ifs
  · simp
  · intro hnone
    have := List.find?_eq_none.1 hnone i (List.mem_finRange i)
    simp [h] at this

theorem vsyncGet_holding (hcall : s.calls .vsync = .getting tries)
    (hi : (s.events i).type = .empty) :
    ∃ t j, s.vsyncGet true = some t ∧ t.calls .vsync = .holding j 0 ∧ t.frame = s.frame ∧
      t.captureFrames = s.captureFrames := by
  obtain ⟨j, hj⟩ := ne_none_iff_exists'.1 (RawVid.findEmpty_ne_none hi)
  simp only [RawVid.vsyncGet, hcall, RawVid.getEmptyEvent, hj]
  refine ⟨_, j, rfl, ?_, rfl, rfl⟩
  simp

/-- The callback has the next image captured into the other buffer. -/
theorem vsyncPost_frame (hcall : s.calls .vsync = .holding i tries) :
    ∃ t, s.vsyncPost = some t ∧ t.frame = s.swapFrame.frame := by
  simp only [RawVid.vsyncPost, hcall]
  split_ifs <;> exact ⟨_, rfl, rfl⟩

/-- The vsync callback at the beginning of a recording: the next image goes to the second
capture buffer. -/
theorem run_firstVsync (hstate : s.worker.recordingState = .active)
    (hprevent : s.preventRecording = false) (hcount : s.count = 0) (hidle : s.calls .vsync = .idle)
    (hi : (s.events i).type = .empty) {alloc : Fin 2 → Option ℕ} {p q : ℕ} (hp : alloc 0 = some p)
    (hq : alloc 1 = some q) :
    ∃ u, s.run [.vsyncBegin true alloc, .vsyncGet true, .vsyncPost] = some u ∧
    u.frame = some q := by
  obtain ⟨t, hbegin, hcall, hframe, hframes, hevents⟩ : ∃ t, s.vsyncBegin true alloc = some t ∧
      t.calls .vsync = .getting 0 ∧ t.frame = some p ∧
      t.captureFrames = (fun b => if b = 0 then some p else some q) ∧ t.events = s.events := by
    simp [RawVid.vsyncBegin, hidle, hstate, hprevent, hcount, RawVid.vsyncSetup, hp, hq]
  obtain ⟨u, j, hget, hcall, hframe', hframes'⟩ := vsyncGet_holding hcall (i := i) (hevents ▸ hi)
  obtain ⟨v, hpost, hnext⟩ := vsyncPost_frame hcall
  refine ⟨v, ?_, ?_⟩
  · simp [RawVid.run, Op.step, hbegin, hget, hpost]
  · simp [hnext, RawVid.swapFrame, hframe', hframes', hframe, hframes]

theorem fresh_init : RawVid.init.Fresh :=
  ⟨rfl, fun _ => rfl, fun _ => by simp [RawVid.init], Worker.consistent_init, fun _ => rfl,
    fun _ => rfl⟩

/-- **Starting again.** In a state in which the worker does not record another recording can be
started exactly if no step has blocked it. A start command then leads to a recording, and the
next vsync has an image captured. -/
theorem run_restartable_iff (ops : List Op) (s : RawVid) (hrun : RawVid.init.run ops = some s)
    (hstate : s.worker.recordingState = .inactive) :
    (s.Restartable ↔ Runs.Meets Op.step (fun s op => ¬ op.Blocks s) .init ops) ∧
    (s.Restartable → ∀ i ∈ s.received, (s.events i).type = .commandStart →
      (s.events i).w ≠ 0 → (s.events i).h ≠ 0 →
      ∀ answers : Worker.Answers, Worker.Allocated answers.malloc → answers.create = true →
      ∃ t, (Op.workerHandle answers).step s = some t ∧ t.worker.recordingState = .active ∧
        (t.calls .vsync = .idle → ∀ alloc p q, alloc 0 = some p → alloc 1 = some q →
          ∃ u, t.run [.vsyncBegin true alloc, .vsyncGet true, .vsyncPost] = some u ∧
            u.frame = some q)) := by
  obtain ⟨hfresh, hblocked⟩ := Runs.invariant_or (I := RawVid.Fresh) (B := RawVid.Blocked)
    (P := fun s op => ¬ op.Blocks s)
    (fun s op s' h hgood hs => fresh_step h hgood hs)
    (fun s op s' h hbad hs => blocked_of_blocks h (not_not.1 hbad) hs)
    (fun s op s' h hs => blocked_step h hs) hrun fresh_init
  have hmeets : s.Restartable → Runs.Meets Op.step (fun s op => ¬ op.Blocks s) .init ops := by
    intro h
    by_contra hno
    rcases hblocked hno with hprevent | ⟨-, hbuf⟩
    · simp [h.prevent] at hprevent
    · exact hbuf h.cropBuf
  refine ⟨⟨hmeets, fun h => ?_⟩, ?_⟩
  · have hs := hfresh h
    obtain ⟨hfile, hsession⟩ := hs.consistent.inactive hstate
    exact ⟨hs.prevent, hs.cropBuf hstate, hfile, hsession⟩
  · intro h i hi htype hw hh answers halloc hcreate
    have hs := hfresh (hmeets h)
    have haccepts : s.worker.Accepts (s.events i) := ⟨htype, hw, hh, hstate, h.cropBuf⟩
    have hactive : (s.worker.handle (s.events i) answers).recordingState = .active := by
      simp only [Worker.handle, htype, hcreate,
        Worker.commandStart_active hs.consistent haccepts halloc]
    obtain ⟨t, ht⟩ : ∃ t, s.workerHandle answers = some t := by
      simp [RawVid.workerHandle, mem_def.1 hi]
    obtain ⟨j, hj, rfl⟩ := workerHandle_eq ht
    obtain rfl := some.inj (hj.symm.trans hi)
    refine ⟨_, ht, hactive, fun hidle alloc p q hp hq => ?_⟩
    apply run_firstVsync (i := j)
    · exact hactive
    · exact hs.prevent
    · exact hs.count hstate
    · exact hidle
    · simp
    · exact hp
    · exact hq

/-- There is no memory. -/
def noMemory : Worker.Answers := ⟨fun _ => (some 0x8000000, none), true, by decide⟩

/-- A start command fails for want of memory: the recording can be started later. -/
theorem run_restartable_noMemory :
    ∃ s, RawVid.init.run [.keyBegin, .keyGet true, .keyPost, .workerReceive,
      .workerHandle noMemory] = some s ∧ s.Restartable :=
  ⟨_, rfl, (run_restartable_iff [.keyBegin, .keyGet true, .keyPost, .workerReceive,
    .workerHandle noMemory] _ rfl rfl).1.2 (by decide +kernel)⟩

/-- A recording that is started and stopped. There is nothing left to do, but no image is captured
any more: in the next recording the vsync callback does nothing. -/
theorem run_stop_prevents :
    ∃ s, RawVid.init.run (startRecording ++ stopRecording) = some s ∧
      s.worker.recordingState = .inactive ∧ s.queue = [] ∧ s.received = none ∧ s.spawned = 0 ∧
      (∀ p, s.calls p = .idle) ∧ s.preventRecording = true ∧
      ∃ t, s.run startRecording = some t ∧ t.worker.recordingState = .active ∧
        ∃ u, t.run [.vsyncBegin true (fun _ => some 0xC000000)] = some u ∧
          u.calls .vsync = .idle ∧ u.frame = none := by
  refine ⟨_, rfl, rfl, rfl, rfl, rfl, fun p => ?_, rfl, _, rfl, rfl, _, rfl, rfl, rfl⟩
  cases p with
  | vsync => rfl
  | key => rfl
  | stop task => cases task <;> rfl

end MagicLantern.RawVidx

import MagicLantern.RawVidx.Events

/-!
# What the worker has open

The worker has a file and a session exactly during a recording, and no crop buffers when it is ready
for a start command. So a start command has one of four results, and a stop command one.
-/

namespace MagicLantern.RawVidx

open Option

/-- The size of the headers. -/
def headerBytes : ℕ := headerBlockSizes.sum

namespace Worker

/-- What is open when. -/
structure Consistent (k : Worker) : Prop where
  state : k.recordingState = .inactive ∨ k.recordingState = .active
  inactive : k.recordingState = .inactive → k.rawVidFp = none ∧ k.session.inProgress = false
  active : k.recordingState = .active →
    k.rawVidFp ≠ none ∧ k.session.inProgress = true ∧ k.headerSize = headerBytes
  null : ∀ b, (k.cropBufs b).buf = none → k.cropBufs b = .null
  freed : k.recordingState = .inactive → k.cropBuf = none → ∀ b, k.cropBufs b = .null

/-- Both buffers can be allocated. -/
def Allocated (malloc : ℕ → Option ℕ × Option ℕ) : Prop :=
  ∃ bufSize ∈ cropBufSizes, (malloc bufSize).1 ≠ none ∧ (malloc bufSize).2 ≠ none

instance (malloc : ℕ → Option ℕ × Option ℕ) : Decidable (Allocated malloc) :=
  inferInstanceAs (Decidable (∃ _ ∈ _, _))

/-- A start command to a worker that waits for one. -/
@[mk_iff]
structure Accepts (k : Worker) (event : Event) : Prop where
  type : event.type = .commandStart
  width : event.w ≠ 0
  height : event.h ≠ 0
  inactive : k.recordingState = .inactive
  free : k.cropBuf = none

instance (k : Worker) (event : Event) : Decidable (k.Accepts event) :=
  decidable_of_iff _ (accepts_iff ..).symm

variable {k k' : Worker} {event : Event} {malloc : ℕ → Option ℕ × Option ℕ} {create : Bool}
  {b : Fin 2}

/-! ### Crop buffers -/

theorem start_ofBlock_ne_zero (p bufSize : ℕ) : (CropBuf.ofBlock p bufSize).start ≠ 0 := by
  simp only [CropBuf.ofBlock, Memory.uncacheable]
  split_ifs <;> omega

theorem allocPair_eq_some {bufSize : ℕ} {pair : CropBuf × CropBuf} :
    allocPair malloc bufSize = some pair ↔
      ∃ p q, malloc bufSize = (some p, some q) ∧
        pair = (.ofBlock p bufSize, .ofBlock q bufSize) := by
  unfold allocPair
  split
  case h_1 p q hmalloc => simp [hmalloc, eq_comm]
  case h_2 hno =>
    refine iff_of_false (by simp) ?_
    rintro ⟨p, q, hmalloc, -⟩
    exact hno p q hmalloc

theorem allocated_iff : Allocated malloc ↔ cropBufSizes.findSome? (allocPair malloc) ≠ none := by
  rw [Ne, List.findSome?_eq_none_iff]
  push Not
  refine exists_congr fun bufSize => and_congr_right fun _ => ?_
  rcases hmalloc : malloc bufSize with ⟨a, b⟩
  cases a <;> cases b <;> simp [allocPair, hmalloc]

theorem allocCropBufs_eq_ofBlock (hnull : ∀ b, k.cropBufs b = .null) (h : Allocated malloc) :
    ∃ bufSize ∈ cropBufSizes, ∃ p q, malloc bufSize = (some p, some q) ∧
      allocCropBufs k.cropBufs malloc = fun b =>
        if b = 0 then .ofBlock p bufSize else .ofBlock q bufSize := by
  have hbuf : ¬ ((k.cropBufs 0).buf ≠ none ∨ (k.cropBufs 1).buf ≠ none) := by
    simp [hnull, CropBuf.null]
  obtain ⟨pair, hpair⟩ := ne_none_iff_exists'.1 (allocated_iff.1 h)
  obtain ⟨bufSize, hmem, hsome⟩ := List.exists_of_findSome?_eq_some hpair
  obtain ⟨p, q, hmalloc, rfl⟩ := allocPair_eq_some.1 hsome
  refine ⟨bufSize, hmem, p, q, hmalloc, ?_⟩
  rw [allocCropBufs, if_neg hbuf, hpair]

theorem allocCropBufs_eq_self (h : ¬ Allocated malloc) :
    allocCropBufs k.cropBufs malloc = k.cropBufs := by
  have hnone : cropBufSizes.findSome? (allocPair malloc) = none := by
    simpa [allocated_iff] using h
  rw [allocCropBufs, hnone, ite_self]

/-! ### Commands -/

/-- A start command that is not accepted, or for which there is no memory, does nothing. -/
theorem commandStart_eq_self (h : k.Consistent) (htype : event.type = .commandStart)
    (hno : ¬ (k.Accepts event ∧ Allocated malloc)) : k.commandStart event malloc create = k := by
  rw [commandStart]
  split_ifs with hskip
  · rfl
  · push Not at hskip
    obtain ⟨hw, hh, hstate, hfree⟩ := hskip
    have halloc : ¬ Allocated malloc := fun halloc => hno ⟨⟨htype, hw, hh, hstate, hfree⟩, halloc⟩
    have hnull := h.freed hstate hfree
    simp [allocCropBufs_eq_self halloc, hnull, CropBuf.null]

/-- With buffers, but without a file, the buffers are kept. -/
theorem commandStart_fails (h : k.Consistent) (ha : k.Accepts event) (halloc : Allocated malloc) :
    k.commandStart event malloc false =
      { k with cropBufs := allocCropBufs k.cropBufs malloc, cropBuf := some 0 } := by
  obtain ⟨bufSize, -, p, q, -, heq⟩ := allocCropBufs_eq_ofBlock (h.freed ha.inactive ha.free) halloc
  have hskip : ¬ (event.w = 0 ∨ event.h = 0 ∨ k.recordingState ≠ .inactive ∨ k.cropBuf ≠ none) := by
    simp [ha.width, ha.height, ha.inactive, ha.free]
  rw [commandStart, if_neg hskip]
  simp [heq, start_ofBlock_ne_zero]

/-- With buffers and a file a recording begins. -/
theorem commandStart_active (h : k.Consistent) (ha : k.Accepts event) (halloc : Allocated malloc) :
    k.commandStart event malloc true =
      { k with
        cropBufs := allocCropBufs k.cropBufs malloc
        cropBuf := some 0
        rawVidFp := some ⟨headerBytes, 0, []⟩
        session := ⟨true, 0⟩
        headerSize := headerBytes
        recordingState := .active } := by
  obtain ⟨bufSize, -, p, q, -, heq⟩ := allocCropBufs_eq_ofBlock (h.freed ha.inactive ha.free) halloc
  obtain ⟨hfile, hsession⟩ := h.inactive ha.inactive
  have hskip : ¬ (event.w = 0 ∨ event.h = 0 ∨ k.recordingState ≠ .inactive ∨ k.cropBuf ≠ none) := by
    simp [ha.width, ha.height, ha.inactive, ha.free]
  have hheaders : writeFileHeaders 1024 = headerBytes := rfl
  have hpos : headerBytes ≠ 0 := by decide
  rw [commandStart, if_neg hskip]
  simp [heq, start_ofBlock_ne_zero, hfile, startSession, hsession, hheaders, hpos]

/-- A stop command ends the recording. -/
theorem commandStop_eq (h : k.Consistent) (hstate : k.recordingState = .active) {file : MlvFile}
    (hfile : k.rawVidFp = some file) :
    k.commandStop =
      { k with
        cropBuf := none
        cropBufs := fun _ => .null
        rawVidFp := none
        files := k.files ++ [{ file with
          headerSize := headerBytes
          videoFrameCount := k.videoFrameCount }]
        session := { k.session with inProgress := false }
        recordingState := .inactive } := by
  have hsize : ¬ headerBytes < fileBlockSize := by decide
  have hbufs : (fun b => if (k.cropBufs b).buf ≠ none then CropBuf.null else k.cropBufs b) =
      fun _ => .null := by
    funext b
    split_ifs with hb
    · rfl
    · exact h.null b (not_not.1 hb)
  rw [commandStop, if_neg (not_not.2 hstate)]
  simp only [hbufs, hfile, (h.active hstate).2.2, if_neg hsize]

theorem commandStop_of_inactive (hstate : k.recordingState = .inactive) : k.commandStop = k := by
  simp [commandStop, hstate]

/-! ### Images -/

theorem headerFor_null (size : ℕ) (h : k.cropBufs b = .null) : k.headerFor b size = none := by
  simp [headerFor, writeVideoFrameHeader, h, CropBuf.null]

/-- An image is ignored, or it is for the buffer that is in use. -/
theorem imageData_cases (k : Worker) (event : Event) : k.imageData event = k ∨ ∃ b,
    k.recordingState = .active ∧ k.cropBuf = some b ∧
      event.size ≤ (k.cropBufs b).stop - (k.cropBufs b).start ∧
      k.imageData event = k.imageInto b event.size := by
  unfold imageData
  split_ifs with hskip
  · exact .inl rfl
  · push Not at hskip
    split
    · exact .inl rfl
    case h_2 b hb =>
      split_ifs with hsize
      · exact .inl rfl
      · exact .inr ⟨b, hskip.1, hb, Nat.not_lt.1 hsize, rfl⟩

/-- An image goes into a buffer or into none; then another buffer may be in use. -/
theorem imageInto_cases (k : Worker) (b : Fin 2) (size : ℕ) : ∃ cropBuf,
    k.imageInto b size = { k with cropBuf } ∨ ∃ b' hdr edmacFree writes,
      k.headerFor b' size = some hdr ∧
      k.imageInto b size = { k.appendFrame b' size hdr with cropBuf, edmacFree, writes } := by
  have hcopy (k : Worker) (flushSrc : Option (Fin 2)) :
      ∃ edmacFree writes, k.copyFrame flushSrc = { k with edmacFree, writes } := by
    rw [copyFrame]
    split_ifs
    · exact ⟨_, _, rfl⟩
    · exact ⟨_, _, rfl⟩
  unfold imageInto
  split
  case h_1 hdr hhdr =>
    obtain ⟨edmacFree, writes, heq⟩ := hcopy (k.appendFrame b size hdr) none
    exact ⟨_, .inr ⟨b, hdr, edmacFree, writes, hhdr, heq⟩⟩
  case h_2 =>
    split_ifs
    · exact ⟨none, .inl rfl⟩
    · split
      case h_1 => exact ⟨some (b + 1), .inl rfl⟩
      case h_2 hdr hhdr =>
        obtain ⟨edmacFree, writes, heq⟩ :=
          hcopy ({ k with cropBuf := some (b + 1) }.appendFrame (b + 1) size hdr) (some b)
        exact ⟨_, .inr ⟨b + 1, hdr, edmacFree, writes, hhdr, heq⟩⟩

theorem imageData_open (event : Event) :
    (k.imageData event).recordingState = k.recordingState ∧
      (k.imageData event).rawVidFp = k.rawVidFp ∧
      (k.imageData event).session.inProgress = k.session.inProgress ∧
      (k.imageData event).headerSize = k.headerSize ∧ (k.imageData event).files = k.files := by
  obtain heq | ⟨b, -, -, -, heq⟩ := k.imageData_cases event
  · simp [heq]
  · obtain ⟨cropBuf, heq' | ⟨b', hdr, edmacFree, writes, -, heq'⟩⟩ := k.imageInto_cases b event.size
    · simp [heq, heq']
    · simp [heq, heq', appendFrame]

/-- Only allocated buffers are filled. -/
theorem appendFrame_null (h : ∀ b, (k.cropBufs b).buf = none → k.cropBufs b = .null) {size : ℕ}
    {hdr : ℕ × Vidf} (hhdr : k.headerFor b size = some hdr) (b' : Fin 2)
    (hb' : ((k.appendFrame b size hdr).cropBufs b').buf = none) :
    (k.appendFrame b size hdr).cropBufs b' = .null := by
  by_cases hbb : b' = b
  · subst hbb
    have hbuf : (k.cropBufs b').buf = none := by simpa [appendFrame] using hb'
    simp [headerFor_null size (h b' hbuf)] at hhdr
  · simp only [appendFrame, Function.update_of_ne hbb] at hb' ⊢
    exact h b' hb'

theorem imageInto_null (h : ∀ b, (k.cropBufs b).buf = none → k.cropBufs b = .null) (b : Fin 2)
    (size : ℕ) (b' : Fin 2) (hb' : ((k.imageInto b size).cropBufs b').buf = none) :
    (k.imageInto b size).cropBufs b' = .null := by
  obtain ⟨cropBuf, heq | ⟨c, hdr, edmacFree, writes, hhdr, heq⟩⟩ := k.imageInto_cases b size
  · rw [heq] at hb' ⊢
    exact h b' hb'
  · rw [heq] at hb' ⊢
    exact appendFrame_null h hhdr b' hb'

/-! ### Buffers that are written -/

theorem writeBegin_keeps (hk : k.writeBegin b = some k') : k'.files = k.files ∧
    k'.recordingState = k.recordingState ∧ k'.cropBuf = k.cropBuf := by
  unfold writeBegin at hk
  split_ifs at hk
  dsimp only at hk
  split at hk
  · cases hk
    exact ⟨rfl, rfl, rfl⟩
  · split_ifs at hk
    all_goals
      cases hk
      exact ⟨rfl, rfl, rfl⟩

theorem writeEnd_keeps (hk : k.writeEnd b = some k') : k'.files = k.files ∧
    k'.recordingState = k.recordingState ∧ k'.cropBuf = k.cropBuf := by
  rw [writeEnd] at hk
  split_ifs at hk
  cases hk
  exact ⟨rfl, rfl, rfl⟩

/-! ### The invariant -/

section

variable (h : k.Consistent)
include h

theorem Consistent.imageData : (k.imageData event).Consistent := by
  obtain ⟨hstate, hfile, hsession, hheader, -⟩ := imageData_open (k := k) event
  obtain heq | ⟨b, hactive, -, -, heq⟩ := k.imageData_cases event
  · rw [heq]
    exact h
  · refine ⟨?_, ?_, ?_, heq ▸ imageInto_null h.null b event.size, ?_⟩
    · rw [hstate]
      exact h.state
    · rw [hstate, hfile, hsession]
      exact h.inactive
    · rw [hstate, hfile, hsession, hheader]
      exact h.active
    · rw [hstate, hactive]
      exact fun hs => by cases hs

theorem Consistent.commandStart (htype : event.type = .commandStart) :
    (k.commandStart event malloc create).Consistent := by
  by_cases ha : k.Accepts event ∧ Allocated malloc
  · obtain ⟨ha, halloc⟩ := ha
    obtain ⟨bufSize, -, p, q, -, heq⟩ :=
      allocCropBufs_eq_ofBlock (h.freed ha.inactive ha.free) halloc
    have hnull : ∀ b, (allocCropBufs k.cropBufs malloc b).buf = none →
        allocCropBufs k.cropBufs malloc b = .null := by
      intro b hb
      simp only [heq] at hb
      split_ifs at hb <;> simp [CropBuf.ofBlock] at hb
    cases create with
    | false =>
      rw [commandStart_fails h ha halloc]
      exact ⟨h.state, h.inactive, h.active, hnull, fun _ hb => by cases hb⟩
    | true =>
      rw [commandStart_active h ha halloc]
      exact ⟨.inr rfl, fun hs => (by cases hs), fun _ => ⟨by simp, rfl, rfl⟩, hnull,
        fun hs => by cases hs⟩
  · rw [commandStart_eq_self h htype ha]
    exact h

theorem Consistent.commandStop : k.commandStop.Consistent := by
  rcases h.state with hstate | hstate
  · rw [commandStop_of_inactive hstate]
    exact h
  · obtain ⟨file, hfile⟩ := ne_none_iff_exists'.1 (h.active hstate).1
    rw [commandStop_eq h hstate hfile]
    exact ⟨.inl rfl, fun _ => ⟨rfl, rfl⟩, fun hs => (by cases hs), fun _ _ => rfl, fun _ _ _ => rfl⟩

theorem Consistent.handle (answers : Answers) : (k.handle event answers).Consistent := by
  unfold Worker.handle
  split
  case h_1 => exact h.imageData
  case h_2 htype => exact h.commandStart htype
  case h_3 => exact h.commandStop
  case h_4 => exact h
  case h_5 => exact h

theorem Consistent.writeBegin (hk : k.writeBegin b = some k') : k'.Consistent := by
  unfold Worker.writeBegin at hk
  split_ifs at hk
  dsimp only at hk
  split at hk
  case h_1 =>
    cases hk
    exact { h with }
  case h_2 file hfile =>
    split_ifs at hk
    · cases hk
      exact { h with }
    · cases hk
      refine ⟨h.state, fun hs => ?_, fun hs => ?_, h.null, h.freed⟩
      · simp [(h.inactive hs).1] at hfile
      · exact ⟨by simp, (h.active hs).2⟩

theorem Consistent.writeEnd (hk : k.writeEnd b = some k') : k'.Consistent := by
  have hreset : k.cropBufs b = .null →
      { k.cropBufs b with cur := (k.cropBufs b).start, blocks := [] } = CropBuf.null := by
    intro hb
    rw [hb]
    rfl
  rw [Worker.writeEnd] at hk
  split_ifs at hk
  cases hk
  refine ⟨h.state, h.inactive, h.active, fun b' hb' => ?_, fun hs hfree b' => ?_⟩
  · by_cases hbb : b' = b
    · subst hbb
      simpa using hreset (h.null b' (by simpa using hb'))
    · simp only [Function.update_of_ne hbb] at hb' ⊢
      exact h.null b' hb'
  · by_cases hbb : b' = b
    · subst hbb
      simpa using hreset (h.freed hs hfree b')
    · simpa [hbb] using h.freed hs hfree b'

theorem Consistent.edmacDone : k.edmacDone.Consistent :=
  { h with }

end

theorem consistent_init : Worker.init.Consistent :=
  ⟨.inl rfl, fun _ => ⟨rfl, rfl⟩, fun hs => (by cases hs), fun _ _ => rfl, fun _ _ _ => rfl⟩

end Worker

/-! ### Steps of the module -/

variable {s s' t : RawVid} {op : Op} {sem : Bool} {task : ℕ}

/-- What a step of the module is for the worker. -/
inductive WorkerStep (s : RawVid) : Op → Worker → Prop
  | call {op : Op} (hop : ∀ answers, op ≠ .workerHandle answers) : WorkerStep s op s.worker
  | handle {i : EventId} (hi : s.received = some i) (answers : Worker.Answers) :
      WorkerStep s (.workerHandle answers) (s.worker.handle (s.events i) answers)
  | edmacDone : WorkerStep s .edmacDone s.worker.edmacDone
  | writeBegin {b : Fin 2} {k : Worker} (hk : s.worker.writeBegin b = some k) :
      WorkerStep s (.writeBegin b) k
  | writeEnd {b : Fin 2} {k : Worker} (hk : s.worker.writeEnd b = some k) :
      WorkerStep s (.writeEnd b) k

/-- What the vsync callback and the key handler leave alone: the worker, the stop commands, and,
before a recording, the number of frames. -/
structure CallStep (s s' : RawVid) : Prop where
  worker : s'.worker = s.worker
  prevent : s'.preventRecording = s.preventRecording
  stops : ∀ task, s'.calls (.stop task) = s.calls (.stop task)
  events : ∀ i, (s'.events i).type = .commandStop → (s.events i).type = .commandStop
  count : s.worker.recordingState ≠ .active → s'.count = s.count

theorem CallStep.refl (s : RawVid) : CallStep s s :=
  ⟨rfl, rfl, fun _ => rfl, fun _ h => h, fun _ => rfl⟩

section

variable (h : CallStep s t)
include h

theorem CallStep.setCall {p : Producer} (hp : ∀ task, p ≠ .stop task) (call : Call) :
    CallStep s (t.setCall p call) :=
  ⟨h.worker, h.prevent, fun task => by simp [(hp task).symm, h.stops], h.events,
    h.count⟩

theorem CallStep.spawnStop : CallStep s t.spawnStop :=
  { h with }

theorem CallStep.post (i : EventId) : CallStep s (t.post i) :=
  { h with }

theorem CallStep.swapFrame : CallStep s t.swapFrame :=
  { h with }

theorem CallStep.setEvent (i : EventId) {event : Event} (htype : event.type ≠ .commandStop) :
    CallStep s (t.setEvent i event) := by
  refine ⟨h.worker, h.prevent, h.stops, fun j hj => ?_, h.count⟩
  by_cases hji : j = i
  · subst hji
    simp [htype] at hj
  · exact h.events j (by simpa [hji] using hj)

end

theorem callStep_getEmptyEvent (s : RawVid) (sem : Bool) : CallStep s (s.getEmptyEvent sem).1 := by
  have hindex : CallStep s { s with lastIndex := s.nextIndex } :=
    ⟨rfl, rfl, fun _ => rfl, fun _ h => h, fun _ => rfl⟩
  unfold RawVid.getEmptyEvent
  split_ifs
  · split
    case h_1 i _ => exact hindex.setEvent i (by simp)
    case h_2 => exact hindex
  · exact (CallStep.refl s).spawnStop

theorem callStep_vsyncBegin {rawInfo : Bool} {alloc : Fin 2 → Option ℕ}
    (hs : s.vsyncBegin rawInfo alloc = some s') : CallStep s s' := by
  unfold RawVid.vsyncBegin at hs
  by_cases hidle : s.calls .vsync = .idle
  case neg => simp [hidle] at hs
  have hactive {t : RawVid} (hstate : ¬ s.worker.recordingState ≠ .active)
      (hworker : t.worker = s.worker) (hprevent : t.preventRecording = s.preventRecording)
      (hcalls : t.calls = s.calls) (hevents : t.events = s.events) : CallStep s t :=
    ⟨hworker, hprevent, fun _ => by rw [hcalls], fun _ => by rw [hevents]; exact id,
      fun h => absurd h hstate⟩
  split_ifs at hs with hstate
  · cases hs
    exact .refl s
  · cases hs
    exact hactive hstate rfl rfl rfl rfl
  · cases hs
    exact .refl s
  · cases hs
    unfold RawVid.vsyncSetup
    split
    · refine CallStep.setCall (p := .vsync) ?_ (by simp) _
      exact hactive hstate rfl rfl rfl rfl
    all_goals
      exact hactive hstate rfl rfl rfl rfl
  · cases hs
    refine CallStep.setCall (p := .vsync) ?_ (by simp) _
    exact hactive hstate rfl rfl rfl rfl

theorem callStep_vsyncGet (hs : s.vsyncGet sem = some s') : CallStep s s' := by
  have hget := callStep_getEmptyEvent s sem
  unfold RawVid.vsyncGet at hs
  split at hs
  case h_2 => simp at hs
  case h_1 =>
    split at hs
    case h_1 t ht =>
      cases hs
      rw [ht] at hget
      exact hget.spawnStop.setCall (by simp) _
    case h_2 t i ht =>
      cases hs
      rw [ht] at hget
      exact hget.setCall (by simp) _

theorem callStep_vsyncPost (hs : s.vsyncPost = some s') : CallStep s s' := by
  unfold RawVid.vsyncPost at hs
  split at hs
  case h_2 => simp at hs
  case h_1 i tries hcall =>
    have hfill : CallStep s (s.setEvent i (RawVid.imageEvent s.frame)).swapFrame :=
      ((CallStep.refl s).setEvent i (by simp [RawVid.imageEvent])).swapFrame
    split_ifs at hs
    · cases hs
      exact hfill.spawnStop.setCall (by simp) _
    · cases hs
      exact (hfill.post i).setCall (by simp) _
    · cases hs
      exact hfill.setCall (by simp) _

theorem callStep_keyBegin (hs : s.keyBegin = some s') : CallStep s s' := by
  unfold RawVid.keyBegin at hs
  split_ifs at hs
  split at hs
  · cases hs
    exact (CallStep.refl s).spawnStop
  · cases hs
    exact (CallStep.refl s).setCall (by simp) _
  · cases hs
    exact .refl s

theorem callStep_keyGet (hs : s.keyGet sem = some s') : CallStep s s' := by
  have hget := callStep_getEmptyEvent s sem
  unfold RawVid.keyGet at hs
  split at hs
  case h_2 => simp at hs
  case h_1 =>
    split at hs
    case h_1 t ht =>
      cases hs
      rw [ht] at hget
      exact hget.setCall (by simp) _
    case h_2 t i ht =>
      cases hs
      rw [ht] at hget
      exact hget.setCall (by simp) _

theorem callStep_keyPost (hs : s.keyPost = some s') : CallStep s s' := by
  unfold RawVid.keyPost at hs
  split at hs
  case h_2 => simp at hs
  case h_1 i tries hcall =>
    have hfill : CallStep s (s.setEvent i ⟨.commandStart, none, 1280, 720, 0⟩) :=
      (CallStep.refl s).setEvent i (by simp)
    split_ifs at hs
    · cases hs
      exact hfill.setCall (by simp) _
    · cases hs
      exact (hfill.post i).setCall (by simp) _

/-- The tasks that send stop commands leave the worker alone, and never allow recordings. -/
theorem stopBegin_keeps (hs : s.stopBegin task = some s') :
    s'.worker = s.worker ∧ s'.preventRecording = true := by
  rw [RawVid.stopBegin] at hs
  split_ifs at hs
  cases hs
  exact ⟨rfl, rfl⟩

theorem stopGet_keeps (hs : s.stopGet task sem = some s') :
    s'.worker = s.worker ∧ s'.preventRecording = s.preventRecording := by
  have hget := callStep_getEmptyEvent s sem
  unfold RawVid.stopGet at hs
  split at hs
  case h_2 => simp at hs
  case h_1 =>
    split at hs
    case h_1 t ht | h_2 t i ht =>
      rw [ht] at hget
      split_ifs at hs
      all_goals
        cases hs
        exact ⟨hget.worker, hget.prevent⟩

theorem stopPost_keeps (hs : s.stopPost task = some s') :
    s'.worker = s.worker ∧ s'.preventRecording = s.preventRecording := by
  unfold RawVid.stopPost at hs
  split at hs
  case h_2 => simp at hs
  case h_1 =>
    split_ifs at hs
    all_goals
      cases hs
      exact ⟨rfl, rfl⟩

theorem workerReceive_eq (hs : s.workerReceive = some s') :
    ∃ i queue, s.queue = i :: queue ∧ s' = { s with received := some i, queue } := by
  unfold RawVid.workerReceive at hs
  split at hs
  case h_2 => simp at hs
  case h_1 i queue _ hqueue => exact ⟨i, queue, hqueue, (some.inj hs).symm⟩

theorem workerHandle_eq {answers : Worker.Answers} (hs : s.workerHandle answers = some s') :
    ∃ i, s.received = some i ∧
      s' = { s.setEvent i { s.events i with type := .empty } with
        received := none
        worker := s.worker.handle (s.events i) answers } := by
  unfold RawVid.workerHandle at hs
  split at hs
  case h_2 => simp at hs
  case h_1 i hi => exact ⟨i, hi, (some.inj hs).symm⟩

/-- The calls leave the worker alone, and no step allows recordings. -/
theorem step_keeps (hs : op.step s = some s') : WorkerStep s op s'.worker ∧
    (s.preventRecording = true → s'.preventRecording = true) := by
  have hcall {op : Op} (hop : ∀ answers, op ≠ .workerHandle answers)
      (hworker : s'.worker = s.worker)
      (hprevent : s'.preventRecording = s.preventRecording) : WorkerStep s op s'.worker ∧
      (s.preventRecording = true → s'.preventRecording = true) := by
    rw [hworker, hprevent]
    exact ⟨.call hop, id⟩
  have hcallStep {op : Op} (hop : ∀ answers, op ≠ .workerHandle answers) (h : CallStep s s') :=
    hcall hop h.worker h.prevent
  cases op with
  | vsyncBegin rawInfo alloc => exact hcallStep (by simp) (callStep_vsyncBegin hs)
  | vsyncGet sem => exact hcallStep (by simp) (callStep_vsyncGet hs)
  | vsyncPost => exact hcallStep (by simp) (callStep_vsyncPost hs)
  | keyBegin => exact hcallStep (by simp) (callStep_keyBegin hs)
  | keyGet sem => exact hcallStep (by simp) (callStep_keyGet hs)
  | keyPost => exact hcallStep (by simp) (callStep_keyPost hs)
  | stopBegin task =>
    obtain ⟨hworker, hprevent⟩ := stopBegin_keeps hs
    rw [hworker]
    exact ⟨.call (by simp), fun _ => hprevent⟩
  | stopGet task sem => exact hcall (by simp) (stopGet_keeps hs).1 (stopGet_keeps hs).2
  | stopPost task => exact hcall (by simp) (stopPost_keeps hs).1 (stopPost_keeps hs).2
  | workerReceive =>
    obtain ⟨i, queue, -, rfl⟩ := workerReceive_eq hs
    exact hcall (by simp) rfl rfl
  | workerHandle answers =>
    obtain ⟨i, hi, rfl⟩ := workerHandle_eq hs
    exact ⟨.handle hi answers, id⟩
  | edmacDone =>
    cases hs
    exact ⟨.edmacDone, id⟩
  | writeBegin b =>
    obtain ⟨k, hk, rfl⟩ := map_eq_some_iff.1 hs
    exact ⟨.writeBegin hk, id⟩
  | writeEnd b =>
    obtain ⟨k, hk, rfl⟩ := map_eq_some_iff.1 hs
    exact ⟨.writeEnd hk, id⟩

end MagicLantern.RawVidx

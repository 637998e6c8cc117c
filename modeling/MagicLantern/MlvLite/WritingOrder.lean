import MagicLantern.MlvLite.PreRecord

/-!
# What is written, and in which order

The recording tasks take groups of frames from one ring. A task moves `writing_queue_head` behind
its group when it picks the group, and moves it there again when the group has been written. While
the tasks complete their groups in the order in which they have picked them, the second assignment
does no harm: the head stays, or it goes back to a group that is being written and that no task can
pick. A task that is overtaken by the other one moves the head back to slots that have been freed.

Source: `src/modules/raw_video/mlv_lite/mlv_lite.c`.

## Main results

* `run_exactlyOnce` — each frame is written once.
* `run_overtaken`.
-/

namespace MagicLantern.MlvLite

open List Option RingQueue SlotTable Tiling

/-! ### Recordings -/

/-- A recording: its settings, the memory for the frames and what the tasks find when they begin. -/
structure Recording where
  /-- The layout of the slots, with `max_frame_size`. -/
  layout : Layout
  preRecordNumFrames : ℤ
  /-- `rec_trigger` is `REC_TRIGGER_HALFSHUTTER_PRE_ONLY`. -/
  preOnly : Bool
  /-- The chunks of `shoot_mem_suite`. -/
  shoot : List MemChunk
  /-- The chunks of `srm_mem_suite`. -/
  srm : List MemChunk
  hdr : ℕ → MlvHdr
  writingQueue : ℕ → ℕ
  /-- `writing_queue_head` and `writing_queue_tail`. -/
  pos : ℕ
  frameCount : ℤ
  preRecord : Bool
  recTrigger : Bool
  skipFrames : ℕ
  fileSizeLimit : Bool
  /-- The sizes of the headers of the files. -/
  headers : Card → ℕ
  align : 512 ∣ layout.maxFrameSize
  size_pos : 0 < layout.maxFrameSize
  separate : Separate (shoot ++ srm)
  pos_lt : pos < queueSize
  frameCount_le : frameCount ≤ 0

namespace Recording

/-- The settings. -/
def settings (R : Recording) : Settings :=
  ⟨R.layout.maxFrameSize, R.preRecordNumFrames, R.preOnly⟩

/-- The memory for the frames. -/
def mem (R : Recording) : Set ℕ := covered (R.shoot ++ R.srm)

/-- The state at the start. -/
def start (R : Recording) : Recorder :=
  Recorder.start (Buffers.start R.layout R.shoot R.srm R.hdr) R.writingQueue R.pos R.frameCount
    R.preRecord R.recTrigger R.skipFrames R.fileSizeLimit R.headers

/-- The state after some steps; `none` when one of them is not enabled. -/
def run (R : Recording) (ops : List RecOp) : Option Recorder := R.start.run R.settings ops

theorem start_inv (R : Recording) {modules : Bool} {counted : Prop}
    (hmode : modules = true → R.preRecord = false ∧ R.recTrigger = false)
    (hmarks : counted → ∀ s ∈ R.start.slots, s.isMeta = false) :
    R.start.Inv R.settings R.mem modules counted [] [] [] := by
  have hfresh := (setupBuffers_layoutOk R.size_pos R.separate R.hdr).fresh
  have hentry (i : ℕ) : R.start.buf.table.entry i = none := by
    rw [entry_eq_none, SlotTable.frame]
    cases hs : R.start.buf.table.slots[i]? with
    | none => rfl
    | some s => exact FrameSlot.frame_of_isIdle (hfresh s (mem_of_getElem? hs)).1
  have hno : ¬ (R.start.ledger [] [] []).Holding := fun hhold => hhold.2 rfl
  have hcount := R.frameCount_le
  refine ⟨Buffers.start_inv R.size_pos R.separate R.hdr, fun s hs hidle => ?_,
    length_setupBuffers_le _ _ _ _, ⟨R.pos, R.pos_lt, trivial, (advance_zero R.pos_lt).symm, .nil _,
      .inl (advance_zero R.pos_lt).symm⟩, ?_, fun c => rfl, fun hmod => ?_,
    fun hc i s hs => ?_, fun _ c => ⟨rfl, by simp [start, Recorder.start]⟩⟩
  · simp [(hfresh s hs).1] at hidle
  · refine ⟨⟨nodup_nil, by simp [Recorder.ledger], by simp [Recorder.ledger]⟩,
      fun i e he => ?_, fun i e he => ?_, fun hhold => absurd hhold hno, fun i j e e' he => ?_, ?_,
      fun hhold => absurd hhold hno, fun _ _ => ?_, fun hmod => (hmode hmod).1⟩
    iterate 3 exact absurd he (by simp [Recorder.ledger, hentry])
    · have hnext : (R.start.ledger [] [] []).nextQueued = R.frameCount := if_neg hno
      have hzero : (R.frameCount - 1).toNat = 0 := by omega
      change [] = firstFrames ((R.start.ledger [] [] []).nextQueued - 1).toNat
      rw [hnext, hzero]
      rfl
    · change R.frameCount ≤ 1
      omega
  · simp [start, Recorder.start, hmode hmod]
  · rw [hmarks hc s (mem_of_getElem? hs), entry_eq_none.1 (hentry i)]
    rfl

end Recording

/-! ### Steps and runs -/

/-- The steps of the recordings considered: either there is no pre-recording and other modules have
their blocks written, or only frames are written and they are complete at each vsync. -/
def RecOp.Within (modules : Bool) (r : Recorder) : RecOp → Prop
  | .vsync => modules = false → r.Settled
  | .trigger on => modules = true → on = true
  | .releaseSlot _ write hdr => write = true → modules = true ∧ hdr.isVidf = false
  | _ => True

instance (modules : Bool) (r : Recorder) (op : RecOp) : Decidable (op.Within modules r) := by
  cases op <;> unfold RecOp.Within <;> infer_instance

/-- A task completes its group only if no group that was picked before is still being written. -/
def RecOp.InOrder (r : Recorder) : RecOp → Prop
  | .complete card _ => r.groups.head?.map Group.card = some card
  | _ => True

instance (r : Recorder) (op : RecOp) : Decidable (op.InOrder r) := by
  cases op <;> unfold RecOp.InOrder <;> infer_instance

/-- A task that picks a group counts its frames right. -/
def RecOp.GroupCounted (r : Recorder) : RecOp → Prop
  | .pick _ frameLimit => ∀ i first, r.waiting.head? = some i → r.slots[i]? = some first →
      first.status = .full → r.GroupCounted frameLimit first
  | _ => True

/-- **One step** keeps the invariant. -/
theorem Recorder.Inv.step {S : Settings} {mem : Set ℕ} {modules : Bool} {counted : Prop}
    {r r' : Recorder} {gs : List (List ℕ)} {rest : List ℕ} {log : List (Card × ℤ)} {op : RecOp}
    (h : r.Inv S mem modules counted gs rest log) (hM : 512 ∣ S.maxFrameSize)
    (hpos : 0 < S.maxFrameSize) (hwithin : op.Within modules r) (horder : op.InOrder r)
    (hcounted : counted → op.GroupCounted r) (hstep : op.step S r = some r') :
    ∃ gs' rest' log', r'.Inv S mem modules counted gs' rest' log' := by
  cases op with
  | vsync =>
    simp only [RecOp.step] at hstep
    split_ifs at hstep
    · cases hstep
      exact ⟨gs, rest, log, h⟩
    · obtain ⟨rest', h'⟩ := h.processFrame hpos hwithin hstep
      exact ⟨gs, rest', log, h'⟩
  | skipFrames count =>
    cases hstep
    exact ⟨gs, rest, log, h.of_core rfl⟩
  | trigger on =>
    cases hstep
    exact ⟨gs, rest, log, h.setMode h.ledger hwithin⟩
  | compress size => exact ⟨gs, rest, log, h.compress hM hpos hstep⟩
  | copy =>
    obtain ⟨r₁, hr₁, rfl⟩ := map_eq_some_iff.1 hstep
    exact ⟨gs, rest, log, (h.copy hM hpos hr₁).of_core rfl⟩
  | edmacDone =>
    cases hstep
    exact ⟨gs, rest, log, h.of_core rfl⟩
  | compressDone => exact ⟨gs, rest, log, h.compressDone hM hpos hstep⟩
  | getFreeSlot => exact ⟨gs, rest, log, h.getFreeSlot hM hpos hstep⟩
  | releaseSlot i write hdr =>
    obtain ⟨r₁, hr₁, rfl⟩ := map_eq_some_iff.1 hstep
    cases write with
    | false => exact ⟨gs, rest, log, h.releaseSlot_free hM hpos hr₁⟩
    | true =>
      obtain ⟨rfl, hhdr⟩ := hwithin rfl
      exact ⟨gs, rest ++ [i], log, h.releaseSlot_write hM hpos hhdr hr₁⟩
  | pick card limit =>
    obtain rfl | ⟨i, first, hi, hs, hfull, -, rfl⟩ := Recorder.pick_cases hstep
    · exact ⟨gs, rest, log, h⟩
    · obtain ⟨l, rest', -, h'⟩ := h.takeGroup hi hs hfull fun hc => hcounted hc i first hi hs hfull
      exact ⟨_, rest', log, h'⟩
  | complete card disk =>
    obtain ⟨l, gs', log', -, h'⟩ := h.complete horder hstep
    exact ⟨gs', rest, log', h'⟩

/-- **Every run** keeps the invariant, if the completions are in order. -/
theorem Recording.inv_run (R : Recording) {modules : Bool}
    (hmode : modules = true → R.preRecord = false ∧ R.recTrigger = false) {ops : List RecOp}
    (hwithin : Runs.Meets (RecOp.step R.settings) (fun r op => op.Within modules r) R.start ops)
    (horder : Runs.Meets (RecOp.step R.settings) (fun r op => op.InOrder r) R.start ops)
    {r : Recorder} (hrun : R.run ops = some r) :
    ∃ gs rest log, r.Inv R.settings R.mem modules False gs rest log := by
  refine Runs.invariant_of_meets
    (I := fun r => ∃ gs rest log, r.Inv R.settings R.mem modules False gs rest log) ?_
    (hwithin.and horder) hrun ⟨[], [], [], R.start_inv hmode False.elim⟩
  rintro r op r' ⟨gs, rest, log, h⟩ ⟨hw, ho⟩ hstep
  exact h.step R.align R.size_pos hw ho False.elim hstep

/-! ### The slots of the queue -/

namespace Recorder

/-- The slots that are being written, group by group. -/
def beingWritten (r : Recorder) : List ℕ :=
  r.groups.flatMap fun g => slice queueSize r.writingQueue g.wHead g.afterLastGrouped

/-- The slots in the queue that are not being written. -/
def unpicked (r : Recorder) : List ℕ := r.waiting.filter (· ∉ r.beingWritten)

/-- The number of frames that have been queued; frames held back have not. -/
def queuedFrames (r : Recorder) : ℕ :=
  ((if r.preRecording = true ∧ r.firstFrame ≠ 0 then r.firstFrame else r.frameCount) - 1).toNat

/-- **Exactly once**: the frames in the files, those that are being written and those that wait are
together the frames that have been queued, none of them missing or there twice. A slot is being
written by one task or waits, and it has not been freed. -/
structure ExactlyOnce (r : Recorder) : Prop where
  frames : (hdrFrames (r.file 0).blocks ++ hdrFrames (r.file 1).blocks ++
    videoFrames r.buf.table.entry (r.beingWritten ++ r.unpicked)).Perm (firstFrames r.queuedFrames)
  nodup : (r.beingWritten ++ r.unpicked).Nodup
  inUse : ∀ i ∈ r.beingWritten ++ r.waiting, ∃ s, r.slots[i]? = some s ∧ s.isIdle = false

end Recorder

theorem Chained.flatMap_slice {counted : Prop} {frame : ℕ → Option Frame} {p : ℕ}
    {groups : List Group} {gs : List (List ℕ)} {q : ℕ → ℕ} (h : Chained counted frame p groups gs)
    (hp : p < queueSize) (hholds : Holds queueSize q p gs.flatten)
    (hlen : gs.flatten.length < queueSize) :
    groups.flatMap (fun g => slice queueSize q g.wHead g.afterLastGrouped) = gs.flatten := by
  induction h with
  | nil => rfl
  | @cons p g groups l gs head next ne blocks number rest ih =>
    rw [flatten_cons, holds_append hp] at hholds
    rw [flatten_cons, length_append] at hlen
    rw [flatMap_cons, flatten_cons, head, next, hholds.1.slice_eq hp (by omega),
      ih (advance_lt queueSize_pos _ _) hholds.2 (by omega)]

theorem perm_framesOn (log : List (Card × ℤ)) :
    (framesOn 0 log ++ framesOn 1 log).Perm (log.map Prod.snd) := by
  have hfilter : log.filter (·.1 = 1) = log.filter (fun x => !decide (x.1 = 0)) := by
    refine filter_congr fun x _ => ?_
    have hcard : ∀ c : Card, decide (c = 1) = !decide (c = 0) := by decide
    exact hcard x.1
  rw [framesOn, framesOn, hfilter, ← map_append]
  exact (filter_append_perm _ log).map _

namespace Recorder.Inv

variable {S : Settings} {mem : Set ℕ} {modules : Bool} {counted : Prop} {r r' : Recorder}
  {gs : List (List ℕ)} {rest : List ℕ} {log : List (Card × ℤ)}

section

variable (h : r.Inv S mem modules counted gs rest log)
include h

theorem beingWritten_eq : r.beingWritten = gs.flatten := by
  obtain ⟨base, hq⟩ := h.queue
  have hlen := h.length_lt
  rw [length_append] at hlen
  exact hq.chained.flatMap_slice hq.base_lt ((holds_append hq.base_lt).1 hq.holds).1 (by omega)

theorem unpicked_eq : r.unpicked = rest := by
  obtain ⟨base, hq⟩ := h.queue
  have hnodup : (gs.flatten ++ rest).Nodup := h.ledger.queued.nodup
  have hrest : rest.filter (· ∉ gs.flatten) = rest := by
    refine filter_eq_self.2 fun i hi => ?_
    have hnot : i ∉ gs.flatten := fun hmem => (nodup_append.1 hnodup).2.2 i hmem i hi rfl
    simpa using hnot
  have hnone : gs.flatten.filter (· ∉ gs.flatten) = [] := by
    rw [filter_eq_nil_iff]
    intro i hi
    simpa using hi
  rw [unpicked, h.beingWritten_eq]
  rcases hq.waiting_eq h.length_lt with ⟨hwait, -⟩ | ⟨hwait, -⟩
  · rw [hwait, hrest]
  · rw [hwait, filter_append, hrest, hnone, nil_append]

theorem waiting_subset : r.waiting ⊆ gs.flatten ++ rest := by
  obtain ⟨base, hq⟩ := h.queue
  rcases hq.waiting_eq h.length_lt with ⟨hwait, -⟩ | ⟨hwait, -⟩
  · rw [hwait]
    exact subset_append_right _ _
  · rw [hwait]
    exact List.Subset.refl _

/-- The frames that have been queued, in order. -/
theorem fifo :
    log.map Prod.snd ++ videoFrames r.buf.table.entry (gs.flatten ++ rest) =
      firstFrames r.queuedFrames :=
  h.ledger.fifo

theorem exactlyOnce : r.ExactlyOnce := by
  have hnodup : (gs.flatten ++ rest).Nodup := h.ledger.queued.nodup
  refine ⟨?_, ?_, fun i hi => ?_⟩
  · rw [h.beingWritten_eq, h.unpicked_eq, h.files, h.files, ← h.fifo]
    exact (perm_framesOn log).append_right _
  · rw [h.beingWritten_eq, h.unpicked_eq]
    exact hnodup
  · have hmem : i ∈ gs.flatten ++ rest := by
      rw [h.beingWritten_eq] at hi
      rcases mem_append.1 hi with hi | hi
      · exact mem_append_left _ hi
      · exact h.waiting_subset hi
    obtain ⟨e, he, -⟩ := h.exists_entry_of_mem hmem
    obtain ⟨F, hF, -⟩ := entry_eq_some.1 he
    obtain ⟨s, hs, hidle, -⟩ := exists_of_frame hF
    exact ⟨s, hs, hidle⟩

end

end Recorder.Inv

/-- **Every frame is written exactly once** by the two recording tasks, whatever the interleaving of
the steps, in a run in which each group is completed before the groups that were picked after it. -/
theorem run_exactlyOnce (R : Recording) (modules : Bool)
    (hmode : modules = true → R.preRecord = false ∧ R.recTrigger = false) (ops : List RecOp)
    (hwithin : Runs.Meets (RecOp.step R.settings) (fun r op => op.Within modules r) R.start ops)
    (horder : Runs.Meets (RecOp.step R.settings) (fun r op => op.InOrder r) R.start ops)
    (r : Recorder) (hrun : R.run ops = some r) : r.ExactlyOnce := by
  obtain ⟨gs, rest, log, h⟩ := R.inv_run hmode hwithin horder hrun
  exact h.exactlyOnce

/-- A recording without pre-recording into a chunk with room for three frames of 4096 bytes. -/
def threeFrames : Recording where
  layout := ⟨4096, false, 4000, 0, 0, fun _ => default⟩
  preRecordNumFrames := 0
  preOnly := false
  shoot := [⟨0x1000, 12500⟩]
  srm := []
  hdr _ := default
  writingQueue _ := 0
  pos := 0
  frameCount := 0
  preRecord := false
  recTrigger := false
  skipFrames := 0
  fileSizeLimit := false
  headers _ := 512
  align := by decide
  size_pos := by decide
  separate := List.pairwise_singleton _ _
  pos_lt := by decide
  frameCount_le := le_rfl

/-- A vsync whose frame is copied without compression. -/
def vsyncCopy : List RecOp := [.vsync, .copy, .edmacDone, .compressDone]

/-- A write without error. -/
def diskOk : Disk := ⟨512, true, 0, 512, true⟩

/-- Three frames are captured. The two tasks pick one frame each and complete them in this order. -/
theorem run_exactlyOnce_threeFrames :
    let ops : List RecOp := .vsync :: vsyncCopy ++ vsyncCopy ++ vsyncCopy ++
      [.pick 0 (some 1), .pick 1 (some 1), .complete 0 diskOk, .complete 1 diskOk]
    ∃ r, threeFrames.run ops = some r ∧ r.ExactlyOnce ∧ r.unpicked = [2] := by
  intro ops
  obtain ⟨r, hrun, hr⟩ : ∃ r, threeFrames.run ops = some r ∧ r.unpicked = [2] := by
    decide +kernel
  exact ⟨r, hrun, run_exactlyOnce threeFrames true (by decide) ops (by decide +kernel)
    (by decide +kernel) r hrun, hr⟩

/-- The second task overtakes the first one: the head goes back to slot `1`, whose frame has been
written and which is free. The frame that is captured into this slot later is in the queue twice, is
written before the frames that were captured before it, and is written again at the end. -/
theorem run_overtaken :
    let ops : List RecOp := .vsync :: vsyncCopy ++ vsyncCopy ++ vsyncCopy ++
      [.pick 0 (some 1), .pick 1 (some 1), .complete 1 diskOk, .complete 0 diskOk]
    let more : List RecOp := vsyncCopy ++ vsyncCopy ++ [.pick 0 (some 1), .complete 0 diskOk]
    ∃ r r' r'', threeFrames.run ops = some r ∧ r.waiting = [1, 2] ∧
      r.slots[1]?.map FrameSlot.status = some .free ∧ ¬ r.ExactlyOnce ∧
      r.run threeFrames.settings more = some r' ∧
      r'.flush threeFrames.settings (List.replicate 3 diskOk) = some r'' ∧
      hdrFrames (r''.file 0).blocks = [0, 4, 2, 3, 4] ∧ hdrFrames (r''.file 1).blocks = [1] := by
  intro ops more
  obtain ⟨r, hrun, ⟨hwait, hfree⟩, r', hmore, r'', hflush, hfiles⟩ :
      ∃ r, threeFrames.run ops = some r ∧
      (r.waiting = [1, 2] ∧ r.slots[1]?.map FrameSlot.status = some .free) ∧
      ∃ r', r.run threeFrames.settings more = some r' ∧
      ∃ r'', r'.flush threeFrames.settings (replicate 3 diskOk) = some r'' ∧
      hdrFrames (r''.file 0).blocks = [0, 4, 2, 3, 4] ∧ hdrFrames (r''.file 1).blocks = [1] := by
    decide +kernel
  refine ⟨r, r', r'', hrun, hwait, hfree, fun honce => ?_, hmore, hflush, hfiles⟩
  obtain ⟨s, hs, hidle⟩ := honce.inUse 1 (mem_append_right _ (by simp [hwait]))
  rw [hs, map_some, some.injEq] at hfree
  simp [FrameSlot.isIdle, hfree] at hidle

end MagicLantern.MlvLite

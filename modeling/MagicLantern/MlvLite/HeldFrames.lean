import MagicLantern.MlvLite.WritingOrder

/-!
# The numbers of the frames held back

`pre_record_queue_frames` looks for each number from `pre_record_first_frame` on among the slots
that are full and does not stop before it has found it. It returns because every one of these
numbers is in one slot: the frames that are discarded leave no gap, since all later ones get new
numbers, and the frames of earlier sessions that still wait to be written have smaller numbers.

Source: `src/modules/raw_video/mlv_lite/mlv_lite.c`.

## Main results

* `run_numbered` — the numbers have no gap.
* `run_numbered_overtaken`.
-/

namespace MagicLantern.MlvLite

open Option RingQueue SlotTable

/-- The slots that are full and have a number from `firstFrame` on are one for each number before
`frame_count`, and the blocks in memory have the numbers that go with them. -/
structure Recorder.Numbered (r : Recorder) : Prop where
  exists_slot : ∀ n, r.firstFrame ≤ n → n < r.frameCount → ∃ i, FullAt r.slots i n
  slot_inj : ∀ i j n, r.firstFrame ≤ n → FullAt r.slots i n → FullAt r.slots j n → i = j
  number_lt : ∀ i n, r.firstFrame ≤ n → FullAt r.slots i n → n < r.frameCount
  hdr : ∀ (i : ℕ) (s : FrameSlot), r.slots[i]? = some s → s.status = .full →
    r.firstFrame ≤ s.frameNumber → (r.buf.table.hdr s.ptr).isVidf = true ∧
      (r.buf.table.hdr s.ptr).frameNumber = s.frameNumber - 1

/-- The frames from `firstFrame` on, which a queueing appends to the ring. -/
def Recorder.heldNumbers (r : Recorder) : List ℤ :=
  (List.range (r.frameCount - r.firstFrame).toNat).map fun k : ℕ => r.firstFrame + (k : ℤ)

/-- The frame with the number `firstFrame` is removed, those with greater numbers are the same as
before with the numbers before theirs, and all other frames are left alone. -/
structure DiscardsOldest (S : Settings) (r : Recorder) : Prop where
  count : r.firstFrame < r.frameCount →
    (preRecordDiscardFrame S r).frameCount = r.frameCount - 1
  removed : ∀ i, FullAt r.slots i r.firstFrame →
    (preRecordDiscardFrame S r).buf.table.frame i = none
  renumbered : ∀ i n, r.firstFrame ≤ n →
    (FullAt (preRecordDiscardFrame S r).slots i n ↔ FullAt r.slots i (n + 1))
  kept : ∀ i F, r.buf.table.frame i = some F → ¬ (F.status = .full ∧ r.firstFrame ≤ F.number) →
    (preRecordDiscardFrame S r).buf.table.frame i = some F

theorem fullAt_iff {t : SlotTable} {i : ℕ} {n : ℤ} :
    FullAt t.slots i n ↔ ∃ F, t.frame i = some F ∧ F.status = .full ∧ F.number = n := by
  constructor
  · rintro ⟨s, hs, hfull, rfl⟩
    exact ⟨_, frame_of_inUse hs (by simp [FrameSlot.isIdle, hfull]), hfull, rfl⟩
  · rintro ⟨F, hF, hfull, rfl⟩
    obtain ⟨s, hs, -, rfl⟩ := exists_of_frame hF
    exact ⟨s, hs, hfull, rfl⟩

theorem discardFrame_eq_some {first : ℤ} {F G : Frame} (h : discardFrame first F = some G) :
    (F.status = .full ∧ first < F.number ∧
        G = { F with number := F.number - 1, vidfNumber := F.number - 1 - 1 }) ∨
      (¬ (F.status = .full ∧ first ≤ F.number) ∧ G = F) := by
  rw [discardFrame] at h
  split_ifs at h with hfull heq hgt
  · exact .inl ⟨hfull, hgt, (some.inj h).symm⟩
  · exact .inr ⟨fun hF => by omega, (some.inj h).symm⟩
  · exact .inr ⟨fun hF => hfull hF.1, (some.inj h).symm⟩

namespace Recorder.Inv

variable {S : Settings} {mem : Set ℕ} {counted : Prop} {r : Recorder} {gs : List (List ℕ)}
  {rest : List ℕ} {log : List (Card × ℤ)}

section

variable (h : r.Inv S mem false counted gs rest log) (hset : r.Settled)
  (hpre : r.preRecording = true) (hfirst : r.firstFrame ≠ 0)

include h hset hpre hfirst

theorem numbered : r.Numbered := by
  have hhold : (r.ledger gs rest (log.map Prod.snd)).Holding := ⟨hpre, hfirst⟩
  have hvideo {i : ℕ} {e : Entry} (he : r.buf.table.entry i = some e) (hk : e.kind = .pending) :
      e.vidf = some (e.number - 1) ∧ e.number < r.frameCount :=
    h.ledger.video_of_preRecording hpre he (by simp [hk])
  refine ⟨fun n hn hlt => ?_, fun i j n hn hi hj => ?_, fun i n hn hi => ?_,
    fun i s hs hfull hn => ?_⟩
  · obtain ⟨i, hi⟩ := h.ledger.exists_held hhold n hn hlt
    exact ⟨i, (h.heldIn_iff_fullAt hset hhold hn).1 hi⟩
  · obtain ⟨e, he, hi, hk, hnum⟩ := (h.heldIn_iff_fullAt hset hhold hn).2 hi
    obtain ⟨e', he', hj, hk', hnum'⟩ := (h.heldIn_iff_fullAt hset hhold hn).2 hj
    exact h.ledger.held_inj i j e e' he he' hi hj hk hk' (hnum.trans hnum'.symm)
  · obtain ⟨e, he, -, hk, rfl⟩ := (h.heldIn_iff_fullAt hset hhold hn).2 hi
    exact (hvideo he hk).2
  · have hF := frame_of_inUse hs (by simp [FrameSlot.isIdle, hfull])
    have he := entry_of_frame hF
    have hv := (hvideo he (by simp [Frame.entry, Frame.kind, hfull])).1
    simp only [Frame.entry] at hv
    split_ifs at hv with hvidf
    exact ⟨hvidf, some.inj hv⟩

theorem discardsOldest : DiscardsOldest S r := by
  have hhold : (r.ledger gs rest (log.map Prod.snd)).Holding := ⟨hpre, hfirst⟩
  obtain ⟨t, n, hr, -, -, hframe, rfl⟩ := preRecordDiscardFrame_spec h.tableOk
  rw [h.countP_isOldest hset hhold] at hr
  refine ⟨fun hlt => ?_, fun i hi => ?_, fun i n hn => ?_, fun i F hF hno => ?_⟩
  · rw [hr, if_pos hlt]
    rfl
  · obtain ⟨F, hF, hfull, hnum⟩ := fullAt_iff.1 hi
    rw [hr]
    simp [hframe, hF, hfull, hnum]
  · rw [hr]
    rw [fullAt_iff, fullAt_iff, hframe]
    constructor
    · rintro ⟨G, hG, hfull, hnum⟩
      obtain ⟨F, hF, hdis⟩ := bind_eq_some_iff.1 hG
      obtain ⟨hfull', -, rfl⟩ | ⟨hno, rfl⟩ := discardFrame_eq_some hdis
      · exact ⟨F, hF, hfull', by rw [← hnum]; simp⟩
      · exact absurd ⟨hfull, hnum ▸ hn⟩ hno
    · rintro ⟨F, hF, hfull, hnum⟩
      have h₁ : ¬ F.number = r.firstFrame := by omega
      have h₂ : F.number > r.firstFrame := by omega
      refine ⟨{ F with number := F.number - 1, vidfNumber := F.number - 1 - 1 }, ?_, hfull, ?_⟩
      · simp [hF, hfull, h₁, h₂]
      · simp [hnum]
  · rw [hr]
    simp only [hframe, hF, bind_some]
    rw [discardFrame]
    split_ifs with hfull heq hgt
    · exact absurd ⟨hfull, heq.ge⟩ hno
    · exact absurd ⟨hfull, hgt.le⟩ hno
    · rfl
    · rfl

end

end Recorder.Inv

/-- **The numbers of the frames held back.** In every run of vsyncs, triggers and writes in which no
frame is in progress at a vsync and each group is completed before those picked after it, whenever
no frame is in progress during pre-recording: the full slots from `pre_record_first_frame` on have
the numbers up to `frame_count`, each once; `pre_record_queue_frames` returns and has queued them in
this order; a discard removes the oldest frame; and `pre_record_vsync_step` returns. -/
theorem run_numbered (R : Recording) (ops : List RecOp)
    (hwithin : Runs.Meets (RecOp.step R.settings) (fun r op => op.Within false r) R.start ops)
    (horder : Runs.Meets (RecOp.step R.settings) (fun r op => op.InOrder r) R.start ops)
    (r : Recorder) (hrun : R.run ops = some r) (hset : r.Settled) (hpre : r.preRecording = true)
    (hfirst : r.firstFrame ≠ 0) :
    r.Numbered ∧
      (∃ js, preRecordQueueFrames r = some (js.foldl Recorder.push r) ∧
        List.Forall₂ (FullAt r.slots) js r.heldNumbers) ∧
      DiscardsOldest R.settings r ∧ ∃ r', preRecordVsyncStep R.settings r = some r' := by
  obtain ⟨gs, rest, log, h⟩ := R.inv_run (by simp) hwithin horder hrun
  obtain ⟨js, hqueue, hjs, -⟩ := h.queueFrames hset hpre hfirst
  obtain ⟨r', -, hr', -⟩ := h.vsyncStep hset (h.ready_of_preRecording hpre hfirst).1
  exact ⟨h.numbered hset hpre hfirst, ⟨js, hqueue, hjs⟩, h.discardsOldest hset hpre hfirst, r', hr'⟩

/-- Pre-recording into a chunk with room for three frames. -/
def threeFramesPreRecord : Recording :=
  { threeFrames with preRecordNumFrames := 10, preRecord := true, recTrigger := true }

/-- Two frames are held back. -/
theorem run_numbered_twoFrames :
    ∃ r, threeFramesPreRecord.run (.vsync :: vsyncCopy ++ vsyncCopy) = some r ∧ r.Numbered ∧
      r.firstFrame = 1 ∧ r.frameCount = 3 := by
  obtain ⟨r, hrun, hset, hpre, hfirst, hcount⟩ : ∃ r, threeFramesPreRecord.run
      (.vsync :: vsyncCopy ++ vsyncCopy) = some r ∧ r.Settled ∧ r.preRecording = true ∧
      r.firstFrame = 1 ∧ r.frameCount = 3 := by
    decide +kernel
  exact ⟨r, hrun, (run_numbered threeFramesPreRecord _ (by decide +kernel) (by decide +kernel)
    r hrun hset hpre (by simp [hfirst])).1, hfirst, hcount⟩

/-- Two frames are queued and written, and the task that has picked the second one overtakes the
other: the head goes back to a slot in which a frame is held back later. A task picks this frame, so
that its number is missing and `pre_record_queue_frames` does not return. -/
theorem run_numbered_overtaken :
    let ops : List RecOp := .vsync :: vsyncCopy ++ vsyncCopy ++ [.trigger true] ++ vsyncCopy ++
      [.pick 0 (some 1), .pick 1 (some 1), .complete 1 diskOk, .complete 0 diskOk,
        .trigger false] ++
      vsyncCopy ++ vsyncCopy ++ [.pick 0 (some 1)]
    ∃ r, threeFramesPreRecord.run ops = some r ∧
      Runs.Meets (RecOp.step threeFramesPreRecord.settings) (fun r op => op.Within false r)
        threeFramesPreRecord.start ops ∧
      r.Settled ∧ r.preRecording = true ∧ r.firstFrame = 4 ∧ r.frameCount = 6 ∧
      (∀ i, ¬ FullAt r.slots i 5) ∧ preRecordQueueFrames r = none := by
  intro ops
  obtain ⟨r, hrun, hset, hpre, hfirst, hcount, hnone, hqueue⟩ : ∃ r,
      threeFramesPreRecord.run ops = some r ∧ r.Settled ∧ r.preRecording = true ∧ r.firstFrame = 4 ∧
      r.frameCount = 6 ∧ (∀ s ∈ r.slots, ¬ (s.status = .full ∧ s.frameNumber = 5)) ∧
      (preRecordQueueFrames r).isNone := by
    decide +kernel
  refine ⟨r, hrun, by decide +kernel, hset, hpre, hfirst, hcount, ?_, isNone_iff_eq_none.1 hqueue⟩
  rintro i ⟨s, hs, hfull, hnum⟩
  exact hnone s (List.mem_of_getElem? hs) ⟨hfull, hnum⟩

end MagicLantern.MlvLite

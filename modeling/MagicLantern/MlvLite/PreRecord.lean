import MagicLantern.MlvLite.Writers

/-!
# Pre-recording

During pre-recording the frames are held back in their slots. `pre_record_discard_frame` goes over
all slots to remove the oldest frame and to give the later ones new numbers, and
`pre_record_queue_frames` looks for the frames one number after the other. Both work on the slots
that are full, whatever they are used for: it is the invariant of the recorder that tells the frames
held back from those that wait in the queue.

Source: `src/modules/raw_video/mlv_lite/mlv_lite.c`.
-/

namespace MagicLantern.MlvLite

open Function List RingQueue SlotTable

/-- No frame is being captured or compressed. -/
def Recorder.Settled (r : Recorder) : Prop := ∀ s ∈ r.slots, s.status ≠ .capturing

instance (r : Recorder) : Decidable r.Settled := inferInstanceAs (Decidable (∀ s ∈ _, _))

/-! ### The loop that discards a frame -/

/-- The frame of a slot after a discard. -/
@[simp] def discardFrame (firstFrame : ℤ) (F : Frame) : Option Frame :=
  if F.status = .full then
    if F.number = firstFrame then none
    else if F.number > firstFrame then
      some { F with number := F.number - 1, vidfNumber := F.number - 1 - 1 }
    else some F
  else some F

/-- The frame of a slot is the one that is discarded. -/
@[simp] def isOldest (firstFrame : ℤ) (F : Option Frame) : Bool :=
  F.any fun F => F.status = .full ∧ F.number = firstFrame

section

variable {M : ℕ} {mem : Set ℕ} {t : SlotTable}

theorem discardAt_spec (h : TableOk M mem t) (first n : ℤ) (i : ℕ) :
    let d := discardAt M first (t, n) i
    TableOk M mem d.1 ∧ marks d.1.slots = marks t.slots ∧
      d.1.frame = update t.frame i ((t.frame i).bind (discardFrame first)) ∧
      d.2 = n - (if isOldest first (t.frame i) then 1 else 0) := by
  -- A slot that is not changed keeps its frame.
  have hkeep (hstep : discardAt M first (t, n) i = (t, n))
      (hF : (t.frame i).bind (discardFrame first) = t.frame i)
      (hold : isOldest first (t.frame i) = false) :
      let d := discardAt M first (t, n) i
      TableOk M mem d.1 ∧ marks d.1.slots = marks t.slots ∧
        d.1.frame = update t.frame i ((t.frame i).bind (discardFrame first)) ∧
        d.2 = n - (if isOldest first (t.frame i) then 1 else 0) := by
    rw [hstep, hF, hold]
    exact ⟨h, rfl, by simp, by simp⟩
  cases hs : t.slots[i]? with
  | none =>
    have hF : t.frame i = none := by rw [SlotTable.frame, hs]; rfl
    refine hkeep ?_ ?_ ?_
    · simp [discardAt, hs]
    · simp [hF]
    · simp [hF]
  | some s =>
    by_cases hfull : s.status = .full
    · have hidle : s.isIdle = false := by simp [FrameSlot.isIdle, hfull]
      have hF := frame_of_inUse hs hidle
      by_cases heq : s.frameNumber = first
      · have hstep : discardAt M first (t, n) i = (freeSlot M t i, n - 1) := by
          simp [discardAt, hs, hfull, heq]
        have hnone : (t.frame i).bind (discardFrame first) = none := by
          simp [hF, hfull, heq]
        have hold : isOldest first (t.frame i) = true := by simp [hF, hfull, heq]
        rw [hstep, hnone, hold]
        exact ⟨h.freeSlot hs hidle, marks_freeSlot .., frame_freeSlot hs M, rfl⟩
      · have hold : isOldest first (t.frame i) = false := by simp [hF, heq]
        by_cases hgt : s.frameNumber > first
        · set f : FrameSlot → FrameSlot := fun s => { s with frameNumber := s.frameNumber - 1 }
            with hf
          have hstep : discardAt M first (t, n) i = ((t.modify i f).setHdr i
              { t.hdr s.ptr with frameNumber := s.frameNumber - 1 - 1 }, n) := by
            simp [discardAt, hs, hfull, heq, hgt, hf]
          have hmem := mem_of_getElem? hs
          have hok : TableOk M mem (t.modify i f) := by
            refine h.modify hs rfl rfl Iff.rfl ?_ fun _ => h.pos s hmem hidle
            obtain ⟨h₁, h₂, h₃, h₄⟩ := h.sizeOk s hmem
            exact ⟨h₁, h₂, h₃, h₄⟩
          have hsome : (t.frame i).bind (discardFrame first) = some ⟨s.status, s.ptr,
              s.frameNumber - 1, s.isMeta, (t.hdr s.ptr).isVidf, s.frameNumber - 1 - 1⟩ := by
            simp [hF, hfull, heq, hgt]
          rw [hstep, hsome, hold]
          have hmarks : marks (t.modify i f).slots = marks t.slots := marks_modify fun _ => rfl
          exact ⟨hok.setHdr _ _, by rw [setHdr_slots, hmarks],
            hok.frame_modify_setHdr hs rfl hidle _, by simp⟩
        · refine hkeep ?_ ?_ hold
          · simp [discardAt, hs, heq, hgt]
          · simp [hF, heq, hgt]
    · refine hkeep ?_ ?_ ?_
      · simp [discardAt, hs, hfull]
      all_goals
        cases hidle : s.isIdle with
        | true => simp [frame_of_getElem? hs, FrameSlot.frame_of_isIdle hidle]
        | false => simp [frame_of_inUse hs hidle, hfull]

theorem foldl_discardAt_spec (h : TableOk M mem t) (first n : ℤ) (k : ℕ) :
    let d := (range k).foldl (discardAt M first) (t, n)
    TableOk M mem d.1 ∧ marks d.1.slots = marks t.slots ∧
      (∀ i, d.1.frame i = if i < k then (t.frame i).bind (discardFrame first) else t.frame i) ∧
      d.2 = n - ((range k).countP fun i => isOldest first (t.frame i) : ℕ) := by
  induction k with
  | zero => exact ⟨h, rfl, by simp, by simp⟩
  | succ k ih =>
    obtain ⟨hok, hmarks, hframe, hcount⟩ := ih
    simp only [range_succ, foldl_append, foldl_cons, foldl_nil]
    set d := (range k).foldl (discardAt M first) (t, n) with hd
    obtain ⟨hok', hmarks', hframe', hcount'⟩ := discardAt_spec hok first d.2 k
    have hk : d.1.frame k = t.frame k := by rw [hframe, if_neg (lt_irrefl k)]
    refine ⟨hok', hmarks'.trans hmarks, fun i => ?_, ?_⟩
    · rw [hframe', hk]
      by_cases hi : i = k
      · subst hi
        rw [update_self, if_pos (Nat.lt_succ_self i)]
      · rw [update_of_ne hi, hframe]
        have hiff : i < k ↔ i < k + 1 := by omega
        simp only [hiff]
    · rw [hcount', hk, hcount, countP_append, countP_singleton]
      push_cast
      rw [sub_sub]

/-- **`pre_record_discard_frame`** changes all frames at once. -/
theorem preRecordDiscardFrame_spec {S : Settings} {r : Recorder}
    (h : TableOk S.maxFrameSize mem r.buf.table) :
    ∃ t n, preRecordDiscardFrame S r =
        { r with buf := { r.buf with table := t }, frameCount := r.frameCount - (n : ℕ) } ∧
      TableOk S.maxFrameSize mem t ∧ marks t.slots = marks r.slots ∧
      (t.frame = fun i => (r.buf.table.frame i).bind (discardFrame r.firstFrame)) ∧
      n = (range r.slots.length).countP
        fun i => isOldest r.firstFrame (r.buf.table.frame i) := by
  obtain ⟨hok, hmarks, hframe, hcount⟩ :=
    foldl_discardAt_spec h r.firstFrame r.frameCount r.slots.length
  refine ⟨_, _, ?_, hok, hmarks, ?_, rfl⟩
  · rw [← hcount]
    rfl
  · funext i
    rw [hframe]
    split_ifs with hi
    · rfl
    · rw [SlotTable.frame, getElem?_eq_none (not_lt.1 hi)]
      rfl

end

/-! ### The loops that look for frames -/

section

variable {slots : List FrameSlot} {n : ℤ} {fuel i j : ℕ}

/-- Slot `j` is full and has the frame `n`. -/
def FullAt (slots : List FrameSlot) (j : ℕ) (n : ℤ) : Prop :=
  ∃ s, slots[j]? = some s ∧ s.status = .full ∧ s.frameNumber = n

theorem fullAt_of_findFrame (h : findFrame slots n fuel i = some j) : FullAt slots j n := by
  induction fuel generalizing i with
  | zero => simp [findFrame] at h
  | succ fuel ih =>
    cases hs : slots[i]? with
    | none => simp [findFrame, hs] at h
    | some s =>
      simp only [findFrame, hs] at h
      split_ifs at h with hne
      · exact ih h
      · cases h
        rw [not_or, not_not, not_not] at hne
        exact ⟨s, hs, hne⟩

/-- A frame that is `k` steps away is found. -/
theorem findFrame_of_fullAt {k : ℕ} (hi : i < slots.length)
    (hk : FullAt slots (advance slots.length i k) n) (hfuel : k < fuel) :
    ∃ j, findFrame slots n fuel i = some j := by
  induction fuel generalizing i k with
  | zero => omega
  | succ fuel ih =>
    simp only [findFrame, getElem?_eq_getElem hi]
    by_cases hne : slots[i].status ≠ .full ∨ slots[i].frameNumber ≠ n
    · rw [if_pos hne]
      cases k with
      | zero =>
        rw [advance_zero hi] at hk
        obtain ⟨s, hs, hfull, hnum⟩ := hk
        obtain rfl := Option.some.inj ((getElem?_eq_getElem hi).symm.trans hs)
        exact absurd hne (by simp [hfull, hnum])
      | succ k =>
        refine ih (k := k) (advance_lt (by omega) _ _) ?_ (by omega)
        rwa [advance_advance, Nat.add_comm]
    · exact ⟨i, if_neg hne⟩

/-- **The frames are found**, one number after the other, if each of them is in a slot. -/
theorem findFrames_spec {m : ℕ} (hi : 0 < m → i < slots.length)
    (h : ∀ k < m, ∃ j, FullAt slots j (n + (k : ℕ))) :
    ∃ js, findFrames slots m n i = some js ∧
      Forall₂ (FullAt slots) js ((range m).map fun k : ℕ => n + (k : ℤ)) := by
  induction m generalizing n i with
  | zero => exact ⟨[], rfl, .nil⟩
  | succ m ih =>
    have hi := hi (Nat.succ_pos m)
    obtain ⟨j, hj⟩ := h 0 (Nat.succ_pos m)
    rw [Nat.cast_zero, add_zero] at hj
    obtain ⟨s, hs, -⟩ := id hj
    have hjlt := (List.getElem?_eq_some_iff.1 hs).1
    obtain ⟨k, hk, hadv⟩ := exists_advance_eq hi hjlt
    obtain ⟨j', hj'⟩ : ∃ j', findFrame slots n slots.length i = some j' :=
      findFrame_of_fullAt hi (hadv ▸ hj) hk
    have hlt : 0 < m → advance slots.length j' 1 < slots.length := fun _ =>
      advance_lt (by omega) _ _
    obtain ⟨js, hjs, hall⟩ := ih (n := n + 1) hlt fun k hk => by
      have hnum : n + 1 + (k : ℤ) = n + ((k + 1 : ℕ) : ℤ) := by push_cast; ring
      rw [hnum]
      exact h (k + 1) (by omega)
    refine ⟨j' :: js, by simp [findFrames, hj', hjs], ?_⟩
    rw [range_succ_eq_map, map_cons, map_map]
    refine .cons ?_ ?_
    · rw [Nat.cast_zero, add_zero]
      exact fullAt_of_findFrame hj'
    · have hmap : (range m).map ((fun k : ℕ => n + (k : ℤ)) ∘ Nat.succ) =
          (range m).map fun k : ℕ => n + 1 + (k : ℤ) := by
        refine map_congr_left fun k _ => ?_
        simp only [comp_apply, Nat.succ_eq_add_one, Nat.cast_add]
        ring
      rw [hmap]
      exact hall

end

/-! ### Several slots are pushed -/

theorem foldl_push (js : List ℕ) (r : Recorder) :
    ∃ q p, js.foldl Recorder.push r = { r with writingQueue := q, tail := p } := by
  induction js generalizing r with
  | nil => exact ⟨_, _, rfl⟩
  | cons j js ih =>
    obtain ⟨q, p, h⟩ := ih (r.push j)
    exact ⟨q, p, h⟩

theorem QueueRep.foldl_push {counted : Prop} {r : Recorder} {base : ℕ} {gs : List (List ℕ)}
    {rest js : List ℕ}
    (h : QueueRep counted r base gs rest) (hlen : (gs.flatten ++ (rest ++ js)).length < queueSize) :
    QueueRep counted (js.foldl Recorder.push r) base gs (rest ++ js) := by
  induction js generalizing r rest with
  | nil =>
    rw [append_nil]
    exact h
  | cons j js ih =>
    have hsplit : rest ++ j :: js = (rest ++ [j]) ++ js := by simp
    rw [hsplit] at hlen ⊢
    refine ih (h.push ?_ j) hlen
    simp only [length_append] at hlen ⊢
    omega

/-! ### The LiveView task -/

/-- The part of the state that the invariant is about. -/
def Recorder.core (r : Recorder) : Recorder :=
  { r with
    bufferFull := false
    skipFrames := 0
    skippedFrames := 0
    edmacActive := false
    fileSizeLimit := false }

namespace Recorder.Inv

variable {S : Settings} {mem : Set ℕ} {modules : Bool} {counted : Prop} {r r' : Recorder}
  {gs : List (List ℕ)} {rest : List ℕ} {log : List (Card × ℤ)} {F : Frame}

theorem status_cases (hset : r.Settled) {i : ℕ} (hF : r.buf.table.frame i = some F) :
    (F.status = .full ∧ F.kind = .pending) ∨ (F.status ≠ .full ∧ F.kind ≠ .pending) := by
  obtain ⟨s, hs, hidle, rfl⟩ := exists_of_frame hF
  have hcap := hset s (mem_of_getElem? hs)
  cases hst : s.status <;> simp_all [Frame.kind, FrameSlot.isIdle]

theorem settled_of_frame {t : SlotTable} (hset : r.Settled)
    (hframe : t.frame = fun i => (r.buf.table.frame i).bind (discardFrame r.firstFrame)) :
    ∀ s ∈ t.slots, s.status ≠ .capturing := by
  intro s hs hcap
  obtain ⟨i, hi⟩ := mem_iff_getElem?.1 hs
  have hF' := frame_of_inUse hi (by simp [FrameSlot.isIdle, hcap])
  rw [hframe] at hF'
  obtain ⟨F, hF, hdis⟩ := Option.bind_eq_some_iff.1 hF'
  have hst : F.status = s.status := by
    rw [discardFrame] at hdis
    split_ifs at hdis <;> exact congrArg Frame.status (Option.some.inj hdis)
  obtain ⟨x, hx, -, rfl⟩ := exists_of_frame hF
  exact hset x (mem_of_getElem? hx) (hst.trans hcap)

/-- Frames that are held back have a first one. -/
def Ready (r : Recorder) : Prop :=
  1 ≤ r.frameCount ∧ (r.preRecording = true → r.firstFrame ≠ 0)

section

variable (h : r.Inv S mem modules counted gs rest log)

include h

theorem of_core (hcore : r'.core = r.core) :
    r'.Inv S mem modules counted gs rest log := by
  have hr : r.core.Inv S mem modules counted gs rest log :=
    { h with queue := h.queue.imp fun _ hq => hq.congr rfl rfl rfl rfl fun _ _ => rfl }
  rw [← hcore] at hr
  exact { hr with queue := hr.queue.imp fun _ hq => hq.congr rfl rfl rfl rfl fun _ _ => rfl }

theorem setMode {pre triggered : Bool} {first : ℤ}
    (hledger : ({ r.ledger gs rest (log.map Prod.snd) with
      preRecording := pre, firstFrame := first } : Ledger).Ok modules)
    (htriggered : modules = true → triggered = true) :
    Recorder.Inv S mem modules counted
      { r with preRecording := pre, firstFrame := first, triggered := triggered } gs rest log where
  __ := h
  queue := h.queue.imp fun _ hq => hq.congr rfl rfl rfl rfl fun _ _ => rfl
  ledger := hledger
  triggered := htriggered

theorem chooseCaptureSlot : (chooseCaptureSlot r).Inv S mem modules counted gs rest log :=
  h.setBuf_of_frame_eq (h.buffers.setTable h.buffers.safe (.refl _) _ _) h.pos rfl rfl

/-- During pre-recording the slots that are full hold video frames. -/
theorem isVidf_of_full (hpre : r.preRecording = true) {i : ℕ} (hF : r.buf.table.frame i = some F)
    (hfull : F.status = .full) : F.isVidf = true := by
  have he := entry_of_frame hF
  have hkind : F.kind = .pending := by simp [Frame.kind, hfull]
  obtain ⟨hv, -⟩ := h.ledger.video_of_preRecording hpre he (by simp [Frame.entry, hkind])
  by_contra hno
  simp [Frame.entry, hno] at hv

/-- A discard has nothing to do with the blocks of other modules. -/
theorem isBlock_discard (hpre : r.preRecording = true) (i : ℕ) :
    ((r.buf.table.frame i).bind (discardFrame r.firstFrame)).any Frame.isBlock =
      (r.buf.table.frame i).any Frame.isBlock := by
  cases hF : r.buf.table.frame i with
  | none => rfl
  | some F =>
    rw [Option.bind_some, discardFrame]
    split_ifs with hfull heq hgt
    · have hvidf := h.isVidf_of_full hpre hF hfull
      simp [Frame.isBlock, hvidf]
    · rfl
    · rfl
    · rfl

theorem entry_discard (hset : r.Settled) (hpre : r.preRecording = true) (i : ℕ) :
    ((r.buf.table.frame i).bind (discardFrame r.firstFrame)).map Frame.entry =
      (r.buf.table.entry i).bind (Ledger.discardEntry r.firstFrame) := by
  cases hF : r.buf.table.frame i with
  | none => simp [SlotTable.entry, hF]
  | some F =>
    have he := entry_of_frame hF
    rw [he, Option.bind_some, Option.bind_some]
    rcases status_cases hset hF with ⟨hfull, hkind⟩ | ⟨hfull, hkind⟩
    · have hvidf := h.isVidf_of_full hpre hF hfull
      have hkind' : F.entry.kind = .pending := hkind
      have hnumber : F.entry.number = F.number := rfl
      rw [discardFrame, Ledger.discardEntry, hnumber]
      split_ifs
      · rfl
      · simp [Frame.entry, Frame.kind, hfull, hvidf]
      · rfl
    · rw [discardFrame, if_neg hfull]
      exact (if_neg (c := F.entry.kind = .pending) hkind).symm

/-- Frames that are being written are not discarded. -/
theorem frame_discard_of_mem {i : ℕ} (hi : i ∈ gs.flatten) :
    (r.buf.table.frame i).bind (discardFrame r.firstFrame) = r.buf.table.frame i := by
  obtain ⟨e, he, hk⟩ := h.ledger.queued.writing i hi
  obtain ⟨F, hF, rfl⟩ := entry_eq_some.1 he
  have hfull : F.status ≠ .full := by
    intro hfull
    simp [Frame.entry, Frame.kind, hfull] at hk
  simp [hF, hfull]

section

variable (hset : r.Settled) (hhold : (r.ledger gs rest (log.map Prod.snd)).Holding)

include hset hhold

/-- The oldest frame is one that is held back. -/
theorem isOldest_iff {i : ℕ} :
    isOldest r.firstFrame (r.buf.table.frame i) = true ↔
      (r.ledger gs rest (log.map Prod.snd)).HeldIn i r.firstFrame := by
  constructor
  · intro hold
    cases hF : r.buf.table.frame i with
    | none => simp [hF] at hold
    | some F =>
      have he := entry_of_frame hF
      simp only [hF, isOldest, Option.any_some, decide_eq_true_eq] at hold
      refine ⟨F.entry, he, fun hlive => ?_, by simp [Frame.entry, Frame.kind, hold.1], hold.2⟩
      have hlt : F.number < r.firstFrame := h.ledger.number_lt hhold he hlive
      omega
  · rintro ⟨e, he, -, hk, hnum⟩
    obtain ⟨F, hF, rfl⟩ := entry_eq_some.1 he
    have hfull : F.status = .full := by
      rcases status_cases hset hF with hF | hF
      · exact hF.1
      · exact absurd hk hF.2
    have hnum' : F.number = r.firstFrame := hnum
    simp [hF, hfull, hnum']

/-- One frame is the oldest, if any is held back. -/
theorem countP_isOldest :
    (range r.slots.length).countP (fun i => isOldest r.firstFrame (r.buf.table.frame i)) =
      if r.firstFrame < r.frameCount then 1 else 0 := by
  split_ifs with hlt
  · obtain ⟨i, hi⟩ := h.ledger.exists_held hhold r.firstFrame le_rfl hlt
    have hmem : i ∈ range r.slots.length := mem_range.2 (lt_of_entry hi.choose_spec.1)
    have hiff : ∀ j, isOldest r.firstFrame (r.buf.table.frame j) = (j == i) := by
      intro j
      rw [Bool.eq_iff_iff, h.isOldest_iff hset hhold, beq_iff_eq]
      constructor
      · rintro ⟨e, he, hj, hk, hnum⟩
        obtain ⟨e', he', hi', hk', hnum'⟩ := hi
        exact h.ledger.held_inj j i e e' he he' hj hi' hk hk' (hnum.trans hnum'.symm)
      · rintro rfl
        exact hi
    simp only [hiff]
    exact count_eq_one_of_mem nodup_range hmem
  · refine countP_eq_zero.2 fun i _ hold => ?_
    obtain ⟨e, he, -, hk, hnum⟩ := (h.isOldest_iff hset hhold).1 hold
    obtain ⟨-, hcount⟩ := h.ledger.video_of_preRecording hhold.1 he (by simp [hk])
    exact hlt (hnum ▸ hcount)

theorem frame_discard_of_eq (hle : r.frameCount ≤ r.firstFrame) (i : ℕ) :
    (r.buf.table.frame i).bind (discardFrame r.firstFrame) = r.buf.table.frame i := by
  cases hF : r.buf.table.frame i with
  | none => rfl
  | some F =>
    have he := entry_of_frame hF
    rcases status_cases hset hF with ⟨hfull, hkind⟩ | ⟨hfull, -⟩
    · have hlt : F.number < r.frameCount :=
        (h.ledger.video_of_preRecording hhold.1 he (by simp [Frame.entry, hkind])).2
      have h₁ : ¬ F.number = r.firstFrame := by omega
      have h₂ : ¬ F.number > r.firstFrame := by omega
      simp [h₁, h₂]
    · simp [hfull]

theorem heldIn_iff_fullAt {i : ℕ} {n : ℤ} (hn : r.firstFrame ≤ n) :
    (r.ledger gs rest (log.map Prod.snd)).HeldIn i n ↔ FullAt r.slots i n := by
  constructor
  · rintro ⟨e, he, -, hk, rfl⟩
    obtain ⟨F, hF, rfl⟩ := entry_eq_some.1 he
    rcases status_cases hset hF with hF' | hF'
    · obtain ⟨s, hs, -, rfl⟩ := exists_of_frame hF
      exact ⟨s, hs, hF'.1, rfl⟩
    · exact absurd hk hF'.2
  · rintro ⟨s, hs, hfull, rfl⟩
    have hF := frame_of_inUse hs (by simp [FrameSlot.isIdle, hfull])
    have he := entry_of_frame hF
    refine ⟨_, he, fun hlive => ?_, by simp [Frame.entry, Frame.kind, hfull], rfl⟩
    have hlt : s.frameNumber < r.firstFrame := h.ledger.number_lt hhold he hlive
    omega

end

theorem ready_of_preRecording (hpre : r.preRecording = true) (hfirst : r.firstFrame ≠ 0) :
    Ready r := by
  have hle : 1 ≤ r.firstFrame ∧ r.firstFrame ≤ r.frameCount := h.ledger.first ⟨hpre, hfirst⟩
  exact ⟨by omega, fun _ => hfirst⟩

section

variable (hset : r.Settled) (hpre : r.preRecording = true) (hfirst : r.firstFrame ≠ 0)

include hset hpre hfirst

/-- **The oldest frame is discarded.** -/
theorem discard :
    (preRecordDiscardFrame S r).Inv S mem modules counted gs rest log ∧
      (preRecordDiscardFrame S r).Settled := by
  have hhold : (r.ledger gs rest (log.map Prod.snd)).Holding := ⟨hpre, hfirst⟩
  obtain ⟨t, n, hr, hok, hmarks, hframe, rfl⟩ := preRecordDiscardFrame_spec h.tableOk
  rw [hr]
  refine ⟨?_, settled_of_frame hset hframe⟩
  have hbuf : Buffers.Inv S.maxFrameSize mem { r.buf with table := t } :=
    h.buffers.setTable hok.toSlotsSafe (fun k s hs hcap =>
      absurd hcap (hset s (mem_of_getElem? hs))) _ _
  rw [h.countP_isOldest hset hhold]
  by_cases hlt : r.firstFrame < r.frameCount
  · refine h.setBuf hbuf hok.pos (length_of_marks hmarks) (fun i hi => ?_) ?_
      fun hc => (h.marksOk hc).congr hmarks fun i => ?_
    · rw [hframe]
      exact h.frame_discard_of_mem hi
    · have hnew := h.ledger.discard hhold hlt
      have hentry : t.entry = (r.ledger gs rest (log.map Prod.snd)).discard.entry := by
        funext i
        rw [SlotTable.entry, hframe]
        exact h.entry_discard hset hpre i
      rw [if_pos hlt]
      rw [hentry]
      exact hnew
    · rw [hframe]
      exact h.isBlock_discard hpre i
  · rw [if_neg hlt, Nat.cast_zero, sub_zero]
    refine h.setBuf_of_frame_eq hbuf hok.pos ?_ hmarks
    rw [hframe]
    funext i
    exact h.frame_discard_of_eq hset hhold (not_lt.1 hlt) i

theorem discardIfNoFreeSlots :
    (preRecordDiscardFrameIfNoFreeSlots S r).Inv S mem modules counted gs rest log ∧
      (preRecordDiscardFrameIfNoFreeSlots S r).Settled ∧
      (preRecordDiscardFrameIfNoFreeSlots S r).preRecording = true ∧
      (preRecordDiscardFrameIfNoFreeSlots S r).firstFrame = r.firstFrame := by
  rw [preRecordDiscardFrameIfNoFreeSlots]
  split_ifs
  · exact ⟨h, hset, hpre, rfl⟩
  · obtain ⟨h', hset'⟩ := h.discard hset hpre hfirst
    exact ⟨h', hset', hpre, rfl⟩

end

end

/-- **The frames held back are queued**, in the order of their numbers. -/
theorem queueFrames (h : r.Inv S mem false counted gs rest log) (hset : r.Settled)
    (hpre : r.preRecording = true) (hfirst : r.firstFrame ≠ 0) :
    ∃ js, preRecordQueueFrames r = some (js.foldl Recorder.push r) ∧
      Forall₂ (FullAt r.slots) js (r.ledger gs rest (log.map Prod.snd)).heldNumbers ∧
      Recorder.Inv S mem false counted { js.foldl Recorder.push r with preRecording := false }
        gs (rest ++ js) log ∧
      Recorder.Inv S mem false counted { js.foldl Recorder.push r with
        triggered := false, firstFrame := r.frameCount } gs (rest ++ js) log := by
  have hhold : (r.ledger gs rest (log.map Prod.snd)).Holding := ⟨hpre, hfirst⟩
  have hex : ∀ k < (r.frameCount - r.firstFrame).toNat,
      ∃ j, FullAt r.slots j (r.firstFrame + (k : ℕ)) := by
    intro k hk
    have hle : r.firstFrame ≤ r.firstFrame + (k : ℤ) := by omega
    obtain ⟨j, hj⟩ := h.ledger.exists_held hhold (r.firstFrame + (k : ℤ)) hle (by
      change _ < r.frameCount
      omega)
    exact ⟨j, (h.heldIn_iff_fullAt hset hhold hle).1 hj⟩
  have hzero : 0 < (r.frameCount - r.firstFrame).toNat → 0 < r.slots.length := by
    intro hpos
    obtain ⟨j, s, hs, -⟩ := hex 0 hpos
    have := (List.getElem?_eq_some_iff.1 hs).1
    omega
  obtain ⟨js, hjs, hall⟩ := findFrames_spec hzero hex
  have hheld : Forall₂ (r.ledger gs rest (log.map Prod.snd)).HeldIn js
      (r.ledger gs rest (log.map Prod.snd)).heldNumbers := by
    refine forall₂_iff_get.2 ⟨hall.length_eq, fun k hk hk' => ?_⟩
    refine (h.heldIn_iff_fullAt hset hhold ?_).2 ((forall₂_iff_get.1 hall).2 k hk hk')
    exact (Ledger.mem_heldNumbers.1 (get_mem _ _)).1
  have hresume := h.ledger.queueHeld hhold hheld true
  have hsession : ({ r.ledger gs rest (log.map Prod.snd) with
      waiting := rest ++ js, firstFrame := r.frameCount } : Ledger).Ok false := by
    have hnew := h.ledger.queueHeld hhold hheld false
    simp only [Recorder.ledger, hpre]
    exact hnew
  obtain ⟨base, hq⟩ := h.queue
  have hlen : (gs.flatten ++ (rest ++ js)).length < queueSize := by
    refine h.length_lt_of_nodup hresume.queued.nodup fun i hi => ?_
    rw [← append_assoc] at hi
    rcases mem_append.1 hi with hi | hi
    · obtain ⟨e, he, -⟩ := h.exists_entry_of_mem hi
      exact lt_of_entry he
    · obtain ⟨e, he, -⟩ := hresume.queued.waiting i (mem_append_right _ hi)
      exact lt_of_entry he
  have hq' := hq.foldl_push hlen
  obtain ⟨q, p, hr⟩ := MlvLite.foldl_push js r
  refine ⟨js, by rw [preRecordQueueFrames, hjs, Option.map_some], hall, ?_⟩
  rw [hr] at hq' ⊢
  constructor
  · exact { h with
      queue := ⟨base, hq'.congr rfl rfl rfl rfl fun _ _ => rfl⟩
      ledger := hresume
      triggered := by simp }
  · exact { h with
      queue := ⟨base, hq'.congr rfl rfl rfl rfl fun _ _ => rfl⟩
      ledger := hsession
      triggered := by simp }

theorem enterPreRecording (h : r.Inv S mem false counted gs rest log) (hcount : 1 ≤ r.frameCount) :
    r.enterPreRecording.Inv S mem false counted gs rest log ∧
      (r.enterPreRecording.preRecording = true → r.enterPreRecording.firstFrame ≠ 0) := by
  have hstart (hno : ¬ (r.ledger gs rest (log.map Prod.snd)).Holding) :
      Recorder.Inv S mem false counted { r with
        preRecording := true, firstFrame := r.frameCount, triggered := r.triggered }
        gs rest log :=
    h.setMode (h.ledger.startPreRecording hno hcount) (by simp)
  by_cases hback : r.preRecording = false ∧ r.triggered = false
  · have hne : r.frameCount ≠ 0 := by omega
    have hr : r.enterPreRecording = { r with
        preRecording := true, firstFrame := r.frameCount, triggered := r.triggered } := by
      simp [Recorder.enterPreRecording, hback]
    rw [hr]
    refine ⟨hstart fun hhold => ?_, fun _ => hne⟩
    have hpre : r.preRecording = true := hhold.1
    simp [hback.1] at hpre
  · by_cases hfresh : r.preRecording = true ∧ r.firstFrame = 0
    · have hr : r.enterPreRecording = { r with
          preRecording := true, firstFrame := r.frameCount, triggered := r.triggered } := by
        simp only [Recorder.enterPreRecording, if_neg hback, if_pos hfresh]
        simp only [hfresh.1]
      rw [hr]
      refine ⟨hstart fun hhold => hhold.2 hfresh.2, fun _ => ?_⟩
      change r.frameCount ≠ 0
      omega
    · have hr : r.enterPreRecording = r := by
        simp only [Recorder.enterPreRecording, if_neg hback, if_neg hfresh]
      rw [hr]
      exact ⟨h, fun hpre hzero => hfresh ⟨hpre, hzero⟩⟩

theorem enterPreRecording_fields (r : Recorder) : r.enterPreRecording.buf = r.buf ∧
    r.enterPreRecording.frameCount = r.frameCount := by
  rw [Recorder.enterPreRecording]
  split_ifs <;> exact ⟨rfl, rfl⟩

/-- **`pre_record_vsync_step` returns** and keeps the invariant. -/
theorem vsyncStep (h : r.Inv S mem false counted gs rest log) (hset : r.Settled)
    (hcount : 1 ≤ r.frameCount) :
    ∃ r' rest', preRecordVsyncStep S r = some r' ∧ r'.Inv S mem false counted gs rest' log ∧
      r'.Settled ∧ Ready r' := by
  obtain ⟨h₁, hfirst⟩ := h.enterPreRecording hcount
  obtain ⟨hbuf, hcount₁⟩ := enterPreRecording_fields r
  have hset₁ : r.enterPreRecording.Settled := by
    rw [Settled, slots, hbuf]
    exact hset
  rw [preRecordVsyncStep]
  set r₁ := r.enterPreRecording with hr₁
  cases hpre : r₁.preRecording with
  | false =>
    exact ⟨r₁, rest, by simp, h₁, hset₁, by omega, by simp [hpre]⟩
  | true =>
    have hfirst := hfirst hpre
    by_cases htrig : r₁.triggered = true
    · rw [if_pos htrig]
      obtain ⟨h₂, hset₂, hpre₂, hfirst₂⟩ := h₁.discardIfNoFreeSlots hset₁ hpre hfirst
      set r₂ := preRecordDiscardFrameIfNoFreeSlots S r₁ with hr₂
      have hfirst₂ : r₂.firstFrame ≠ 0 := hfirst₂ ▸ hfirst
      obtain ⟨hcount₂, -⟩ := h₂.ready_of_preRecording hpre₂ hfirst₂
      obtain ⟨js, hqueue, -, hresume, hsession⟩ := h₂.queueFrames hset₂ hpre₂ hfirst₂
      obtain ⟨q, p, hpush⟩ := MlvLite.foldl_push js r₂
      rw [hqueue, hpush]
      rw [hpush] at hresume hsession
      refine ⟨_, rest ++ js, rfl, ?_⟩
      cases S.preOnly with
      | true =>
        refine ⟨hsession, hset₂, hcount₂, fun _ => ?_⟩
        change r₂.frameCount ≠ 0
        omega
      | false => exact ⟨hresume, hset₂, hcount₂, by simp⟩
    · rw [if_neg htrig]
      by_cases hfull : r₁.frameCount - r₁.firstFrame ≥ S.preRecordNumFrames
      · obtain ⟨h₂, hset₂⟩ := h₁.discard hset₁ hpre hfirst
        rw [if_pos hfull]
        exact ⟨_, rest, rfl, h₂, hset₂, h₂.ready_of_preRecording hpre hfirst⟩
      · rw [if_neg hfull]
        exact ⟨r₁, rest, rfl, h₁, hset₁, h₁.ready_of_preRecording hpre hfirst⟩

theorem vsyncStep_of_modules (h : r.Inv S mem true counted gs rest log) :
    preRecordVsyncStep S r = some r := by
  have hpre : r.preRecording = false := h.ledger.mode rfl
  have htrig := h.triggered rfl
  simp [preRecordVsyncStep, Recorder.enterPreRecording, hpre, htrig]

/-- Frames are discarded until there is a free slot. -/
theorem discardUntilFree (h : r.Inv S mem modules counted gs rest log) (hset : r.Settled)
    (hpre : r.preRecording = true) (hfirst : r.firstFrame ≠ 0) {fuel : ℕ}
    (hstep : discardUntilFree S fuel r = some r') :
    r'.Inv S mem modules counted gs rest log ∧ Ready r' ∧
      ∀ c, r'.buf.captureSlot = some c → IsFreeAt r'.slots c := by
  induction fuel generalizing r with
  | zero => simp [MlvLite.discardUntilFree] at hstep
  | succ fuel ih =>
    obtain ⟨h₁, hset₁⟩ := h.discard hset hpre hfirst
    simp only [MlvLite.discardUntilFree] at hstep
    set r₁ := preRecordDiscardFrame S r with hr₁
    have h₂ : Recorder.Inv S mem modules counted { MlvLite.chooseCaptureSlot r₁ with
        skippedFrames := (MlvLite.chooseCaptureSlot r₁).skippedFrames + 1 } gs rest log :=
      h₁.chooseCaptureSlot.of_core rfl
    split_ifs at hstep with hnone
    · exact ih h₂ hset₁ hpre hfirst hstep
    · cases hstep
      exact ⟨h₂, h₂.ready_of_preRecording hpre hfirst, fun c hc => chooseNextCaptureSlot_isFree hc⟩

/-- **A vsync keeps the invariant.** -/
theorem processFrame (h : r.Inv S mem modules counted gs rest log) (hpos : 0 < S.maxFrameSize)
    (hset : modules = false → r.Settled) (hstep : processFrame S r = some r') :
    ∃ rest', r'.Inv S mem modules counted gs rest' log := by
  rw [MlvLite.processFrame] at hstep
  split_ifs at hstep with hcount hskip hedmac
  · cases hstep
    exact ⟨rest, h.setBuf h.buffers h.pos rfl (fun _ _ => rfl) (h.ledger.skipFrame hcount)
      h.marksOk⟩
  · cases hstep
    exact ⟨rest, h.of_core rfl⟩
  · cases hstep
    exact ⟨rest, h.of_core rfl⟩
  · obtain ⟨r₃, hr₃, rfl⟩ := Option.map_eq_some_iff.1 hstep
    obtain ⟨r₁, hr₁, hr₃⟩ := Option.bind_eq_some_iff.1 hr₃
    have hready : ∃ rest', r₁.Inv S mem modules counted gs rest' log ∧
        (modules = false → r₁.Settled) ∧ Ready r₁ := by
      cases modules with
      | true =>
        obtain rfl := Option.some.inj (h.vsyncStep_of_modules.symm.trans hr₁)
        have hpre : r.preRecording = false := h.ledger.mode rfl
        exact ⟨rest, h, by simp, by omega, by simp [hpre]⟩
      | false =>
        obtain ⟨r', rest', hr', h', hset', hready⟩ := h.vsyncStep (hset rfl) (by omega)
        obtain rfl := Option.some.inj (hr'.symm.trans hr₁)
        exact ⟨rest', h', fun _ => hset', hready⟩
    obtain ⟨rest₁, h₁, hset₁, hready₁⟩ := hready
    have h₂ := h₁.chooseCaptureSlot
    have hfree : r₃.Inv S mem modules counted gs rest₁ log ∧ Ready r₃ ∧
        ∀ c, r₃.buf.captureSlot = some c → IsFreeAt r₃.slots c := by
      rw [nextCaptureSlot] at hr₃
      split_ifs at hr₃ with hnone
      · have hmod : modules = false := by
          by_contra hmod
          have hpre : r₁.preRecording = false := h₁.ledger.mode (by simpa using hmod)
          simp [MlvLite.chooseCaptureSlot, hpre] at hnone
        exact h₂.discardUntilFree (hset₁ hmod) hnone.2 (hready₁.2 hnone.2) hr₃
      · cases hr₃
        exact ⟨h₂, hready₁, fun c hc => chooseNextCaptureSlot_isFree hc⟩
    obtain ⟨h₃, hready₃, hfree⟩ := hfree
    rw [saveFrame]
    split
    next c hc => exact h₃.captureFrame hpos (hfree c hc) hready₃.1 hready₃.2
    next => exact ⟨rest₁, h₃.of_core rfl⟩

end Recorder.Inv

end MagicLantern.MlvLite

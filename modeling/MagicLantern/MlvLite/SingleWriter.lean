import MagicLantern.MlvLite.WritingOrder

/-!
# Recording with one task

Without card spanning there is one recording task. Its groups are completed in the order of the
picks, so that the frames come into the file in the order in which they were captured. At the end
the task writes what is left in the queue, slot by slot.

Source: `src/modules/raw_video/mlv_lite/mlv_lite.c`.

## Main results

* `run_frameOrder` — the frames are written in order.
-/

namespace MagicLantern.MlvLite

open List Option RingQueue SlotTable

/-! ### The frames that are left at the end -/

variable {i : ℕ} {disks : List Disk} {op : RecOp}

section

variable {S : Settings} {mem : Set ℕ} {r r' : Recorder} {l : List ℕ}

theorem flushSlot_spec (h : TableOk S.maxFrameSize mem r.buf.table) {s : FrameSlot}
    (hs : r.slots[i]? = some s) (hidle : s.isIdle = false) (file : CardFile) (limit : Bool) :
    TableOk S.maxFrameSize mem (r.flushSlot S i file limit).buf.table ∧
      (r.flushSlot S i file limit).buf.table.frame =
        Function.update r.buf.table.frame i none := by
  have hmem := mem_of_getElem? hs
  have hres : s.status ≠ .reserved := by
    intro hres
    simp [FrameSlot.isIdle, hres] at hidle
  have hok := h.modify (f := fun s => { s with status := .writing }) hs rfl rfl (by simp [hres])
    ⟨(h.sizeOk s hmem).le, by simp, by simp, by simp⟩ fun _ => h.pos s hmem hidle
  have hs' := modify_self (f := fun s => { s with status := .writing }) hs
  refine ⟨hok.freeSlot hs' rfl, ?_⟩
  have hframe := frame_freeSlot hs' S.maxFrameSize
  rw [frame_modify hs rfl rfl, Function.update_idem] at hframe
  exact hframe

/-- **The loop at the end** writes the frames of its slots. -/
theorem flushSlots_spec (h : TableOk S.maxFrameSize mem r.buf.table) (hnodup : l.Nodup)
    (hl : ∀ i ∈ l, ∃ F, r.buf.table.frame i = some F)
    (hflush : Recorder.flushSlots S r l disks = some r') :
    hdrFrames (r'.file 0).blocks =
      hdrFrames (r.file 0).blocks ++ videoFrames r.buf.table.entry l := by
  induction l generalizing r disks with
  | nil =>
    cases hflush
    rw [videoFrames_nil, append_nil]
  | cons i l ih =>
    obtain ⟨⟨F, hF⟩, hl⟩ := forall_mem_cons.1 hl
    obtain ⟨hi, hnodup⟩ := nodup_cons.1 hnodup
    obtain ⟨s, hs, hidle, rfl⟩ := exists_of_frame hF
    cases disks with
    | nil => simp [Recorder.flushSlots] at hflush
    | cons disk disks =>
      rw [Recorder.flushSlots, hs, bind_some] at hflush
      obtain ⟨⟨file, limit⟩, hfile, hflush⟩ := bind_eq_some_iff.1 hflush
      obtain ⟨hok, hframe⟩ := flushSlot_spec h hs hidle file limit
      have hentry := entry_of_update hframe
      have hothers : ∀ j ∈ l, (r.flushSlot S i file limit).buf.table.frame j =
          r.buf.table.frame j := Recorder.Inv.frame_eq_of_update hframe hi
      have hfile₀ : (r.flushSlot S i file limit).file 0 = file := by simp [Recorder.flushSlot]
      have hblock : hdrFrames ([s.ptr].map r.buf.table.hdr) =
          videoFrames r.buf.table.entry [i] :=
        hdrFrames_blocks (.cons ⟨_, hF, rfl⟩ .nil)
      rw [map_singleton] at hblock
      rw [ih hok hnodup (fun j hj => by rw [hothers j hj]; exact hl j hj) hflush, hfile₀,
        writeFrames_spec hfile, hblock, hentry, videoFrames_update hi, append_assoc,
        ← videoFrames_append, singleton_append]

/-- A write without error. -/
def Disk.Ok (disk : Disk) : Prop := disk.written = true ∧ disk.headers ≠ 0

/-- A group is written if there is no error. -/
theorem exists_writeFrames {disk : Disk} (h : disk.Ok) (file : CardFile) (limit : Bool)
    (l : List MlvHdr) (size : ℕ) (n : ℤ) : ∃ f, writeFrames file limit disk l size n = some f := by
  have hsplit : ∃ f, file.splitBefore limit disk size = some f := by
    rw [CardFile.splitBefore]
    split_ifs with hlimit hzero
    · exact absurd hzero h.2
    · exact ⟨_, rfl⟩
    · exact ⟨_, rfl⟩
  obtain ⟨f, hf⟩ := hsplit
  exact ⟨_, by rw [writeFrames, hf, bind_some, if_pos h.1]⟩

/-- **The loop at the end comes to its end** if there is no error. -/
theorem exists_flushSlots (h : TableOk S.maxFrameSize mem r.buf.table) (hnodup : l.Nodup)
    (hl : ∀ i ∈ l, ∃ F, r.buf.table.frame i = some F) (hdisks : ∀ disk ∈ disks, disk.Ok)
    (hlen : l.length ≤ disks.length) : ∃ r', Recorder.flushSlots S r l disks = some r' := by
  induction l generalizing r disks with
  | nil => exact ⟨r, by rw [Recorder.flushSlots]⟩
  | cons i l ih =>
    obtain ⟨⟨F, hF⟩, hl⟩ := forall_mem_cons.1 hl
    obtain ⟨hi, hnodup⟩ := nodup_cons.1 hnodup
    obtain ⟨s, hs, hidle, rfl⟩ := exists_of_frame hF
    cases disks with
    | nil => simp at hlen
    | cons disk disks =>
      obtain ⟨hdisk, hdisks⟩ := forall_mem_cons.1 hdisks
      obtain ⟨⟨file, limit⟩, hfile⟩ := exists_writeFrames hdisk (r.file 0) r.fileSizeLimit
        [r.buf.table.hdr s.ptr] s.size (if s.isMeta then 0 else 1)
      obtain ⟨hok, hframe⟩ := flushSlot_spec h hs hidle file limit
      have hothers := Recorder.Inv.frame_eq_of_update hframe hi
      obtain ⟨r', hr'⟩ := ih hok hnodup (fun j hj => by rw [hothers j hj]; exact hl j hj) hdisks
        (by simpa using hlen)
      exact ⟨r', by rw [Recorder.flushSlots, hs, bind_some, hfile, bind_some, hr']⟩

end

/-! ### The ring -/

theorem Recorder.waiting_push {r : Recorder} (hhead : r.head < queueSize)
    (htail : r.tail < queueSize) (hlen : r.waiting.length + 1 < queueSize) (i : ℕ) :
    (r.push i).waiting = r.waiting ++ [i] :=
  slice_push hhead htail hlen i

theorem captureFrame_waiting {S : Settings} {r : Recorder} (h : r.preRecording = false) (c : ℕ) :
    (captureFrame S r c).waiting = (r.push c).waiting := by
  have hno : ¬ r.preRecording = true := by simp [h]
  simp only [captureFrame, if_neg hno]
  rfl

namespace Recorder.Inv

variable {S : Settings} {mem : Set ℕ} {modules : Bool} {counted : Prop} {r r' : Recorder}
  {gs : List (List ℕ)} {rest : List ℕ} {log : List (Card × ℤ)}

theorem waiting_push (h : r.Inv S mem modules counted gs rest log) (hi : i < r.slots.length)
    (hnot : i ∉ gs.flatten ++ rest) : (r.push i).waiting = r.waiting ++ [i] := by
  obtain ⟨base, hq⟩ := h.queue
  have hall : (i :: (gs.flatten ++ rest)).length < queueSize := by
    refine h.length_lt_of_nodup (nodup_cons.2 ⟨hnot, h.ledger.queued.nodup⟩) ?_
    refine forall_mem_cons.2 ⟨hi, fun j hj => ?_⟩
    obtain ⟨e, he, -⟩ := h.exists_entry_of_mem hj
    exact lt_of_entry he
  rw [length_cons] at hall
  have hlen : r.waiting.length ≤ (gs.flatten ++ rest).length := by
    rcases hq.waiting_eq h.length_lt with ⟨hwait, -⟩ | ⟨hwait, -⟩
    · rw [hwait, length_append]
      omega
    · rw [hwait]
  refine Recorder.waiting_push ?_ ?_ (by omega) i
  · rcases hq.head with hhead | ⟨hhead, -⟩
    · exact hhead ▸ advance_lt queueSize_pos _ _
    · exact hhead ▸ hq.base_lt
  · exact hq.tail ▸ advance_lt queueSize_pos _ _

/-- Without pre-recording a vsync captures a frame, or changes neither the slots nor the queue. -/
theorem processFrame_cases (h : r.Inv S mem true counted gs rest log)
    (hstep : MlvLite.processFrame S r = some r') :
    (r'.writingQueue = r.writingQueue ∧ r'.head = r.head ∧ r'.tail = r.tail ∧
      r'.groups = r.groups ∧ r'.file = r.file) ∨
    ∃ c, IsFreeAt r.slots c ∧ r' = MlvLite.captureFrame S (MlvLite.chooseCaptureSlot r) c := by
  have hpre : r.preRecording = false := h.ledger.mode rfl
  rw [MlvLite.processFrame, h.vsyncStep_of_modules] at hstep
  split_ifs at hstep
  · cases hstep
    exact .inl ⟨rfl, rfl, rfl, rfl, rfl⟩
  · cases hstep
    exact .inl ⟨rfl, rfl, rfl, rfl, rfl⟩
  · cases hstep
    exact .inl ⟨rfl, rfl, rfl, rfl, rfl⟩
  · have hno : ¬ ((MlvLite.chooseCaptureSlot r).buf.captureSlot = none ∧
        (MlvLite.chooseCaptureSlot r).preRecording = true) := by
      simp [MlvLite.chooseCaptureSlot, hpre]
    rw [bind_some, nextCaptureSlot, if_neg hno, map_some, some.injEq] at hstep
    rw [saveFrame] at hstep
    split at hstep
    next c hc => exact .inr ⟨c, chooseNextCaptureSlot_isFree hc, hstep.symm⟩
    next =>
      subst hstep
      exact .inl ⟨rfl, rfl, rfl, rfl, rfl⟩

/-- **The ring does not overflow**: a step leaves the tail where it is, or appends one slot to what
waits in the queue. -/
theorem tail_or_append (h : r.Inv S mem true counted gs rest log) (hstep : op.step S r = some r') :
    r'.tail = r.tail ∨ ∃ i, r'.waiting = r.waiting ++ [i] := by
  cases op with
  | vsync =>
    simp only [RecOp.step] at hstep
    split_ifs at hstep
    · cases hstep
      exact .inl rfl
    · obtain ⟨-, -, htail, -⟩ | ⟨c, hfree, rfl⟩ := h.processFrame_cases hstep
      · exact .inl htail
      · have hpre : r.preRecording = false := h.ledger.mode rfl
        have hnone := frame_eq_none_of_free hfree
        obtain ⟨s, hs, -⟩ := hfree
        have hnot : c ∉ gs.flatten ++ rest := fun hmem => by
          obtain ⟨e, he, -⟩ := h.exists_entry_of_mem hmem
          rw [SlotTable.entry, hnone] at he
          simp at he
        refine .inr ⟨c, ?_⟩
        rw [captureFrame_waiting (r := MlvLite.chooseCaptureSlot r) hpre,
          ← h.waiting_push (List.getElem?_eq_some_iff.1 hs).1 hnot]
        rfl
  | releaseSlot i write hdr =>
    obtain ⟨r₁, hr₁, rfl⟩ := map_eq_some_iff.1 hstep
    obtain ⟨buf, hbuf, rfl⟩ := map_eq_some_iff.1 hr₁
    cases write with
    | false => exact .inl rfl
    | true =>
      have hlocked : r.buf.statusAt i = some .locked := by
        by_contra hno
        simp [SlotOp.step, hno] at hbuf
      obtain ⟨s, F, hs, -, -, hF, hkind, -⟩ := h.exists_of_locked hlocked
      have he := entry_of_frame hF
      have hnot : i ∉ gs.flatten ++ rest := fun hmem => by
        obtain ⟨e, he', hk⟩ := h.exists_entry_of_mem hmem
        obtain rfl : F.entry = e := some.inj (he.symm.trans he')
        exact hk hkind
      exact .inr ⟨i, h.waiting_push (List.getElem?_eq_some_iff.1 hs).1 hnot⟩
  | pick card limit =>
    obtain rfl | ⟨i, first, -, -, -, -, rfl⟩ := Recorder.pick_cases hstep
    · exact .inl rfl
    · exact .inl rfl
  | complete card disk =>
    obtain ⟨g, -, hg⟩ := bind_eq_some_iff.1 hstep
    obtain ⟨f, -, rfl⟩ := map_eq_some_iff.1 hg
    exact .inl rfl
  | skipFrames | trigger | edmacDone =>
    cases hstep
    exact .inl rfl
  | compress | compressDone | getFreeSlot =>
    obtain ⟨buf, -, rfl⟩ := map_eq_some_iff.1 hstep
    exact .inl rfl
  | copy =>
    obtain ⟨r₁, hr₁, rfl⟩ := map_eq_some_iff.1 hstep
    obtain ⟨buf, -, rfl⟩ := map_eq_some_iff.1 hr₁
    exact .inl rfl

end Recorder.Inv

/-! ### One task -/

/-- The steps of a recording with one task and without pre-recording. -/
def RecOp.SingleWriter : RecOp → Prop
  | .pick card _ => card = 0
  | .complete card _ => card = 0
  | .trigger on => on = true
  | .releaseSlot _ write hdr => write = true → hdr.isVidf = false
  | _ => True

instance : (op : RecOp) → Decidable op.SingleWriter := by
  rintro ⟨⟩ <;> unfold RecOp.SingleWriter <;> infer_instance

theorem RecOp.SingleWriter.within (h : op.SingleWriter) (r : Recorder) : op.Within true r := by
  cases op with
  | trigger on => exact fun _ => h
  | releaseSlot i write hdr => exact fun hwrite => ⟨rfl, h hwrite⟩
  | vsync => exact fun hfalse => absurd hfalse (by simp)
  | _ => trivial

/-- At most one group is being written, by the first task, and the second card has no frames. -/
structure Recorder.OneTask (r : Recorder) : Prop where
  groups : r.groups = [] ∨ ∃ g, r.groups = [g] ∧ g.card = 0
  file : hdrFrames (r.file 1).blocks = []

theorem Recorder.OneTask.congr {r r' : Recorder} (h : r.OneTask) (hgroups : r'.groups = r.groups)
    (hfile : r'.file = r.file) : r'.OneTask :=
  ⟨hgroups ▸ h.groups, hfile ▸ h.file⟩

theorem takeGroup_groups (r : Recorder) (card : Card) (limit : Option ℕ) (first : FrameSlot) :
    ∃ g, (r.takeGroup card limit first).groups = r.groups ++ [g] ∧ g.card = card :=
  ⟨_, rfl, rfl⟩

namespace Recorder.Inv

variable {S : Settings} {mem : Set ℕ} {counted : Prop} {r r' : Recorder} {gs : List (List ℕ)}
  {rest : List ℕ} {log : List (Card × ℤ)}

section

variable (h : r.Inv S mem true counted gs rest log)
include h

theorem oneTask_vsync (hone : r.OneTask) (hstep : RecOp.vsync.step S r = some r') : r'.OneTask := by
  simp only [RecOp.step] at hstep
  split_ifs at hstep
  · cases hstep
    exact hone
  · obtain ⟨-, -, -, hgroups, hfile⟩ | ⟨c, -, rfl⟩ := h.processFrame_cases hstep
    · exact hone.congr hgroups hfile
    · have hpre : ¬ (MlvLite.chooseCaptureSlot r).preRecording = true := by
        have hpre : r.preRecording = false := h.ledger.mode rfl
        simp [MlvLite.chooseCaptureSlot, hpre]
      simp only [MlvLite.captureFrame, if_neg hpre]
      exact hone.congr rfl rfl

/-- **The task completes the group that it has picked** before it picks another one. -/
theorem oneTask (hop : op.SingleWriter) (hone : r.OneTask) (hstep : op.step S r = some r') :
    op.InOrder r ∧ r'.OneTask := by
  cases op with
  | vsync => exact ⟨trivial, h.oneTask_vsync hone hstep⟩
  | pick card limit =>
    obtain rfl | ⟨i, first, -, -, -, hno, rfl⟩ := Recorder.pick_cases hstep
    · exact ⟨trivial, hone⟩
    · obtain rfl : card = 0 := hop
      have hnil : r.groups = [] := by
        obtain hnil | ⟨g, hg, hcard⟩ := hone.groups
        · exact hnil
        · exact absurd hcard (hno g (by simp [hg]))
      obtain ⟨g, hg, hcard⟩ := takeGroup_groups r 0 limit first
      rw [hnil] at hg
      exact ⟨trivial, .inr ⟨g, hg, hcard⟩, hone.file⟩
  | complete card disk =>
    obtain rfl : card = 0 := hop
    obtain ⟨g, hg, hstep⟩ := bind_eq_some_iff.1 hstep
    obtain ⟨f, -, rfl⟩ := map_eq_some_iff.1 hstep
    obtain hnil | ⟨g', hgroups, hcard⟩ := hone.groups
    · simp [hnil] at hg
    · have hgcard : g.card = 0 := by simpa using find?_some hg
      refine ⟨by simp [RecOp.InOrder, hgroups, hcard], .inl ?_, ?_⟩
      · simp [finishGroup, hgroups, hcard, hgcard]
      · have hfile : (r.finishGroup S g f.1 f.2).file 1 = r.file 1 := by
          simp [finishGroup, hgcard]
        rw [hfile]
        exact hone.file
  | releaseSlot i write hdr =>
    obtain ⟨r₁, hr₁, rfl⟩ := map_eq_some_iff.1 hstep
    obtain ⟨buf, -, rfl⟩ := map_eq_some_iff.1 hr₁
    cases write <;> exact ⟨trivial, hone.congr rfl rfl⟩
  | skipFrames | trigger | edmacDone =>
    cases hstep
    exact ⟨trivial, hone.congr rfl rfl⟩
  | compress | compressDone | getFreeSlot =>
    obtain ⟨buf, -, rfl⟩ := map_eq_some_iff.1 hstep
    exact ⟨trivial, hone.congr rfl rfl⟩
  | copy =>
    obtain ⟨r₁, hr₁, rfl⟩ := map_eq_some_iff.1 hstep
    obtain ⟨buf, -, rfl⟩ := map_eq_some_iff.1 hr₁
    exact ⟨trivial, hone.congr rfl rfl⟩

theorem file_eq (hone : r.OneTask) : hdrFrames (r.file 0).blocks = log.map Prod.snd := by
  have hnone : framesOn 1 log = [] := (h.files 1).symm.trans hone.file
  rw [framesOn, map_eq_nil_iff, filter_eq_nil_iff] at hnone
  rw [h.files, framesOn, filter_eq_self.2 fun x hx => ?_]
  have hcard : ∀ c : Card, c ≠ 1 → c = 0 := by decide
  simpa using hcard x.1 (by simpa using hnone x hx)

theorem queuedFrames_eq : r.queuedFrames = (r.frameCount - 1).toNat := by
  have hpre : r.preRecording = false := h.ledger.mode rfl
  simp [queuedFrames, hpre]

theorem rest_of_groups_eq_nil (hnil : r.groups = []) :
    gs = [] ∧ r.waiting = rest ∧ rest.Nodup ∧ ∀ i ∈ rest, ∃ F, r.buf.table.frame i = some F := by
  obtain ⟨base, hq⟩ := h.queue
  have hgs : gs = [] := by
    have hchained := hq.chained
    rw [hnil] at hchained
    cases hchained
    rfl
  have hnodup : (gs.flatten ++ rest).Nodup := h.ledger.queued.nodup
  refine ⟨hgs, ?_, (nodup_append.1 hnodup).2.1, fun i hi => ?_⟩
  · obtain ⟨hwait, -⟩ | ⟨-, hne⟩ := hq.waiting_eq h.length_lt
    · exact hwait
    · exact absurd hgs hne
  · obtain ⟨e, he, -⟩ := h.exists_entry_of_mem (mem_append_right gs.flatten hi)
    obtain ⟨F, hF, -⟩ := entry_eq_some.1 he
    exact ⟨F, hF⟩

/-- What the loop at the end leaves in the file. -/
theorem flush_spec (hone : r.OneTask) (hflush : r.flush S disks = some r') :
    hdrFrames (r'.file 0).blocks = firstFrames (r.frameCount - 1).toNat := by
  rw [flush] at hflush
  split_ifs at hflush with hbusy
  have hnil : r.groups = [] := by
    obtain hnil | ⟨g, hg, hcard⟩ := hone.groups
    · exact hnil
    · simp [hg, hcard] at hbusy
  obtain ⟨rfl, hwait, hnodup, hframes⟩ := h.rest_of_groups_eq_nil hnil
  rw [hwait] at hflush
  rw [flushSlots_spec h.tableOk hnodup hframes hflush, h.file_eq hone, ← h.queuedFrames_eq,
    ← h.fifo]
  rfl

end

end Recorder.Inv

/-- **The frames of a recording with one task are in the file in order**, without gap or repetition,
whatever the interleaving of the steps and the limits of the groups: those that have been written,
those that are being written and those that wait are the frames that have been captured. So are, in
the file, the frames that have been written before and by the loop at the end, which comes to its
end if there is no write error. The ring does not overflow. -/
theorem run_frameOrder (R : Recording) (hpre : R.preRecord = false)
    (htrigger : R.recTrigger = false) (ops : List RecOp) (hops : ∀ op ∈ ops, op.SingleWriter)
    (r : Recorder) (hrun : R.run ops = some r) :
    hdrFrames (r.file 0).blocks ++ videoFrames r.buf.table.entry (r.beingWritten ++ r.unpicked) =
        firstFrames (r.frameCount - 1).toNat ∧
      (∀ disks r', r.flush R.settings disks = some r' →
        hdrFrames (r'.file 0).blocks = firstFrames (r.frameCount - 1).toNat) ∧
      (r.groups = [] → ∀ disks : List Disk, (∀ disk ∈ disks, disk.Ok) →
        r.waiting.length ≤ disks.length → ∃ r', r.flush R.settings disks = some r') ∧
      ∀ op r', RecOp.step R.settings r op = some r' →
        r'.tail = r.tail ∨ ∃ i, r'.waiting = r.waiting ++ [i] := by
  have hinv : (∃ gs rest log, r.Inv R.settings R.mem true False gs rest log) ∧ r.OneTask := by
    refine Runs.invariant_of_meets (I := fun r =>
      (∃ gs rest log, r.Inv R.settings R.mem true False gs rest log) ∧ r.OneTask) ?_
      (Runs.Meets.of_forall_mem hops) hrun
      ⟨⟨[], [], [], R.start_inv (fun _ => ⟨hpre, htrigger⟩) False.elim⟩, .inl rfl, rfl⟩
    rintro r op r' ⟨⟨gs, rest, log, h⟩, hone⟩ hop hstep
    obtain ⟨horder, hone'⟩ := h.oneTask hop hone hstep
    exact ⟨h.step R.align R.size_pos (hop.within r) horder False.elim hstep, hone'⟩
  obtain ⟨⟨gs, rest, log, h⟩, hone⟩ := hinv
  refine ⟨?_, fun disks r' hflush => h.flush_spec hone hflush, fun hnil disks hdisks hlen => ?_,
    fun op r' hstep => h.tail_or_append hstep⟩
  · rw [h.beingWritten_eq, h.unpicked_eq, h.file_eq hone, h.fifo, h.queuedFrames_eq]
  · obtain ⟨-, hwait, hnodup, hframes⟩ := h.rest_of_groups_eq_nil hnil
    have hno : ¬ r.groups.any (·.card == 0) = true := by simp [hnil]
    rw [Recorder.flush, if_neg hno, hwait]
    exact exists_flushSlots h.tableOk hnodup hframes hdisks (hwait ▸ hlen)

/-- Three frames are captured, the first one is written and the others are left to the end. -/
theorem run_frameOrder_threeFrames :
    let ops : List RecOp := .vsync :: vsyncCopy ++ vsyncCopy ++ vsyncCopy ++
      [.pick 0 (some 1), .complete 0 diskOk]
    ∃ r r', threeFrames.run ops = some r ∧
      r.flush threeFrames.settings (List.replicate 2 diskOk) = some r' ∧
      hdrFrames (r'.file 0).blocks = firstFrames (r.frameCount - 1).toNat ∧ r.frameCount = 4 := by
  intro ops
  obtain ⟨r, hrun, hgroups, hwait, hcount⟩ : ∃ r, threeFrames.run ops = some r ∧
      r.groups.length = 0 ∧ r.waiting.length = 2 ∧ r.frameCount = 4 := by
    decide +kernel
  obtain ⟨-, hfile, hflush, -⟩ :=
    run_frameOrder threeFrames rfl rfl ops (by decide) r hrun
  obtain ⟨r', hr'⟩ := hflush (length_eq_zero_iff.1 hgroups) (replicate 2 diskOk)
    (by simp [diskOk, Disk.Ok]) (by simp [hwait])
  exact ⟨r, r', hrun, hr', hfile _ r' hr', hcount⟩

end MagicLantern.MlvLite

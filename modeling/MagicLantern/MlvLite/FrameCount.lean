import MagicLantern.MlvLite.SingleWriter

/-!
# The number of frames in the header of a file

`finish_chunk` writes into the header of a file how many frames the file has. The recording task
counts them group by group, as the number of slots of the group minus the number of meta slots that
its loop has seen. The loop counts a meta slot before it finds out whether the slot belongs to the
group, and the group may be cut short afterwards: the number is right when no meta slot is seen that
is not written with the group.

When the card is full, a group is written in part and not counted, and the recording ends. The
number is right then if no frame of the group is complete in the file. With pre-recording a
discarded slot can stay marked; then modules may not have blocks written. If a new chunk cannot be
opened, `finish_chunk` is called once more for the file that it has closed; this is not modelled.

Source: `src/modules/raw_video/mlv_lite/mlv_lite.c`.

## Main results

* `run_frameCount` — the number is right.
* `run_miscounts`.
-/

namespace MagicLantern.MlvLite

open List RingQueue SlotTable

/-! ### What the loop sees -/

/-- A pick whose loop sees no meta slot behind those that are written: neither among the slots that
are cut off by the limit, nor in the place where the group ends. -/
def RecOp.SeesOwnBlocks (r : Recorder) : RecOp → Prop
  | .pick _ frameLimit => ∀ first ∈ r.waiting.head?.bind fun i => r.slots[i]?,
      ∀ i ∈ (r.waiting.take (contiguous r.slots first.ptr r.waiting + 1)).drop
        (limitGroup frameLimit (contiguous r.slots first.ptr r.waiting)), hasBlock r.slots i = false
  | _ => True

instance (r : Recorder) : (op : RecOp) → Decidable (op.SeesOwnBlocks r) := by
  rintro ⟨⟩ <;> unfold RecOp.SeesOwnBlocks <;> infer_instance

/-! ### The frames of a group -/

variable {l : List ℕ}

/-- Complete slots have video frames or the blocks of other modules. -/
theorem length_videoFrames {t : SlotTable} (h : t.MarksOk)
    (hl : ∀ i ∈ l, ∃ s, t.slots[i]? = some s ∧ s.status = .full) :
    (videoFrames t.entry l).length + l.countP (hasBlock t.slots) = l.length := by
  induction l with
  | nil => rfl
  | cons i l ih =>
    obtain ⟨⟨s, hs, hfull⟩, hl⟩ := forall_mem_cons.1 hl
    have hF := frame_of_inUse hs (by simp [FrameSlot.isIdle, hfull])
    have he := entry_of_frame hF
    have hmark : s.isMeta = !(t.hdr s.ptr).isVidf := by
      have hmark := h i s hs
      rw [hF] at hmark
      simpa [Frame.isBlock, hfull] using hmark
    have hone : (videoFrames t.entry [i]).length + [i].countP (hasBlock t.slots) = 1 := by
      rw [videoFrames_singleton he]
      cases hv : (t.hdr s.ptr).isVidf <;> simp [Frame.entry, hasBlock, hs, hfull, hmark, hv]
    have hih := ih hl
    rw [← singleton_append, videoFrames_append, countP_append, length_append,
      length_append, length_singleton]
    omega

namespace Recorder.Inv

variable {S : Settings} {mem : Set ℕ} {modules : Bool} {counted : Prop} {r r' : Recorder}
  {gs : List (List ℕ)} {rest : List ℕ} {log : List (Card × ℤ)}

/-- **A task counts the frames of its group right**, if it sees no other meta slots. -/
theorem groupCounted (h : r.Inv S mem modules counted gs rest log) (hc : counted) {op : RecOp}
    (hop : op.SeesOwnBlocks r) : op.GroupCounted r := by
  cases op with
  | pick card limit =>
    intro i first hi hs hfull
    have hown := hop first (by simp [hi, hs])
    obtain ⟨hcount, hmeta⟩ := scanGroup_eq r.slots first.ptr r.waiting ⟨0, 0, 0⟩
    simp only [Nat.zero_add, Nat.add_zero] at hcount hmeta
    rw [Recorder.GroupCounted, scan, hcount]
    set n := contiguous r.slots first.ptr r.waiting with hn
    have hle := limitGroup_le limit n
    have hlen : (r.waiting.take (limitGroup limit n)).length = limitGroup limit n :=
      length_take_of_le (hle.trans contiguous_le)
    have hsplit : (r.waiting.take (n + 1)).countP (hasBlock r.slots) =
        (r.waiting.take (limitGroup limit n)).countP (hasBlock r.slots) := by
      rw [← take_append_drop (limitGroup limit n) (r.waiting.take (n + 1)),
        countP_append, take_take, min_eq_left (by omega), Nat.add_eq_left]
      exact countP_eq_zero.2 fun j hj => by simp [hown j hj]
    have hvideo : (videoFrames r.buf.table.entry (r.waiting.take (limitGroup limit n))).length +
        (r.waiting.take (limitGroup limit n)).countP (hasBlock r.slots) = limitGroup limit n :=
      (length_videoFrames (h.marksOk hc) fun j hj =>
        full_of_mem_contiguous (take_subset_take_left _ hle hj)).trans hlen
    omega
  | _ => trivial

end Recorder.Inv

/-! ### A card that is full -/

/-- The blocks that are complete in `n` bytes. -/
def wholeBlocks (n : ℕ) : List MlvHdr → List MlvHdr
  | [] => []
  | b :: l => if b.blockSize ≤ n then b :: wholeBlocks (n - b.blockSize) l else []

/-- `write_frames` when a write fails below the limit, so that it returns `0`. What has been written
of the group stays in the file. -/
def cardFull (file : CardFile) (fileSizeLimit : Bool) (disk : Disk) (blocks : List MlvHdr)
    (groupSize : ℕ) : Option CardFile :=
  (file.splitBefore fileSizeLimit disk groupSize).bind fun file =>
    if disk.written = false ∧ file.writtenChunk + groupSize < 0xFFFFFFFF then
      some { file with chunk := file.chunk ++ wholeBlocks (disk.pos - file.writtenChunk) blocks }
    else none

/-- No frame is complete in what has been written of a group. -/
def NoFrameLeft (file : CardFile) (fileSizeLimit : Bool) (disk : Disk) (blocks : List MlvHdr)
    (groupSize : ℕ) : Prop :=
  ∀ f ∈ file.splitBefore fileSizeLimit disk groupSize,
    hdrFrames (wholeBlocks (disk.pos - f.writtenChunk) blocks) = []

instance (file : CardFile) (fileSizeLimit : Bool) (disk : Disk) (blocks : List MlvHdr)
    (groupSize : ℕ) : Decidable (NoFrameLeft file fileSizeLimit disk blocks groupSize) := by
  unfold NoFrameLeft
  infer_instance

theorem CardFile.Counted.cardFull {file file' : CardFile} {limit : Bool} {disk : Disk}
    {blocks : List MlvHdr} {size : ℕ} (hfile : file.Counted)
    (hleft : NoFrameLeft file limit disk blocks size)
    (h : MlvLite.cardFull file limit disk blocks size = some file') : file'.Counted := by
  obtain ⟨f, hf, h⟩ := Option.bind_eq_some_iff.1 h
  have hleft := hleft f hf
  have hcounted : f.Counted := by
    rw [CardFile.splitBefore] at hf
    split_ifs at hf
    · cases hf
      exact hfile.nextChunk _
    · cases hf
      exact hfile
  split_ifs at h
  cases h
  exact ⟨by simp [hleft, hcounted.chunk], hcounted.finished⟩

namespace Recorder

/-- The task of a card cannot write its group, and leaves its loop. The slots are not freed, and the
queue is emptied. -/
def abort (r : Recorder) (card : Card) (disk : Disk) : Option Recorder :=
  (r.groups.find? (·.card == card)).bind fun g =>
    (cardFull (r.file g.card) r.fileSizeLimit disk (g.blocks.map r.buf.table.hdr) g.groupSize).map
      fun file => { r with
        head := r.tail
        groups := r.groups.eraseP (·.card == g.card)
        file := Function.update r.file g.card file }

/-- A part of the loop that writes the frames which are left: as many as there are answers. -/
def flushing (S : Settings) (r : Recorder) (disks : List Disk) : Option Recorder :=
  if r.groups.any (·.card == 0) then none
  else flushSlots S r (r.waiting.take disks.length) disks

/-- The slots of a group. -/
def slotsOf (r : Recorder) (g : Group) : List ℕ :=
  slice queueSize r.writingQueue g.wHead g.afterLastGrouped

/-- The slots in the queue behind a group. -/
def slotsAfter (r : Recorder) (g : Group) : List ℕ :=
  slice queueSize r.writingQueue g.afterLastGrouped r.tail

end Recorder

/-- What a task does with the group that it has when the recording ends. -/
inductive StopOp
  | complete (card : Card) (disk : Disk)
  | abort (card : Card) (disk : Disk)

def StopOp.step (S : Settings) (r : Recorder) : StopOp → Option Recorder
  | complete card disk => r.complete S card disk
  | abort card disk => r.abort card disk

/-- A group is completed only if no group that was picked before is still being written, and no
frame is complete in what is left of another one. -/
def StopOp.Good (r : Recorder) : StopOp → Prop
  | complete card _ => r.groups.head?.map Group.card = some card
  | abort card disk => ∀ g ∈ r.groups.find? (·.card == card),
      NoFrameLeft (r.file g.card) r.fileSizeLimit disk (g.blocks.map r.buf.table.hdr) g.groupSize

instance (r : Recorder) (op : StopOp) : Decidable (op.Good r) := by
  cases op <;> unfold StopOp.Good <;> infer_instance

/-! ### The end of a recording -/

/-- A slot in use that is marked if and only if its block is not a video frame. -/
def MarkedRight (t : SlotTable) (i : ℕ) : Prop :=
  ∃ s, t.slots[i]? = some s ∧ s.isIdle = false ∧ s.isMeta = !(t.hdr s.ptr).isVidf

theorem MarkedRight.freeSlot {t : SlotTable} {i j : ℕ} (h : MarkedRight t i) (M : ℕ)
    (f : FrameSlot → FrameSlot) (hij : i ≠ j) :
    MarkedRight (MlvLite.freeSlot M (t.modify j f) j) i := by
  obtain ⟨s, hs, hidle, hmark⟩ := h
  refine ⟨s, freeSlot_of_ne hij ((modify_of_ne hij).trans hs) hidle, hidle, ?_⟩
  rw [freeSlot_hdr]
  exact hmark

theorem MarkedRight.releaseWritten {t : SlotTable} {i : ℕ} (h : MarkedRight t i) (S : Settings)
    (hi : i ∉ l) : MarkedRight (l.foldl (Recorder.releaseWritten S) t) i := by
  induction l generalizing t with
  | nil => exact h
  | cons j l ih =>
    obtain ⟨hij, hi⟩ := not_or.1 (mem_cons.not.1 hi)
    exact ih (h.freeSlot _ _ hij) hi

theorem hdr_releaseWritten (S : Settings) (t : SlotTable) :
    (l.foldl (Recorder.releaseWritten S) t).hdr = t.hdr := by
  induction l generalizing t with
  | nil => rfl
  | cons j l ih => exact (ih _).trans (freeSlot_hdr ..)

/-- The groups are counted right, and the slots of the queue and those behind each group are marked
right. -/
structure Recorder.Stopping (r : Recorder) : Prop where
  counts : ∀ c, (r.file c).Counted
  numbers : ∀ g ∈ r.groups, g.numFrames = (hdrFrames (g.blocks.map r.buf.table.hdr)).length
  waiting : r.waiting.Nodup ∧ ∀ i ∈ r.waiting, MarkedRight r.buf.table i
  after : ∀ g ∈ r.groups, (r.slotsOf g ++ r.slotsAfter g).Nodup ∧
    ∀ i ∈ r.slotsAfter g, MarkedRight r.buf.table i
  order : r.groups.Pairwise fun g g' => r.slotsAfter g' ⊆ r.slotsAfter g

theorem CardFile.Counted.update {file : Card → CardFile} {card : Card} {f : CardFile}
    (hfiles : ∀ c, (file c).Counted) (hf : f.Counted) (c : Card) :
    (Function.update file card f c).Counted := by
  rw [Function.update_apply]
  split_ifs
  · exact hf
  · exact hfiles c

namespace Recorder.Stopping

variable {S : Settings} {r r' : Recorder} {card : Card} {disk : Disk}

theorem complete (h : r.Stopping) (horder : r.groups.head?.map Group.card = some card)
    (hstep : r.complete S card disk = some r') : r'.Stopping := by
  obtain ⟨g, hg, rfl⟩ := Option.map_eq_some_iff.1 horder
  obtain ⟨groups, hgroups⟩ := head?_eq_some_iff.1 hg
  have hfind : r.groups.find? (·.card == g.card) = some g := by simp [hgroups]
  have hmem : g ∈ r.groups := by simp [hgroups]
  have hsub : groups ⊆ r.groups := by simp [hgroups]
  obtain ⟨hnodup, hmarked⟩ := h.after g hmem
  obtain ⟨-, hafter, hdisj⟩ := nodup_append.1 hnodup
  -- the slots behind the group are not given back
  have hkept : ∀ i ∈ r.slotsAfter g,
      MarkedRight ((r.slotsOf g).foldl (releaseWritten S) r.buf.table) i := fun i hi =>
    (hmarked i hi).releaseWritten S fun hi' => hdisj i hi' i hi rfl
  have hlater := h.order
  rw [hgroups, pairwise_cons] at hlater
  rw [Recorder.complete, hfind] at hstep
  obtain ⟨⟨file, limit⟩, hfile, rfl⟩ := Option.map_eq_some_iff.1 hstep
  have herase : r.groups.eraseP (·.card == g.card) = groups := by simp [hgroups]
  simp only [finishGroup, herase]
  exact {
    counts := .update h.counts ((h.counts g.card).writeFrames (h.numbers g hmem) hfile)
    numbers := fun g' hg' => by
      rw [hdr_releaseWritten]
      exact h.numbers g' (hsub hg')
    waiting := ⟨hafter, hkept⟩
    after := fun g' hg' => ⟨(h.after g' (hsub hg')).1, fun i hi => hkept i (hlater.1 g' hg' hi)⟩
    order := hlater.2 }

theorem abort (h : r.Stopping) (hgood : StopOp.Good r (.abort card disk))
    (hstep : r.abort card disk = some r') : r'.Stopping := by
  obtain ⟨g, hg, hstep⟩ := Option.bind_eq_some_iff.1 hstep
  obtain ⟨file, hfile, rfl⟩ := Option.map_eq_some_iff.1 hstep
  have hsub : r.groups.eraseP (·.card == g.card) <+ r.groups := eraseP_sublist
  exact {
    counts := .update h.counts ((h.counts g.card).cardFull (hgood g hg) hfile)
    numbers := fun g' hg' => h.numbers g' (hsub.subset hg')
    waiting := by simp [Recorder.waiting, slice]
    after := fun g' hg' => h.after g' (hsub.subset hg')
    order := h.order.sublist hsub }

theorem run (h : r.Stopping) {ops : List StopOp}
    (hgood : Runs.Meets (StopOp.step S) (fun r op => op.Good r) r ops)
    (hrun : ops.foldlM (StopOp.step S) r = some r') : r'.Stopping := by
  refine Runs.invariant_of_meets (I := Recorder.Stopping) ?_ hgood hrun h
  rintro r op r' h hgood hstep
  cases op with
  | complete card disk => exact h.complete hgood hstep
  | abort card disk => exact h.abort hgood hstep

end Recorder.Stopping

theorem Chained.slots {counted : Prop} {frame : ℕ → Option Frame} {p : ℕ} {groups : List Group}
    {gs : List (List ℕ)} {q : ℕ → ℕ} {rest : List ℕ} {tail : ℕ}
    (h : Chained counted frame p groups gs) (hp : p < queueSize)
    (hholds : Holds queueSize q p (gs.flatten ++ rest))
    (hlen : (gs.flatten ++ rest).length < queueSize)
    (htail : tail = advance queueSize p (gs.flatten ++ rest).length) :
    (∀ g ∈ groups, slice queueSize q g.wHead g.afterLastGrouped ++
        slice queueSize q g.afterLastGrouped tail <:+ gs.flatten ++ rest) ∧
      groups.Pairwise fun g g' => slice queueSize q g'.afterLastGrouped tail ⊆
        slice queueSize q g.afterLastGrouped tail := by
  induction h with
  | nil => exact ⟨nofun, .nil⟩
  | @cons p g groups l gs head next ne blocks number _ ih =>
    rw [flatten_cons, append_assoc] at hholds hlen htail ⊢
    rw [length_append] at hlen
    have hsplit := (holds_append hp).1 hholds
    have hlt := advance_lt queueSize_pos p l.length
    rw [length_append, ← advance_advance] at htail
    obtain ⟨hsuffix, horder⟩ := ih hlt hsplit.2 (by omega) htail
    have hafter : slice queueSize q g.afterLastGrouped tail = gs.flatten ++ rest := by
      rw [next, htail]
      exact hsplit.2.slice_eq hlt (by omega)
    have hof : slice queueSize q g.wHead g.afterLastGrouped = l := by
      rw [head, next]
      exact hsplit.1.slice_eq hp (by omega)
    refine ⟨forall_mem_cons.2 ⟨?_, fun g' hg' => ?_⟩, pairwise_cons.2 ⟨fun g' hg' => ?_, horder⟩⟩
    · rw [hof, hafter]
    · exact (hsuffix g' hg').trans (suffix_append ..)
    · rw [hafter]
      exact fun i hi => (hsuffix g' hg').subset (mem_append_right _ hi)

/-- The numbers of the groups are those of their blocks. -/
theorem Chained.numbers {t : SlotTable} {p : ℕ} {groups : List Group} {gs : List (List ℕ)}
    (h : Chained True t.frame p groups gs) :
    ∀ g ∈ groups, g.numFrames = (hdrFrames (g.blocks.map t.hdr)).length := by
  induction h with
  | nil => exact nofun
  | cons _ _ _ blocks number _ ih =>
    refine forall_mem_cons.2 ⟨?_, ih⟩
    rw [hdrFrames_blocks blocks]
    exact number trivial

theorem flushSlots_counted {S : Settings} {r r' : Recorder} (hnodup : l.Nodup)
    (hl : ∀ i ∈ l, MarkedRight r.buf.table i) (hfiles : ∀ c, (r.file c).Counted) {disks : List Disk}
    (hflush : Recorder.flushSlots S r l disks = some r') : ∀ c, (r'.file c).Counted := by
  induction l generalizing r disks with
  | nil =>
    cases hflush
    exact hfiles
  | cons i l ih =>
    obtain ⟨⟨s, hs, hidle, hmark⟩, hl⟩ := forall_mem_cons.1 hl
    obtain ⟨hi, hnodup⟩ := nodup_cons.1 hnodup
    cases disks with
    | nil => simp [Recorder.flushSlots] at hflush
    | cons disk disks =>
      rw [Recorder.flushSlots, hs, Option.bind_some] at hflush
      obtain ⟨⟨file, limit⟩, hfile, hflush⟩ := Option.bind_eq_some_iff.1 hflush
      refine ih hnodup (fun j hj => (hl j hj).freeSlot _ _ (ne_of_mem_of_not_mem hj hi))
        (.update hfiles ((hfiles 0).writeFrames ?_ hfile)) hflush
      cases hv : (r.buf.table.hdr s.ptr).isVidf <;> simp [hdrFrames, hmark, hv]

namespace Recorder.Inv

variable {S : Settings} {mem : Set ℕ} {modules : Bool} {r : Recorder} {gs : List (List ℕ)}
  {rest : List ℕ} {log : List (Card × ℤ)}

/-- The slots in the queue and those of the groups are marked right. -/
theorem markedRight (h : r.Inv S mem modules True gs rest log) {i : ℕ}
    (hi : i ∈ gs.flatten ++ rest) : MarkedRight r.buf.table i := by
  obtain ⟨e, he, hk⟩ := h.exists_entry_of_mem hi
  obtain ⟨F, hF, rfl⟩ := entry_eq_some.1 he
  obtain ⟨s, hs, hidle, rfl⟩ := exists_of_frame hF
  refine ⟨s, hs, hidle, ?_⟩
  have hmark := h.marksOk trivial i s hs
  have hlocked : s.status ≠ .locked := by
    intro hlocked
    simp [Frame.entry, Frame.kind, hlocked] at hk
  rw [hF] at hmark
  simpa [Frame.isBlock, hlocked] using hmark

theorem stopping (h : r.Inv S mem modules True gs rest log) : r.Stopping := by
  obtain ⟨base, hq⟩ := h.queue
  have hnodup : (gs.flatten ++ rest).Nodup := h.ledger.queued.nodup
  obtain ⟨hsuffix, horder⟩ := hq.chained.slots hq.base_lt hq.holds h.length_lt hq.tail
  have hwaiting : r.waiting <:+ gs.flatten ++ rest := by
    rcases hq.waiting_eq h.length_lt with ⟨hwait, -⟩ | ⟨hwait, -⟩
    · rw [hwait]
      exact suffix_append ..
    · rw [hwait]
  exact {
    counts := h.counts trivial
    numbers := hq.chained.numbers
    waiting := ⟨hnodup.sublist hwaiting.sublist, fun i hi => h.markedRight (hwaiting.subset hi)⟩
    after := fun g hg => ⟨hnodup.sublist (hsuffix g hg).sublist, fun i hi =>
      h.markedRight ((hsuffix g hg).subset (mem_append_right _ hi))⟩
    order := horder }

end Recorder.Inv

/-- **The frame counts in the headers are right.** In every run that begins with unmarked slots, in
which modules have no blocks written during pre-recording, each group is completed before those
picked after it and no pick sees a meta slot that is not written with its group, the number for each
closed chunk, and the number for the current one, is the number of its video frames. So it is when
the tasks complete the groups they have or a card is full in which no further frame is complete, and
while the frames that are left are written, until the card is full. -/
theorem run_frameCount (R : Recording) (modules : Bool)
    (hmode : modules = true → R.preRecord = false ∧ R.recTrigger = false)
    (hmarks : ∀ s ∈ R.start.slots, s.isMeta = false) (ops : List RecOp)
    (hwithin : Runs.Meets (RecOp.step R.settings) (fun r op => op.Within modules r) R.start ops)
    (horder : Runs.Meets (RecOp.step R.settings) (fun r op => op.InOrder r) R.start ops)
    (hown : Runs.Meets (RecOp.step R.settings) (fun r op => op.SeesOwnBlocks r) R.start ops)
    (r : Recorder) (hrun : R.run ops = some r) (stops : List StopOp)
    (hgood : Runs.Meets (StopOp.step R.settings) (fun r op => op.Good r) r stops)
    (r₁ : Recorder) (hstop : stops.foldlM (StopOp.step R.settings) r = some r₁) :
    (∀ c, (r₁.file c).Counted) ∧
      ∀ disks r', r₁.flushing R.settings disks = some r' → (∀ c, (r'.file c).Counted) ∧
        ∀ i s disk file, r₁.waiting[disks.length]? = some i → r'.slots[i]? = some s →
          NoFrameLeft (r'.file 0) r'.fileSizeLimit disk [r'.buf.table.hdr s.ptr] s.size →
          cardFull (r'.file 0) r'.fileSizeLimit disk [r'.buf.table.hdr s.ptr] s.size = some file →
          file.Counted := by
  have hinv : ∃ gs rest log, r.Inv R.settings R.mem modules True gs rest log := by
    refine Runs.invariant_of_meets
      (I := fun r => ∃ gs rest log, r.Inv R.settings R.mem modules True gs rest log) ?_
      ((hwithin.and horder).and hown) hrun ⟨[], [], [], R.start_inv hmode fun _ => hmarks⟩
    rintro r op r' ⟨gs, rest, log, h⟩ ⟨⟨hw, ho⟩, hb⟩ hstep
    exact h.step R.align R.size_pos hw ho (fun hc => h.groupCounted hc hb) hstep
  obtain ⟨gs, rest, log, h⟩ := hinv
  have hstopping := h.stopping.run hgood hstop
  refine ⟨hstopping.counts, fun disks r' hflush => ?_⟩
  rw [Recorder.flushing] at hflush
  split_ifs at hflush
  have hcounted := flushSlots_counted (hstopping.waiting.1.sublist (take_sublist ..))
    (fun i hi => hstopping.waiting.2 i (mem_of_mem_take hi)) hstopping.counts hflush
  exact ⟨hcounted, fun i s disk file _ _ hleft hfull => (hcounted 0).cardFull hleft hfull⟩

/-- A module has a block written between two frames. The card is full in the next group, of which
less than one frame is written. -/
theorem run_frameCount_threeFrames :
    let ops : List RecOp := .vsync :: vsyncCopy ++ [.getFreeSlot, .releaseSlot 1 true default] ++
      vsyncCopy ++ [.pick 0 (some 2), .complete 0 diskOk, .pick 0 none]
    ∃ r r₁, threeFrames.run ops = some r ∧
      [StopOp.abort 0 ⟨512, false, 9000, 0, false⟩].foldlM (StopOp.step threeFrames.settings) r =
        some r₁ ∧
      (r₁.file 0).Counted ∧ (r₁.file 0).chunkFrameCount = 1 ∧ (r₁.file 0).chunk.length = 2 := by
  intro ops
  obtain ⟨r, hrun, hgood, r₁, hstop, hcount, hlen⟩ : ∃ r, threeFrames.run ops = some r ∧
      Runs.Meets (StopOp.step threeFrames.settings) (fun r op => op.Good r) r
        [StopOp.abort 0 ⟨512, false, 9000, 0, false⟩] ∧
      ∃ r₁, [StopOp.abort 0 ⟨512, false, 9000, 0, false⟩].foldlM (StopOp.step threeFrames.settings)
        r = some r₁ ∧ (r₁.file 0).chunkFrameCount = 1 ∧ (r₁.file 0).chunk.length = 2 := by
    decide +kernel
  exact ⟨r, r₁, hrun, hstop, (run_frameCount threeFrames true (by decide) (by decide +kernel) ops
    (by decide +kernel) (by decide +kernel) (by decide +kernel) r hrun _ hgood r₁ hstop).1 0,
      hcount,
    hlen⟩

/-- A recording into slots that an earlier one has left marked. -/
def threeFramesMarked : Recording :=
  { threeFrames with
    layout := ⟨4096, false, 4000, 0, 0, fun _ => { (default : FrameSlot) with isMeta := true }⟩ }

/-- Pre-recording of one frame. -/
def threeFramesPreOne : Recording :=
  { threeFrames with preRecordNumFrames := 1, preRecord := true, recTrigger := true }

/-- The block of another module waits behind the only frame, in a slot that does not follow it in
memory: no frame is counted. So it is for a frame that is captured into a slot that was left marked,
be it by an earlier recording or by a module whose slot is discarded during pre-recording. And when
the card is full in a group of two frames, the first one is in the file and not counted. -/
theorem run_miscounts :
    (∃ r, threeFrames.run (.vsync :: .getFreeSlot :: vsyncCopy ++
        [.releaseSlot 0 true default, .pick 0 none, .complete 0 diskOk]) = some r ∧
      (r.file 0).finishChunk.finished = [(0, [⟨true, 4096, 0⟩])]) ∧
    (∃ r, threeFramesMarked.run (.vsync :: vsyncCopy ++ [.pick 0 none, .complete 0 diskOk]) =
      some r ∧ (r.file 0).finishChunk.finished = [(0, [⟨true, 4096, 0⟩])]) ∧
    (∃ r, threeFramesPreOne.run (.vsync :: vsyncCopy ++ vsyncCopy ++
        [.getFreeSlot, .releaseSlot 0 true default] ++ vsyncCopy ++ vsyncCopy ++
        [.pick 0 none, .complete 0 diskOk]) = some r ∧
      (r.file 0).finishChunk.finished = [(0, [⟨true, 4096, 0⟩])]) ∧
    ∃ r, threeFrames.run (.vsync :: vsyncCopy ++ vsyncCopy ++ [.pick 0 none]) = some r ∧
      ∃ r₁, r.abort 0 ⟨512, false, 5000, 0, false⟩ = some r₁ ∧
      (r₁.file 0).finishChunk.finished = [(0, [⟨true, 4096, 0⟩])] := by
  decide +kernel

end MagicLantern.MlvLite

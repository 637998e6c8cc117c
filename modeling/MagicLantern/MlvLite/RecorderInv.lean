import MagicLantern.MlvLite.Ledger
import MagicLantern.MlvLite.Marks
import MagicLantern.MlvLite.Recorder

/-!
# The invariant of the recorder

The state of the recorder is an account of frames (`Ledger`): the slots in use have entries, and the
ring holds the groups that are being written and after them the slots that wait. This file says how
a state represents an account (`QueueRep`, `Recorder.ledger`) and shows that the operations on the
slots and the capture of a frame are steps of the account.

Source: `src/modules/raw_video/mlv_lite/mlv_lite.c`.
-/

namespace MagicLantern.MlvLite

open Function List Option RingQueue SlotTable

/-! ### Entries -/

/-- What the slot of a frame is used for. -/
def Frame.kind (F : Frame) : Kind :=
  match F.status with
  | .locked => .locked
  | .writing => .writing
  | _ => .pending

/-- The entry of a frame. -/
def Frame.entry (F : Frame) : Entry :=
  ⟨F.kind, F.number, if F.isVidf then some F.vidfNumber else none⟩

/-- The entry of slot `i`. -/
def SlotTable.entry (t : SlotTable) (i : ℕ) : Option Entry := (t.frame i).map Frame.entry

variable {t t' : SlotTable} {i : ℕ} {F : Option Frame} {e : Entry} {l : List ℕ}

theorem SlotTable.entry_of_update (h : t'.frame = update t.frame i F) :
    t'.entry = update t.entry i (F.map Frame.entry) := by
  refine eq_update_iff.2 ⟨?_, fun j hj => ?_⟩
  · rw [entry, h, update_self]
  · rw [entry, h, update_of_ne hj, entry]

theorem SlotTable.entry_eq_none : t.entry i = none ↔ t.frame i = none :=
  map_eq_none_iff

theorem SlotTable.entry_eq_some : t.entry i = some e ↔ ∃ F, t.frame i = some F ∧ F.entry = e :=
  map_eq_some_iff

theorem SlotTable.entry_of_frame {G : Frame} (h : t.frame i = some G) : t.entry i = some G.entry :=
  entry_eq_some.2 ⟨G, h, rfl⟩

/-- The account of a state. -/
def Recorder.ledger (r : Recorder) (gs : List (List ℕ)) (rest : List ℕ) (log : List ℤ) :
    Ledger where
  __ := r
  entry := r.buf.table.entry
  groups := gs
  waiting := rest
  log := log

/-! ### The ring -/

/-- The groups that are being written lie in the ring one after the other from the position `p` on,
and their blocks are where their slots are. With `counted` the number of frames that the task has
noted is the number of its video frames. -/
inductive Chained (counted : Prop) (frame : ℕ → Option Frame) :
    ℕ → List Group → List (List ℕ) → Prop
  | nil (p : ℕ) : Chained counted frame p [] []
  | cons {p : ℕ} {g : Group} {groups : List Group} {l : List ℕ} {gs : List (List ℕ)}
      (head : g.wHead = p) (next : g.afterLastGrouped = advance queueSize p l.length)
      (ne : l ≠ [])
      (blocks : List.Forall₂ (fun a i => ∃ F, frame i = some F ∧ F.ptr = a) g.blocks l)
      (number : counted →
        g.numFrames = (videoFrames (fun i => (frame i).map Frame.entry) l).length)
      (rest : Chained counted frame (advance queueSize p l.length) groups gs) :
      Chained counted frame p (g :: groups) (l :: gs)

/-- The ring holds the groups `gs` from the position `base` on and after them the slots `rest`. -/
structure QueueRep (counted : Prop) (r : Recorder) (base : ℕ) (gs : List (List ℕ)) (rest : List ℕ) :
    Prop where
  base_lt : base < queueSize
  holds : Holds queueSize r.writingQueue base (gs.flatten ++ rest)
  tail : r.tail = advance queueSize base (gs.flatten ++ rest).length
  chained : Chained counted r.buf.table.frame base r.groups gs
  /-- The head is behind the groups, or it has been moved back to the first one. -/
  head : r.head = advance queueSize base gs.flatten.length ∨ (r.head = base ∧ gs ≠ [])

section

variable {counted : Prop} {frame frame' : ℕ → Option Frame} {p : ℕ} {groups : List Group}
  {gs : List (List ℕ)}

section

variable (h : Chained counted frame p groups gs)
include h

theorem Chained.congr (hsame : ∀ i ∈ gs.flatten, frame' i = frame i) :
    Chained counted frame' p groups gs := by
  induction h with
  | nil p => exact .nil p
  | @cons p g groups l gs head next ne blocks number rest ih =>
    rw [flatten_cons, forall_mem_append] at hsame
    refine .cons head next ne ?_ (fun hc => ?_) (ih hsame.2)
    · refine forall₂_iff_get.2 ⟨blocks.length_eq, fun k hk hk' => ?_⟩
      rw [hsame.1 _ (get_mem _ _)]
      exact (forall₂_iff_get.1 blocks).2 k hk hk'
    · have hvideo : videoFrames (fun i => (frame' i).map Frame.entry) l =
          videoFrames (fun i => (frame i).map Frame.entry) l :=
        videoFrames_congr fun i hi => by rw [hsame.1 i hi]
      rw [hvideo]
      exact number hc

theorem Chained.ne_nil : ∀ l ∈ gs, l ≠ [] := by
  induction h with
  | nil => simp
  | cons _ _ hl _ _ _ ih => exact forall_mem_cons.2 ⟨hl, ih⟩

theorem Chained.append (hp : p < queueSize) {g : Group}
    (hhead : g.wHead = advance queueSize p gs.flatten.length) (hnext : g.afterLastGrouped = advance
      queueSize p (gs.flatten.length + l.length)) (hne : l ≠ [])
    (hblocks : Forall₂ (fun a i => ∃ F, frame i = some F ∧ F.ptr = a) g.blocks l)
    (hnumber : counted →
      g.numFrames = (videoFrames (fun i => (frame i).map Frame.entry) l).length) :
    Chained counted frame p (groups ++ [g]) (gs ++ [l]) := by
  induction h with
  | nil p =>
    rw [flatten_nil, length_nil, advance_zero hp] at hhead
    rw [flatten_nil, length_nil, Nat.zero_add] at hnext
    exact .cons hhead hnext hne hblocks hnumber (.nil _)
  | @cons p g' groups l' gs head next ne blocks number rest ih =>
    rw [flatten_cons, length_append] at hhead hnext
    refine .cons head next ne blocks number (ih (advance_lt queueSize_pos _ _) ?_ ?_)
    · rw [hhead, advance_advance]
    · rw [hnext, advance_advance, Nat.add_assoc]

end

end

namespace QueueRep

variable {counted : Prop} {r r' : Recorder} {base : ℕ} {gs : List (List ℕ)} {rest : List ℕ}

section

variable (h : QueueRep counted r base gs rest)
include h

/-- The ring does not depend on the frames that are not being written. -/
theorem congr (hqueue : r'.writingQueue = r.writingQueue) (htail : r'.tail = r.tail)
    (hhead : r'.head = r.head) (hgroups : r'.groups = r.groups)
    (hsame : ∀ i ∈ gs.flatten, r'.buf.table.frame i = r.buf.table.frame i) :
    QueueRep counted r' base gs rest := by
  refine ⟨h.base_lt, ?_, htail.trans h.tail, ?_, ?_⟩
  · rw [hqueue]
    exact h.holds
  · rw [hgroups]
    exact h.chained.congr hsame
  · rw [hhead]
    exact h.head

theorem push (hlen : (gs.flatten ++ rest).length < queueSize) (i : ℕ) :
    QueueRep counted (r.push i) base gs (rest ++ [i]) := by
  refine ⟨h.base_lt, ?_, ?_, h.chained, h.head⟩
  · rw [← append_assoc]
    have := h.holds.push h.base_lt hlen i
    rwa [← h.tail] at this
  · rw [← append_assoc, length_append, ← advance_advance,
      ← h.tail]
    rfl

/-- What is between the head and the tail: the slots that wait, or all. -/
theorem waiting_eq (hlen : (gs.flatten ++ rest).length < queueSize) :
    (r.waiting = rest ∧ r.head = advance queueSize base gs.flatten.length) ∨
      (r.waiting = gs.flatten ++ rest ∧ gs ≠ []) := by
  have hsplit := (holds_append h.base_lt).1 h.holds
  rcases h.head with hhead | ⟨hhead, hne⟩
  · refine .inl ⟨?_, hhead⟩
    have hlt : advance queueSize base gs.flatten.length < queueSize :=
      advance_lt queueSize_pos _ _
    rw [length_append] at hlen
    rw [Recorder.waiting, hhead, h.tail, length_append, ← advance_advance]
    exact hsplit.2.slice_eq hlt (by omega)
  · refine .inr ⟨?_, hne⟩
    rw [Recorder.waiting, hhead, h.tail]
    exact h.holds.slice_eq h.base_lt hlen

end

end QueueRep

/-! ### The invariant -/

/-- The video frames among the blocks of a file. -/
def hdrFrames (l : List MlvHdr) : List ℤ := (l.filter (·.isVidf)).map (·.frameNumber)

@[simp] theorem hdrFrames_append (l l' : List MlvHdr) :
    hdrFrames (l ++ l') = hdrFrames l ++ hdrFrames l' := by
  simp [hdrFrames]

/-- The frames in the chunks of a file have been counted right. -/
structure CardFile.Counted (file : CardFile) : Prop where
  chunk : file.chunkFrameCount = (hdrFrames file.chunk).length
  finished : ∀ c ∈ file.finished, c.1 = (hdrFrames c.2).length

/-- The frames of a log that have been written to a card. -/
def framesOn (c : Card) (log : List (Card × ℤ)) : List ℤ := (log.filter (·.1 = c)).map Prod.snd

@[simp] theorem framesOn_append (c : Card) (log log' : List (Card × ℤ)) :
    framesOn c (log ++ log') = framesOn c log ++ framesOn c log' := by
  simp [framesOn]

theorem framesOn_map_self (c : Card) (l : List ℤ) : framesOn c (l.map fun n => (c, n)) = l := by
  induction l with
  | nil => rfl
  | cons n l ih => simpa [framesOn] using ih

theorem framesOn_map_of_ne {c c' : Card} (h : c' ≠ c) (l : List ℤ) :
    framesOn c (l.map fun n => (c', n)) = [] := by
  simp [framesOn, h]

/-- The state of the recorder represents a right account: the slots `gs` are being written, the
slots `rest` wait, and the frames in `log` have been written. With `modules` the blocks of other
modules are written too, and then there is no pre-recording; with `counted` the slots are marked
right and the tasks have counted the frames of their groups and chunks right. -/
structure Recorder.Inv (S : Settings) (mem : Set ℕ) (modules : Bool) (counted : Prop) (r : Recorder)
    (gs : List (List ℕ)) (rest : List ℕ) (log : List (Card × ℤ)) : Prop where
  buffers : r.buf.Inv S.maxFrameSize mem
  pos : ∀ s ∈ r.slots, s.isIdle = false → 0 < s.size
  count : r.slots.length ≤ maxSlots
  queue : ∃ base, QueueRep counted r base gs rest
  ledger : (r.ledger gs rest (log.map Prod.snd)).Ok modules
  files : ∀ c, hdrFrames (r.file c).blocks = framesOn c log
  triggered : modules = true → r.triggered = true
  marksOk : counted → r.buf.table.MarksOk
  counts : counted → ∀ c, (r.file c).Counted

namespace Recorder.Inv

variable {S : Settings} {mem : Set ℕ} {modules : Bool} {counted : Prop} {r r' : Recorder}
  {gs : List (List ℕ)} {rest : List ℕ} {log : List (Card × ℤ)} {buf : Buffers} {n : ℤ}
  {hdr : MlvHdr} {c : ℕ}

theorem tableOk (h : r.Inv S mem modules counted gs rest log) :
    TableOk S.maxFrameSize mem r.buf.table :=
  ⟨h.buffers.safe, h.pos⟩

theorem lt_of_entry (he : r.buf.table.entry i = some e) : i < r.slots.length := by
  obtain ⟨F, hF, -⟩ := entry_eq_some.1 he
  obtain ⟨s, hs, -⟩ := exists_of_frame hF
  exact (List.getElem?_eq_some_iff.1 hs).1

section

variable (h : r.Inv S mem modules counted gs rest log)
include h

theorem exists_entry_of_mem (hi : i ∈ gs.flatten ++ rest) :
    ∃ e, r.buf.table.entry i = some e ∧ e.kind ≠ .locked := by
  rcases mem_append.1 hi with hi | hi
  · obtain ⟨e, he, hk⟩ := h.ledger.queued.writing i hi
    exact ⟨e, he, by simp [hk]⟩
  · obtain ⟨e, he, hk⟩ := h.ledger.queued.waiting i hi
    exact ⟨e, he, by simp [hk]⟩

theorem length_lt_of_nodup (hl : l.Nodup) (hlt : ∀ i ∈ l, i < r.slots.length) :
    l.length < queueSize := by
  have hsub : l ⊆ range r.slots.length := fun i hi => mem_range.2 (hlt i hi)
  have hle := (hl.subperm hsub).length_le
  rw [length_range] at hle
  exact Nat.lt_succ_of_le (hle.trans h.count)

/-- **The ring does not overflow**: the slots in it are different. -/
theorem length_lt : (gs.flatten ++ rest).length < queueSize := by
  refine h.length_lt_of_nodup h.ledger.queued.nodup fun i hi => ?_
  obtain ⟨e, he, -⟩ := h.exists_entry_of_mem hi
  exact lt_of_entry he

end

section

variable (h : r.Inv S mem modules counted gs rest log) (hbuf : buf.Inv S.maxFrameSize mem)
  (hpos : ∀ s ∈ buf.table.slots, s.isIdle = false → 0 < s.size)
include h hbuf hpos

theorem setBuf (hlen : buf.table.slots.length = r.slots.length)
    (hframe : ∀ i ∈ gs.flatten, buf.table.frame i = r.buf.table.frame i)
    (hledger : ({ r.ledger gs rest (log.map Prod.snd) with
      entry := buf.table.entry, frameCount := n } : Ledger).Ok modules)
    (hmarks : counted → buf.table.MarksOk) :
    Recorder.Inv S mem modules counted { r with buf := buf, frameCount := n } gs rest log where
  __ := h
  buffers := hbuf
  pos := hpos
  count := hlen.trans_le h.count
  queue := by
    obtain ⟨base, hq⟩ := h.queue
    exact ⟨base, hq.congr rfl rfl rfl rfl hframe⟩
  ledger := hledger
  marksOk := hmarks

/-- A step that changes the slots and pushes one of them. -/
theorem setBuf_push (hlen : buf.table.slots.length = r.slots.length)
    (hframe : ∀ i ∈ gs.flatten, buf.table.frame i = r.buf.table.frame i)
    (hledger : ({ r.ledger gs rest (log.map Prod.snd) with
      entry := buf.table.entry, waiting := rest ++ [i], frameCount := n } : Ledger).Ok modules)
    (hmarks : counted → buf.table.MarksOk) :
    Recorder.Inv S mem modules counted { r.push i with buf := buf, frameCount := n }
      gs (rest ++ [i]) log where
  __ := h
  buffers := hbuf
  pos := hpos
  count := hlen.trans_le h.count
  queue := by
    obtain ⟨base, hq⟩ := h.queue
    exact ⟨base, (hq.push h.length_lt i).congr rfl rfl rfl rfl hframe⟩
  ledger := hledger
  marksOk := hmarks

theorem setBuf_of_frame_eq (hframe : buf.table.frame = r.buf.table.frame)
    (hmarks : marks buf.table.slots = marks r.slots) :
    Recorder.Inv S mem modules counted { r with buf := buf } gs rest log := by
  refine setBuf h hbuf hpos (length_of_marks hmarks) (fun i _ => by rw [hframe]) ?_ fun hc => ?_
  · have hentry : buf.table.entry = r.buf.table.entry := by
      funext i
      rw [SlotTable.entry, SlotTable.entry, hframe]
    rw [hentry]
    exact h.ledger
  · exact (h.marksOk hc).congr hmarks fun i => by rw [hframe]

end

theorem notMem_groups (h : r.Inv S mem modules counted gs rest log)
    (hi : ∀ F, r.buf.table.frame i = some F → F.status ≠ .writing) : i ∉ gs.flatten := by
  intro hmem
  obtain ⟨e, he, hk⟩ := h.ledger.queued.writing i hmem
  obtain ⟨F, hF, rfl⟩ := entry_eq_some.1 he
  cases hst : F.status <;> simp_all [Frame.entry, Frame.kind]

theorem frame_eq_of_update (h : t'.frame = update t.frame i F) (hi : i ∉ l) :
    ∀ j ∈ l, t'.frame j = t.frame j := by
  intro j hj
  rw [h, update_of_ne]
  rintro rfl
  exact hi hj

theorem frame_eq_none_of_free (hc : IsFreeAt r.slots c) : r.buf.table.frame c = none := by
  obtain ⟨s, hs, hfree⟩ := hc
  rw [frame_of_getElem? hs, FrameSlot.frame_of_isIdle (by simp [FrameSlot.isIdle, hfree])]

/-! ### Compression -/

section

variable (h : r.Inv S mem modules counted gs rest log) (hM : 512 ∣ S.maxFrameSize)
  (hpos : 0 < S.maxFrameSize)
include h hM hpos

theorem compress {size : ℕ} (hstep : r.slotOp S (.compress size) = some r') :
    r'.Inv S mem modules counted gs rest log := by
  obtain ⟨buf, hbuf, rfl⟩ := map_eq_some_iff.1 hstep
  have hinv := ((SlotOp.compress size).step_inv hM hpos h.buffers hbuf).1
  have hok := h.tableOk
  obtain ⟨k, mq, -, hmq, rfl⟩ := SlotOp.step_compress_eq_some hbuf
  obtain ⟨s, hs, hcap, hsize⟩ := h.buffers.waiting k (by simp [hmq])
  have hn : paddedSize (cutSize S.maxFrameSize size) ≤ s.size := by
    rw [hsize]
    exact paddedSize_cutSize_le hM hpos size
  refine h.setBuf_of_frame_eq hinv (hok.shrinkSlot hM hpos hs hcap hn).pos ?_ ?_
  · exact frame_shrinkSlot hM hpos hs hok.sizeOk hn
  · exact marks_shrinkSlot ..

theorem copy (hstep : r.slotOp S .copy = some r') :
    r'.Inv S mem modules counted gs rest log := by
  obtain ⟨buf, hbuf, rfl⟩ := map_eq_some_iff.1 hstep
  have hinv := (SlotOp.copy.step_inv hM hpos h.buffers hbuf).1
  obtain ⟨k, mq, -, -, rfl⟩ := SlotOp.step_copy_eq_some hbuf
  exact h.setBuf_of_frame_eq hinv h.pos rfl rfl

theorem compressDone (hstep : r.slotOp S .compressDone = some r') :
    r'.Inv S mem modules counted gs rest log := by
  obtain ⟨buf, hbuf, rfl⟩ := map_eq_some_iff.1 hstep
  have hinv := (SlotOp.compressDone.step_inv hM hpos h.buffers hbuf).1
  obtain ⟨k, hk, rfl⟩ := map_eq_some_iff.1 hbuf
  obtain ⟨s, hs, hcap⟩ := h.buffers.working k hk
  have hidle : s.isIdle = false := by simp [FrameSlot.isIdle, hcap]
  have hok := h.tableOk
  have hmem := mem_of_getElem? hs
  have hframe := frame_modify (t := r.buf.table) (f := fun s => { s with status := .full })
    hs rfl rfl
  have hok' := hok.modify (f := fun s => { s with status := .full }) hs rfl rfl (by simp [hcap])
    ⟨(hok.sizeOk s hmem).le, by simp, by simp, by simp⟩ fun _ => hok.pos s hmem hidle
  refine h.setBuf hinv hok'.pos (by simp) (frame_eq_of_update hframe (h.notMem_groups ?_)) ?_
    fun hc => (h.marksOk hc).modify hs rfl hframe ?_
  · intro F hF
    rw [frame_of_inUse hs hidle] at hF
    rw [← some.inj hF]
    simp [hcap]
  · have hentry : (r.buf.table.modify k fun s => { s with status := .full }).entry =
        r.buf.table.entry := by
      rw [entry_of_update hframe, update_eq_self_iff, SlotTable.entry,
        frame_of_inUse hs hidle]
      simp [Frame.entry, Frame.kind, hcap]
    rw [hentry]
    exact h.ledger
  · have hmark := h.marksOk hc k s hs
    rw [frame_of_inUse hs hidle] at hmark
    simpa [Frame.isBlock, hcap] using hmark

/-! ### Slots of other modules -/

theorem getFreeSlot (hstep : r.slotOp S .getFreeSlot = some r') :
    r'.Inv S mem modules counted gs rest log := by
  obtain ⟨buf, hbuf, rfl⟩ := map_eq_some_iff.1 hstep
  have hinv := (SlotOp.getFreeSlot.step_inv hM hpos h.buffers hbuf).1
  obtain ⟨i, hi, rfl⟩ := map_eq_some_iff.1 hbuf
  obtain ⟨s, hs, hfree⟩ := getFreeSlot_isFree hi
  have hok := h.tableOk
  have hsize := (hok.sizeOk s (mem_of_getElem? hs)).free hfree
  have hnone := frame_eq_none_of_free ⟨s, hs, hfree⟩
  have hframe := frame_modify (t := r.buf.table) (f := fun s => { s with status := .locked }) hs
    rfl rfl
  have hok' := hok.modify (f := fun s => { s with status := .locked }) hs rfl rfl (by simp [hfree])
    ⟨hsize.le, by simp, fun _ => hsize, by simp⟩ fun _ => hsize ▸ hpos
  refine h.setBuf hinv hok'.pos (by simp) (frame_eq_of_update hframe (h.notMem_groups ?_)) ?_
    fun hc => (h.marksOk hc).modify hs rfl hframe ?_
  · simp [hnone]
  · rw [entry_of_update hframe]
    exact h.ledger.lock (entry_eq_none.2 hnone) _ _
  · simp [h.marksOk hc i s hs, hnone, Frame.isBlock]

omit hM hpos in
theorem exists_of_locked (hlocked : r.buf.statusAt i = some .locked) : ∃ s F, r.slots[i]? = some s ∧
      s.status = .locked ∧ s.size = S.maxFrameSize ∧ r.buf.table.frame i = some F ∧
      F.entry.kind = .locked ∧ F.status = .locked := by
  obtain ⟨s, hs, hst⟩ := Buffers.exists_of_statusAt hlocked
  have hsize := (h.tableOk.sizeOk s (mem_of_getElem? hs)).locked hst
  have hframe := frame_of_inUse hs (by simp [FrameSlot.isIdle, hst])
  exact ⟨s, _, hs, hst, hsize, hframe, by simp [Frame.entry, Frame.kind, hst], hst⟩

theorem releaseSlot_free (hstep : r.slotOp S (.releaseSlot i false hdr) = some r') :
    r'.Inv S mem modules counted gs rest log := by
  obtain ⟨buf, hbuf, rfl⟩ := map_eq_some_iff.1 hstep
  have hinv := ((SlotOp.releaseSlot i false hdr).step_inv hM hpos h.buffers hbuf).1
  simp only [SlotOp.step, Bool.false_eq_true, if_false] at hbuf
  split_ifs at hbuf with hlocked
  cases hbuf
  obtain ⟨s, F, hs, hst, hsize, hF, hkind, hFst⟩ := h.exists_of_locked hlocked
  have hframe := frame_modify_of_isIdle (t := r.buf.table)
    (f := fun s => { s with status := .free }) hs rfl
  have hok' := h.tableOk.modify (f := fun s => { s with status := .free }) hs rfl rfl
    (by simp [hst]) (.of_free rfl hsize) (by simp [FrameSlot.isIdle])
  refine h.setBuf hinv hok'.pos (by simp) (frame_eq_of_update hframe (h.notMem_groups ?_)) ?_
    fun hc => (h.marksOk hc).modify hs rfl hframe ?_
  · intro G hG
    obtain rfl : F = G := some.inj (hF.symm.trans hG)
    simp [hFst]
  · rw [entry_of_update hframe]
    exact h.ledger.unlock (entry_of_frame hF) hkind
  · simp [h.marksOk hc i s hs, hF, Frame.isBlock, hFst]

end

theorem releaseSlot_write (h : r.Inv S mem true counted gs rest log) (hM : 512 ∣ S.maxFrameSize)
    (hpos : 0 < S.maxFrameSize) (hhdr : hdr.isVidf = false)
    (hstep : r.slotOp S (.releaseSlot i true hdr) = some r') :
    (r'.push i).Inv S mem true counted gs (rest ++ [i]) log := by
  obtain ⟨buf, hbuf, rfl⟩ := map_eq_some_iff.1 hstep
  have hinv := ((SlotOp.releaseSlot i true hdr).step_inv hM hpos h.buffers hbuf).1
  simp only [SlotOp.step] at hbuf
  split_ifs at hbuf with hlocked
  cases hbuf
  obtain ⟨s, F, hs, hst, hsize, hF, hkind, hFst⟩ := h.exists_of_locked hlocked
  have hok' := h.tableOk.modify (f := fun s => { s with status := .full, isMeta := true })
    hs rfl rfl (by simp [hst]) ⟨hsize.le, by simp, by simp, by simp⟩ fun _ => hsize ▸ hpos
  have hframe := hok'.frame_modify_setHdr hs rfl rfl hdr
  have hentry := entry_of_update hframe
  simp only [map_some, Frame.entry, hhdr, Bool.false_eq_true, if_false] at hentry
  refine h.setBuf_push hinv (hok'.setHdr i hdr).pos (by simp)
    (frame_eq_of_update hframe (h.notMem_groups fun G hG => ?_)) ?_
    fun hc => (h.marksOk hc).modify hs (setHdr_slots ..) hframe ?_
  · obtain rfl : F = G := some.inj (hF.symm.trans hG)
    simp [hFst]
  · rw [hentry]
    exact h.ledger.releaseMeta (entry_of_frame hF) hkind s.frameNumber
  · simp [Frame.isBlock, hhdr]

/-! ### Capturing -/

/-- **A frame is captured**, and queued unless frames are held back. -/
theorem captureFrame (h : r.Inv S mem modules counted gs rest log) (hpos : 0 < S.maxFrameSize)
    (hc : IsFreeAt r.slots c) (hcount : 1 ≤ r.frameCount)
    (hfirst : r.preRecording = true → r.firstFrame ≠ 0) :
    ∃ rest', (captureFrame S r c).Inv S mem modules counted gs rest' log := by
  have hnone := frame_eq_none_of_free hc
  obtain ⟨s, hs, hfree⟩ := hc
  have hok := h.tableOk
  have hsize := (hok.sizeOk s (mem_of_getElem? hs)).free hfree
  have hinv := h.buffers.capture hs hfree r.frameCount ⟨true, S.maxFrameSize, r.frameCount - 1⟩
    r.buf.captureSlot r.buf.forceNewBuffer
  have hok' := hok.modify (f := fun s => { s with
    frameNumber := r.frameCount, status := .capturing }) hs rfl rfl (by simp [hfree])
    ⟨hsize.le, by simp, by simp, by simp⟩ fun _ => hsize ▸ hpos
  have hframe := hok'.frame_modify_setHdr hs rfl rfl ⟨true, S.maxFrameSize, r.frameCount - 1⟩
  have hentry := entry_of_update hframe
  have hgroups := frame_eq_of_update hframe (h.notMem_groups (by simp [hnone]))
  have hlen : ((r.buf.table.modify c fun s => { s with
      frameNumber := r.frameCount, status := .capturing }).setHdr c
      ⟨true, S.maxFrameSize, r.frameCount - 1⟩).slots.length = r.slots.length := by
    simp
  have hpos' := (hok'.setHdr c ⟨true, S.maxFrameSize, r.frameCount - 1⟩).pos
  have hnone' : (r.ledger gs rest (log.map Prod.snd)).entry c = none :=
    entry_eq_none.2 hnone
  have hmarks (hc : counted) : SlotTable.MarksOk _ :=
    (h.marksOk hc).modify hs (setHdr_slots ..) hframe
      (by simp [h.marksOk hc c s hs, hnone, Frame.isBlock])
  cases hpre : r.preRecording with
  | false =>
    have hnew := h.ledger.capture_recording hnone' hcount hpre
    rw [Ledger.capture_of_recording hpre] at hnew
    refine ⟨rest ++ [c], ?_⟩
    have hno : ¬ r.preRecording = true := by simp [hpre]
    simp only [MlvLite.captureFrame, if_neg hno]
    refine h.setBuf_push hinv hpos' hlen hgroups ?_ hmarks
    rw [hentry]
    exact hnew
  | true =>
    have hnew := h.ledger.capture_holding hnone' ⟨hpre, hfirst hpre⟩
    rw [Ledger.capture_of_preRecording hpre] at hnew
    refine ⟨rest, ?_⟩
    simp only [MlvLite.captureFrame, if_pos hpre]
    refine h.setBuf hinv hpos' hlen hgroups ?_ hmarks
    rw [hentry]
    exact hnew

end Recorder.Inv

end MagicLantern.MlvLite

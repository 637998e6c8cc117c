import MagicLantern.RawVidx.EventOwnership
import MagicLantern.RawVidx.WorkerState

/-!
# The contents of a finished file

In a finished file the headers should give the number of VIDF blocks that follow them, and these
should be numbered from zero. But when a recording is stopped, the images that are still in the crop
buffers are not written, and at least the last image of a recording is always there. And the number
that is put into the headers counts the images of all recordings since the module was loaded. So the
file is right exactly if the worker has had no image at all.

## Main results

* `run_right_iff` — when all files are right.
* `run_oneImage`.
-/

namespace MagicLantern.RawVidx

open List

/-- The headers, with the number of blocks, and the blocks, numbered from zero. -/
structure MlvFile.Right (f : MlvFile) : Prop where
  headerSize : f.headerSize = headerBytes
  count : f.videoFrameCount = f.blocks.length
  numbered : f.blocks.map Vidf.frameNumber = List.range f.blocks.length

/-- A recording is stopped after the worker has had an image. -/
def Op.Miscounts (s : RawVid) : Op → Prop
  | .workerHandle _ => ∃ i ∈ s.received, (s.events i).type = .commandStop ∧
      s.worker.recordingState = .active ∧ s.worker.videoFrameCount ≠ 0
  | _ => False

instance (s : RawVid) : DecidablePred (Op.Miscounts s) := by
  rintro ⟨⟩ <;> dsimp only [Op.Miscounts] <;> infer_instance

/-! ### The crop buffers of a recording -/

/-- A crop buffer with `bufSize` bytes, in the address space. -/
structure CropBuf.Valid (c : CropBuf) (bufSize : ℕ) : Prop where
  buf : c.buf ≠ none
  aligned : c.start % 0x1000 = 0
  pos : 0 < c.start
  stop : c.stop = c.start + bufSize
  below : c.stop ≤ 0xC0000000
  size : bufSize ≤ 0x1001000
  start_le : c.start ≤ c.cur
  le_stop : c.cur ≤ c.stop
  empty : c.cur = c.start ↔ c.blocks = []

theorem CropBuf.valid_ofBlock {p bufSize : ℕ} (hsize : bufSize ∈ cropBufSizes)
    (hp : p + cropBufAlign + bufSize ≤ 0x80000000) : (CropBuf.ofBlock p bufSize).Valid bufSize := by
  have hle : bufSize ≤ 0x1001000 := by
    obtain ⟨k, -, rfl⟩ := mem_map.1 hsize
    simp only [cropBufAlign]
    omega
  obtain ⟨q, hstart, halign, hq⟩ : ∃ q, (CropBuf.ofBlock p bufSize).start = Memory.uncacheable q ∧
      q % 0x1000 = 0 ∧ q ≤ p + cropBufAlign := by
    by_cases hmod : p % cropBufAlign = 0
    · exact ⟨p, by simp [CropBuf.ofBlock, hmod], hmod, Nat.le_add_right ..⟩
    · refine ⟨p + (cropBufAlign - p % cropBufAlign), by simp [CropBuf.ofBlock, hmod], ?_, ?_⟩
      · simp only [cropBufAlign] at hmod ⊢
        omega
      · omega
  obtain ⟨hmod, hub⟩ := Memory.uncacheable_spec q
  have hstop : (CropBuf.ofBlock p bufSize).stop = (CropBuf.ofBlock p bufSize).start + bufSize := rfl
  exact
    { buf := by simp [CropBuf.ofBlock]
      aligned := by omega
      pos := Nat.pos_of_ne_zero (Worker.start_ofBlock_ne_zero p bufSize)
      stop := hstop
      below := by
        omega
      size := hle
      start_le := le_rfl
      le_stop := Nat.le_add_right ..
      empty := by simp [CropBuf.ofBlock] }

theorem CropBuf.Valid.append {c : CropBuf} {bufSize : ℕ} (h : c.Valid bufSize) {cur : ℕ} (v : Vidf)
    (hcur : c.cur < cur) (hstop : cur ≤ c.stop) :
    CropBuf.Valid { c with cur, blocks := c.blocks ++ [v] } bufSize := by
  have hstart := h.start_le
  refine ⟨h.buf, h.aligned, h.pos, h.stop, h.below, h.size, by dsimp only; omega, hstop, ?_⟩
  refine iff_of_false ?_ (by simp)
  dsimp only
  omega

theorem CropBuf.Valid.reset {c : CropBuf} {bufSize : ℕ} (h : c.Valid bufSize) :
    CropBuf.Valid { c with cur := c.start, blocks := [] } bufSize :=
  ⟨h.buf, h.aligned, h.pos, h.stop, h.below, h.size, le_rfl, h.start_le.trans h.le_stop, by simp⟩

section Header

variable {c d : CropBuf} {bufSize size : ℕ} {session : Session} {hdr : ℕ × Vidf}

theorem CropBuf.Valid.header_eq (h : c.Valid bufSize) (hsize : size ≤ bufSize) :
    writeVideoFrameHeader session size c.cur c.stop =
      if (c.cur + 0x9f) / 0x80 * 0x80 + size > c.stop then none
      else some ((c.cur + 0x9f) / 0x80 * 0x80, ⟨session.frameNumber⟩) := by
  obtain ⟨-, -, hpos, -, hbelow, hmax, hstart, hstop, -⟩ := h
  have hcur : (c.cur + 0x20) % 2 ^ 32 = c.cur + 0x20 := Nat.mod_eq_of_lt (by omega)
  have himage : alignUp (c.cur + 0x20) imageDataAlignment = (c.cur + 0x9f) / 0x80 * 0x80 := by
    simp only [alignUp, imageDataAlignment]
    omega
  have hend : ((c.cur + 0x9f) / 0x80 * 0x80 + size) % 2 ^ 32 =
      (c.cur + 0x9f) / 0x80 * 0x80 + size :=
    Nat.mod_eq_of_lt (by omega)
  have hnull : ¬ (c.cur = 0 ∨ c.stop = 0) := by omega
  have hwrap : ¬ ((c.cur + 0x9f) / 0x80 * 0x80 < c.cur ∨
      (c.cur + 0x9f) / 0x80 * 0x80 + size < c.cur) := by omega
  rw [writeVideoFrameHeader, if_neg hnull]
  dsimp only
  rw [hcur, himage, hend, if_neg hwrap]

/-- An image that fits goes behind the others and has the next number. -/
theorem CropBuf.Valid.header_eq_some (h : c.Valid bufSize) (hsize : size ≤ bufSize)
    (hhdr : writeVideoFrameHeader session size c.cur c.stop = some hdr) :
    c.cur < hdr.1 + size ∧ hdr.1 + size ≤ c.stop ∧ hdr.2.frameNumber = session.frameNumber := by
  rw [h.header_eq hsize] at hhdr
  split_ifs at hhdr with hroom
  cases hhdr
  dsimp only
  omega

/-- If there is no room for an image in an empty buffer, there is none in another one. -/
theorem CropBuf.Valid.header_eq_none (hc : c.Valid bufSize) (hd : d.Valid bufSize)
    (hsize : size ≤ bufSize) (hce : c.blocks = []) (hde : d.blocks = [])
    (hhdr : writeVideoFrameHeader session size c.cur c.stop = none) :
    writeVideoFrameHeader session size d.cur d.stop = none := by
  have hroom : (c.cur + 0x9f) / 0x80 * 0x80 + size > c.stop := by
    by_contra hno
    simp [hc.header_eq hsize, hno] at hhdr
  have hroom' : (d.cur + 0x9f) / 0x80 * 0x80 + size > d.stop := by
    have := hc.aligned
    have := hd.aligned
    rw [hc.empty.2 hce, hc.stop] at hroom
    rw [hd.empty.2 hde, hd.stop]
    omega
  rw [hd.header_eq hsize, if_pos hroom']

end Header

/-! ### The images of a recording -/

variable {event : Event}

namespace Worker

/-- The blocks of a buffer that are not yet in the file. -/
def waiting (k : Worker) (b : Fin 2) : List Vidf :=
  if .written b ∈ k.writes then [] else (k.cropBufs b).blocks

/-- The images are in the file, then in the buffer that was in use before, then in the buffer `c`,
which is in use or was in use last. The former buffer may be written just now. The last image is in
a buffer that nobody writes. -/
structure Ordered (k : Worker) (file : MlvFile) (c : Fin 2) : Prop where
  inUse : ∀ b ∈ k.cropBuf, b = c
  writes : k.writes = [] ∨ (k.cropBufs (c + 1)).blocks ≠ [] ∧ (k.cropBufs c).blocks ≠ [] ∧
    (k.writes = [.created (c + 1)] ∨ k.writes = [.written (c + 1)])
  numbered : (file.blocks ++ k.waiting (c + 1) ++ (k.cropBufs c).blocks).map Vidf.frameNumber =
    List.range k.session.frameNumber
  last : k.session.frameNumber ≠ 0 →
    (k.cropBufs c).blocks ≠ [] ∨ k.writes = [] ∧ (k.cropBufs (c + 1)).blocks ≠ []

/-- The state of a recording. As long as there was no other recording with images, the images are in
order. -/
structure Filling (k : Worker) (file : MlvFile) : Prop where
  layout : ∃ bufSize, ∀ b, (k.cropBufs b).Valid bufSize
  fileLt : ∀ v ∈ file.blocks, v.frameNumber < k.session.frameNumber
  bufsLt : ∀ b, ∀ v ∈ (k.cropBufs b).blocks, v.frameNumber < k.session.frameNumber
  count : k.session.frameNumber ≤ k.videoFrameCount
  ordered : k.videoFrameCount = k.session.frameNumber → ∃ c, k.Ordered file c

/-- The invariant of the worker. Without images no buffer is written. -/
structure Inv (k : Worker) : Prop where
  consistent : k.Consistent
  writes : k.videoFrameCount = 0 → k.writes = []
  filling : k.recordingState = .active → ∀ file ∈ k.rawVidFp, k.Filling file

variable {k k' : Worker} {file : MlvFile} {b c : Fin 2} {size : ℕ} {hdr : ℕ × Vidf}

theorem add_one_ne_self (b : Fin 2) : b + 1 ≠ b := by
  omega

@[simp] theorem add_one_add_one (b : Fin 2) : b + 1 + 1 = b := by
  omega

@[simp] theorem appendFrame_blocks_self :
    ((k.appendFrame b size hdr).cropBufs b).blocks = (k.cropBufs b).blocks ++ [hdr.2] := by
  simp [appendFrame]

@[simp] theorem appendFrame_cropBufs_next :
    (k.appendFrame b size hdr).cropBufs (b + 1) = k.cropBufs (b + 1) := by
  simp [appendFrame]

/-! ### An image -/

theorem Ordered.append (h : k.Ordered file c) (hnum : hdr.2.frameNumber = k.session.frameNumber) :
    (k.appendFrame c size hdr).Ordered file c where
  inUse := h.inUse
  writes := by
    rcases h.writes with hnone | ⟨hnext, -, hwrites⟩
    · exact .inl hnone
    · exact .inr ⟨by simpa using hnext, by simp, hwrites⟩
  numbered := by
    have hwait : (k.appendFrame c size hdr).waiting (c + 1) = k.waiting (c + 1) := by
      simp only [waiting, appendFrame_cropBufs_next]
      rfl
    rw [hwait, appendFrame_blocks_self, ← append_assoc, map_append, h.numbered]
    simp [appendFrame, hnum, range_succ]
  last _ := .inl (by simp)

section

variable (h : k.Filling file) (hbuf : k.cropBuf = some b)

include h hbuf

theorem Filling.append
    (hcur : (k.cropBufs b).cur < hdr.1 + size) (hstop : hdr.1 + size ≤ (k.cropBufs b).stop)
    (hnum : hdr.2.frameNumber = k.session.frameNumber) :
    (k.appendFrame b size hdr).Filling file where
  layout := by
    obtain ⟨bufSize, hvalid⟩ := h.layout
    refine ⟨bufSize, fun b' => ?_⟩
    by_cases hb : b' = b
    · subst hb
      simpa [appendFrame] using (hvalid b').append hdr.2 hcur hstop
    · simpa [appendFrame, hb] using hvalid b'
  fileLt v hv := (h.fileLt v hv).trans (Nat.lt_succ_self _)
  bufsLt b' v hv := by
    by_cases hb : b' = b
    · subst hb
      rw [appendFrame_blocks_self, mem_append, mem_singleton] at hv
      rcases hv with hv | rfl
      · exact (h.bufsLt b' v hv).trans (Nat.lt_succ_self _)
      · simp [appendFrame, hnum]
    · have hv' : v ∈ (k.cropBufs b').blocks := by simpa [appendFrame, hb] using hv
      exact (h.bufsLt b' v hv').trans (Nat.lt_succ_self _)
  count := Nat.succ_le_succ h.count
  ordered heq := by
    obtain ⟨c, hc⟩ := h.ordered (Nat.succ_injective heq)
    obtain rfl := hc.inUse b hbuf
    exact ⟨b, hc.append hnum⟩

theorem Filling.swap (hempty : (k.cropBufs (b + 1)).blocks = []) :
    { k with cropBuf := some (b + 1) }.Filling file where
  __ := h
  ordered heq := by
    obtain ⟨c, hc⟩ := h.ordered heq
    obtain rfl := hc.inUse b hbuf
    -- A buffer that is written is not empty.
    have hwrites : k.writes = [] := hc.writes.resolve_right fun hw => hw.1 hempty
    refine ⟨b + 1, by simp, .inl hwrites, ?_, fun hn => ?_⟩
    · simpa [waiting, hwrites, hempty] using hc.numbered
    · refine .inr ⟨hwrites, ?_⟩
      simpa [hempty] using hc.last hn

theorem Filling.flush (hwrites : k.videoFrameCount = k.session.frameNumber → k.writes = [])
    (hnext : (k.cropBufs (b + 1)).blocks ≠ []) (hself : (k.cropBufs b).blocks ≠ []) :
    { k with writes := k.writes ++ [RawWrite.created (b + 1)] }.Filling file where
  __ := h
  ordered heq := by
    obtain ⟨c, hc⟩ := h.ordered heq
    obtain rfl := hc.inUse b hbuf
    refine ⟨b, hc.inUse, .inr ⟨hnext, hself, .inl (by simp [hwrites heq])⟩, ?_, fun _ => .inl hself⟩
    simpa [waiting, hwrites heq] using hc.numbered

end

theorem Filling.edmac (h : k.Filling file) (edmacFree : Bool) : { k with edmacFree }.Filling file :=
  ⟨h.layout, h.fileLt, h.bufsLt, h.count, fun heq => by
    obtain ⟨c, hc⟩ := h.ordered heq
    exact ⟨c, hc.inUse, hc.writes, hc.numbered, hc.last⟩⟩

theorem Filling.stall (h : k.Filling file) : { k with cropBuf := none }.Filling file :=
  ⟨h.layout, h.fileLt, h.bufsLt, h.count, fun heq => by
    obtain ⟨c, hc⟩ := h.ordered heq
    exact ⟨c, by simp, hc.writes, hc.numbered, hc.last⟩⟩

theorem copyFrame_none : ∃ edmacFree, k.copyFrame none = { k with edmacFree } := by
  rw [copyFrame]
  split_ifs
  · exact ⟨false, by simp⟩
  · exact ⟨k.edmacFree, rfl⟩

theorem Filling.imageInto (h : k.Filling file) (hbuf : k.cropBuf = some b)
    (hsize : size ≤ (k.cropBufs b).stop - (k.cropBufs b).start) :
    (k.imageInto b size).Filling file := by
  obtain ⟨bufSize, hvalid⟩ := h.layout
  replace hsize : size ≤ bufSize := by
    rw [(hvalid b).stop] at hsize
    omega
  unfold Worker.imageInto
  split
  case h_1 hdr hhdr =>
    obtain ⟨hcur, hstop, hnum⟩ := (hvalid b).header_eq_some hsize hhdr
    obtain ⟨edmacFree, heq⟩ := copyFrame_none (k := k.appendFrame b size hdr)
    rw [heq]
    exact (h.append hbuf hcur hstop hnum).edmac edmacFree
  case h_2 hhdr =>
    split_ifs with hused
    · exact h.stall
    · have hempty : (k.cropBufs (b + 1)).blocks = [] :=
        (hvalid (b + 1)).empty.1 (not_not.1 hused)
      have hswap := h.swap hbuf hempty
      split
      case h_1 => exact hswap
      case h_2 hdr hhdr' =>
        obtain ⟨hcur, hstop, hnum⟩ := (hvalid (b + 1)).header_eq_some hsize hhdr'
        have happend := hswap.append rfl hcur hstop hnum
        -- The image would have fitted into the former buffer if that was empty.
        have hfull : (k.cropBufs b).blocks ≠ [] := fun hno => by
          have := (hvalid b).header_eq_none (hvalid (b + 1)) hsize hno hempty hhdr
          simp [headerFor, this] at hhdr'
        have hwrites (heq : k.videoFrameCount = k.session.frameNumber) : k.writes = [] := by
          obtain ⟨c, hc⟩ := h.ordered heq
          obtain rfl := hc.inUse b hbuf
          exact hc.writes.resolve_right fun hw => hw.1 hempty
        rw [copyFrame]
        split_ifs
        · have hflush := (happend.flush rfl (fun heq => hwrites (Nat.succ_injective heq))
            (by rwa [appendFrame_cropBufs_next, add_one_add_one]) (by simp)).edmac false
          rw [add_one_add_one] at hflush
          exact hflush
        · exact happend

/-! ### The steps -/

theorem imageInto_writes (h : k.videoFrameCount = 0 → k.writes = []) (b : Fin 2) (size : ℕ)
    (hcount : (k.imageInto b size).videoFrameCount = 0) : (k.imageInto b size).writes = [] := by
  obtain ⟨cropBuf, heq | ⟨c, hdr, edmacFree, writes, -, heq⟩⟩ := k.imageInto_cases b size
  · rw [heq] at hcount ⊢
    exact h hcount
  · simp [heq, appendFrame] at hcount

theorem Inv.imageData (h : k.Inv) (event : Event) : (k.imageData event).Inv := by
  have hconsistent : (k.imageData event).Consistent := h.consistent.imageData
  have hopen := (imageData_open (k := k) event).2.1
  obtain heq | ⟨b, hactive, hbuf, hsize, heq⟩ := k.imageData_cases event
  · rw [heq]
    exact h
  · rw [heq] at hconsistent hopen ⊢
    refine ⟨hconsistent, imageInto_writes h.writes b event.size, fun _ file hfile => ?_⟩
    rw [hopen] at hfile
    exact (h.filling hactive file hfile).imageInto hbuf hsize

theorem Inv.commandStart (h : k.Inv) (htype : event.type = .commandStart) (answers : Answers) :
    (k.commandStart event answers.malloc answers.create).Inv := by
  have hconsistent : (k.commandStart event answers.malloc answers.create).Consistent :=
    h.consistent.commandStart htype
  by_cases hstart : k.Accepts event ∧ Allocated answers.malloc
  case neg =>
    rw [commandStart_eq_self h.consistent htype hstart]
    exact h
  obtain ⟨haccepts, halloc⟩ := hstart
  cases hcreate : answers.create with
  | false =>
    rw [hcreate, commandStart_fails h.consistent haccepts halloc] at hconsistent
    rw [commandStart_fails h.consistent haccepts halloc]
    exact ⟨hconsistent, h.writes, fun hs => by simp [haccepts.inactive] at hs⟩
  | true =>
    rw [hcreate, commandStart_active h.consistent haccepts halloc] at hconsistent
    rw [commandStart_active h.consistent haccepts halloc]
    refine ⟨hconsistent, h.writes, fun _ file hfile => ?_⟩
    cases hfile
    obtain ⟨bufSize, hmem, p, q, hmalloc, heq⟩ :=
      allocCropBufs_eq_ofBlock (h.consistent.freed haccepts.inactive haccepts.free) halloc
    obtain ⟨hp, hq⟩ := answers.inRam bufSize hmem
    have hempty (b : Fin 2) : (allocCropBufs k.cropBufs answers.malloc b).blocks = [] := by
      rw [heq]
      dsimp only
      split_ifs <;> rfl
    refine ⟨⟨bufSize, fun b => ?_⟩, by simp, by simp [hempty], Nat.zero_le _, fun hzero => ?_⟩
    · rw [heq]
      dsimp only
      split_ifs
      · exact CropBuf.valid_ofBlock hmem (hp p (by simp [hmalloc]))
      · exact CropBuf.valid_ofBlock hmem (hq q (by simp [hmalloc]))
    · exact ⟨0, by simp, .inl (h.writes hzero), by simp [waiting, hempty], by simp⟩

/-- A file that is closed is right exactly if there was no image. -/
theorem Filling.right_iff (h : k.Filling file) :
    MlvFile.Right { file with headerSize := headerBytes, videoFrameCount := k.videoFrameCount } ↔
      k.videoFrameCount = 0 := by
  constructor
  · rintro ⟨-, hcount, hnumbered⟩
    dsimp only at hcount hnumbered
    by_contra hne
    -- The last block in the file has been numbered in this recording, so this is the first one.
    have hmem : file.blocks.length - 1 ∈ file.blocks.map Vidf.frameNumber := by
      rw [hnumbered, mem_range]
      omega
    obtain ⟨v, hv, hvnum⟩ := mem_map.1 hmem
    have hlt := h.fileLt v hv
    have hle := h.count
    obtain ⟨c, hc⟩ := h.ordered (by omega)
    -- All images are in the file, none in a buffer.
    have hlength := congrArg length hc.numbered
    simp only [length_map, length_append, length_range] at hlength
    have hwaiting : k.waiting (c + 1) = [] := eq_nil_of_length_eq_zero (by omega)
    have hblocks : (k.cropBufs c).blocks = [] := eq_nil_of_length_eq_zero (by omega)
    rcases hc.last (by omega) with hlast | ⟨hwrites, hlast⟩
    · exact hlast hblocks
    · rw [waiting, hwrites] at hwaiting
      exact hlast (by simpa using hwaiting)
  · intro hzero
    have hzero' : k.session.frameNumber = 0 := Nat.eq_zero_of_le_zero (hzero ▸ h.count)
    have hblocks : file.blocks = [] := by
      refine eq_nil_iff_forall_not_mem.2 fun v hv => ?_
      have := h.fileLt v hv
      omega
    exact ⟨rfl, by simp [hzero, hblocks], by simp [hblocks]⟩

theorem Inv.commandStop (h : k.Inv) : k.commandStop.Inv := by
  rcases h.consistent.state with hstate | hstate
  · rw [commandStop_of_inactive hstate]
    exact h
  · obtain ⟨file, hfile⟩ := Option.ne_none_iff_exists'.1 (h.consistent.active hstate).1
    have hconsistent := h.consistent.commandStop
    rw [commandStop_eq h.consistent hstate hfile] at hconsistent ⊢
    exact ⟨hconsistent, h.writes, fun hs => by cases hs⟩

theorem Inv.handle (h : k.Inv) (event : Event) (answers : Answers) :
    (k.handle event answers).Inv := by
  unfold Worker.handle
  split
  case h_1 => exact h.imageData event
  case h_2 htype => exact h.commandStart htype answers
  case h_3 => exact h.commandStop
  case h_4 => exact h
  case h_5 => exact h

theorem Filling.written (h : k.Filling file) (hmem : .created b ∈ k.writes) :
    Filling { k with
      rawVidFp := some { file with blocks := file.blocks ++ (k.cropBufs b).blocks }
      writes := .written b :: k.writes.erase (.created b) }
      { file with blocks := file.blocks ++ (k.cropBufs b).blocks } where
  __ := h
  fileLt v hv := by
    rcases mem_append.1 hv with hv | hv
    · exact h.fileLt v hv
    · exact h.bufsLt b v hv
  ordered heq := by
    obtain ⟨c, hc⟩ := h.ordered heq
    rcases hc.writes with hnone | ⟨hnext, hself, hw | hw⟩
    · simp [hnone] at hmem
    · obtain rfl : b = c + 1 := by simpa [hw] using hmem
      refine ⟨c, hc.inUse, .inr ⟨hnext, hself, .inr (by simp [hw])⟩, ?_, fun _ => .inl hself⟩
      simpa [waiting, hw] using hc.numbered
    · simp [hw] at hmem

theorem Inv.writeBegin (h : k.Inv) (hk : k.writeBegin b = some k') : k'.Inv := by
  have hconsistent := h.consistent.writeBegin hk
  unfold Worker.writeBegin at hk
  split_ifs at hk with hmem
  have hcount : k.videoFrameCount ≠ 0 := fun hzero => by simp [h.writes hzero] at hmem
  dsimp only at hk
  split at hk
  case h_1 hfile =>
    cases hk
    refine ⟨hconsistent, fun hzero => absurd hzero hcount, fun hs => ?_⟩
    simp [hfile]
  case h_2 file hfile =>
    split_ifs at hk with hnull
    · cases hk
      refine ⟨hconsistent, fun hzero => absurd hzero hcount, fun hs file' hfile' => ?_⟩
      -- The buffers of a recording are allocated.
      obtain ⟨bufSize, hvalid⟩ := (h.filling hs file' hfile').layout
      have hb := hvalid b
      have hpos := hb.pos
      have hstart := hb.start_le
      have hstop := hb.le_stop
      rcases hnull with hnull | hnull | hnull | hnull
      · exact absurd hnull hb.buf
      all_goals omega
    · cases hk
      refine ⟨hconsistent, fun hzero => absurd hzero hcount, fun hs file' hfile' => ?_⟩
      cases hfile'
      exact (h.filling hs file hfile).written hmem

theorem Filling.reset (h : k.Filling file) (hmem : .written b ∈ k.writes) :
    Filling { k with
      cropBufs := Function.update k.cropBufs b
        { k.cropBufs b with cur := (k.cropBufs b).start, blocks := [] }
      writes := k.writes.erase (.written b) } file where
  __ := h
  layout := by
    obtain ⟨bufSize, hvalid⟩ := h.layout
    refine ⟨bufSize, fun b' => ?_⟩
    by_cases hb : b' = b
    · subst hb
      simpa using (hvalid b').reset
    · simpa [hb] using hvalid b'
  bufsLt b' v hv := by
    by_cases hb : b' = b
    · subst hb
      simp at hv
    · exact h.bufsLt b' v (by simpa [hb] using hv)
  ordered heq := by
    obtain ⟨c, hc⟩ := h.ordered heq
    rcases hc.writes with hnone | ⟨hnext, hself, hw | hw⟩
    · simp [hnone] at hmem
    · simp [hw] at hmem
    · obtain rfl : b = c + 1 := by simpa [hw] using hmem
      have hne : c ≠ c + 1 := (add_one_ne_self c).symm
      refine ⟨c, hc.inUse, .inl (by simp [hw]), ?_, fun _ => .inl (by simpa [hne] using hself)⟩
      simpa [waiting, hw, hne] using hc.numbered

theorem Inv.writeEnd (h : k.Inv) (hk : k.writeEnd b = some k') : k'.Inv := by
  have hconsistent := h.consistent.writeEnd hk
  rw [Worker.writeEnd] at hk
  split_ifs at hk with hmem
  cases hk
  refine ⟨hconsistent, fun hzero => ?_, fun hs file hfile => (h.filling hs file hfile).reset hmem⟩
  simp [h.writes hzero] at hmem

theorem Inv.edmacDone (h : k.Inv) : k.edmacDone.Inv :=
  ⟨h.consistent.edmacDone, h.writes, fun hs file hfile => (h.filling hs file hfile).edmac true⟩

theorem inv_init : Worker.init.Inv :=
  ⟨consistent_init, fun _ => rfl, fun hs => by cases hs⟩

end Worker

/-! ### Runs -/

variable {s s' : RawVid} {op : Op}

theorem WorkerStep.inv {k : Worker} (h : WorkerStep s op k) (hs : s.worker.Inv) : k.Inv := by
  cases h with
  | call => exact hs
  | handle hi answers => exact hs.handle _ answers
  | edmacDone => exact hs.edmacDone
  | writeBegin hk => exact hs.writeBegin hk
  | writeEnd hk => exact hs.writeEnd hk

theorem Worker.commandStart_files {k : Worker} (h : k.Consistent)
    (htype : event.type = .commandStart) (malloc : ℕ → Option ℕ × Option ℕ) (create : Bool) :
    (k.commandStart event malloc create).files = k.files := by
  by_cases hstart : k.Accepts event ∧ Allocated malloc
  · cases create with
    | false => rw [commandStart_fails h hstart.1 hstart.2]
    | true => rw [commandStart_active h hstart.1 hstart.2]
  · rw [commandStart_eq_self h htype hstart]

/-- A stop command closes the file of a recording, and nothing else closes a file. -/
theorem Worker.handle_files {k : Worker} (h : k.Inv) (event : Event) (answers : Answers) :
    if event.type = .commandStop ∧ k.recordingState = .active then
      ∃ f : MlvFile, (k.handle event answers).files = k.files ++ [f] ∧
        (f.Right ↔ k.videoFrameCount = 0)
    else (k.handle event answers).files = k.files := by
  split_ifs with hstop
  · obtain ⟨htype, hstate⟩ := hstop
    obtain ⟨file, hfile⟩ := Option.ne_none_iff_exists'.1 (h.consistent.active hstate).1
    simp only [handle, htype, commandStop_eq h.consistent hstate hfile]
    exact ⟨_, rfl, (h.filling hstate file hfile).right_iff⟩
  · unfold handle
    split
    case h_1 => exact (imageData_open event).2.2.2.2
    case h_2 htype => exact commandStart_files h.consistent htype _ _
    case h_3 htype =>
      have hstate := h.consistent.state.resolve_right fun hs => hstop ⟨htype, hs⟩
      rw [commandStop_of_inactive hstate]
    case h_4 => rfl
    case h_5 => rfl

/-- All finished files are right. -/
def RawVid.FilesRight (s : RawVid) : Prop :=
  ∀ f ∈ s.worker.files, f.Right

/-- After a step the files are right if they were so before and no recording is stopped
after an image. -/
theorem filesRight_step (h : s.worker.Inv) (hs : op.step s = some s') :
    s'.FilesRight ↔ s.FilesRight ∧ ¬ op.Miscounts s := by
  have hsame (hfiles : s'.worker.files = s.worker.files) (hgood : ¬ op.Miscounts s) :
      s'.FilesRight ↔ s.FilesRight ∧ ¬ op.Miscounts s := by
    simp [RawVid.FilesRight, hfiles, hgood]
  have hstep := (step_keeps hs).1
  generalize hk : s'.worker = k at hstep
  cases hstep with
  | call hop =>
    refine hsame (by rw [hk]) ?_
    cases op with
    | workerHandle answers => exact absurd rfl (hop answers)
    | _ => exact id
  | @handle i hi answers =>
    have hfiles := Worker.handle_files h (s.events i) answers
    have hmis : (Op.workerHandle answers).Miscounts s ↔ (s.events i).type = .commandStop ∧
        s.worker.recordingState = .active ∧ s.worker.videoFrameCount ≠ 0 := by
      simp [Op.Miscounts, hi]
    split_ifs at hfiles with hstop
    · obtain ⟨f, hfiles, hright⟩ := hfiles
      simp only [RawVid.FilesRight, hk, hfiles, forall_mem_append, forall_mem_singleton,
        hright, hmis, hstop, true_and, not_not]
    · refine hsame (hk ▸ hfiles) fun hbad => hstop ⟨(hmis.1 hbad).1, (hmis.1 hbad).2.1⟩
  | edmacDone => exact hsame (by rw [hk]; rfl) id
  | writeBegin hw => exact hsame (hk ▸ (Worker.writeBegin_keeps hw).1) id
  | writeEnd hw => exact hsame (hk ▸ (Worker.writeEnd_keeps hw).1) id

/-- **The contents of files.** All finished files are right exactly if no recording has been stopped
after an image. -/
theorem run_right_iff (ops : List Op) (s : RawVid) (hrun : RawVid.init.run ops = some s) :
    (∀ f ∈ s.worker.files, f.Right) ↔
    Runs.Meets Op.step (fun s op => ¬ op.Miscounts s) .init ops := by
  have hinv {s s' : RawVid} {op : Op} (h : s.worker.Inv) (hs : op.step s = some s') :
      s'.worker.Inv :=
    (step_keeps hs).1.inv h
  obtain ⟨hright, hwrong⟩ := Runs.invariant_or
    (I := fun s : RawVid => s.worker.Inv ∧ s.FilesRight)
    (B := fun s : RawVid => s.worker.Inv ∧ ¬ s.FilesRight) (P := fun s op => ¬ op.Miscounts s)
    (fun s op s' h hgood hs => ⟨hinv h.1 hs, (filesRight_step h.1 hs).2 ⟨h.2, hgood⟩⟩)
    (fun s op s' h hbad hs => ⟨hinv h.1 hs, fun hno => hbad ((filesRight_step h.1 hs).1 hno).2⟩)
    (fun s op s' h hs => ⟨hinv h.1 hs, fun hno => h.2 ((filesRight_step h.1 hs).1 hno).1⟩)
    hrun ⟨Worker.inv_init, by simp [RawVid.FilesRight, RawVid.init, Worker.init]⟩
  refine ⟨fun h => ?_, fun h => (hright h).2⟩
  by_contra hno
  exact (hwrong hno).2 h

/-- A recording without an image. -/
theorem run_right_noImage :
    ∃ s f, RawVid.init.run (startRecording ++ stopRecording) = some s ∧ s.worker.files = [f] ∧
      f.Right :=
  ⟨_, _, rfl, rfl, (run_right_iff (startRecording ++ stopRecording) _ rfl).2 (by decide +kernel) _
    (mem_singleton_self _)⟩

/-- Two vsyncs; with the second one the first image is sent. The worker handles it. -/
def recordImage : List Op :=
  [.vsyncBegin true (fun _ => some 0xC000000), .vsyncGet true, .vsyncPost,
    .vsyncBegin true (fun _ => some 0xC000000), .vsyncGet true, .vsyncPost,
    .workerReceive, .workerHandle ready, .edmacDone]

/-- A recording with one image: the headers count it, but it is not in the file. -/
theorem run_oneImage :
    ∃ s, RawVid.init.run (startRecording ++ recordImage ++ stopRecording) = some s ∧
      s.worker.files = [⟨headerBytes, 1, []⟩] ∧ ¬ ∀ f ∈ s.worker.files, f.Right := by
  refine ⟨_, rfl, rfl, fun h => ?_⟩
  have hcount := (h ⟨headerBytes, 1, []⟩ (mem_singleton_self _)).count
  cases hcount

end MagicLantern.RawVidx

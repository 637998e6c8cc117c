import MagicLantern.Library.Runs
import MagicLantern.MlvLite.Resizing

/-!
# Memory safety of the frame slots

The tasks of `mlv_lite` share the slot table: the LiveView task captures frames into free slots and
posts them to the compression task, which shrinks them; other modules take free slots and give
them back; the recording task saves full slots and frees them. This file takes these operations as
steps (`SlotOp`), from the table that `setup_buffers` lays out in the chunks of the memory suites.

Along every sequence of steps no two slots share a byte, all slots stay inside the chunks, the
sizes of the slots go with their states and `valid_slot_count` counts the slots that are not
reserved. A slot in use keeps its memory until it is freed; only the compression task takes bytes
off its end, and never bytes of the compressed frame.

Source: `src/modules/raw_video/mlv_lite/mlv_lite.c`.

## Main results

* `run_slotsSafe` — the slots are safe in every run.
-/

namespace MagicLantern.MlvLite

open List Option SlotTable Tiling

/-! ### Operations on the slots -/

/-- The slots and what the tasks remember of them. -/
structure Buffers where
  table : SlotTable
  /-- `capture_slot`; `none` is the index `-1`. -/
  captureSlot : Option ℕ
  forceNewBuffer : Bool
  /-- The slots posted to the compression task and not yet received by it. -/
  compressMq : List ℕ
  /-- The slot that the compression task is working on. -/
  compressing : Option ℕ

/-- The operations of the tasks on the slots. -/
inductive SlotOp
  /-- The choice of a slot for a frame in `process_frame`, with the number and header put into it
  and the message to the compression task. -/
  | capture (frameNumber : ℤ) (hdr : MlvHdr)
  /-- The request for a new buffer by the recording task. -/
  | forceNewBuffer
  | getFreeSlot
  /-- `mlv_rec_release_slot` for a slot that has been taken. -/
  | releaseSlot (slot : ℕ) (write : Bool) (hdr : MlvHdr)
  /-- The compression task has compressed its next frame to `size` bytes and shrinks the slot. -/
  | compress (size : ℕ)
  /-- The compression task copies its next frame without compression. -/
  | copy
  /-- The compression task marks its slot as full. -/
  | compressDone
  /-- The recording task marks a full slot as being written. -/
  | startWriting (slot : ℕ)
  /-- A slot gets another number or use, and another header. -/
  | relabel (slot : ℕ) (frameNumber : ℤ) (isMeta : Bool) (hdr : MlvHdr)
  /-- `free_slot` for a slot that is full or written. -/
  | freeSlot (slot : ℕ)

/-- The state of slot `i`. -/
def Buffers.statusAt (b : Buffers) (i : ℕ) : Option SlotStatus := b.table.slots[i]?.map (·.status)

/-- The size that `shrink_slot` is called with: compressed frames are cut at the frame size. -/
def cutSize (M size : ℕ) : ℕ := min size (M - vidfHdrSize - 4)

/-- One operation; `none` when it is not enabled. -/
def SlotOp.step (M : ℕ) (b : Buffers) : SlotOp → Option Buffers
  | .capture frameNumber hdr =>
    match chooseNextCaptureSlot b.table.slots b.captureSlot b.forceNewBuffer with
    | none => some { b with captureSlot := none, forceNewBuffer := false }
    | some c =>
      let mark (s : FrameSlot) := { s with frameNumber := frameNumber, status := .capturing }
      some { b with
        table := (b.table.modify c mark).setHdr c hdr
        captureSlot := some c
        forceNewBuffer := false
        compressMq := b.compressMq ++ [c] }
  | .forceNewBuffer => some { b with forceNewBuffer := true }
  | .getFreeSlot => (MlvLite.getFreeSlot b.table.slots).map fun i =>
      { b with table := b.table.modify i fun s => { s with status := .locked } }
  | .releaseSlot i write hdr =>
    if b.statusAt i = some .locked then
      if write then
        some { b with
          table := (b.table.modify i fun s => { s with status := .full, isMeta := true }).setHdr
            i hdr }
      else some { b with table := b.table.modify i fun s => { s with status := .free } }
    else none
  | .compress size =>
    match b.compressing, b.compressMq with
    | none, k :: mq => some { b with
        table := shrinkSlot M b.table k (cutSize M size), compressMq := mq, compressing := some k }
    | _, _ => none
  | .copy =>
    match b.compressing, b.compressMq with
    | none, k :: mq => some { b with compressMq := mq, compressing := some k }
    | _, _ => none
  | .compressDone => b.compressing.map fun k => { b with
      table := b.table.modify k fun s => { s with status := .full }, compressing := none }
  | .startWriting i =>
    if b.statusAt i = some .full then
      some { b with table := b.table.modify i fun s => { s with status := .writing } }
    else none
  | .relabel i frameNumber isMeta hdr =>
    let mark (s : FrameSlot) := { s with frameNumber := frameNumber, isMeta := isMeta }
    some { b with table := (b.table.modify i mark).setHdr i hdr }
  | .freeSlot i =>
    if b.statusAt i = some .full ∨ b.statusAt i = some .writing then
      some { b with table := MlvLite.freeSlot M b.table i }
    else none

variable {size : ℕ} {L : Layout} {shoot srm : List MemChunk}

theorem SlotOp.step_compress_eq_some {M : ℕ} {b b' : Buffers}
    (h : (SlotOp.compress size).step M b = some b') :
    ∃ k mq, b.compressing = none ∧ b.compressMq = k :: mq ∧ { b with
      table := shrinkSlot M b.table k (cutSize M size), compressMq := mq
      compressing := some k } = b' := by
  simp only [SlotOp.step] at h
  split at h
  · exact ⟨_, _, ‹_›, ‹_›, some.inj h⟩
  · cases h

theorem SlotOp.step_copy_eq_some {M : ℕ} {b b' : Buffers} (h : SlotOp.copy.step M b = some b') :
    ∃ k mq, b.compressing = none ∧ b.compressMq = k :: mq ∧
      { b with compressMq := mq, compressing := some k } = b' := by
  simp only [SlotOp.step] at h
  split at h
  · exact ⟨_, _, ‹_›, ‹_›, some.inj h⟩
  · cases h

/-- A sequence of operations; `none` when one of them is not enabled. -/
def Buffers.run (M : ℕ) (b : Buffers) (ops : List SlotOp) : Option Buffers :=
  ops.foldlM (SlotOp.step M) b

/-- The state before recording. -/
def Buffers.start (L : Layout) (shoot srm : List MemChunk) (hdr : ℕ → MlvHdr) : Buffers :=
  ⟨setupBuffers L shoot srm hdr, none, false, [], none⟩

/-! ### What is preserved -/

/-- The slots share no byte, lie inside `mem`, have sizes that go with their states, and those that
are not reserved have been counted. -/
structure SlotsSafe (M : ℕ) (mem : Set ℕ) (t : SlotTable) : Prop where
  separate : Separate t.slots
  inside : covered t.slots ⊆ mem
  sizeOk : ∀ s ∈ t.slots, s.SizeOk M
  valid : t.validSlotCount = countValid t.slots

/-- A slot in use is given up by the operation, or stays in use at its address and with its size,
or is shrunk by the compression task to no less than its frame. -/
def KeepsSlotsInUse (M : ℕ) (b : Buffers) (op : SlotOp) (b' : Buffers) : Prop :=
  ∀ (j : ℕ) (s : FrameSlot), b.table.slots[j]? = some s → s.isIdle = false →
    op = .freeSlot j ∨ (∃ hdr, op = .releaseSlot j false hdr) ∨
    ∃ s', b'.table.slots[j]? = some s' ∧ s'.isIdle = false ∧ s'.ptr = s.ptr ∧
      (s'.size = s.size ∨ ∃ size, op = .compress size ∧ b.compressMq.head? = some j ∧
        vidfHdrSize + cutSize M size + 4 ≤ s'.size ∧ s'.size ≤ s.size)

/-! ### The layout -/

/-- What holds of the slots laid out so far: they are safe, and none is in use or partly used. -/
structure LayoutOk (M : ℕ) (mem : Set ℕ) (t : List FrameSlot × ℤ) : Prop where
  separate : Separate t.1
  inside : covered t.1 ⊆ mem
  sizeOk : ∀ s ∈ t.1, s.SizeOk M
  fresh : ∀ s ∈ t.1, s.isIdle = true ∧ (s.status = .reserved → s.size = 0)
  valid : t.2 = countValid t.1

namespace LayoutOk

variable {M lo ptr : ℕ} {mem mem' : Set ℕ} {l : List FrameSlot} {v : ℤ} {t : List FrameSlot × ℤ}

theorem mono (h : LayoutOk M mem t) (hmem : mem ⊆ mem') : LayoutOk M mem' t :=
  { h with inside := h.inside.trans hmem }

theorem addReservedSlots (h : LayoutOk M mem (l, v)) (hpos : 0 < M) (old : ℕ → FrameSlot)
    (ptr n : ℕ) : LayoutOk M mem (MlvLite.addReservedSlots old ptr n l, v) := by
  induction n generalizing l with
  | zero => exact h
  | succ n ih =>
    rw [MlvLite.addReservedSlots]
    split_ifs
    · have hcells : covered [({ old l.length with ptr := ptr, size := 0, status := .reserved } :
          FrameSlot)] = ∅ := by
        simp [cells, finish, Extent.size]
      refine ih ⟨?_, ?_, ?_, ?_, ?_⟩
      · exact separate_append.2 ⟨h.separate, pairwise_singleton _ _, by simp [hcells]⟩
      · rw [covered_append, hcells, Set.union_empty]
        exact h.inside
      · rw [forall_mem_append, forall_mem_singleton]
        exact ⟨h.sizeOk, ⟨Nat.zero_le _, by simp, by simp, fun _ => hpos⟩⟩
      · rw [forall_mem_append, forall_mem_singleton]
        exact ⟨h.fresh, rfl, fun _ => rfl⟩
      · simpa [countValid] using h.valid
    · exact h

theorem addSlot (h : LayoutOk M (mem ∪ Set.Ico lo ptr) (l, v)) {slot : FrameSlot}
    (hptr : slot.ptr = ptr) (hsize : slot.size = M) (hstatus : slot.status = .free) (hlo : lo ≤ ptr)
    (hdisj : Disjoint mem (Set.Ico lo (ptr + M))) :
    LayoutOk M (mem ∪ Set.Ico lo (ptr + M)) (l ++ [slot], v + 1) := by
  have hcells : covered [slot] = Set.Ico ptr (ptr + M) := by
    simp [cells, finish, Extent.start, Extent.size, hptr, hsize]
  refine ⟨separate_append.2 ⟨h.separate, pairwise_singleton _ _, ?_⟩, ?_, ?_, ?_, ?_⟩
  · rw [hcells]
    refine Disjoint.mono_left h.inside (Set.disjoint_union_left.2 ⟨?_, ?_⟩)
    · exact hdisj.mono_right (Set.Ico_subset_Ico_left hlo)
    · exact Set.Ico_disjoint_Ico_same
  · rw [covered_append, hcells]
    refine Set.union_subset (h.inside.trans ?_) ?_
    · exact Set.union_subset_union_right _ (Set.Ico_subset_Ico_right (Nat.le_add_right _ _))
    · exact (Set.Ico_subset_Ico_left hlo).trans Set.subset_union_right
  · rw [forall_mem_append, forall_mem_singleton]
    exact ⟨h.sizeOk, .of_free hstatus hsize⟩
  · rw [forall_mem_append, forall_mem_singleton]
    exact ⟨h.fresh, by simp [FrameSlot.isIdle, hstatus], by simp [hstatus]⟩
  · simpa [countValid, hstatus] using h.valid

/-- The frames of a chunk stay below its end `hi`. -/
theorem addFrames (hpos : 0 < L.maxFrameSize) {hi : ℕ} (hdisj : Disjoint mem (Set.Ico lo hi))
    (fuel : ℕ) {groupSize : ℕ} {size : ℤ}
    (h : LayoutOk L.maxFrameSize (mem ∪ Set.Ico lo (min ptr hi)) (l, v)) (hlo : lo ≤ ptr)
    (hhi : ptr + size = hi) :
    LayoutOk L.maxFrameSize (mem ∪ Set.Ico lo hi)
      (MlvLite.addFrames L fuel ptr size groupSize (l, v)) := by
  have hbelow (p : ℕ) : mem ∪ Set.Ico lo (min p hi) ⊆ mem ∪ Set.Ico lo hi :=
    Set.union_subset_union_right _ (Set.Ico_subset_Ico_right (min_le_right _ _))
  induction fuel generalizing ptr groupSize size l v with
  | zero => exact (h.addReservedSlots hpos _ _ _).mono (hbelow ptr)
  | succ fuel ih =>
    rw [MlvLite.addFrames]
    by_cases hfits : size ≥ L.maxFrameSize ∧ l.length < maxSlots
    swap
    · rw [if_neg hfits]
      exact (h.addReservedSlots hpos _ _ _).mono (hbelow ptr)
    have hend : ptr + L.maxFrameSize ≤ hi := by omega
    rw [min_eq_left (by omega)] at h
    have hdisj' := hdisj.mono_right (Set.Ico_subset_Ico_right hend : Set.Ico lo _ ⊆ _)
    have hadd {slot : FrameSlot} (hptr : slot.ptr = ptr) (hsize : slot.size = L.maxFrameSize)
        (hstatus : slot.status = .free) (gap : ℕ) :
        LayoutOk L.maxFrameSize (mem ∪ Set.Ico lo (min (ptr + L.maxFrameSize + gap) hi))
          (l ++ [slot], v + 1) := by
      refine (h.addSlot hptr hsize hstatus hlo hdisj').mono (Set.union_subset_union_right _ ?_)
      exact Set.Ico_subset_Ico_right (le_min (by omega) hend)
    simp only [if_pos hfits]
    by_cases hsplit : groupSize + L.maxFrameSize + L.maxFrameSize > 0xFFFE * 512
    · rw [if_pos hsplit]
      exact ih ((hadd rfl rfl rfl 64).addReservedSlots hpos _ _ _) (by omega)
        (by push_cast; omega)
    · rw [if_neg hsplit]
      exact ih (hadd rfl rfl rfl 0) (by omega) (by push_cast; omega)

theorem addChunk (hpos : 0 < L.maxFrameSize) (h : LayoutOk L.maxFrameSize mem t) {c : MemChunk}
    (hdisj : Disjoint mem (cells c)) :
    LayoutOk L.maxFrameSize (mem ∪ cells c) (MlvLite.addChunk L t c) := by
  have hc : cells c = Set.Ico c.address (c.address + c.size) := rfl
  rw [hc] at hdisj ⊢
  rw [MlvLite.addChunk]
  split_ifs
  all_goals
    exact addFrames hpos hdisj _ (h.mono Set.subset_union_left) (by omega) (by push_cast; omega)

theorem addMemSuite (hpos : 0 < L.maxFrameSize) {chunks : List MemChunk}
    (h : LayoutOk L.maxFrameSize mem t) (hsep : Separate chunks)
    (hdisj : Disjoint mem (covered chunks)) :
    LayoutOk L.maxFrameSize (mem ∪ covered chunks) (MlvLite.addMemSuite L t chunks) := by
  induction chunks generalizing mem t with
  | nil => simpa [MlvLite.addMemSuite] using h
  | cons c cs ih =>
    obtain ⟨hcs, hsep⟩ := separate_cons.1 hsep
    rw [covered_cons, Set.disjoint_union_right] at hdisj
    have := ih (h.addChunk hpos hdisj.1) hsep (Set.disjoint_union_left.2 ⟨hdisj.2, hcs⟩)
    rwa [covered_cons, ← Set.union_assoc]

end LayoutOk

theorem setupBuffers_layoutOk (hpos : 0 < L.maxFrameSize) (hsep : Separate (shoot ++ srm))
    (hdr : ℕ → MlvHdr) :
    LayoutOk L.maxFrameSize (covered (shoot ++ srm))
      ((setupBuffers L shoot srm hdr).slots, (setupBuffers L shoot srm hdr).validSlotCount) := by
  obtain ⟨hshoot, hsrm, hdisj⟩ := separate_append.1 hsep
  have hempty : LayoutOk L.maxFrameSize ∅ ([], 0) :=
    ⟨List.Pairwise.nil, by simp, by simp, by simp, rfl⟩
  have h₁ := hempty.addMemSuite hpos hshoot (Set.empty_disjoint _)
  have h₂ := h₁.addMemSuite hpos hsrm (by rwa [Set.empty_union])
  rwa [Set.empty_union, ← covered_append] at h₂

/-- **The layout is safe.** -/
theorem setupBuffers_safe (hpos : 0 < L.maxFrameSize) (hsep : Separate (shoot ++ srm))
    (hdr : ℕ → MlvHdr) :
    SlotsSafe L.maxFrameSize (covered (shoot ++ srm)) (setupBuffers L shoot srm hdr) := by
  have h := setupBuffers_layoutOk hpos hsep hdr
  exact { h with }

/-! ### The number of slots -/

theorem length_addReservedSlots_le (old : ℕ → FrameSlot) (ptr n : ℕ) {l : List FrameSlot}
    (h : l.length ≤ maxSlots) : (addReservedSlots old ptr n l).length ≤ maxSlots := by
  fun_induction addReservedSlots old ptr n l with
  | case1 | case3 => exact h
  | case2 _ _ hlt ih => exact ih (by rw [length_append]; exact hlt)

theorem length_addFrames_le (L : Layout) (fuel ptr : ℕ) (size : ℤ) (groupSize : ℕ)
    {t : List FrameSlot × ℤ} (h : t.1.length ≤ maxSlots) :
    (addFrames L fuel ptr size groupSize t).1.length ≤ maxSlots := by
  fun_induction addFrames L fuel ptr size groupSize t with
  | case1 _ _ _ _ _ _ hfits _ _ _ _ _ ih =>
    exact ih (length_addReservedSlots_le _ _ _ (by rw [length_append]; exact hfits.2))
  | case2 _ _ _ _ _ _ hfits _ _ _ _ _ ih => exact ih (by rw [length_append]; exact hfits.2)
  | case3 | case4 => exact length_addReservedSlots_le _ _ _ h

theorem length_addMemSuite_le (L : Layout) (chunks : List MemChunk) {t : List FrameSlot × ℤ}
    (h : t.1.length ≤ maxSlots) : (addMemSuite L t chunks).1.length ≤ maxSlots := by
  induction chunks generalizing t with
  | nil => exact h
  | cons c chunks ih => exact ih (length_addFrames_le _ _ _ _ _ h)

theorem length_setupBuffers_le (L : Layout) (shoot srm : List MemChunk) (hdr : ℕ → MlvHdr) :
    (setupBuffers L shoot srm hdr).slots.length ≤ maxSlots :=
  length_addMemSuite_le L srm (length_addMemSuite_le L shoot (Nat.zero_le _))

/-! ### Changes of one slot -/

section

variable {M : ℕ} {mem : Set ℕ} {t : SlotTable} {i j : ℕ} {x : FrameSlot}
  {f : FrameSlot → FrameSlot}

theorem SlotsSafe.setHdr (h : SlotsSafe M mem t) (i : ℕ) (hdr : MlvHdr) :
    SlotsSafe M mem (t.setHdr i hdr) := by
  constructor
  · simpa using h.separate
  · simpa using h.inside
  · simpa using h.sizeOk
  · simpa using h.valid

theorem SlotsSafe.modify (h : SlotsSafe M mem t) (hx : t.slots[i]? = some x)
    (hptr : (f x).ptr = x.ptr) (hsize : (f x).size = x.size)
    (hres : (f x).status = .reserved ↔ x.status = .reserved) (hok : (f x).SizeOk M) :
    SlotsSafe M mem (t.modify i f) := by
  obtain ⟨a, b, hslots, -, hmodify⟩ := modify_split (f := f) hx
  have hcells : (t.modify i f).slots.map cells = t.slots.map cells := by
    have : cells (f x) = cells x := by
      simp only [cells, finish, Extent.start, Extent.size, hptr, hsize]
    rw [hmodify, hslots]
    simp [this]
  refine ⟨(separate_congr hcells).2 h.separate, (covered_congr hcells).trans_le h.inside, ?_, ?_⟩
  · have hall := h.sizeOk
    rw [hslots, forall_mem_append, forall_mem_cons] at hall
    rw [hmodify, forall_mem_append, forall_mem_cons]
    exact ⟨hall.1, hok, hall.2.2⟩
  · have hvalid := h.valid
    rw [hslots] at hvalid
    rw [hmodify]
    simpa [SlotTable.modify, hres] using hvalid

theorem SlotsSafe.shrinkSlot (h : SlotsSafe M mem t) (hM : 512 ∣ M) (hpos : 0 < M)
    (hx : t.slots[i]? = some x) (hstatus : x.status = .capturing) {n : ℕ}
    (hn : paddedSize n ≤ x.size) : SlotsSafe M mem (shrinkSlot M t i n) := by
  obtain ⟨a, r, r', b, q, q', k, hslots, -, hslots', hvalid', hmoved, -⟩ :=
    shrinkSlot_spec hM hpos hx h.sizeOk hn
  have htiles : Tiles (x :: r) x.ptr q := ⟨rfl, hmoved.before.tiles⟩
  have htiles' : Tiles (x.resized n :: r') x.ptr q' := ⟨x.resized_ptr n, hmoved.after.tiles⟩
  have hsub : covered (x.resized n :: r') ⊆ covered (x :: r) := by
    rw [htiles.covered_eq, htiles'.covered_eq]
    exact Set.Ico_subset_Ico_right hmoved.le
  have hsep := h.separate
  have hinside := h.inside
  have hok := h.sizeOk
  have hvalid := h.valid
  have hst := x.resized_status n
  rw [hstatus] at hst
  rw [hslots] at hsep hinside hok hvalid
  refine ⟨?_, ?_, ?_, ?_⟩
  · rw [hslots']
    exact hsep.replace htiles'.separate hsub
  · rw [hslots']
    exact (covered_replace hsub).trans hinside
  · rw [cons_append, forall_mem_append, forall_mem_cons, forall_mem_append]
      at hok
    rw [hslots', cons_append, forall_mem_append, forall_mem_cons,
      forall_mem_append]
    refine ⟨hok.1, ⟨?_, by simp [hst], by simp [hst], by simp [hst]⟩, hmoved.sizeOk, hok.2.2.2⟩
    rw [FrameSlot.resized_size hn]
    exact hn.trans hok.2.1.le
  · rw [hvalid', hslots', hvalid]
    simp [hst, hstatus, hmoved.valid]
    ring

theorem SlotsSafe.freeSlot (h : SlotsSafe M mem t) (hx : t.slots[i]? = some x)
    (hidle : x.isIdle = false) : SlotsSafe M mem (freeSlot M t i) := by
  have hres : x.status ≠ .reserved := by
    rintro hres
    simp [FrameSlot.isIdle, hres] at hidle
  by_cases hsize : x.size = M
  · rw [freeSlot_of_full hx hsize]
    exact h.modify hx rfl rfl (by simp [hres]) (.of_free rfl hsize)
  · obtain ⟨a, r₁, r₂, b, p, q, hslots, -, hrun, -, -, hfree⟩ := freeSlot_spec hx hsize
    obtain ⟨⟨q', hrun', hle, -⟩, hsizes, hcount⟩ :=
      reallocate_spec (M := M) _ hrun.tiles.le hrun.idle
    have hcells : (r₁ ++ x :: r₂).map cells =
        (r₁ ++ { x with status := .reserved } :: r₂).map cells := by
      simp only [map_append]
      rfl
    have hsub : covered (reallocate M q p (r₁ ++ { x with status := .reserved } :: r₂)).1 ⊆
        covered (r₁ ++ x :: r₂) := by
      rw [covered_congr hcells, hrun.tiles.covered_eq, hrun'.tiles.covered_eq]
      exact Set.Ico_subset_Ico_right hle
    have hsep := h.separate
    have hinside := h.inside
    have hok := h.sizeOk
    have hvalid := h.valid
    rw [hslots] at hsep hinside hok hvalid
    rw [hfree]
    refine ⟨hsep.replace hrun'.tiles.separate hsub, (covered_replace hsub).trans hinside, ?_, ?_⟩
    · rw [forall_mem_append, forall_mem_append] at hok ⊢
      exact ⟨hok.1, hsizes, hok.2.2⟩
    · simp only [countValid_append, countValid_cons, if_neg hres, Nat.cast_add] at hvalid hcount ⊢
      rw [hcount, hvalid]
      simp
      ring

end

/-! ### One operation -/

/-- The slots are safe, and the slots sent to the compression task are captured ones; those that it
has not received have not been shrunk. -/
structure Buffers.Inv (M : ℕ) (mem : Set ℕ) (b : Buffers) : Prop where
  safe : SlotsSafe M mem b.table
  waiting : ∀ k ∈ b.compressMq,
    ∃ s, b.table.slots[k]? = some s ∧ s.status = .capturing ∧ s.size = M
  working : ∀ k ∈ b.compressing, ∃ s, b.table.slots[k]? = some s ∧ s.status = .capturing
  nodup : (b.compressing.toList ++ b.compressMq).Nodup

section

variable {M : ℕ} {mem : Set ℕ} {b : Buffers} {t' : SlotTable} {i : ℕ} {x : FrameSlot}
  {f : FrameSlot → FrameSlot} {op : SlotOp} {st : SlotStatus}

/-- Captured slots stay captured and keep their size. -/
def KeepsCaptured (t t' : SlotTable) : Prop :=
  ∀ (k : ℕ) (s : FrameSlot), t.slots[k]? = some s → s.status = .capturing →
    ∃ s', t'.slots[k]? = some s' ∧ s'.status = .capturing ∧ s'.size = s.size

theorem KeepsCaptured.setHdr {t : SlotTable} (h : KeepsCaptured t t') (i : ℕ) (hdr : MlvHdr) :
    KeepsCaptured t (t'.setHdr i hdr) := by
  simpa [KeepsCaptured] using h

theorem keepsCaptured_modify {t : SlotTable} (hx : t.slots[i]? = some x)
    (h : x.status = .capturing → (f x).status = .capturing ∧ (f x).size = x.size) :
    KeepsCaptured t (t.modify i f) := by
  intro k s hk hs
  by_cases hki : k = i
  · subst hki
    obtain rfl : x = s := some.inj (hx.symm.trans hk)
    exact ⟨f x, modify_self hx, h hs⟩
  · exact ⟨s, (modify_of_ne hki).trans hk, hs, rfl⟩

theorem Buffers.Inv.setTable (h : b.Inv M mem) (hsafe : SlotsSafe M mem t')
    (hkeeps : KeepsCaptured b.table t') (c : Option ℕ) (force : Bool) :
    { b with table := t', captureSlot := c, forceNewBuffer := force }.Inv M mem where
  safe := hsafe
  waiting k hk := by
    obtain ⟨s, hs, hstatus, hsize⟩ := h.waiting k hk
    obtain ⟨s', hs', hstatus', hsize'⟩ := hkeeps k s hs hstatus
    exact ⟨s', hs', hstatus', hsize'.trans hsize⟩
  working k hk := by
    obtain ⟨s, hs, hstatus⟩ := h.working k hk
    obtain ⟨s', hs', hstatus', -⟩ := hkeeps k s hs hstatus
    exact ⟨s', hs', hstatus'⟩
  nodup := h.nodup

theorem Buffers.Inv.notMem (h : b.Inv M mem) (hx : b.table.slots[i]? = some x)
    (hstatus : x.status ≠ .capturing) : i ∉ b.compressing.toList ++ b.compressMq := by
  intro hi
  rcases mem_append.1 hi with hi | hi
  · obtain ⟨s, hs, hs'⟩ := h.working i (mem_toList.1 hi)
    obtain rfl : x = s := some.inj (hx.symm.trans hs)
    exact hstatus hs'
  · obtain ⟨s, hs, hs', -⟩ := h.waiting i hi
    obtain rfl : x = s := some.inj (hx.symm.trans hs)
    exact hstatus hs'

theorem keepsSlotsInUse_of_slots {b' : Buffers} (h : b'.table.slots = b.table.slots) :
    KeepsSlotsInUse M b op b' := fun _ s hs hidle =>
  .inr (.inr ⟨s, h ▸ hs, hidle, rfl, .inl rfl⟩)

theorem keepsSlotsInUse_modify {b' : Buffers}
    (h : b'.table.slots = (b.table.modify i f).slots) (hx : b.table.slots[i]? = some x)
    (hptr : (f x).ptr = x.ptr) (hsize : (f x).size = x.size)
    (hidle : x.isIdle = false → (f x).isIdle = false ∨ ∃ hdr, op = .releaseSlot i false hdr) :
    KeepsSlotsInUse M b op b' := by
  intro j s hs hbusy
  by_cases hj : j = i
  · subst hj
    obtain rfl : x = s := some.inj (hx.symm.trans hs)
    rcases hidle hbusy with hbusy' | hop
    · exact .inr (.inr ⟨f x, h ▸ modify_self hx, hbusy', hptr, .inl hsize⟩)
    · exact .inr (.inl hop)
  · exact .inr (.inr ⟨s, h ▸ (modify_of_ne hj).trans hs, hbusy, rfl, .inl rfl⟩)

theorem Buffers.exists_of_statusAt (h : b.statusAt i = some st) :
    ∃ x, b.table.slots[i]? = some x ∧ x.status = st := by
  simpa [statusAt] using h

variable {b' : Buffers} {frameNumber : ℤ} {hdr : MlvHdr}

/-- A free slot is captured into and sent to the compression task. -/
theorem Buffers.Inv.capture (h : b.Inv M mem) {c : ℕ} (hx : b.table.slots[c]? = some x)
    (hfree : x.status = .free) (frameNumber : ℤ) (hdr : MlvHdr) (captureSlot : Option ℕ)
    (force : Bool) :
    { b with
      table := (b.table.modify c fun s => { s with
        frameNumber := frameNumber, status := .capturing }).setHdr c hdr
      captureSlot := captureSlot
      forceNewBuffer := force
      compressMq := b.compressMq ++ [c] }.Inv M mem := by
  have hxM := (h.safe.sizeOk x (mem_of_getElem? hx)).free hfree
  have hkeeps := keepsCaptured_modify (t := b.table)
    (f := fun s => { s with frameNumber := frameNumber, status := .capturing }) hx
    (by simp [hfree])
  have hsafe := h.safe.modify (f := fun s => { s with
    frameNumber := frameNumber, status := .capturing }) hx rfl rfl (by simp [hfree])
    ⟨hxM.le, by simp, by simp, by simp⟩
  have hnew : c ∉ b.compressing.toList ++ b.compressMq := h.notMem hx (by simp [hfree])
  have h' := h.setTable (hsafe.setHdr c hdr) (hkeeps.setHdr c hdr) captureSlot force
  refine ⟨h'.safe, ?_, h'.working, ?_⟩
  · intro k hk
    rcases mem_append.1 hk with hk | hk
    · exact h'.waiting k hk
    · obtain rfl := mem_singleton.1 hk
      refine ⟨{ x with frameNumber := frameNumber, status := .capturing }, ?_, rfl, hxM⟩
      rw [setHdr_slots, modify_self hx]
  · rw [← append_assoc]
    exact nodup_append.2 ⟨h.nodup, nodup_singleton c, by grind⟩

theorem step_capture (h : b.Inv M mem)
    (hstep : (SlotOp.capture frameNumber hdr).step M b = some b') :
    b'.Inv M mem ∧ KeepsSlotsInUse M b (.capture frameNumber hdr) b' := by
  simp only [SlotOp.step] at hstep
  cases hc : chooseNextCaptureSlot b.table.slots b.captureSlot b.forceNewBuffer with
  | none =>
    simp only [hc, some.injEq] at hstep
    subst hstep
    exact ⟨{ h with }, keepsSlotsInUse_of_slots rfl⟩
  | some c =>
    obtain ⟨x, hx, hfree⟩ := chooseNextCaptureSlot_isFree hc
    simp only [hc, some.injEq] at hstep
    subst hstep
    refine ⟨h.capture hx hfree frameNumber hdr (some c) false, ?_⟩
    exact keepsSlotsInUse_modify (setHdr_slots _ _ _) hx rfl rfl fun _ => .inl rfl

theorem step_getFreeSlot (h : b.Inv M mem) (hstep : SlotOp.getFreeSlot.step M b = some b') :
    b'.Inv M mem ∧ KeepsSlotsInUse M b .getFreeSlot b' := by
  simp only [SlotOp.step, map_eq_some_iff] at hstep
  obtain ⟨i, hi, rfl⟩ := hstep
  obtain ⟨x, hx, hfree⟩ := getFreeSlot_isFree hi
  have hxM := (h.safe.sizeOk x (mem_of_getElem? hx)).free hfree
  refine ⟨h.setTable ?_ (keepsCaptured_modify hx (by simp [hfree])) _ _, ?_⟩
  · exact h.safe.modify hx rfl rfl (by simp [hfree])
      ⟨hxM.le, by simp, fun _ => hxM, by simp⟩
  · exact keepsSlotsInUse_modify rfl hx rfl rfl fun _ => .inl rfl

theorem step_releaseSlot (h : b.Inv M mem) {write : Bool}
    (hstep : (SlotOp.releaseSlot i write hdr).step M b = some b') :
    b'.Inv M mem ∧ KeepsSlotsInUse M b (.releaseSlot i write hdr) b' := by
  simp only [SlotOp.step] at hstep
  split_ifs at hstep with hlocked hwrite
  all_goals
    obtain ⟨x, hx, hstatus⟩ := Buffers.exists_of_statusAt hlocked
    have hxM := (h.safe.sizeOk x (mem_of_getElem? hx)).locked hstatus
    cases hstep
  · refine ⟨h.setTable (.setHdr (h.safe.modify hx rfl rfl (by simp [hstatus]) ?_) i hdr)
      ((keepsCaptured_modify hx (by simp [hstatus])).setHdr i hdr) _ _, ?_⟩
    · exact ⟨hxM.le, by simp, by simp, by simp⟩
    · exact keepsSlotsInUse_modify (setHdr_slots _ _ _) hx rfl rfl fun _ => .inl rfl
  · refine ⟨h.setTable (h.safe.modify hx rfl rfl (by simp [hstatus]) (.of_free rfl hxM))
      (keepsCaptured_modify hx (by simp [hstatus])) _ _, ?_⟩
    refine keepsSlotsInUse_modify rfl hx rfl rfl fun _ => .inr ⟨hdr, ?_⟩
    simpa using hwrite

theorem paddedSize_cutSize_le (hM : 512 ∣ M) (hpos : 0 < M) (size : ℕ) :
    paddedSize (cutSize M size) ≤ M := by
  have hmax := paddedSize_max hM hpos
  have hcut : cutSize M size ≤ M - vidfHdrSize - 4 := min_le_right _ _
  refine (Nat.mul_le_mul_right _ (Nat.div_le_div_right ?_)).trans_eq hmax
  omega

theorem step_compress (hM : 512 ∣ M) (hpos : 0 < M) (h : b.Inv M mem)
    (hstep : (SlotOp.compress size).step M b = some b') :
    b'.Inv M mem ∧ KeepsSlotsInUse M b (.compress size) b' := by
  obtain ⟨k, mq, hnone, hmq, rfl⟩ := SlotOp.step_compress_eq_some hstep
  obtain ⟨table, captureSlot, force, _, _⟩ := b
  subst hnone hmq
  obtain ⟨x, hx, hstatus, hxM⟩ := h.waiting k mem_cons_self
  have hn : paddedSize (cutSize M size) ≤ x.size := by
    rw [hxM]
    exact paddedSize_cutSize_le hM hpos size
  have hself := shrinkSlot_self hM hpos hx h.safe.sizeOk hn
  have hne {j : ℕ} {s : FrameSlot} (hj : j ≠ k) (hs : table.slots[j]? = some s)
      (hidle : s.isIdle = false) := shrinkSlot_of_ne hM hpos hx h.safe.sizeOk hn hj hs hidle
  have hnodup : (k :: mq).Nodup := h.nodup
  refine ⟨⟨h.safe.shrinkSlot hM hpos hx hstatus hn, fun j hj => ?_, ?_, hnodup⟩, ?_⟩
  · obtain ⟨s, hs, hs', hsM⟩ := h.waiting j (mem_cons_of_mem k hj)
    have hjk : j ≠ k := by
      rintro rfl
      exact (nodup_cons.1 hnodup).1 hj
    exact ⟨s, hne hjk hs (by simp [FrameSlot.isIdle, hs']), hs', hsM⟩
  · rintro j ⟨⟩
    exact ⟨_, hself, (x.resized_status _).trans hstatus⟩
  · intro j s hs hidle
    refine .inr (.inr ?_)
    by_cases hj : j = k
    · subst hj
      obtain rfl : x = s := some.inj (hx.symm.trans hs)
      refine ⟨_, hself, ?_, x.resized_ptr _, .inr ⟨size, rfl, rfl, ?_, ?_⟩⟩
      · simp [FrameSlot.isIdle, ((x.resized_status _).trans hstatus)]
      · rw [FrameSlot.resized_size hn, paddedSize]
        omega
      · rw [FrameSlot.resized_size hn]
        exact hn
    · exact ⟨s, hne hj hs hidle, hidle, rfl, .inl rfl⟩

theorem step_copy (h : b.Inv M mem) (hstep : SlotOp.copy.step M b = some b') :
    b'.Inv M mem ∧ KeepsSlotsInUse M b .copy b' := by
  obtain ⟨k, mq, hnone, hmq, rfl⟩ := SlotOp.step_copy_eq_some hstep
  obtain ⟨table, captureSlot, force, _, _⟩ := b
  subst hnone hmq
  refine ⟨⟨h.safe, fun j hj => h.waiting j (mem_cons_of_mem k hj), ?_, h.nodup⟩,
    keepsSlotsInUse_of_slots rfl⟩
  rintro j ⟨⟩
  obtain ⟨s, hs, hstatus, -⟩ := h.waiting k mem_cons_self
  exact ⟨s, hs, hstatus⟩

theorem step_compressDone (h : b.Inv M mem) (hstep : SlotOp.compressDone.step M b = some b') :
    b'.Inv M mem ∧ KeepsSlotsInUse M b .compressDone b' := by
  simp only [SlotOp.step, map_eq_some_iff] at hstep
  obtain ⟨k, hk, rfl⟩ := hstep
  obtain ⟨x, hx, hstatus⟩ := h.working k hk
  have hxle := (h.safe.sizeOk x (mem_of_getElem? hx)).le
  have hnodup := h.nodup
  rw [hk, toList_some, singleton_append, nodup_cons] at hnodup
  refine ⟨⟨h.safe.modify hx rfl rfl (by simp [hstatus]) ⟨hxle, by simp, by simp, by simp⟩,
    fun j hj => ?_, by simp, by simpa using hnodup.2⟩, ?_⟩
  · obtain ⟨s, hs, hs', hsM⟩ := h.waiting j hj
    have hjk : j ≠ k := by
      rintro rfl
      exact hnodup.1 hj
    exact ⟨s, (modify_of_ne hjk).trans hs, hs', hsM⟩
  · exact keepsSlotsInUse_modify rfl hx rfl rfl fun _ => .inl rfl

theorem step_startWriting (h : b.Inv M mem) (hstep : (SlotOp.startWriting i).step M b = some b') :
    b'.Inv M mem ∧ KeepsSlotsInUse M b (.startWriting i) b' := by
  simp only [SlotOp.step] at hstep
  split_ifs at hstep with hfull
  obtain ⟨x, hx, hstatus⟩ := Buffers.exists_of_statusAt hfull
  cases hstep
  have hxle := (h.safe.sizeOk x (mem_of_getElem? hx)).le
  refine ⟨h.setTable ?_ (keepsCaptured_modify hx (by simp [hstatus])) _ _, ?_⟩
  · exact h.safe.modify hx rfl rfl (by simp [hstatus]) ⟨hxle, by simp, by simp, by simp⟩
  · exact keepsSlotsInUse_modify rfl hx rfl rfl fun _ => .inl rfl

theorem step_relabel (h : b.Inv M mem) {isMeta : Bool} (hstep : (SlotOp.relabel i frameNumber isMeta
      hdr).step M b = some b') :
    b'.Inv M mem ∧ KeepsSlotsInUse M b (.relabel i frameNumber isMeta hdr) b' := by
  simp only [SlotOp.step, some.injEq] at hstep
  subst hstep
  cases hx : b.table.slots[i]? with
  | none =>
    have hsame : (b.table.modify i fun s => { s with
        frameNumber := frameNumber, isMeta := isMeta }).setHdr i hdr = b.table := by
      have hmodify : (b.table.modify i fun s => { s with
          frameNumber := frameNumber, isMeta := isMeta }) = b.table := by
        rw [SlotTable.modify, modify_eq_set_getElem?, hx]
        rfl
      rw [hmodify, SlotTable.setHdr, hx]
    simp only [hsame]
    exact ⟨h, keepsSlotsInUse_of_slots rfl⟩
  | some x =>
    obtain ⟨hle, hfree, hlocked, hres⟩ := h.safe.sizeOk x (mem_of_getElem? hx)
    refine ⟨h.setTable (.setHdr (h.safe.modify hx rfl rfl Iff.rfl ?_) i hdr)
      ((keepsCaptured_modify hx fun hcap => ⟨hcap, rfl⟩).setHdr i hdr) _ _, ?_⟩
    · exact ⟨hle, hfree, hlocked, hres⟩
    · exact keepsSlotsInUse_modify (setHdr_slots _ _ _) hx rfl rfl fun hb => .inl hb

theorem step_freeSlot (h : b.Inv M mem) (hstep : (SlotOp.freeSlot i).step M b = some b') :
    b'.Inv M mem ∧ KeepsSlotsInUse M b (.freeSlot i) b' := by
  simp only [SlotOp.step] at hstep
  split_ifs at hstep with hstatus
  cases hstep
  obtain ⟨x, hx, hidle, hcap⟩ : ∃ x, b.table.slots[i]? = some x ∧ x.isIdle = false ∧
      x.status ≠ .capturing := by
    rcases hstatus with hstatus | hstatus <;>
    · obtain ⟨x, hx, hst⟩ := Buffers.exists_of_statusAt hstatus
      exact ⟨x, hx, by simp [FrameSlot.isIdle, hst], by simp [hst]⟩
  refine ⟨h.setTable (h.safe.freeSlot hx hidle) (fun k s hs hst => ?_) _ _, fun j s hs hbusy => ?_⟩
  · have hki : k ≠ i := by
      rintro rfl
      obtain rfl : x = s := some.inj (hx.symm.trans hs)
      exact hcap hst
    have hkeep := freeSlot_of_ne (M := M) hki hs (by simp [FrameSlot.isIdle, hst])
    exact ⟨s, hkeep, hst, rfl⟩
  · by_cases hj : j = i
    · subst hj
      exact .inl rfl
    · exact .inr (.inr ⟨s, freeSlot_of_ne hj hs hbusy, hbusy, rfl, .inl rfl⟩)

/-- **One operation** keeps the invariant and the slots in use. -/
theorem SlotOp.step_inv (hM : 512 ∣ M) (hpos : 0 < M) (h : b.Inv M mem)
    (hstep : op.step M b = some b') : b'.Inv M mem ∧ KeepsSlotsInUse M b op b' := by
  cases op with
  | capture => exact step_capture h hstep
  | forceNewBuffer =>
    simp only [SlotOp.step, some.injEq] at hstep
    subst hstep
    exact ⟨{ h with }, keepsSlotsInUse_of_slots rfl⟩
  | getFreeSlot => exact step_getFreeSlot h hstep
  | releaseSlot => exact step_releaseSlot h hstep
  | compress => exact step_compress hM hpos h hstep
  | copy => exact step_copy h hstep
  | compressDone => exact step_compressDone h hstep
  | startWriting => exact step_startWriting h hstep
  | relabel => exact step_relabel h hstep
  | freeSlot => exact step_freeSlot h hstep

theorem Buffers.Inv.run (hM : 512 ∣ M) (hpos : 0 < M) (h : b.Inv M mem) {ops : List SlotOp}
    (hrun : b.run M ops = some b') : b'.Inv M mem :=
  Runs.invariant (fun _ op _ hb hstep => (op.step_inv hM hpos hb hstep).1) hrun h

end

theorem Buffers.start_inv (hpos : 0 < L.maxFrameSize) (hsep : Separate (shoot ++ srm))
    (hdr : ℕ → MlvHdr) :
    (Buffers.start L shoot srm hdr).Inv L.maxFrameSize (covered (shoot ++ srm)) :=
  ⟨setupBuffers_safe hpos hsep hdr, by simp [start], by simp [start], by simp [start]⟩

/-- **Memory safety of the frame slots.** From the layout that `setup_buffers` makes in separate
chunks of memory, after any sequence of operations of the tasks, no two slots share a byte, all lie
inside the chunks, every free slot has the size of a full frame, and `valid_slot_count` is the
number of slots that are not reserved. Whatever operation follows, a slot in use keeps its memory
until it is freed, apart from the bytes after a compressed frame. -/
theorem run_slotsSafe (L : Layout) (hM : 512 ∣ L.maxFrameSize) (hpos : 0 < L.maxFrameSize)
    (shoot srm : List MemChunk) (hsep : Separate (shoot ++ srm)) (hdr : ℕ → MlvHdr)
    (ops : List SlotOp) (b : Buffers)
    (hrun : (Buffers.start L shoot srm hdr).run L.maxFrameSize ops = some b) :
    SlotsSafe L.maxFrameSize (covered (shoot ++ srm)) b.table ∧
      ∀ op b', op.step L.maxFrameSize b = some b' → KeepsSlotsInUse L.maxFrameSize b op b' := by
  have hinv := (Buffers.start_inv hpos hsep hdr).run hM hpos hrun
  exact ⟨hinv.safe, fun op b' hstep => (op.step_inv hM hpos hinv hstep).2⟩

/-- Two frames of a chunk with room for three are captured, compressed and saved, while another
module uses the third slot. -/
theorem run_slotsSafe_threeFrames :
    let L : Layout := ⟨4096, true, 5000, 0, 0, fun _ => default⟩
    let chunk : MemChunk := ⟨0x1000, 12500⟩
    let ops : List SlotOp := [.capture 1 default, .compress 1000, .compressDone, .capture 2 default,
      .getFreeSlot, .startWriting 0, .compress 2000, .freeSlot 0, .releaseSlot 2 true default,
      .compressDone, .freeSlot 1]
    ∃ b, (Buffers.start L [chunk] [] fun _ => default).run 4096 ops = some b ∧
      SlotsSafe 4096 (covered [chunk]) b.table ∧ b.table.validSlotCount = 2 := by
  intro L chunk ops
  have hvalid : ((Buffers.start L [chunk] [] fun _ => default).run 4096 ops).map
      (·.table.validSlotCount) = some 2 := by
    decide
  obtain ⟨b, hrun, hcount⟩ := map_eq_some_iff.1 hvalid
  exact ⟨b, hrun, (run_slotsSafe L (by decide) (by decide) [chunk] []
    (pairwise_singleton _ _) _ ops b hrun).1, hcount⟩

end MagicLantern.MlvLite

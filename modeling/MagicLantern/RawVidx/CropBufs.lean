import MagicLantern.Library.Alignment
import MagicLantern.RawVidx.Worker

/-!
# Allocation of the crop buffers

`alloc_crop_bufs` asks for two blocks of equal size, beginning with 16 MiB and a page, and tries
again with 1 MiB less as long as the size is above 4 MiB. A buffer starts at the first page boundary
of its block. Its end is computed from there with the size of the whole block, and so a buffer in a
block that does not begin at a page boundary ends behind the block.

The sizes that are tried are a page more than a multiple of 1 MiB. Thus the size is never equal to
the minimum, where the two tests after the loop would disagree.

Here the blocks that are in use are kept in a list. What the allocator answers is data; blocks are
in RAM and do not go beyond one of its windows.

Source: `src/modules/raw_video/raw_vidx/worker.c`; `raw_vid_worker.h`; `src/src/mem_defs.h`.

## Main results

* `cropBufs_right_iff` — when the buffers are in their blocks.
* `cropBufs_behind_block`.
-/

namespace MagicLantern.RawVidx

open List Memory

/-! ### The function -/

/-- What `fio_malloc` answers to the two calls for a size. -/
structure FioMalloc where
  answer : ℕ → Option ℕ × Option ℕ
  /-- Blocks are in RAM, and do not go beyond one of its windows. -/
  inRam : ∀ size p, (answer size).1 = some p ∨ (answer size).2 = some p →
    0 < p ∧ p < 0x80000000 ∧ p % 0x40000000 + size ≤ 0x40000000

/-- `MIN_CROP_BUF_SIZE`. -/
def minCropBufSize : ℕ := 4 * 1024 * 1024

/-- `CROP_BUF_STEP_SIZE`. -/
def cropBufStepSize : ℕ := 1024 * 1024

/-- `INITIAL_CROP_BUF_SIZE + CROP_BUF_ALIGN`. -/
def initialCropBufSize : ℕ := 16 * 1024 * 1024 + cropBufAlign

/-- The blocks in use, the last one first: their addresses and sizes. -/
abbrev Heap := List (ℕ × ℕ)

/-- `fio_free`. -/
def Heap.free (heap : Heap) (p : ℕ) : Heap := heap.eraseP (·.1 = p)

/-- The variables of the loop. -/
structure CropAlloc where
  bufSize : ℕ
  buf0 : Option ℕ
  buf1 : Option ℕ
  heap : Heap

/-- The loop, for at most `fuel` sizes. -/
def allocLoop (malloc : FioMalloc) : (fuel : ℕ) → CropAlloc → CropAlloc
  | 0, s => s
  | fuel + 1, s =>
    if s.bufSize > minCropBufSize then
      match (malloc.answer s.bufSize).1 with
      | none =>
        allocLoop malloc fuel { s with bufSize := s.bufSize - cropBufStepSize, buf0 := none }
      | some p =>
        let heap := (p, s.bufSize) :: s.heap
        match (malloc.answer s.bufSize).2 with
        | some q => { s with buf0 := some p, buf1 := some q, heap := (q, s.bufSize) :: heap }
        | none =>
          allocLoop malloc fuel
            { bufSize := s.bufSize - cropBufStepSize, buf0 := none, buf1 := none
              heap := Heap.free heap p }
    else s

/-- The fields of a buffer for a block, or for the null pointer. -/
def CropBuf.setFields (buf : Option ℕ) (bufSize : ℕ) : CropBuf :=
  { CropBuf.ofBlock (buf.getD 0) bufSize with buf }

/-- `alloc_crop_bufs`: the buffers, and the blocks in use. -/
def allocCropBufsMem (malloc : FioMalloc) (cropBufs : Fin 2 → CropBuf) (heap : Heap) :
    (Fin 2 → CropBuf) × Heap :=
  if (cropBufs 0).buf ≠ none ∨ (cropBufs 1).buf ≠ none then (cropBufs, heap)
  else
    let s := allocLoop malloc 16 ⟨initialCropBufSize, none, none, heap⟩
    if s.bufSize < minCropBufSize then
      let heap := (s.buf0.map s.heap.free).getD s.heap
      (cropBufs, (s.buf1.map heap.free).getD heap)
    else
      (fun b => CropBuf.setFields (if b = 0 then s.buf0 else s.buf1) s.bufSize, s.heap)

/-! ### What it should do -/

/-- The buffer is inside its block of the given size, up to the alias, and starts at a page
boundary. -/
structure CropBuf.InBlock (c : CropBuf) (p size : ℕ) : Prop where
  buf : c.buf = some p
  first : cacheable p ≤ cacheable c.start
  le : c.start ≤ c.stop
  last : cacheable c.start + (c.stop - c.start) ≤ cacheable p + size
  aligned : cropBufAlign ∣ c.start
  cur : c.cur = c.start

/-- Both buffers are not set and nothing is left allocated, or both are inside their blocks, have
equal length, and these two blocks are allocated. -/
def CropBufsRight (heap : Heap) (result : (Fin 2 → CropBuf) × Heap) : Prop :=
  (result.1 0 = .null ∧ result.1 1 = .null ∧ result.2 = heap) ∨
    ∃ p q size, result.2 = (q, size) :: (p, size) :: heap ∧
      (result.1 0).InBlock p size ∧ (result.1 1).InBlock q size ∧
      (result.1 0).stop - (result.1 0).start = (result.1 1).stop - (result.1 1).start

/-- The blocks for a size, if the allocator has both. -/
def FioMalloc.pair (malloc : FioMalloc) (size : ℕ) : Option (ℕ × ℕ × ℕ) :=
  match malloc.answer size with
  | (some p, some q) => some (size, p, q)
  | _ => none

/-- The condition: the blocks of the first size for which there are two begin at page boundaries. -/
def FioMalloc.Aligned (malloc : FioMalloc) : Prop :=
  ∀ size p q, cropBufSizes.findSome? malloc.pair = some (size, p, q) →
    cropBufAlign ∣ p ∧ cropBufAlign ∣ q

/-! ### The loop -/

/-- The size after `k` failures. -/
def cropBufSize (k : ℕ) : ℕ := 16 * 1024 * 1024 + cropBufAlign - k * (1024 * 1024)

/-- The loop finds the first size for which there are two blocks, and frees what it got before. -/
theorem allocLoop_eq (malloc : FioMalloc) (heap : Heap) {k n fuel : ℕ} (hk : k + n = 13)
    (hfuel : n < fuel) :
    allocLoop malloc fuel ⟨cropBufSize k, none, none, heap⟩ =
      match ((range' k n).map cropBufSize).findSome? malloc.pair with
      | some (size, p, q) => ⟨size, some p, some q, (q, size) :: (p, size) :: heap⟩
      | none => ⟨cropBufSize 13, none, none, heap⟩ := by
  induction n generalizing k fuel with
  | zero =>
    obtain rfl : k = 13 := by omega
    obtain ⟨fuel, rfl⟩ := Nat.exists_eq_succ_of_ne_zero (Nat.ne_of_gt hfuel)
    rfl
  | succ n ih =>
    obtain ⟨fuel, rfl⟩ := Nat.exists_eq_succ_of_ne_zero (by omega : fuel ≠ 0)
    have hgt : cropBufSize k > minCropBufSize := by
      simp only [cropBufSize, minCropBufSize, cropBufAlign]
      omega
    have hnext : cropBufSize k - cropBufStepSize = cropBufSize (k + 1) := by
      simp only [cropBufSize, cropBufStepSize]
      omega
    rw [allocLoop, if_pos hgt, range'_succ, map_cons, findSome?_cons]
    rw [hnext, FioMalloc.pair]
    rcases hanswer : malloc.answer (cropBufSize k) with ⟨_ | p, _ | q⟩
    · exact ih (by omega) (by omega)
    · exact ih (by omega) (by omega)
    · simp only [Heap.free, eraseP_cons, decide_true]
      exact ih (by omega) (by omega)
    · rfl

theorem cropBufSizes_eq : cropBufSizes = (range' 0 13).map cropBufSize := by
  rfl

variable {size p : ℕ}

theorem FioMalloc.pair_eq_some {malloc : FioMalloc} {q : ℕ}
    (h : cropBufSizes.findSome? malloc.pair = some (size, p, q)) :
    minCropBufSize < size ∧ malloc.answer size = (some p, some q) := by
  obtain ⟨tried, hmem, hpair⟩ := exists_of_findSome?_eq_some h
  have hanswer : tried = size ∧ malloc.answer tried = (some p, some q) := by
    rw [FioMalloc.pair] at hpair
    split at hpair
    · next heq =>
      cases hpair
      exact ⟨rfl, heq⟩
    · cases hpair
  obtain ⟨rfl, hanswer⟩ := hanswer
  obtain ⟨k, hk, rfl⟩ := mem_map.1 hmem
  rw [mem_range] at hk
  refine ⟨?_, hanswer⟩
  simp only [minCropBufSize, cropBufAlign]
  omega

/-- The buffers and the blocks in use, by the first size for which there are two blocks. -/
theorem allocCropBufsMem_eq (malloc : FioMalloc) {cropBufs : Fin 2 → CropBuf} (heap : Heap)
    (hnone : ¬ ((cropBufs 0).buf ≠ none ∨ (cropBufs 1).buf ≠ none)) :
    allocCropBufsMem malloc cropBufs heap =
      match cropBufSizes.findSome? malloc.pair with
      | some (size, p, q) =>
        (fun b => if b = 0 then .ofBlock p size else .ofBlock q size,
          (q, size) :: (p, size) :: heap)
      | none => (cropBufs, heap) := by
  have hloop := allocLoop_eq malloc heap (by decide : 0 + 13 = 13) (by decide : 13 < 16)
  rw [← cropBufSizes_eq, show cropBufSize 0 = initialCropBufSize from rfl] at hloop
  rw [allocCropBufsMem, if_neg hnone]
  rw [hloop]
  rcases hfind : cropBufSizes.findSome? malloc.pair with _ | ⟨size, p, q⟩
  · rfl
  · have hsize := (FioMalloc.pair_eq_some hfind).1
    rw [if_neg (Nat.lt_asymm hsize)]
    refine Prod.ext (funext fun b => ?_) rfl
    dsimp only
    split_ifs <;> rfl

theorem allocCropBufsMem_fst (malloc : FioMalloc) (cropBufs : Fin 2 → CropBuf) (heap : Heap) :
    (allocCropBufsMem malloc cropBufs heap).1 = allocCropBufs cropBufs malloc.answer := by
  by_cases hset : (cropBufs 0).buf ≠ none ∨ (cropBufs 1).buf ≠ none
  · rw [allocCropBufsMem, if_pos hset, allocCropBufs, if_pos hset]
  · have hpair : allocPair malloc.answer =
        Option.map (fun x => (CropBuf.ofBlock x.2.1 x.1, CropBuf.ofBlock x.2.2 x.1)) ∘
          malloc.pair := by
      funext size
      rw [Function.comp_apply, allocPair, FioMalloc.pair]
      rcases malloc.answer size with ⟨_ | p, _ | q⟩ <;> rfl
    rw [allocCropBufsMem_eq malloc heap hset, allocCropBufs, if_neg hset, hpair,
      ← map_findSome?]
    rcases cropBufSizes.findSome? malloc.pair with _ | ⟨size, p, q⟩ <;> rfl

/-! ### The buffers and their blocks -/

theorem CropBuf.start_eq (p size : ℕ) :
    (CropBuf.ofBlock p size).start = uncacheable (Alignment.roundUp p cropBufAlign) := by
  rw [Alignment.roundUp, Alignment.padding_eq (by decide), CropBuf.ofBlock]
  by_cases hzero : p % cropBufAlign = 0
  · rw [if_pos hzero]
    simp only [hzero, ne_eq, not_true_eq_false, if_false, Nat.add_zero]
  · rw [if_neg hzero]
    simp only [ne_eq, hzero, not_false_eq_true, if_true]

theorem CropBuf.cacheable_start (hp : p < 0x80000000) (hfit : p % 0x40000000 + size ≤ 0x40000000)
    (hsize : minCropBufSize < size) :
    cacheable (CropBuf.ofBlock p size).start = cacheable p + Alignment.padding p cropBufAlign := by
  have hpad : Alignment.padding p cropBufAlign < 0x1000 := Alignment.padding_lt (by decide)
  have hmin : 0x1000 < size := lt_trans (by decide) hsize
  have hround : Alignment.roundUp p cropBufAlign = p + Alignment.padding p cropBufAlign := rfl
  have hlt : Alignment.roundUp p cropBufAlign < 0x80000000 := by omega
  rw [CropBuf.start_eq, cacheable_uncacheable hlt, cacheable_eq_mod hlt, cacheable_eq_mod hp]
  omega

theorem CropBuf.dvd_start (p size : ℕ) : cropBufAlign ∣ (CropBuf.ofBlock p size).start := by
  have hdvd : cropBufAlign ∣ Alignment.roundUp p cropBufAlign := Alignment.dvd_roundUp (by decide)
  rw [CropBuf.start_eq]
  exact Nat.dvd_of_mod_eq_zero ((uncacheable_spec _).1.trans (Nat.mod_eq_zero_of_dvd hdvd))

/-- A buffer is inside its block if the block begins at a page boundary. -/
theorem CropBuf.inBlock_iff (hp : p < 0x80000000) (hfit : p % 0x40000000 + size ≤ 0x40000000)
    (hsize : minCropBufSize < size) : (CropBuf.ofBlock p size).InBlock p size ↔
    cropBufAlign ∣ p := by
  have hstart := CropBuf.cacheable_start hp hfit hsize
  have hstop : (CropBuf.ofBlock p size).stop = (CropBuf.ofBlock p size).start + size := rfl
  rw [Nat.dvd_iff_mod_eq_zero]
  have hpad := Alignment.padding_eq (n := p) (by decide : 0 < cropBufAlign)
  constructor
  · intro h
    have hlast := h.last
    by_contra hmod
    rw [if_neg hmod] at hpad
    have hlt := Nat.mod_lt p (by decide : 0 < cropBufAlign)
    omega
  · intro hmod
    rw [if_pos hmod] at hpad
    exact ⟨rfl, by omega, by omega, by omega, CropBuf.dvd_start p size, rfl⟩

/-! ### When the buffers are right -/

/-- From buffers that are not set, the buffers are right if and only if the two blocks begin at page
boundaries. -/
theorem cropBufs_right_iff (malloc : FioMalloc) (heap : Heap) :
    CropBufsRight heap (allocCropBufsMem malloc (fun _ => .null) heap) ↔ malloc.Aligned := by
  have hnone : ¬ (CropBuf.null.buf ≠ none ∨ CropBuf.null.buf ≠ none) := by decide
  rw [allocCropBufsMem_eq malloc heap hnone, FioMalloc.Aligned]
  rcases hfind : cropBufSizes.findSome? malloc.pair with _ | ⟨size, p, q⟩
  · exact iff_of_true (.inl ⟨rfl, rfl, rfl⟩) fun size p q h => by cases h
  · obtain ⟨hsize, hanswer⟩ := FioMalloc.pair_eq_some hfind
    obtain ⟨-, hp, hpfit⟩ := malloc.inRam size p (.inl (congrArg Prod.fst hanswer))
    obtain ⟨-, hq, hqfit⟩ := malloc.inRam size q (.inr (congrArg Prod.snd hanswer))
    have hpiff := CropBuf.inBlock_iff hp hpfit hsize
    have hqiff := CropBuf.inBlock_iff hq hqfit hsize
    constructor
    · rintro (⟨hnull, -, -⟩ | ⟨p', q', size', hheap, h0, h1, -⟩) size'' p'' q'' heq
      · exact absurd (congrArg CropBuf.buf hnull) (Option.some_ne_none p)
      · obtain ⟨⟨rfl, rfl⟩, rfl⟩ : (q = q' ∧ size = size') ∧ p = p' := by
          simp only [cons.injEq, Prod.mk.injEq] at hheap
          tauto
        cases heq
        exact ⟨hpiff.1 h0, hqiff.1 h1⟩
    · intro h
      obtain ⟨hpdvd, hqdvd⟩ := h size p q rfl
      refine .inr ⟨p, q, size, rfl, hpiff.2 hpdvd, hqiff.2 hqdvd, ?_⟩
      change (CropBuf.ofBlock p size).start + size - (CropBuf.ofBlock p size).start =
        (CropBuf.ofBlock q size).start + size - (CropBuf.ofBlock q size).start
      rw [Nat.add_sub_cancel_left, Nat.add_sub_cancel_left]

/-- An allocator that has the first two blocks, 0x100 bytes behind a page boundary. -/
def mallocBehindPage : FioMalloc where
  answer size :=
    if size = initialCropBufSize then (some 0x2000100, some 0x4000100) else (none, none)
  inRam := by
    intro size p h
    split_ifs at h with hsize
    · subst hsize
      rcases h with h | h <;> cases h <;> decide
    · rcases h with h | h <;> cases h

/-- With blocks that begin 0x100 bytes behind a page boundary, both buffers end 0xf00 bytes behind
their blocks. -/
theorem cropBufs_behind_block :
    ((allocCropBufsMem mallocBehindPage (fun _ => .null) []).1 0).stop =
        uncacheable (0x2000100 + initialCropBufSize) + 0xf00 ∧
      ¬ CropBufsRight [] (allocCropBufsMem mallocBehindPage (fun _ => .null) []) := by
  have hdecide : ((allocCropBufsMem mallocBehindPage (fun _ => .null) []).1 0).stop =
      uncacheable (0x2000100 + initialCropBufSize) + 0xf00 := by decide +kernel
  refine ⟨hdecide, ?_⟩
  rintro (⟨-, -, hheap⟩ | ⟨p, q, size, hheap, h0, -, -⟩)
  · revert hheap
    decide +kernel
  · have hblocks : (allocCropBufsMem mallocBehindPage (fun _ => .null) []).2 =
        [(0x4000100, initialCropBufSize), (0x2000100, initialCropBufSize)] := by decide +kernel
    rw [hblocks] at hheap
    obtain ⟨⟨rfl, rfl⟩, rfl⟩ : (0x4000100 = q ∧ initialCropBufSize = size) ∧ 0x2000100 = p := by
      simp only [cons.injEq, Prod.mk.injEq] at hheap
      tauto
    have hlast := h0.last
    revert hlast
    decide +kernel

end MagicLantern.RawVidx

import MagicLantern.Library.Tiling

/-!
# Frame slots

`mlv_lite` keeps captured frames in slots, blocks of the memory that the camera's allocator hands
out. A frame slot starts with the size `max_frame_size`. When the frame in it has been compressed
the slot is shrunk, and the bytes after it go to the next slot if that one is unused and follows
it in memory; behind each group of slots there are reserved slots of size zero that can grow into
frame slots in this way. When a slot is freed, all unused slots around it that follow each other in
memory are cut into full frames again.

The table is the list of the slots in use, so that `total_slot_count` is its length. The headers
at the start of the slots are kept apart from the table, by address.

Source: `src/modules/raw_video/mlv_lite/mlv_lite.c`.

## Main definitions

* `SlotTable`, `setupBuffers`, `shrinkSlot`, `freeSlot`.
-/

namespace MagicLantern.MlvLite

open List

/-- The states of a slot. -/
inductive SlotStatus
  /-- Available for image capture. -/
  | free
  /-- It may become available when resizing the previous slots. -/
  | reserved
  /-- In progress. -/
  | capturing
  /-- Locked by some other module. -/
  | locked
  /-- Contains fully captured image data. -/
  | full
  /-- It is being saved to card. -/
  | writing
deriving DecidableEq, Repr, Inhabited

/-- `struct frame_slot`. -/
structure FrameSlot where
  /-- The address of the image data. -/
  ptr : ℕ
  /-- The total size, including overheads. -/
  size : ℕ
  /-- The size effectively used by image data. -/
  payloadSize : ℕ
  /-- The number of the frame, from `1` on. -/
  frameNumber : ℤ
  /-- Whether the slot is used by some other module and does not contain a frame. -/
  isMeta : Bool
  status : SlotStatus
deriving DecidableEq, Repr, Inhabited

instance : Extent FrameSlot := ⟨FrameSlot.ptr, FrameSlot.size⟩

/-- The slot is free or reserved. -/
def FrameSlot.isIdle (s : FrameSlot) : Bool := s.status == .free || s.status == .reserved

/-- The address after the slot. -/
def FrameSlot.endPtr (s : FrameSlot) : ℕ := s.ptr + s.size

/-- What is used of the header of a block in memory. -/
structure MlvHdr where
  isVidf : Bool
  blockSize : ℕ
  frameNumber : ℤ
deriving DecidableEq, Repr, Inhabited

/-- The slots, the number of slots that are not reserved and the headers in memory. -/
structure SlotTable where
  /-- `slots[0]`, ..., `slots[total_slot_count - 1]`. -/
  slots : List FrameSlot
  validSlotCount : ℤ
  /-- The header at an address. -/
  hdr : ℕ → MlvHdr

/-- The table with slot `i` changed. -/
def SlotTable.modify (t : SlotTable) (i : ℕ) (f : FrameSlot → FrameSlot) : SlotTable :=
  { t with slots := t.slots.modify i f }

/-- The table with another header in slot `i`. -/
def SlotTable.setHdr (t : SlotTable) (i : ℕ) (h : MlvHdr) : SlotTable :=
  match t.slots[i]? with
  | none => t
  | some s => { t with hdr := Function.update t.hdr s.ptr h }

/-- `VIDF_HDR_SIZE`. -/
def vidfHdrSize : ℕ := 64

/-- `COUNT(slots)`. -/
def maxSlots : ℕ := 1023

/-- The size of a frame with header and trailing check word, rounded to sectors. -/
def paddedSize (frameSize : ℕ) : ℕ := (vidfHdrSize + frameSize + 4 + 511) / 512 * 512

/-! ### Laying out the slots -/

/-- What `add_mem_suite` reads besides the chunks. -/
structure Layout where
  maxFrameSize : ℕ
  outputCompression : Bool
  frameSizeUncompressed : ℕ
  /-- `fullsize_buffers[0]`. -/
  fullsizeBuffer : ℕ
  fullresBufSize : ℕ
  /-- The array of slots as an earlier recording has left it. -/
  old : ℕ → FrameSlot

/-- A chunk of memory: its address and its size. -/
structure MemChunk where
  /-- `GetMemoryAddressOfMemoryChunk`. -/
  address : ℕ
  /-- `GetSizeOfMemoryChunk`. -/
  size : ℕ
deriving DecidableEq, Repr

instance : Extent MemChunk := ⟨MemChunk.address, MemChunk.size⟩

/-- `add_reserved_slots`. -/
def addReservedSlots (old : ℕ → FrameSlot) (ptr : ℕ) : ℕ → List FrameSlot → List FrameSlot
  | 0, l => l
  | n + 1, l =>
    if l.length < maxSlots then
      addReservedSlots old ptr n
        (l ++ [{ old l.length with ptr := ptr, size := 0, status := .reserved }])
    else l

/-- The loop of `add_mem_suite` over the frames of a chunk and the reserved slots after it, with
the space left, the size of the current group and at most `fuel` more frames. -/
def addFrames (L : Layout) : (fuel : ℕ) → (ptr : ℕ) → (size : ℤ) → (groupSize : ℕ) →
    List FrameSlot × ℤ → List FrameSlot × ℤ
  | fuel + 1, ptr, size, groupSize, (l, valid) =>
    if size ≥ L.maxFrameSize ∧ l.length < maxSlots then
      let slot := { L.old l.length with
        ptr := ptr
        status := .free
        size := L.maxFrameSize
        payloadSize := if L.outputCompression then L.maxFrameSize - vidfHdrSize - 4
          else L.frameSizeUncompressed }
      let ptr := ptr + L.maxFrameSize
      let size := size - L.maxFrameSize
      let groupSize := groupSize + L.maxFrameSize
      -- The group is split before it passes the largest single write, by a gap of 64 bytes.
      if groupSize + L.maxFrameSize > 0xFFFE * 512 then
        addFrames L fuel (ptr + 64) (size - 64) 0
          (addReservedSlots L.old ptr (groupSize / L.maxFrameSize) (l ++ [slot]), valid + 1)
      else addFrames L fuel ptr size groupSize (l ++ [slot], valid + 1)
    else (addReservedSlots L.old ptr (groupSize / L.maxFrameSize) l, valid)
  | 0, ptr, _, groupSize, (l, valid) =>
    (addReservedSlots L.old ptr (groupSize / L.maxFrameSize) l, valid)

/-- The part of `add_mem_suite` for one chunk. -/
def addChunk (L : Layout) (t : List FrameSlot × ℤ) (c : MemChunk) : List FrameSlot × ℤ :=
  let (ptr, size) : ℕ × ℤ :=
    if c.address = L.fullsizeBuffer then
      (c.address + L.fullresBufSize, c.size - L.fullresBufSize)
    else (c.address, c.size)
  let aligned := (ptr + 63) / 64 * 64
  addFrames L maxSlots aligned (size - (aligned - ptr)) 0 t

/-- `add_mem_suite`, for the chunks of the suite. -/
def addMemSuite (L : Layout) (t : List FrameSlot × ℤ) (chunks : List MemChunk) :
    List FrameSlot × ℤ :=
  chunks.foldl (addChunk L) t

/-- The table that `setup_buffers` makes from the chunks of the two memory suites. -/
def setupBuffers (L : Layout) (shoot srm : List MemChunk) (hdr : ℕ → MlvHdr) : SlotTable :=
  let t := addMemSuite L (addMemSuite L ([], 0) shoot) srm
  ⟨t.1, t.2, hdr⟩

/-! ### Handing out slots -/

/-- The loop of `choose_next_capture_slot` from slot `i` on: the start of the longest section of
free slots that follow each other in memory, of which `len` end at the address `prev`. -/
def largestSection : List FrameSlot → (i len : ℕ) → (prev : Option ℕ) → (bestLen : ℕ) →
    (bestIndex : Option ℕ) → Option ℕ
  | [], _, _, _, _, bestIndex => bestIndex
  | s :: l, i, len, prev, bestLen, bestIndex =>
    if s.status = .free then
      let len := if prev = some s.ptr then len + 1 else 1
      if len > bestLen then largestSection l (i + 1) len (some s.endPtr) len (some (i + 1 - len))
      else largestSection l (i + 1) len (some s.endPtr) bestLen bestIndex
    else largestSection l (i + 1) 0 none bestLen bestIndex

/-- `choose_next_capture_slot`; `none` is the index `-1`. -/
def chooseNextCaptureSlot (l : List FrameSlot) (captureSlot : Option ℕ) (forceNewBuffer : Bool) :
    Option ℕ :=
  let next : Option ℕ := do
    let c ← captureSlot
    let s ← l[c]?
    let n ← l[c + 1]?
    if n.ptr = s.endPtr ∧ n.status = .free ∧ forceNewBuffer = false then some (c + 1) else none
  next.or (largestSection l 0 0 none 0 none)

/-- `mlv_rec_get_free_slot`, without the change of the status; `none` is the index `-1`. -/
def getFreeSlot (l : List FrameSlot) : Option ℕ := l.findIdx? (·.status == .free)

/-! ### Shrinking and freeing -/

/-- The slots from the shrunk one on, the number of slots that have become available and the
headers. -/
structure Shrunk where
  slots : List FrameSlot
  /-- The change of `valid_slot_count`. -/
  available : ℕ
  hdr : ℕ → MlvHdr

/-- The slot with the size of a compressed frame. -/
def FrameSlot.shrunk (s : FrameSlot) (newFrameSize : ℕ) : FrameSlot :=
  { s with size := paddedSize newFrameSize, payloadSize := newFrameSize }

/-- The slot with more bytes at its start. -/
def FrameSlot.grown (s : FrameSlot) (difSize : ℕ) : FrameSlot :=
  { s with ptr := s.ptr - difSize, size := s.size + difSize }

/-- The headers with another `blockSize` at an address. -/
def setBlockSize (hdr : ℕ → MlvHdr) (ptr blockSize : ℕ) : ℕ → MlvHdr :=
  Function.update hdr ptr { hdr ptr with blockSize := blockSize }

/-- `shrink_slot` for the slot `s` and the slots after it. -/
def shrinkFrom (maxFrameSize : ℕ) (hdr : ℕ → MlvHdr) (s : FrameSlot) (newFrameSize : ℕ) :
    List FrameSlot → Shrunk
  | [] =>
    if s.size - paddedSize newFrameSize = 0 then ⟨[s], 0, hdr⟩
    else ⟨[s.shrunk newFrameSize], 0, setBlockSize hdr s.ptr (paddedSize newFrameSize)⟩
  | t :: rest =>
    let difSize := s.size - paddedSize newFrameSize
    if difSize = 0 then ⟨s :: t :: rest, 0, hdr⟩
    else
      let hdr := setBlockSize hdr s.ptr (paddedSize newFrameSize)
      if t.isIdle && t.ptr == s.endPtr then
        if (t.grown difSize).size ≥ maxFrameSize then
          -- The slot becomes available, or was so already and is only shifted.
          let r := shrinkFrom maxFrameSize hdr { t.grown difSize with status := .free }
            (maxFrameSize - vidfHdrSize - 4) rest
          ⟨s.shrunk newFrameSize :: r.slots,
            r.available + (if t.status = .reserved then 1 else 0), r.hdr⟩
        else ⟨s.shrunk newFrameSize :: t.grown difSize :: rest, 0, hdr⟩
      else ⟨s.shrunk newFrameSize :: t :: rest, 0, hdr⟩

/-- `shrink_slot`. -/
def shrinkSlot (maxFrameSize : ℕ) (t : SlotTable) (i newFrameSize : ℕ) : SlotTable :=
  match t.slots.drop i with
  | [] => t
  | s :: rest =>
    let r := shrinkFrom maxFrameSize t.hdr s newFrameSize rest
    ⟨t.slots.take i ++ r.slots, t.validSlotCount + r.available, r.hdr⟩

/-- The number of unused slots that lie in memory directly before `s`, among the slots before it
in the table, last first. -/
def linkedBefore (s : FrameSlot) : List FrameSlot → ℕ
  | [] => 0
  | p :: l => if p.isIdle && s.ptr == p.endPtr then linkedBefore p l + 1 else 0

/-- The number of unused slots that lie in memory directly after `s`, among the slots after it in
the table. -/
def linkedAfter (s : FrameSlot) : List FrameSlot → ℕ
  | [] => 0
  | n :: l => if n.isIdle && n.ptr == s.endPtr then linkedAfter n l + 1 else 0

/-- The loop of `free_slot` that cuts the memory from `ptr` to `endPtr` into frames, with the
change of `valid_slot_count`. -/
def reallocate (maxFrameSize endPtr : ℕ) : ℕ → List FrameSlot → List FrameSlot × ℤ
  | _, [] => ([], 0)
  | ptr, s :: l =>
    let available := if s.status = .free then (-1 : ℤ) else 0
    if ptr + maxFrameSize ≤ endPtr then
      let r := reallocate maxFrameSize endPtr (ptr + maxFrameSize) l
      ({ s with ptr := ptr, status := .free, size := maxFrameSize } :: r.1, available + 1 + r.2)
    else
      let r := reallocate maxFrameSize endPtr endPtr l
      ({ s with ptr := ptr, status := .reserved, size := endPtr - ptr } :: r.1, available + r.2)

/-- `free_slot`. -/
def freeSlot (maxFrameSize : ℕ) (t : SlotTable) (i : ℕ) : SlotTable :=
  match t.slots[i]? with
  | none => t
  | some s =>
    if s.size = maxFrameSize then { t with slots := t.slots.set i { s with status := .free } }
    else
      let l := t.slots.set i { s with status := .reserved }
      let start := i - linkedBefore s (l.take i).reverse
      let stop := i + linkedAfter s (l.drop (i + 1))
      let run := (l.drop start).take (stop + 1 - start)
      let r := reallocate maxFrameSize ((l[stop]?.map FrameSlot.endPtr).getD 0)
        ((l[start]?.map FrameSlot.ptr).getD 0) run
      { t with
        slots := l.take start ++ (r.1 ++ l.drop (stop + 1))
        validSlotCount := t.validSlotCount - 1 + r.2 }

/-! ### Changes of one slot -/

section

variable {t : SlotTable} {i j : ℕ} {x : FrameSlot} {f : FrameSlot → FrameSlot}

theorem SlotTable.modify_split (hx : t.slots[i]? = some x) :
    ∃ a b, t.slots = a ++ x :: b ∧ a.length = i ∧ (t.modify i f).slots = a ++ f x :: b := by
  obtain ⟨hi, rfl⟩ := List.getElem?_eq_some_iff.1 hx
  obtain ⟨a, x, b, hslots, rfl, hmodify⟩ := exists_of_modify f hi
  have hx : t.slots[a.length] = x := by simp [hslots]
  rw [hx]
  exact ⟨a, b, hslots, rfl, hmodify⟩

@[simp] theorem SlotTable.setHdr_slots (t : SlotTable) (i : ℕ) (h : MlvHdr) :
    (t.setHdr i h).slots = t.slots := by
  rw [setHdr]
  split <;> rfl

@[simp] theorem SlotTable.setHdr_validSlotCount (t : SlotTable) (i : ℕ) (h : MlvHdr) :
    (t.setHdr i h).validSlotCount = t.validSlotCount := by
  rw [setHdr]
  split <;> rfl

@[simp] theorem SlotTable.modify_slots (t : SlotTable) (i : ℕ) (f : FrameSlot → FrameSlot) :
    (t.modify i f).slots = t.slots.modify i f := rfl

theorem SlotTable.modify_self (hx : t.slots[i]? = some x) :
    (t.modify i f).slots[i]? = some (f x) := by
  rw [modify_slots, getElem?_modify_eq, hx]
  rfl

theorem SlotTable.modify_of_ne (hj : j ≠ i) : (t.modify i f).slots[j]? = t.slots[j]? := by
  rw [modify_slots, getElem?_modify_ne _ _ hj.symm]

end

/-! ### What is handed out is free -/

/-- Slot `i` of the list is free. -/
def IsFreeAt (l : List FrameSlot) (i : ℕ) : Prop := ∃ s, l[i]? = some s ∧ s.status = .free

variable {l : List FrameSlot}

theorem largestSection_isFree {l₀ : List FrameSlot} {i len : ℕ} {prev : Option ℕ} {bestLen : ℕ}
    {bestIndex : Option ℕ} {k : ℕ} (hl : l = l₀.drop i) (hlen : len ≤ i)
    (hfree : ∀ j, i ≤ j + len → j < i → IsFreeAt l₀ j) (hbest : ∀ j ∈ bestIndex, IsFreeAt l₀ j)
    (h : largestSection l i len prev bestLen bestIndex = some k) : IsFreeAt l₀ k := by
  induction l generalizing i len prev bestLen bestIndex with
  | nil => exact hbest k h
  | cons s l ih =>
    have hs : l₀[i]? = some s := by
      rw [← head?_drop, ← hl, head?_cons]
    have hl' : l = l₀.drop (i + 1) := by
      rw [← drop_drop, ← hl, drop_one, tail_cons]
    rw [largestSection] at h
    by_cases hstatus : s.status = .free
    · -- The section that ends with this slot is free, whether it is new or not.
      have hsection : ∀ j, i + 1 ≤ j + (if prev = some s.ptr then len + 1 else 1) → j < i + 1 →
          IsFreeAt l₀ j := by
        intro j hj hji
        rcases Nat.lt_succ_iff_lt_or_eq.1 hji with hji | rfl
        · refine hfree j ?_ hji
          split_ifs at hj <;> omega
        · exact ⟨s, hs, hstatus⟩
      have hlen' : (if prev = some s.ptr then len + 1 else 1) ≤ i + 1 := by
        split_ifs <;> omega
      simp only [if_pos hstatus] at h
      generalize (if prev = some s.ptr then len + 1 else 1) = len' at h hsection hlen'
      split_ifs at h with hbetter
      · refine ih hl' hlen' hsection ?_ h
        rintro j ⟨⟩
        exact hsection _ (by omega) (by omega)
      · exact ih hl' hlen' hsection hbest h
    · rw [if_neg hstatus] at h
      exact ih hl' (Nat.zero_le _) (fun j _ _ => by omega) hbest h

theorem chooseNextCaptureSlot_isFree {captureSlot : Option ℕ} {force : Bool} {c : ℕ}
    (h : chooseNextCaptureSlot l captureSlot force = some c) : IsFreeAt l c := by
  rw [chooseNextCaptureSlot, Option.or_eq_some_iff] at h
  rcases h with h | ⟨-, h⟩
  · simp only [Option.bind_eq_bind, Option.bind_eq_some_iff] at h
    obtain ⟨c', -, s, -, n, hn, hc⟩ := h
    split_ifs at hc with hnext
    cases hc
    exact ⟨n, hn, hnext.2.1⟩
  · exact largestSection_isFree (i := 0) rfl le_rfl (by omega) (by simp) h

theorem getFreeSlot_isFree {i : ℕ} (h : getFreeSlot l = some i) : IsFreeAt l i := by
  obtain ⟨hi, hfree, -⟩ := findIdx?_eq_some_iff_getElem.1 h
  exact ⟨l[i], getElem?_eq_getElem hi, by simpa using hfree⟩

end MagicLantern.MlvLite

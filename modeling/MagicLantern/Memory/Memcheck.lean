import MagicLantern.Memory.Address
import MagicLantern.Memory.Allocators

/-!
# Allocation with guard zones

`__mem_malloc` chooses a pool and gets a block with a guard zone of 16 bytes on each side of the
memory that is returned. The first zone begins with a header, in which the pool, the length, the
flags and the index of a memcheck entry are kept. There are 256 entries; a block for which there is
none is not tracked. `__mem_free` finds the header before the pointer.

Headers are found by their address in RAM, since the pointer that is returned and the one from the
pool can be different aliases. File names, line numbers and task names in the entries, and the
history of the memory usage, which is drawn on the screen, are left out. What the pools return is
data.

The length of the block is computed in 32 bits. A request for almost 4 GiB is a negative size for
`choose_allocator`, which takes it for small, and is then a request for less than 32 bytes.

Source: `src/src/mem.c`; `src/src/mem.h`.

## Main results

* `memMalloc_size_iff` — when the block is long enough.
* `memMalloc_huge`.
-/

namespace MagicLantern.Memory

/-- `MEM_SEC_ZONE`. -/
def memSecZone : ℕ := 16

/-- `MEMCHECK_ENTRIES`. -/
abbrev memcheckEntries : ℕ := 256

/-- The index of a memcheck entry. -/
abbrev EntryId := Fin memcheckEntries

/-- `JUST_FREED`. -/
def justFreed : ℕ := 0xF12EEEED

/-- `UNTRACKED`. -/
def untracked : ℕ := 0xFFFFFFFF

/-- `PTR_INVALID`. -/
def ptrInvalid : ℕ := 0xFFFFFFFF

/-- `struct memcheck_hdr`. -/
structure MemcheckHdr where
  allocator : ℕ
  flags : ℕ
  length : ℕ
  id : ℕ
  deriving DecidableEq

/-- `struct memcheck_entry`. -/
structure MemcheckEntry where
  ptr : ℕ
  failed : ℕ
  deriving DecidableEq

/-- The variables of `mem.c`, and the headers in RAM. -/
structure MemState where
  entries : EntryId → MemcheckEntry
  bufpos : EntryId
  headers : ℕ → MemcheckHdr
  numBlocks : AllocatorId → ℤ
  memUsed : AllocatorId → ℤ
  allocTotal : ℤ
  allocTotalWithMemcheck : ℤ
  allocTotalPeakWithMemcheck : ℤ

/-- What the pools return for a request of the given size, and null. -/
structure Backend where
  alloc : AllocatorId → Bool → ℕ → ℕ
  /-- Blocks are in RAM, and do not go beyond one of its windows. Odd numbers are error codes. -/
  inRam : ∀ a dma n, alloc a dma n ≠ 0 → alloc a dma n % 2 = 0 →
    alloc a dma n < 0x80000000 ∧ alloc a dma n % 0x40000000 + n ≤ 0x40000000

/-- The alias of a pointer that the caller wants. -/
def userPtr (flags p : ℕ) : ℕ :=
  if hasDma flags then uncacheable p else cacheable p

scoped instance neZeroFour : NeZero 4 := ⟨four_ne_zero⟩

namespace MemState

variable (s : MemState)

/-- The header at an address. -/
def header (ptr : ℕ) : MemcheckHdr :=
  s.headers (cacheable ptr)

/-- A header is written. -/
def setHeader (ptr : ℕ) (hdr : MemcheckHdr) : MemState :=
  { s with headers := Function.update s.headers (cacheable ptr) hdr }

/-- An entry is written. -/
def setEntry (i : EntryId) (e : MemcheckEntry) : MemState :=
  { s with entries := Function.update s.entries i e }

/-- The loop of `memcheck_add`: where it ends, and whether there is a free entry. -/
def searchEntry (entries : EntryId → MemcheckEntry) : ℕ → EntryId → EntryId × Bool
  | 0, pos => (pos, false)
  | tries + 1, pos =>
    if (entries pos).ptr ≠ 0 then searchEntry entries tries (pos + 1) else (pos, true)

/-- `memcheck_add`. -/
def memcheckAdd (ptr : ℕ) : MemState :=
  let found := searchEntry s.entries memcheckEntries s.bufpos
  let s := { s with bufpos := found.1 }
  if found.2 then
    (s.setEntry found.1 ⟨ptr, 0⟩).setHeader ptr { s.header ptr with id := found.1 }
  else s.setHeader ptr { s.header ptr with id := untracked }

/-- `memcheck_check` for a block of which the entry is not known. The guard zones are found
`damaged`: bit 1 for the first, bit 2 for the second. -/
def memcheckCheck (damaged : ℕ) (hdr : MemcheckHdr) : ℕ :=
  if hdr.id = untracked then damaged
  else if hdr.id = justFreed then damaged ||| 16
  else if hdr.id ≥ memcheckEntries then damaged ||| 8
  else damaged

/-- `memcheck_remove`. -/
def memcheckRemove (ptr failed : ℕ) : MemState :=
  let bufpos := (s.header ptr).id
  let s := s.setHeader ptr { s.header ptr with id := justFreed }
  if bufpos = untracked then s
  else if h : bufpos < memcheckEntries then
    if failed ≠ 0 ∨ (s.entries ⟨bufpos, h⟩).ptr ≠ ptr then
      { s with
        entries := fun i =>
          if (s.entries i).ptr = ptr then ⟨ptrInvalid, (s.entries i).failed ||| (1 ||| failed)⟩
          else s.entries i }
    else s.setEntry ⟨bufpos, h⟩ ⟨0, 0⟩
  else s

/-- The counters, for a block of `len` bytes that is got (`sign = 1`) or given back (`sign = -1`).
-/
def count (a : AllocatorId) (sign : ℤ) (len : ℕ) : MemState :=
  { s with
    numBlocks := Function.update s.numBlocks a (toInt32 (s.numBlocks a + sign))
    memUsed := Function.update s.memUsed a
      (toInt32 (s.memUsed a + sign * (len + 2 * memSecZone : ℕ)))
    allocTotal := toInt32 (s.allocTotal + sign * len)
    allocTotalWithMemcheck :=
      toInt32 (s.allocTotalWithMemcheck + sign * (len + 2 * memSecZone : ℕ)) }

/-- The peak of the memory usage. -/
def updatePeak : MemState :=
  { s with
    allocTotalPeakWithMemcheck := max s.allocTotalPeakWithMemcheck s.allocTotalWithMemcheck }

/-- The size of the block that is asked for. -/
def blockSize (len : ℕ) : ℕ :=
  (len + 2 * memSecZone) % 2 ^ 32

/-- The flags in the header: those of the caller, and `UNCACHEABLE_FLAG` for an uncacheable address.
-/
def headerFlags (flags ptr : ℕ) : ℕ :=
  (flags ||| if ptr = uncacheable ptr then 0x8000 else 0) % 2 ^ 16

/-- `memcheck_malloc` after the pool has returned `ptr`. -/
def memcheckMalloc (len : ℕ) (a : AllocatorId) (flags ptr : ℕ) : MemState × ℕ :=
  if ptr % 2 = 1 ∨ ptr = 0 then (s, 0)
  else
    -- The zones are filled with `0xA5` before.
    let s := s.setHeader ptr
      { allocator := a
        flags := headerFlags flags ptr
        length := len
        id := 0xA5A5A5A5 }
    (((s.memcheckAdd ptr).count a 1 len).updatePeak, ptr + memSecZone)

/-- `__mem_malloc`. The null pointer is `0`. -/
def memMalloc (q : Fin 7 → Queries) (backend : Backend) (size flags : UInt32) : MemState × ℕ :=
  match chooseAllocator q (toInt32 size.toNat) flags.toNat with
  | none => (s, 0)
  | some a =>
    let dma := hasDma flags.toNat
    let n := blockSize size.toNat
    let first := s.memcheckMalloc size.toNat a flags.toNat (backend.alloc a dma n)
    let last :=
      if first.2 = 0 ∧ (allocators a).tryNextAllocator = true then
        s.memcheckMalloc size.toNat (a + 1) flags.toNat (backend.alloc (a + 1) dma n)
      else first
    (last.1, if last.2 = 0 then 0 else userPtr flags.toNat last.2)

/-- `memcheck_free`. -/
def memcheckFree (buf : ℕ) (a : AllocatorId) (damaged : ℕ) : MemState :=
  let ptr := buf - memSecZone
  let failed := memcheckCheck damaged (s.header ptr)
  let s := s.memcheckRemove ptr failed
  if failed ≠ 0 then s else s.count a (-1) (s.header ptr).length

/-- `__mem_free`. -/
def memFree (buf damaged : ℕ) : MemState :=
  if buf = 0 then s
  else
    let hdr := s.header (buf - memSecZone)
    let buf := if hdr.flags.testBit 15 then uncacheable buf else cacheable buf
    if h : hdr.allocator < 4 then s.memcheckFree buf ⟨hdr.allocator, h⟩ damaged else s

/-- Nothing has been allocated. -/
def init : MemState where
  entries := fun _ => ⟨0, 0⟩
  bufpos := 0
  headers := fun _ => ⟨0, 0, 0, 0⟩
  numBlocks := fun _ => 0
  memUsed := fun _ => 0
  allocTotal := 0
  allocTotalWithMemcheck := 0
  allocTotalPeakWithMemcheck := 0

end MemState

/-! ### The size of a block -/

/-- For a request the pool `a` has been asked for `n` bytes and has returned the block at `r`, from
which the pointer `p` was made. -/
structure Serves (q : Fin 7 → Queries) (backend : Backend) (size flags : UInt32) (a : AllocatorId)
    (n r p : ℕ) : Prop where
  chosen : chooseAllocator q (toInt32 size.toNat) flags.toNat = some a ∨
    ∃ b, chooseAllocator q (toInt32 size.toNat) flags.toNat = some b ∧
      (allocators b).tryNextAllocator = true ∧ a = b + 1
  has : (allocators a).Has (hasDma flags.toNat)
  asked : n = MemState.blockSize size.toNat
  returned : backend.alloc a (hasDma flags.toNat) n = r
  ne_zero : r ≠ 0
  even : r % 2 = 0
  pointer : p = userPtr flags.toNat (r + memSecZone)

variable {s : MemState} {q : Fin 7 → Queries} {backend : Backend} {size flags : UInt32}
  {a : AllocatorId} {n r p len ptr : ℕ}

theorem memcheckMalloc_of_null {flags : ℕ} (h : ptr % 2 = 1 ∨ ptr = 0) :
    s.memcheckMalloc len a flags ptr = (s, 0) := by
  rw [MemState.memcheckMalloc, if_pos h]

/-- A pool that is tried next has all functions. -/
theorem has_next {b : AllocatorId} (h : (allocators b).tryNextAllocator = true) (dma : Bool) :
    (allocators (b + 1)).Has dma := by
  revert b dma
  decide

theorem memcheckMalloc_snd {flags : ℕ} (h : ¬ (ptr % 2 = 1 ∨ ptr = 0)) :
    (s.memcheckMalloc len a flags ptr).2 = ptr + memSecZone := by
  rw [MemState.memcheckMalloc, if_neg h]

/-- The pool that serves a request, and the block that it returns: the pool that was chosen, or the
next one. -/
def serve (q : Fin 7 → Queries) (backend : Backend) (size flags : UInt32) :
    Option (AllocatorId × ℕ) :=
  (chooseAllocator q (toInt32 size.toNat) flags.toNat).bind fun a =>
    let block (a : AllocatorId) :=
      backend.alloc a (hasDma flags.toNat) (MemState.blockSize size.toNat)
    if block a % 2 = 1 ∨ block a = 0 then
      if (allocators a).tryNextAllocator = true ∧
          ¬ (block (a + 1) % 2 = 1 ∨ block (a + 1) = 0) then some (a + 1, block (a + 1))
      else none
    else some (a, block a)

theorem memMalloc_of_serve_eq_none (h : serve q backend size flags = none) :
    s.memMalloc q backend size flags = (s, 0) := by
  unfold MemState.memMalloc
  unfold serve at h
  cases hchoose : chooseAllocator q (toInt32 size.toNat) flags.toNat with
  | none => rfl
  | some a =>
    simp only [hchoose, Option.bind_some] at h ⊢
    split_ifs at h with hnull hnext
    rw [memcheckMalloc_of_null hnull]
    by_cases htry : (allocators a).tryNextAllocator = true
    · have hnull' := not_not.1 fun hno => hnext ⟨htry, hno⟩
      simp only [htry, memcheckMalloc_of_null hnull', and_self, if_true]
    · simp [htry]

theorem memMalloc_of_serve_eq_some (h : serve q backend size flags = some (a, r)) :
    s.memMalloc q backend size flags =
      ((s.memcheckMalloc size.toNat a flags.toNat r).1, userPtr flags.toNat (r + memSecZone)) := by
  have hpos (r : ℕ) : r + memSecZone ≠ 0 := by
    rw [memSecZone]
    omega
  unfold MemState.memMalloc
  unfold serve at h
  cases hchoose : chooseAllocator q (toInt32 size.toNat) flags.toNat with
  | none => simp [hchoose] at h
  | some b =>
    simp only [hchoose, Option.bind_some] at h ⊢
    split_ifs at h with hnull hnext
    · cases h
      simp only [memcheckMalloc_of_null hnull, hnext.1, and_self, if_true,
        memcheckMalloc_snd hnext.2, hpos, if_false]
    · cases h
      simp only [memcheckMalloc_snd hnull, hpos, false_and, if_false]

theorem serves_of_serve_eq_some (h : serve q backend size flags = some (a, r)) :
    Serves q backend size flags a (MemState.blockSize size.toNat) r
      (userPtr flags.toNat (r + memSecZone)) := by
  unfold serve at h
  cases hchoose : chooseAllocator q (toInt32 size.toNat) flags.toNat with
  | none => simp [hchoose] at h
  | some b =>
    simp only [hchoose, Option.bind_some] at h
    split_ifs at h with hnull hnext
    · cases h
      obtain ⟨htry, hnext⟩ := hnext
      rw [not_or] at hnext
      exact ⟨.inr ⟨b, hchoose, htry, rfl⟩, has_next htry _, rfl, rfl, hnext.2, by omega, rfl⟩
    · cases h
      rw [not_or] at hnull
      exact ⟨.inl hchoose, chooseAllocator_has hchoose, rfl, rfl, hnull.2, by omega, rfl⟩

theorem cacheable_userPtr {flags p : ℕ} (h : p < 0x80000000) :
    cacheable (userPtr flags p) = cacheable p := by
  rw [userPtr]
  split_ifs
  · exact cacheable_uncacheable h
  · exact cacheable_cacheable h

/-- The pointer is 16 bytes into a block that is long enough. -/
theorem Serves.cacheable_eq (h : Serves q backend size flags a n r p) (hn : 32 ≤ n) :
    cacheable p = cacheable r + 16 := by
  have hram := backend.inRam a (hasDma flags.toNat) n
  rw [h.returned] at hram
  obtain ⟨hlt, hle⟩ := hram h.ne_zero h.even
  rw [h.pointer, memSecZone, cacheable_userPtr (by omega), cacheable_eq_mod (by omega),
    cacheable_eq_mod hlt]
  omega

/-- **Allocation size.** If a call returns a pointer, the pool was asked for the size and both guard
zones, and the pointer is 16 bytes into the block, exactly if the sum does not wrap around. -/
theorem memMalloc_size_iff (s : MemState) (q : Fin 7 → Queries) (backend : Backend)
    (size flags : UInt32) (p : ℕ) (h : (s.memMalloc q backend size flags).2 = p) (hne : p ≠ 0) :
    ∃ a n r, Serves q backend size flags a n r p ∧
      (size.toNat + 32 ≤ n ∧ cacheable p = cacheable r + 16 ↔ size.toNat + 32 < 2 ^ 32) := by
  obtain ⟨⟨a, r⟩, hserve⟩ : ∃ x, serve q backend size flags = some x := by
    refine Option.ne_none_iff_exists'.1 fun hnone => hne ?_
    rw [← h, memMalloc_of_serve_eq_none hnone]
  obtain ⟨n, hserves⟩ : ∃ n, Serves q backend size flags a n r p := by
    rw [← h, memMalloc_of_serve_eq_some hserve]
    exact ⟨_, serves_of_serve_eq_some hserve⟩
  refine ⟨a, n, r, hserves, ?_⟩
  have hasked : n = (size.toNat + 32) % 2 ^ 32 := hserves.asked
  constructor
  · rintro ⟨hle, -⟩
    omega
  · intro hlt
    have hle : size.toNat + 32 ≤ n := by omega
    exact ⟨hle, hserves.cacheable_eq (by omega)⟩

/-- There is 1 MiB in each pool. -/
def oneMiB : Queries where
  freeSpace _ := 1024 * 1024
  maxRegion _ := 1024 * 1024
  mallocFreeSpace := 1024 * 1024
  allocateMemoryMaxRegion := 1024 * 1024

/-- Pools that return a block for requests of `n` bytes only. -/
def blockFor (n : ℕ) (hn : n ≤ 0x100000) : Backend where
  alloc _ _ m := if m = n then 0x100000 else 0
  inRam _ _ m hne _ := by
    obtain rfl : m = n := by simpa using hne
    rw [if_pos rfl]
    omega

/-- A request for 100 bytes. -/
theorem memMalloc_size_small :
    (MemState.init.memMalloc (fun _ => oneMiB) (blockFor 132 (by decide)) 100 0).2 = 0x100010 ∧
      ∃ a n r, Serves (fun _ => oneMiB) (blockFor 132 (by decide)) 100 0 a n r 0x100010 ∧
        100 + 32 ≤ n := by
  have h : (MemState.init.memMalloc (fun _ => oneMiB) (blockFor 132 (by decide)) 100 0).2 =
      0x100010 := by
    decide +kernel
  obtain ⟨a, n, r, hserves, hiff⟩ := memMalloc_size_iff _ _ _ _ _ _ h (by decide)
  exact ⟨h, a, n, r, hserves, (hiff.2 (by decide)).1⟩

/-- A request for 4 GiB without one byte: a pointer is returned, though the pool was asked
for 31 bytes only. -/
theorem memMalloc_huge :
    (MemState.init.memMalloc (fun _ => oneMiB) (blockFor 31 (by decide)) 0xFFFFFFFF 0).2 =
      0x100010 ∧ MemState.blockSize (0xFFFFFFFF : UInt32).toNat = 31 := by
  decide +kernel

end MagicLantern.Memory

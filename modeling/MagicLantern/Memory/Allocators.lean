import Mathlib.Tactic

/-!
# Choosing an allocator

A request for memory can be served by four pools. `choose_allocator` searches them seven times, each
time with less conditions: on the size of the block, on the memory that would be left, and on
whether the pool is meant for temporary blocks. In the last search only the conditions on DMA, on
a rest of free memory and on the largest region are left.

The size is a signed 32-bit number here, and signed arithmetic wraps around. What the pools say
about their free memory is data, for each search anew. This is the table of the cameras that have
`srm_malloc`.

Source: `src/src/mem.c`; `src/src/mem.h`.
-/

namespace MagicLantern.Memory

/-- A signed 32-bit number. -/
def toInt32 (x : ℤ) : ℤ :=
  x.bmod (2 ^ 32)

/-- `struct mem_allocator`, what the search reads. -/
structure MemAllocator where
  hasMalloc : Bool := true
  hasMallocDma : Bool
  hasMaxRegion : Bool
  isPreferredForTemporarySpace : ℤ := 0
  preferredMinAllocSize : ℤ
  preferredMaxAllocSize : ℤ := 0
  preferredFreeSpace : ℤ := 0
  minimumFreeSpace : ℤ := 0
  minimumAllocSize : ℤ := 0
  dependsOnMalloc : Bool := false
  tryNextAllocator : Bool := false

/-- The index of a pool. -/
abbrev AllocatorId := Fin 4

/-- `allocators`: `malloc`, `AllocateMemory`, `shoot_malloc` and `srm_malloc`. -/
def allocators : AllocatorId → MemAllocator :=
  ![{ hasMallocDma := false
      hasMaxRegion := false
      preferredMinAllocSize := 0
      preferredMaxAllocSize := 512 * 1024
      preferredFreeSpace := 384 * 1024
      minimumFreeSpace := 256 * 1024 },
    { hasMallocDma := true
      hasMaxRegion := true
      preferredMinAllocSize := 0
      preferredMaxAllocSize := 512 * 1024
      preferredFreeSpace := 1024 * 1024 * 3 / 2
      minimumFreeSpace := 512 * 1024 },
    { hasMallocDma := true
      hasMaxRegion := true
      isPreferredForTemporarySpace := 1
      dependsOnMalloc := true
      tryNextAllocator := true
      preferredMinAllocSize := 512 * 1024
      preferredMaxAllocSize := 20 * 1024 * 1024
      minimumAllocSize := 64 * 1024
      minimumFreeSpace := 256 * 1024 },
    { hasMallocDma := true
      hasMaxRegion := true
      isPreferredForTemporarySpace := 2
      preferredMinAllocSize := 20 * 1024 * 1024
      minimumAllocSize := 1024 * 1024 }]

/-- What the pools say about their memory in a search. -/
structure Queries where
  freeSpace : AllocatorId → ℤ
  maxRegion : AllocatorId → ℤ
  /-- `GetFreeMemForMalloc` and `GetMaxRegionForAllocateMemory`, for a pool that depends on
  `malloc`. -/
  mallocFreeSpace : ℤ
  allocateMemoryMaxRegion : ℤ

/-- The arguments of `search_for_allocator`. -/
structure Search where
  size : ℤ
  requirePreferredSize : ℤ
  requirePreferredFreeSpace : ℤ
  requireTmp : ℤ
  requireDma : Bool

/-- The pool has the function that is asked for. -/
def MemAllocator.Has (m : MemAllocator) (dma : Bool) : Prop :=
  if dma then m.hasMallocDma = true else m.hasMalloc = true

instance (m : MemAllocator) (dma : Bool) : Decidable (m.Has dma) :=
  inferInstanceAs (Decidable (if dma then _ else _))

/-- A pool meets the conditions of a search. -/
def Suits (q : Queries) (r : Search) (a : AllocatorId) : Prop :=
  let m := allocators a
  let preferredForTmp :=
    if m.isPreferredForTemporarySpace = 0 then -1 else m.isPreferredForTemporarySpace
  let preferredMax := if m.preferredMaxAllocSize ≠ 0 then m.preferredMaxAllocSize else 2 ^ 31 - 1
  let rest := toInt32 (toInt32 (q.freeSpace a - r.size) - 1024)
  let maxRegion := if m.hasMaxRegion then toInt32 (q.maxRegion a - 1024) else (q.freeSpace a).tdiv 4
  m.Has r.requireDma ∧
  (r.requireTmp = 0 ∨ r.requireTmp = preferredForTmp) ∧
  ((r.requirePreferredSize ≤ 0 ∨ r.size ≥ m.preferredMinAllocSize ∧ r.size ≤ preferredMax) ∧
    (r.size ≥ m.minimumAllocSize ∨ r.requirePreferredSize = -1)) ∧
  ((r.requirePreferredFreeSpace ≤ 0 ∨ rest > m.preferredFreeSpace) ∧
    (r.requirePreferredFreeSpace = -1 ∧ r.size < m.minimumFreeSpace.tdiv 64 ∧
      rest > m.minimumFreeSpace.tdiv 4 ∨ rest > m.minimumFreeSpace)) ∧
  r.size ≤ maxRegion ∧
  (m.dependsOnMalloc = true → 16 * 1024 ≤ q.mallocFreeSpace ∧ 16 * 1024 ≤ q.allocateMemoryMaxRegion)

instance (q : Queries) (r : Search) : DecidablePred (Suits q r) := fun a => by
  dsimp only [Suits]
  infer_instance

/-- `search_for_allocator`: the first pool that meets the conditions. -/
def searchForAllocator (q : Queries) (r : Search) : Option AllocatorId :=
  (List.finRange 4).find? fun a => Suits q r a

/-- The searches. The temporary preference `tmp` is never zero. -/
def searches (size tmp : ℤ) (dma : Bool) : Fin 7 → Search :=
  ![⟨size, 1, 1, tmp, dma⟩, ⟨size, 0, 1, tmp, dma⟩, ⟨size, 0, 0, tmp, dma⟩,
    ⟨size, 1, 1, 0, dma⟩, ⟨size, 0, 1, 0, dma⟩, ⟨size, 0, 0, 0, dma⟩, ⟨size, -1, -1, 0, dma⟩]

/-- `MEM_DMA` is in the flags. -/
def hasDma (flags : ℕ) : Bool :=
  flags.testBit 0

/-- The preference for temporary memory: `MEM_TEMPORARY`, `MEM_SRM` or none. -/
def prefersTmp (flags : ℕ) : ℤ :=
  if flags.testBit 1 then 1 else if flags.testBit 2 then 2 else -1

/-- `choose_allocator`. -/
def chooseAllocator (q : Fin 7 → Queries) (size : ℤ) (flags : ℕ) : Option AllocatorId :=
  (List.finRange 7).findSome? fun pass =>
    searchForAllocator (q pass) (searches size (prefersTmp flags) (hasDma flags) pass)

variable {q : Fin 7 → Queries} {size : ℤ} {flags : ℕ} {a : AllocatorId}

/-- The pool that is chosen meets the conditions of one of the searches. -/
theorem chooseAllocator_suits (h : chooseAllocator q size flags = some a) :
    ∃ pass, Suits (q pass) (searches size (prefersTmp flags) (hasDma flags) pass) a := by
  obtain ⟨pass, -, hsearch⟩ := List.exists_of_findSome?_eq_some h
  exact ⟨pass, by simpa using List.find?_some hsearch⟩

theorem requireDma_searches (size tmp : ℤ) (dma : Bool) (pass : Fin 7) :
    (searches size tmp dma pass).requireDma = dma := by
  fin_cases pass <;> rfl

/-- It has the function that is asked for. -/
theorem chooseAllocator_has (h : chooseAllocator q size flags = some a) :
    (allocators a).Has (hasDma flags) := by
  obtain ⟨pass, hsuits⟩ := chooseAllocator_suits h
  have hhas := hsuits.1
  rwa [requireDma_searches] at hhas

end MagicLantern.Memory

import MagicLantern.Memory.Accounting

/-!
# Frees of damaged blocks

`__mem_free` checks the guard zones of a block and the id in its header before the block is given
back to its pool. A block with an error is kept. After the check, `memcheck_remove` reads the id
once more and asserts that an id which is not that of an entry has been reported as such.

The two classifications of an id differ in `JUST_FREED`, which the header has after a free. It is
reported as a double free only, and the assertion fails.

An assertion that fails is a message to the user; the function goes on after it.

Source: `src/src/mem.c`.

## Main results

* `memFree_safe_iff` — when no assertion fails.
* `memFree_twice`.
-/

namespace MagicLantern.Memory

open List

/-- `sizeof(struct memcheck_hdr)`. -/
def memcheckHdrSize : ℕ := 12

/-- What is found in a zone: the given bit, if one of the bytes is not `0xA5`. -/
def zoneDamage (bytes : ℕ → UInt8) (ptr bit failed : ℕ) (positions : List ℕ) : ℕ :=
  positions.foldl
    (fun failed pos => if bytes ((ptr + pos) % 2 ^ 32) ≠ 0xA5 then failed ||| bit else failed)
    failed

/-- The bits for the guard zones of a block, from the bytes in memory. -/
def guardDamage (bytes : ℕ → UInt8) (ptr : ℕ) (hdr : MemcheckHdr) : ℕ :=
  let failed :=
    zoneDamage bytes ptr 2 0 (List.range' memcheckHdrSize (memSecZone - memcheckHdrSize))
  zoneDamage bytes ptr 4 failed (List.range' (memSecZone + hdr.length) memSecZone)

/-- What a free does besides writing the variables. -/
inductive FreeEffect
  /-- The assertion in `memcheck_remove` fails. -/
  | assertFailed
  /-- The function `free` or `free_dma` of a pool is called. -/
  | backendFree (a : AllocatorId) (dma : Bool) (ptr : ℕ)
  deriving DecidableEq

namespace MemState

variable (s : MemState)

/-- `memcheck_remove`: the assertion. -/
def memcheckRemoveLog (ptr failed : ℕ) : MemState × List FreeEffect :=
  let bufpos := (s.header ptr).id
  (s.memcheckRemove ptr failed,
    if bufpos = untracked then []
    else if bufpos ≥ memcheckEntries then if failed &&& 8 = 0 then [.assertFailed] else []
    else [])

/-- `memcheck_free`: the assertion, and the call of the pool. -/
def memcheckFreeLog (buf : ℕ) (a : AllocatorId) (flags : ℕ) (bytes : ℕ → UInt8) :
    MemState × List FreeEffect :=
  let ptr := buf - memSecZone
  let damaged := guardDamage bytes ptr (s.header ptr)
  let failed := memcheckCheck damaged (s.header ptr)
  let removed := s.memcheckRemoveLog ptr failed
  (s.memcheckFree buf a damaged,
    removed.2 ++ if failed ≠ 0 then [] else [.backendFree a (hasDma flags) ptr])

/-- The alias of a pointer that the pool returned. -/
def poolPtr (buf : ℕ) : ℕ :=
  if (s.header (buf - memSecZone)).flags.testBit 15 then uncacheable buf else cacheable buf

/-- `__mem_free`, with the bytes that are in memory. -/
def memFreeLog (buf : ℕ) (bytes : ℕ → UInt8) : MemState × List FreeEffect :=
  if buf = 0 then (s, [])
  else
    let hdr := s.header (buf - memSecZone)
    if h : hdr.allocator < 4 then
      s.memcheckFreeLog (s.poolPtr buf) ⟨hdr.allocator, h⟩ hdr.flags bytes
    else (s, [])

/-- The header that is checked. -/
def checkedHeader (buf : ℕ) : MemcheckHdr :=
  s.header (s.poolPtr buf - memSecZone)

/-- What `memcheck_check` reports for a pointer. -/
def reported (buf : ℕ) (bytes : ℕ → UInt8) : ℕ :=
  memcheckCheck (guardDamage bytes (s.poolPtr buf - memSecZone) (s.checkedHeader buf))
    (s.checkedHeader buf)

theorem memFreeLog_fst (buf : ℕ) (bytes : ℕ → UInt8) :
    (s.memFreeLog buf bytes).1 =
      s.memFree buf (guardDamage bytes (s.poolPtr buf - memSecZone) (s.checkedHeader buf)) := by
  rw [memFreeLog, memFree]
  split_ifs
  · rfl
  · dsimp only
    split <;> rfl

end MemState

/-- The counters are the same. -/
structure SameCounters (s s' : MemState) : Prop where
  numBlocks : s'.numBlocks = s.numBlocks
  memUsed : s'.memUsed = s.memUsed
  allocTotal : s'.allocTotal = s.allocTotal
  allocTotalWithMemcheck : s'.allocTotalWithMemcheck = s.allocTotalWithMemcheck
  peak : s'.allocTotalPeakWithMemcheck = s.allocTotalPeakWithMemcheck

/-- No assertion fails; and if an error is reported, the pool is not called and the counters are
left as they are. -/
structure FreeSafe (s : MemState) (buf : ℕ) (bytes : ℕ → UInt8) : Prop where
  noAssert : .assertFailed ∉ (s.memFreeLog buf bytes).2
  kept : s.reported buf bytes ≠ 0 → ∀ a dma ptr, .backendFree a dma ptr ∉ (s.memFreeLog buf bytes).2
  counters : s.reported buf bytes ≠ 0 → SameCounters s (s.memFreeLog buf bytes).1

/-- The header has the mark of a block that has been freed. -/
def FreedBefore (s : MemState) (buf : ℕ) : Prop :=
  buf ≠ 0 ∧ (s.header (buf - memSecZone)).allocator < 4 ∧ (s.checkedHeader buf).id = justFreed

/-! ### The two classifications of an id -/

theorem zoneDamage_and_eight {bytes : ℕ → UInt8} {ptr bit failed : ℕ} {positions : List ℕ}
    (hbit : bit &&& 8 = 0) (hfailed : failed &&& 8 = 0) :
    zoneDamage bytes ptr bit failed positions &&& 8 = 0 := by
  induction positions generalizing failed with
  | nil => exact hfailed
  | cons pos positions ih =>
    refine ih ?_
    dsimp only
    split_ifs
    · rw [Nat.and_or_distrib_right, hfailed, hbit, Nat.or_self]
    · exact hfailed

/-- Damage of a guard zone is never reported as a wrong id. -/
theorem guardDamage_and_eight (bytes : ℕ → UInt8) (ptr : ℕ) (hdr : MemcheckHdr) :
    guardDamage bytes ptr hdr &&& 8 = 0 :=
  zoneDamage_and_eight (by decide) (zoneDamage_and_eight (by decide) (by decide))

/-- The assertion fails for the mark of a freed block, and for no other id. -/
theorem assertFailed_mem_iff (s : MemState) (ptr : ℕ) {damaged : ℕ} (h : damaged &&& 8 = 0) :
    .assertFailed ∈ (s.memcheckRemoveLog ptr (MemState.memcheckCheck damaged (s.header ptr))).2 ↔
      (s.header ptr).id = justFreed := by
  rw [MemState.memcheckRemoveLog, MemState.memcheckCheck]
  dsimp only
  by_cases huntracked : (s.header ptr).id = untracked
  · rw [if_pos huntracked, huntracked]
    decide
  rw [if_neg huntracked, if_neg huntracked]
  by_cases hfreed : (s.header ptr).id = justFreed
  · have hzero : (damaged ||| 16) &&& 8 = 0 := by
      rw [Nat.and_or_distrib_right, h]
      decide
    rw [if_pos hfreed, if_pos hzero, if_pos (by rw [hfreed]; decide)]
    exact iff_of_true mem_cons_self hfreed
  split_ifs with hrange hzero
  · -- An id that is out of range has been reported.
    rw [Nat.and_or_distrib_right, h] at hzero
    exact absurd hzero (by decide)
  · exact iff_of_false not_mem_nil hfreed
  · exact iff_of_false not_mem_nil hfreed

/-! ### A free -/

theorem memcheckRemoveLog_backendFree (s : MemState) (ptr failed : ℕ) (a : AllocatorId) (dma : Bool)
    (p : ℕ) : .backendFree a dma p ∉ (s.memcheckRemoveLog ptr failed).2 := by
  rw [MemState.memcheckRemoveLog]
  split_ifs <;> simp

theorem memcheckFree_sameCounters (s : MemState) {buf damaged : ℕ} {a : AllocatorId}
    (h : MemState.memcheckCheck damaged (s.header (buf - memSecZone)) ≠ 0) :
    SameCounters s (s.memcheckFree buf a damaged) := by
  rw [MemState.memcheckFree, MemState.memcheckRemove]
  split_ifs <;> exact ⟨rfl, rfl, rfl, rfl, rfl⟩

/-- A pointer is not looked at further, or its block is checked. -/
theorem memFreeLog_cases (s : MemState) (buf : ℕ) (bytes : ℕ → UInt8) :
    s.memFreeLog buf bytes = (s, []) ∧ ¬ FreedBefore s buf ∨
      (FreedBefore s buf ↔ (s.checkedHeader buf).id = justFreed) ∧
        ∃ a flags, s.memFreeLog buf bytes = s.memcheckFreeLog (s.poolPtr buf) a flags bytes := by
  rw [MemState.memFreeLog]
  dsimp only
  split_ifs with hnull halloc
  · exact .inl ⟨rfl, fun h => h.1 hnull⟩
  · refine .inr ⟨⟨fun h => h.2.2, fun h => ⟨hnull, halloc, h⟩⟩, _, _, rfl⟩
  · exact .inl ⟨rfl, fun h => halloc h.2.1⟩

/-- **Frees of damaged blocks.** In every state, with any bytes in the guard zones and any header:
the free is safe if and only if the header does not have the mark of a block that has been freed. -/
theorem memFree_safe_iff (s : MemState) (buf : ℕ) (bytes : ℕ → UInt8) :
    FreeSafe s buf bytes ↔ ¬ FreedBefore s buf := by
  obtain ⟨heq, hbefore⟩ | ⟨hiff, a, flags, heq⟩ := memFreeLog_cases s buf bytes
  · refine iff_of_true ⟨?_, fun _ => ?_, fun _ => ?_⟩ hbefore <;> rw [heq]
    · exact not_mem_nil
    · exact fun _ _ _ => not_mem_nil
    · exact ⟨rfl, rfl, rfl, rfl, rfl⟩
  · have hassert := assertFailed_mem_iff s (s.poolPtr buf - memSecZone)
      (guardDamage_and_eight bytes (s.poolPtr buf - memSecZone) (s.checkedHeader buf))
    rw [hiff]
    constructor
    · intro h hid
      refine h.noAssert ?_
      rw [heq, MemState.memcheckFreeLog]
      exact mem_append_left _ (hassert.2 hid)
    · intro hid
      refine ⟨?_, fun hfailed => ?_, fun hfailed => ?_⟩ <;> rw [heq, MemState.memcheckFreeLog]
      · dsimp only
        rw [mem_append, not_or]
        refine ⟨fun h => hid (hassert.1 h), ?_⟩
        split_ifs <;> simp
      · intro a' dma ptr
        dsimp only
        rw [mem_append, not_or]
        refine ⟨memcheckRemoveLog_backendFree s _ _ a' dma ptr, ?_⟩
        rw [MemState.reported, MemState.checkedHeader] at hfailed
        rw [if_pos hfailed]
        exact not_mem_nil
      · exact memcheckFree_sameCounters s hfailed

/-- A block of 100 bytes. -/
def oneBlock : MemState :=
  (MemState.init.memMalloc (fun _ => oneMiB) (blockFor 132 (by decide)) 100 0).1

/-- The block is freed twice: the first free gives it back, and the second one fails the assertion.
-/
theorem memFree_twice :
    (oneBlock.memFreeLog 0x100010 fun _ => 0xA5).2 = [.backendFree 0 false 0x100000] ∧
      ¬ FreeSafe (oneBlock.memFreeLog 0x100010 fun _ => 0xA5).1 0x100010 fun _ => 0xA5 := by
  have hassert : .assertFailed ∈
      ((oneBlock.memFreeLog 0x100010 fun _ => 0xA5).1.memFreeLog 0x100010 fun _ => 0xA5).2 := by
    decide +kernel
  exact ⟨by decide +kernel, fun h => h.noAssert hassert⟩

end MagicLantern.Memory

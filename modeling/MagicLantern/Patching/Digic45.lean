import MagicLantern.Patching.Basic

/-!
# The DIGIC 4/5 back end

On DIGIC 4 and 5 RAM is patched in place, with an access whose width follows the alignment of the
address, and ROM is patched through locked lines of the two caches. A RAM cell is seen at two
addresses, one through the data cache and one past it (`UNCACHEABLE`); both denote the same cell
(`cellOf`). Code in RAM is always written past the data cache, so `apply_patch` rewrites the
address of the caller's patch.

The processor's caches are modelled by the lines of segment 0, the only segment that
`cache_hacks.c` writes: a line holds a tag, a valid bit and eight words, and while the caches are
locked a load from ROM that hits a valid line of the data cache returns the cached word.

Source: `src/src/patch_cache.c`, `src/src/cache_hacks.c`, `src/src/cache_hacks.h`,
`src/src/mem_defs.h`, `src/src/mem.h`.
-/

namespace MagicLantern.Patching

/-! ### Addresses -/

/-- `UNCACHEABLE`: the alias of a RAM address that bypasses the data cache. -/
def uncacheable (a : UInt32) : UInt32 := a ||| (if a < 0x40000000 then 0x40000000 else 0)

/-- `CACHEABLE`. -/
def cacheable (a : UInt32) : UInt32 := a &&& ~~~0x40000000

/-- `IS_ROM_PTR` on DIGIC 2 to 6. -/
def isRomPtr (a : UInt32) : Bool := a > 0xF0000000

/-- The physical cell of an address. Below `0x80000000`, bit 30 only selects whether the data
cache is used. -/
def cellOf (a : UInt32) : ℕ := if a < 0x80000000 then (cacheable a).toNat else a.toNat

/-- The width in bytes of the accesses of `read_value` and `apply_patch`. -/
def accessWidth (a : UInt32) : ℕ := if a &&& 3 = 0 then 4 else if a &&& 3 = 2 then 2 else 1

/-! ### The locked caches -/

/-- `TYPE_DCACHE` and `TYPE_ICACHE`. -/
inductive CacheType
  | dcache
  | icache
deriving DecidableEq, Repr

/-- A line of segment 0. -/
structure CacheLine where
  valid : Bool
  /-- Bits 31 to 5 of the address the line stands for. -/
  tag : ℕ
  /-- The eight words of the line. -/
  word : ℕ → UInt32

/-- The part of the two caches that can be locked down. -/
structure Caches where
  /-- The lockdown bit that `cache_locked` reads. -/
  locked : Bool
  /-- The lines of segment 0, by cache and index. -/
  line : CacheType → ℕ → CacheLine

/-- What the back end owns besides memory and the patch table. -/
structure Digic45 where
  caches : Caches
  /-- `function_hooks[i].addr`; `0` marks a free entry. -/
  functionHooks : List UInt32
  /-- How often the instruction cache has been flushed by `_sync_locked_caches`. -/
  icacheFlushes : ℕ

/-- Bits 31 to 5 of an address: tag and index of its cache line. -/
def cacheTag (a : UInt32) : ℕ := a.toNat / 32

/-- The index of the line of an address. -/
def cacheIndex (a : UInt32) : ℕ := cacheTag a % 64

/-- The word of an address within its line. -/
def cacheWord (a : UInt32) : ℕ := a.toNat / 4 % 8

namespace Caches

/-- All lines of segment 0 invalid. -/
def invalidLines : CacheType → ℕ → CacheLine := fun _ _ => ⟨false, 0, fun _ => 0⟩

/-- `cache_lock`. -/
def lock (_ : Caches) : Caches := ⟨true, invalidLines⟩

/-- `cache_unlock`. -/
def unlock (_ : Caches) : Caches := ⟨false, invalidLines⟩

/-- `cache_patch_single_word`: sets the tag of the line and one of its words. -/
def patchSingleWord (c : Caches) (a data : UInt32) (t : CacheType) : Caches :=
  { c with
    line := Function.update c.line t (Function.update (c.line t) (cacheIndex a)
      { valid := true
        tag := cacheTag a
        word := Function.update (c.line t (cacheIndex a)).word (cacheWord a) data }) }

/-- `cache_get_cached`. -/
def getCached (c : Caches) (a : UInt32) (t : CacheType) : Bool :=
  (c.line t (cacheIndex a)).valid && (c.line t (cacheIndex a)).tag == cacheTag a

end Caches

/-- The copy of an entry that `_unpatch_memory` hands to `apply_patch`: the two values swapped. -/
def Patch.swapped (p : Patch) : Patch := { p with oldValue := p.newValue, newValue := p.oldValue }

namespace Digic45

/-! ### Loads -/

/-- The byte that a data load sees at the physical address `x` of the ROM: the locked line of the
data cache if there is one, else memory. -/
def romByte (s : State Digic45) (x : ℕ) : UInt8 :=
  let l := s.dev.caches.line .dcache (x / 32 % 64)
  if s.dev.caches.locked && l.valid && l.tag == x / 32 then
    UInt8.ofNat ((l.word (x / 4 % 8)).toNat / 256 ^ (x % 4))
  else s.mem x

/-- The `n` bytes that a data load sees at address `a`. Locked lines only hold ROM words. -/
def loadBytes (s : State Digic45) (a : UInt32) (n : ℕ) : List UInt8 :=
  if isRomPtr a then (List.range n).map fun i => romByte s (a.toNat + i)
  else s.mem.readBytes (cellOf a) n

/-- A word load. An unaligned one returns the aligned word, rotated. -/
def ldr (s : State Digic45) (a : UInt32) : UInt32 :=
  let w := UInt32.ofNat (ByteMemory.leValue (loadBytes s (a &&& ~~~3) 4))
  let k := 8 * (a &&& 3)
  (w >>> k) ||| (w <<< (32 - k))

/-! ### `cache_hacks.c` -/

/-- `cache_is_patchable`, with the value stored through `current_value`. -/
def cacheIsPatchable (s : State Digic45) (a : UInt32) (t : CacheType) : ℕ × UInt32 :=
  let l := s.dev.caches.line t (cacheIndex a)
  if !l.valid then (1, 0xFFFFFFFF)
  else if l.tag == cacheTag a then
    if l.word (cacheWord a) == ldr s a then (1, l.word (cacheWord a))
    else (2, l.word (cacheWord a))
  else (0, l.word (cacheWord a))

/-- The state with other caches. -/
def setCaches (s : State Digic45) (c : Caches) : State Digic45 :=
  { s with dev := { s.dev with caches := c } }

/-- `cache_fetch_line`: the eight words of the line are loaded first and then stored. -/
def cacheFetchLine (s : State Digic45) (a : UInt32) (t : CacheType) : State Digic45 :=
  let base := a &&& ~~~0x1F
  let words := (List.range 8).map fun i => (base + 4 * UInt32.ofNat i,
    ldr s (base + 4 * UInt32.ofNat i))
  setCaches s (words.foldl (fun c w => c.patchSingleWord w.1 w.2 t) s.dev.caches)

/-- `cache_fake`. -/
def cacheFake (s : State Digic45) (a data : UInt32) (t : CacheType) : State Digic45 :=
  let s₁ := if s.dev.caches.getCached a t then s else cacheFetchLine s a t
  setCaches s₁ (s₁.dev.caches.patchSingleWord a data t)

/-! ### `patch_cache.c` -/

/-- The cache that holds a patch. -/
def cacheTypeOf (isInstruction : Bool) : CacheType := if isInstruction then .icache else .dcache

/-- `read_value`. -/
def readValue (s : State Digic45) (a : UInt32) (isInstruction : Bool) : UInt32 :=
  let cached := cacheIsPatchable s a .icache
  if isInstruction && isRomPtr a && s.dev.caches.locked && cached.1 == 2 then cached.2
  else
    let a := if isInstruction then uncacheable a else a
    UInt32.ofNat (ByteMemory.leValue (loadBytes s a (accessWidth a)))

/-- The switch at the end of `apply_patch`: a store whose width follows the alignment. -/
def storeValue (m : ByteMemory) (a v : UInt32) : ByteMemory :=
  m.writeBytes (cellOf a) (ByteMemory.leBytes (accessWidth a) v.toNat)

/-- `set_cache_lock_state(1)`. -/
def lockCaches (s : State Digic45) : State Digic45 :=
  if s.dev.caches.locked then s else setCaches s s.dev.caches.lock

/-- `apply_patch`. -/
def applyPatch (s : State Digic45) (p : Patch) : State Digic45 × Patch × UInt32 :=
  if p.size != 4 then (s, p, ePatchMalformed)
  else if isRomPtr p.addr then
    let s₁ := lockCaches s
    if (cacheIsPatchable s₁ p.addr (cacheTypeOf p.isInstruction)).1 != 0 then
      let s₂ := cacheFake s₁ p.addr p.newValue (cacheTypeOf p.isInstruction)
      if readValue s₂ p.addr p.isInstruction != p.newValue then (s₂, p, ePatchCacheError)
      else (s₂, p, ePatchOk)
    else (s₁, p, ePatchCacheCollision)
  else
    let p₁ := if p.isInstruction then { p with addr := uncacheable p.addr } else p
    ({ s with mem := storeValue s.mem p₁.addr p₁.newValue }, p₁, ePatchOk)

/-- `reapply_cache_patch`. -/
def reapplyCachePatch (s : State Digic45) (p : Patch) : State Digic45 × UInt32 :=
  if readValue s p.addr p.isInstruction != p.newValue then
    let s₁ := cacheFake s p.addr p.newValue (cacheTypeOf p.isInstruction)
    if readValue s₁ p.addr p.isInstruction != p.newValue then (s₁, ePatchCacheError)
    else (s₁, ePatchOk)
  else (s, ePatchOk)

/-- `_reapply_cache_patches`: the errors of all ROM patches of the table, or-ed together. -/
def reapplyCachePatches (s : State Digic45) : State Digic45 × UInt32 :=
  s.patchesGlobal.foldl (fun r p =>
    if isRomPtr p.addr then
      let r' := reapplyCachePatch r.1 p
      (r'.1, r.2 ||| r'.2)
    else r) (s, 0)

/-- `_sync_locked_caches(0)`. -/
def syncLockedCaches (s : State Digic45) : State Digic45 × UInt32 :=
  let locked := s.dev.caches.locked
  let s₁ := if locked then setCaches s s.dev.caches.unlock else s
  let s₂ := { s₁ with dev := { s₁.dev with icacheFlushes := s₁.dev.icacheFlushes + 1 } }
  if locked then reapplyCachePatches (setCaches s₂ s₂.dev.caches.lock) else (s₂, 0)

/-- `check_cache_lock_still_needed`. -/
def checkCacheLockStillNeeded (s : State Digic45) : State Digic45 :=
  if !s.dev.caches.locked then s
  else if s.patchesGlobal.any fun p => isRomPtr p.addr then s
  else setCaches s s.dev.caches.unlock

/-- The end of `_unpatch_memory`, after entry `i` has been taken out of the table and the function
hooks at its address have been zeroed. The pointer `p` of the source still points into the table:
it now shows the entry that was shifted to position `i`, or the removed entry itself when that was
the last one. -/
def finishUnpatch (s : State Digic45) (a : UInt32) (i : ℕ) (p : Patch) : State Digic45 × UInt32 :=
  let stale := s.patchesGlobal.getD i p
  let r := if isRomPtr a then
      reapplyCachePatches (setCaches s (s.dev.caches.unlock.lock))
    else if stale.isInstruction then syncLockedCaches s
    else (s, ePatchOk)
  (checkCacheLockStillNeeded r.1, r.2)

/-- Taking entry `i` out of the table and zeroing the function hooks at its address. -/
def removeEntry (s : State Digic45) (a : UInt32) (i : ℕ) : State Digic45 :=
  { s with
    patchesGlobal := s.patchesGlobal.eraseIdx i
    dev := { s.dev with
      functionHooks := s.dev.functionHooks.map fun h => if h == a then 0 else h } }

/-- `_unpatch_memory`. -/
def unpatchMemory (s : State Digic45) (a : UInt32) : State Digic45 × UInt32 :=
  match s.patchesGlobal.findIdx? (·.addr == a) with
  | none => (s, ePatchOk)
  | some i =>
    let p := s.patchesGlobal.getD i { addr := a, size := 0 }
    if p.size != 4 then (s, ePatchMalformed)
    else if !isPatchStillApplied (readValue s) p then (s, eUnpatchOverwritten)
    else if isRomPtr a then finishUnpatch (removeEntry s a i) a i p
    else
      let r := applyPatch s p.swapped
      if r.2.2 != ePatchOk then (r.1, r.2.2)
      else finishUnpatch (removeEntry r.1 a i) a i p

end Digic45

/-- The DIGIC 4/5 back end, for a table of `maxPatches` entries. -/
def digic45 (maxPatches : ℕ) : Backend Digic45 where
  maxPatches := maxPatches
  sizeOk size := size == 4
  refusesRom := false
  isRomPtr := isRomPtr
  readValue := Digic45.readValue
  readBlock := Digic45.loadBytes
  mallocOk _ _ := true
  applyPatch := Digic45.applyPatch
  syncCaches := Digic45.syncLockedCaches
  unpatchMemory := Digic45.unpatchMemory

/-- The state at start-up: nothing patched, caches not locked. -/
def boot (m : ByteMemory) : State Digic45 where
  mem := m
  patchesGlobal := []
  dev := ⟨⟨false, Caches.invalidLines⟩, List.replicate 32 0, 0⟩

/-! ### Aliases -/

private theorem or_and_distrib (a c d : UInt32) : (a ||| c) &&& d = a &&& d ||| c &&& d := by
  apply UInt32.toNat_inj.mp
  simp [Nat.and_or_distrib_right]

variable {a : UInt32}

theorem uncacheable_of_not_lt (h : ¬ a < 0x40000000) : uncacheable a = a := by
  rw [uncacheable, if_neg h, UInt32.or_zero]

theorem toNat_uncacheable (h : a < 0x40000000) : (uncacheable a).toNat = 0x40000000 + a.toNat := by
  have ha : a.toNat < 2 ^ 30 := h
  have hor : 2 ^ 30 * 1 + a.toNat = 2 ^ 30 * 1 ||| a.toNat := Nat.two_pow_add_eq_or_of_lt ha 1
  rw [uncacheable, if_pos h, UInt32.toNat_or, Nat.or_comm]
  exact hor.symm

/-- Both aliases of an address denote the same cell. -/
@[simp] theorem cellOf_uncacheable (a : UInt32) : cellOf (uncacheable a) = cellOf a := by
  by_cases h : a < 0x40000000
  · have hu : uncacheable a < 0x80000000 := by
      have ha : a.toNat < 0x40000000 := h
      rw [UInt32.lt_iff_toNat_lt, toNat_uncacheable h]
      simp only [UInt32.reduceToNat]
      omega
    have hc : cacheable (uncacheable a) = cacheable a := by
      rw [cacheable, cacheable, uncacheable, if_pos h, or_and_distrib]
      simp
    have ha : a < 0x80000000 := UInt32.lt_trans h (by decide)
    rw [cellOf, cellOf, if_pos hu, if_pos ha, hc]
  · rw [uncacheable_of_not_lt h]

@[simp] theorem accessWidth_uncacheable (a : UInt32) :
    accessWidth (uncacheable a) = accessWidth a := by
  have h : uncacheable a &&& 3 = a &&& 3 := by
    have hmask : (if a < 0x40000000 then 0x40000000 else 0 : UInt32) &&& 3 = 0 := by
      split_ifs <;> decide
    rw [uncacheable, or_and_distrib, hmask, UInt32.or_zero]
  rw [accessWidth, accessWidth, h]

@[simp] theorem isRomPtr_uncacheable (a : UInt32) : isRomPtr (uncacheable a) = isRomPtr a := by
  by_cases h : a < 0x40000000
  · have ha : a.toNat < 0x40000000 := h
    have hu := toNat_uncacheable h
    simp only [isRomPtr, UInt32.lt_iff_toNat_lt, UInt32.reduceToNat, decide_eq_decide]
    omega
  · rw [uncacheable_of_not_lt h]

theorem accessWidth_le (a : UInt32) : accessWidth a ≤ 4 := by
  rw [accessWidth]
  split_ifs <;> decide

/-! ### Putting ROM patches back into the caches -/

namespace Digic45

variable {s t : State Digic45}

theorem locked_cacheFake (s : State Digic45) (a d : UInt32) (t : CacheType) :
    (cacheFake s a d t).dev.caches.locked = s.dev.caches.locked := by
  have hfold (ws : List (UInt32 × UInt32)) (c : Caches) :
      (ws.foldl (fun c w => c.patchSingleWord w.1 w.2 t) c).locked = c.locked := by
    induction ws generalizing c with
    | nil => rfl
    | cons w ws ih =>
      rw [List.foldl_cons, ih]
      rfl
  simp only [cacheFake, setCaches, Caches.patchSingleWord]
  split_ifs
  · rfl
  · exact hfold _ _

/-- The cache maintenance leaves the caches locked or not, as they were. -/
theorem locked_syncLockedCaches (s : State Digic45) :
    (syncLockedCaches s).1.dev.caches.locked = s.dev.caches.locked := by
  have hone (s : State Digic45) (p : Patch) :
      (reapplyCachePatch s p).1.dev.caches.locked = s.dev.caches.locked := by
    simp only [reapplyCachePatch]
    split_ifs <;> simp [locked_cacheFake]
  have hall (s : State Digic45) :
      (reapplyCachePatches s).1.dev.caches.locked = s.dev.caches.locked := by
    refine List.foldlRecOn s.patchesGlobal _ (motive := fun r : State Digic45 × UInt32 =>
      r.1.dev.caches.locked = s.dev.caches.locked) rfl fun r hr p _ => ?_
    split_ifs
    · exact (hone r.1 p).trans hr
    · exact hr
  simp only [syncLockedCaches]
  split_ifs with hlocked
  · rw [hall, hlocked]
    rfl
  · rfl

/-- Memory and the caches are the same. -/
def SameCaches (s t : State Digic45) : Prop := s.mem = t.mem ∧ s.dev.caches = t.dev.caches

theorem SameCaches.readValue_eq (h : SameCaches s t) (a : UInt32) (b : Bool) :
    readValue s a b = readValue t a b := by
  obtain ⟨m, l, c, f, k⟩ := s
  obtain ⟨m', l', c', f', k'⟩ := t
  obtain ⟨rfl, rfl⟩ : m = m' ∧ c = c' := h
  rfl

theorem SameCaches.cacheFake (h : SameCaches s t) (a d : UInt32) (c : CacheType) :
    SameCaches (cacheFake s a d c) (cacheFake t a d c) := by
  obtain ⟨m, l, c, f, k⟩ := s
  obtain ⟨m', l', c', f', k'⟩ := t
  obtain ⟨rfl, rfl⟩ : m = m' ∧ c = c' := h
  simp only [Digic45.cacheFake]
  split_ifs <;> exact ⟨rfl, rfl⟩

theorem SameCaches.reapplyCachePatch (h : SameCaches s t) (p : Patch) :
    SameCaches (reapplyCachePatch s p).1 (reapplyCachePatch t p).1 ∧
      (reapplyCachePatch s p).2 = (reapplyCachePatch t p).2 := by
  have hfake := h.cacheFake p.addr p.newValue (cacheTypeOf p.isInstruction)
  simp only [Digic45.reapplyCachePatch, h.readValue_eq, hfake.readValue_eq]
  split_ifs
  · exact ⟨hfake, rfl⟩
  · exact ⟨hfake, rfl⟩
  · exact ⟨h, rfl⟩

/-- The error of the cache maintenance depends on memory, the lock and the ROM patches only. -/
theorem syncLockedCaches_congr (hmem : s.mem = t.mem)
    (hlocked : s.dev.caches.locked = t.dev.caches.locked)
    (hrom : s.patchesGlobal.filter (isRomPtr ·.addr) = t.patchesGlobal.filter (isRomPtr ·.addr)) :
    (syncLockedCaches s).2 = (syncLockedCaches t).2 := by
  simp only [syncLockedCaches, hlocked]
  split_ifs
  · simp only [reapplyCachePatches, ← List.foldl_filter]
    simp only [setCaches, hrom]
    refine (List.foldl_rel (r := fun r r' : State Digic45 × UInt32 =>
      SameCaches r.1 r'.1 ∧ r.2 = r'.2) (by exact ⟨⟨hmem, rfl⟩, rfl⟩) fun p _ r r' h => ?_).2
    obtain ⟨hsame, herr⟩ := h.1.reapplyCachePatch p
    exact ⟨hsame, congrArg₂ (· ||| ·) h.2 herr⟩
  · rfl

end Digic45

end MagicLantern.Patching

import MagicLantern.Library.Blocks
import MagicLantern.Library.Runs
import MagicLantern.Memory.Memcheck

/-!
# Memory accounting

In each state of a run the counters should be those of the live blocks, and the memcheck entries
should be those of the live blocks that are tracked. This is so unless a request whose size wraps
around gets a block, or a block that the caller has marked with the internal flag `UNCACHEABLE_FLAG`
is freed: for `__mem_free` this is a block that the pool returned at its uncacheable address, and
the entry is not found under that address.

## Main results

* `run_accounted_iff` — when the counters are right.
* `run_huge_miscounted`.
-/

namespace MagicLantern.Memory

open Function List

/-- A block that a caller has got and not freed. -/
structure LiveBlock where
  /-- The pointer that the pool returned. -/
  raw : ℕ
  len : ℕ
  flags : ℕ
  allocator : AllocatorId
  deriving DecidableEq

/-- The pointer of the caller. -/
def LiveBlock.ptr (b : LiveBlock) : ℕ :=
  userPtr b.flags (b.raw + memSecZone)

/-- The block in RAM, with the guard zones. -/
def LiveBlock.block (b : LiveBlock) : Block :=
  ⟨cacheable b.raw, b.len + 2 * memSecZone⟩

/-- The variables of `mem.c` and the blocks of the callers. -/
structure Accounts where
  state : MemState
  live : List LiveBlock

/-- A call, or a write to memory that is not the header of a live block. -/
inductive MemOp
  | malloc (q : Fin 7 → Queries) (backend : Backend) (size flags : UInt32)
  | free (p : ℕ)
  | write (addr : ℕ) (hdr : MemcheckHdr)

/-- The pools return blocks that are disjoint from the live ones. -/
def FreshBlocks (live : List LiveBlock) (backend : Backend) (dma : Bool) (n : ℕ) : Prop :=
  ∀ a, backend.alloc a dma n ≠ 0 → backend.alloc a dma n % 2 = 0 →
    ∀ b ∈ live, Block.Disjoint ⟨cacheable (backend.alloc a dma n), n⟩ b.block

instance (live : List LiveBlock) (backend : Backend) (dma : Bool) (n : ℕ) :
    Decidable (FreshBlocks live backend dma n) :=
  inferInstanceAs (Decidable (∀ _, _))

/-- A request. If a pointer is returned, the caller has a block. -/
def Accounts.malloc (m : Accounts) (q : Fin 7 → Queries) (backend : Backend) (size flags : UInt32) :
    Accounts where
  state := (m.state.memMalloc q backend size flags).1
  live :=
    match serve q backend size flags with
    | some (a, r) =>
      if (m.state.memMalloc q backend size flags).2 = 0 then m.live
      else ⟨r, size.toNat, flags.toNat, a⟩ :: m.live
    | none => m.live

/-- A pointer is freed; the guard zones are intact. -/
def Accounts.free (m : Accounts) (p : ℕ) : Accounts where
  state := m.state.memFree p 0
  live := m.live.eraseP fun b => b.ptr = p

/-- Only live pointers are freed. -/
def MemOp.step (m : Accounts) : MemOp → Option Accounts
  | .malloc q backend size flags =>
    if FreshBlocks m.live backend (hasDma flags.toNat) (MemState.blockSize size.toNat) then
      some (m.malloc q backend size flags)
    else none
  | .free p =>
    if ∃ b ∈ m.live, b.ptr = p then some (m.free p) else none
  | .write addr hdr =>
    if ∀ b ∈ m.live, cacheable b.raw ≠ addr then
      some { m with state := { m.state with headers := Function.update m.state.headers addr hdr } }
    else none

/-- Nothing has been allocated. -/
def Accounts.init : Accounts where
  state := .init
  live := []

/-- The state after the given operations. -/
def Accounts.run (m : Accounts) (ops : List MemOp) : Option Accounts :=
  ops.foldlM MemOp.step m

/-- The blocks of a pool. -/
def blocksOf (live : List LiveBlock) (a : AllocatorId) : List LiveBlock :=
  live.filter fun b => b.allocator = a

/-- The counters are those of the live blocks. -/
structure Counted (s : MemState) (live : List LiveBlock) : Prop where
  allocTotal : s.allocTotal = ((live.map LiveBlock.len).sum : ℕ)
  numBlocks : ∀ a, s.numBlocks a = ((blocksOf live a).length : ℕ)
  memUsed : ∀ a, s.memUsed a = (((blocksOf live a).map fun b => b.len + 32).sum : ℕ)

namespace Accounts

/-- The index of the entry of a block, or `UNTRACKED`. -/
def id (m : Accounts) (b : LiveBlock) : ℕ :=
  (m.state.header b.raw).id

/-- The counters are those of the live blocks, and each entry in use is that of one live block. -/
structure Accounted (m : Accounts) : Prop where
  counted : Counted m.state m.live
  owns : ∀ b ∈ m.live, m.id b ≠ untracked → ∃ i : EntryId, m.id b = i ∧
    (m.state.entries i).ptr = b.raw
  unique : ∀ b ∈ m.live, ∀ c ∈ m.live, m.id b = m.id c → m.id b ≠ untracked → b = c
  owner : ∀ i : EntryId, (m.state.entries i).ptr ≠ 0 →
    ∃ b ∈ m.live, m.id b = i ∧ (m.state.entries i).ptr = b.raw

end Accounts

/-- A request that gets a block does not wrap around, and a tracked block that is freed has not been
marked by the caller unless the pool returned its uncacheable address. -/
def MemOp.Good (m : Accounts) : MemOp → Prop
  | .malloc q backend size flags => serve q backend size flags ≠ none → size.toNat + 32 < 2 ^ 32
  | .free p => ∀ b ∈ m.live, b.ptr = p → m.id b = untracked ∨ b.flags.testBit 15 = false ∨
      0x40000000 ≤ b.raw
  | .write _ _ => True

instance (m : Accounts) : DecidablePred (MemOp.Good m) := fun op => by
  cases op <;> dsimp only [MemOp.Good] <;> infer_instance

/-! ### The invariant -/

/-- A block in RAM. -/
structure LiveBlock.Valid (b : LiveBlock) : Prop where
  ne_zero : b.raw ≠ 0
  lt : b.raw < 0x80000000
  inRam : b.raw % 0x40000000 + b.len + 32 ≤ 0x40000000

namespace Accounts

/-- The header of a block. -/
structure HeaderOf (m : Accounts) (b : LiveBlock) : Prop where
  allocator : (m.state.header b.raw).allocator = b.allocator
  length : (m.state.header b.raw).length = b.len
  flag : (m.state.header b.raw).flags.testBit 15 =
    (b.flags.testBit 15 || decide (0x40000000 ≤ b.raw))

structure Inv (m : Accounts) : Prop where
  disjoint : (m.live.map LiveBlock.block).Pairwise Block.Disjoint
  valid : ∀ b ∈ m.live, b.Valid
  header : ∀ b ∈ m.live, m.HeaderOf b
  counted : Counted m.state m.live
  owns : ∀ b ∈ m.live, m.id b ≠ untracked → ∃ i : EntryId, m.id b = i ∧
    (m.state.entries i).ptr = b.raw
  owner : ∀ i : EntryId, (m.state.entries i).ptr ≠ 0 →
    ∃ b ∈ m.live, m.id b = i ∧ (m.state.entries i).ptr = b.raw

theorem HeaderOf.congr {m m' : Accounts} {b : LiveBlock} (h : m.HeaderOf b)
    (heq : m'.state.header b.raw = m.state.header b.raw) : m'.HeaderOf b where
  allocator := heq ▸ h.allocator
  length := heq ▸ h.length
  flag := heq ▸ h.flag

end Accounts

variable {m m' : Accounts} {b c : LiveBlock} {a : AllocatorId} {q : Fin 7 → Queries}
  {backend : Backend} {size flags : UInt32} {p : ℕ} {op : MemOp}

theorem LiveBlock.Valid.cacheable_raw (h : b.Valid) : cacheable b.raw = b.raw % 0x40000000 :=
  cacheable_eq_mod h.lt

theorem Accounts.Inv.eq_of_cacheable_eq (h : m.Inv) (hb : b ∈ m.live) (hc : c ∈ m.live)
    (heq : cacheable b.raw = cacheable c.raw) : b = c := by
  by_contra hne
  have hdisjoint := (pairwise_map.1 h.disjoint).forall hb hc hne
  exact hdisjoint.1 heq

theorem Accounts.Inv.eq_of_id_eq (h : m.Inv) (hb : b ∈ m.live) (hc : c ∈ m.live)
    (hid : m.id b = m.id c) (htracked : m.id b ≠ untracked) : b = c := by
  obtain ⟨i, hi, hptr⟩ := h.owns b hb htracked
  obtain ⟨j, hj, hptr'⟩ := h.owns c hc (hid ▸ htracked)
  obtain rfl : i = j := Fin.ext (by rw [← hi, ← hj, hid])
  refine h.eq_of_cacheable_eq hb hc ?_
  rw [← hptr, ← hptr']

theorem Accounts.Inv.accounted (h : m.Inv) : m.Accounted where
  __ := h
  unique _ hb _ hc := h.eq_of_id_eq hb hc

theorem Accounts.Inv.nodup (h : m.Inv) : m.live.Nodup :=
  (pairwise_map.1 h.disjoint).imp fun hd heq => hd.1 (by rw [heq])

/-! ### Counters -/

/-- The live blocks are disjoint, so all of them together are in RAM. -/
theorem sum_le {live : List LiveBlock} (hd : (live.map LiveBlock.block).Pairwise Block.Disjoint)
    (hv : ∀ b ∈ live, b.Valid) : (live.map fun b => b.len + 32).sum ≤ 0x40000000 := by
  have hle := Block.sum_size_le (n := 0x40000000) hd ?_
  · rwa [map_map] at hle
  · intro c hc
    obtain ⟨b, hb, rfl⟩ := mem_map.1 hc
    have hram := (hv b hb).inRam
    rw [LiveBlock.block, (hv b hb).cacheable_raw, memSecZone]
    omega

theorem toInt32_of_le {x : ℕ} (h : x ≤ 0x40000000) : toInt32 x = x :=
  Int.bmod_eq_of_le_mul_two (by omega) (by push_cast; omega)

theorem toInt32_spec (x : ℤ) :
    ∃ k : ℤ, toInt32 x = x + 2 ^ 32 * k ∧ -2 ^ 31 ≤ toInt32 x ∧ toInt32 x < 2 ^ 31 := by
  simp only [toInt32, Int.bmod]
  split_ifs with hlt
  · refine ⟨-(x / 2 ^ 32), ?_, ?_, ?_⟩ <;> push_cast at * <;> omega
  · refine ⟨-(x / 2 ^ 32) - 1, ?_, ?_, ?_⟩ <;> push_cast at * <;> omega

section Counters

variable {s : MemState} {live live' : List LiveBlock}

theorem Counted.congr {s' : MemState} (h : Counted s live) (heq : s'.allocTotal = s.allocTotal ∧
    s'.numBlocks = s.numBlocks ∧ s'.memUsed = s.memUsed) : Counted s' live where
  allocTotal := heq.1.trans h.allocTotal
  numBlocks a := (congrFun heq.2.1 a).trans (h.numBlocks a)
  memUsed a := (congrFun heq.2.2 a).trans (h.memUsed a)

theorem Counted.perm (h : Counted s live) (hperm : live.Perm live') : Counted s live' where
  allocTotal := by rw [h.allocTotal, (hperm.map _).sum_eq]
  numBlocks a := by rw [h.numBlocks, blocksOf, (hperm.filter _).length_eq, blocksOf]
  memUsed a := by rw [h.memUsed, blocksOf, ((hperm.filter _).map _).sum_eq, blocksOf]

theorem sums_le (hsum : (live.map fun b => b.len + 32).sum ≤ 0x40000000) (a : AllocatorId) :
    (live.map LiveBlock.len).sum ≤ 0x40000000 ∧
      ((blocksOf live a).map fun b => b.len + 32).sum ≤ 0x40000000 ∧
      (blocksOf live a).length ≤ 0x40000000 := by
  have hlen : (live.map LiveBlock.len).sum ≤ (live.map fun b => b.len + 32).sum :=
    sum_le_sum fun b _ => Nat.le_add_right b.len 32
  have hpool : ((blocksOf live a).map fun b => b.len + 32).sum ≤
      (live.map fun b => b.len + 32).sum :=
    (filter_sublist.map _).sum_le_sum fun _ _ => Nat.zero_le _
  have hcount : (blocksOf live a).length ≤ ((blocksOf live a).map fun b => b.len + 32).sum := by
    rw [← length_map (f := fun b : LiveBlock => b.len + 32)]
    refine length_le_sum_of_one_le _ fun n hn => ?_
    obtain ⟨b, -, rfl⟩ := mem_map.1 hn
    omega
  omega

theorem blocksOf_cons_self : blocksOf (b :: live) b.allocator = b :: blocksOf live b.allocator := by
  simp [blocksOf]

theorem blocksOf_cons_of_ne (h : a ≠ b.allocator) : blocksOf (b :: live) a = blocksOf live a := by
  simp [blocksOf, h.symm]

/-- The counters of a pool go up or down with its blocks. -/
theorem Counted.count (h : Counted s live) {n : ℤ} {len : ℕ}
    (hsum : (live'.map fun b => b.len + 32).sum ≤ 0x40000000)
    (hlen : ((live'.map LiveBlock.len).sum : ℤ) = (live.map LiveBlock.len).sum + n * len)
    (hblocks : ((blocksOf live' a).length : ℤ) = (blocksOf live a).length + n)
    (hused : (((blocksOf live' a).map fun b => b.len + 32).sum : ℕ) =
      (((blocksOf live a).map fun b => b.len + 32).sum : ℕ) + n * (len + 32 : ℕ))
    (hother : ∀ c ≠ a, blocksOf live' c = blocksOf live c) : Counted (s.count a n len) live' := by
  obtain ⟨hlen', hpool', hcount'⟩ := sums_le hsum a
  refine ⟨?_, fun c => ?_, fun c => ?_⟩
  · rw [← toInt32_of_le hlen', hlen, MemState.count, h.allocTotal]
  · by_cases hc : c = a
    · subst hc
      rw [← toInt32_of_le hcount', hblocks]
      simp only [MemState.count, update_self, h.numBlocks]
    · rw [hother c hc, ← h.numBlocks]
      simp [MemState.count, hc]
  · by_cases hc : c = a
    · subst hc
      rw [← toInt32_of_le hpool', hused]
      simp only [MemState.count, update_self, h.memUsed, memSecZone]
    · rw [hother c hc, ← h.memUsed]
      simp [MemState.count, hc]

theorem Counted.add (h : Counted s live)
    (hsum : ((b :: live).map fun b => b.len + 32).sum ≤ 0x40000000) :
    Counted (s.count b.allocator 1 b.len) (b :: live) := by
  refine h.count hsum ?_ ?_ ?_ fun c hc => blocksOf_cons_of_ne hc
  · simp [add_comm]
  · simp [blocksOf_cons_self]
  · simp [blocksOf_cons_self, add_comm]

theorem Counted.remove (h : Counted s (b :: live))
    (hsum : ((b :: live).map fun b => b.len + 32).sum ≤ 0x40000000) :
    Counted (s.count b.allocator (-1) b.len) live := by
  rw [map_cons, sum_cons] at hsum
  refine h.count (by omega) ?_ ?_ ?_ fun c hc => (blocksOf_cons_of_ne hc).symm
  · simp
  · simp [blocksOf_cons_self]
  · rw [blocksOf_cons_self, map_cons, sum_cons]
    push_cast
    ring

end Counters

/-! ### Entries -/

section Entries

variable {s : MemState}

theorem entryId_ne_untracked (i : EntryId) : (i : ℕ) ≠ untracked := by
  have hlt : (i : ℕ) < 256 := i.isLt
  rw [untracked]
  omega

theorem searchEntry_free (entries : EntryId → MemcheckEntry) (tries : ℕ) (pos : EntryId)
    (h : (MemState.searchEntry entries tries pos).2 = true) :
    (entries (MemState.searchEntry entries tries pos).1).ptr = 0 := by
  induction tries generalizing pos with
  | zero => simp [MemState.searchEntry] at h
  | succ tries ih =>
    rw [MemState.searchEntry] at h ⊢
    split_ifs at h ⊢ with hused
    · exact ih (pos + 1) h
    · exact not_not.1 hused

/-- `memcheck_add` takes a free entry, or marks the block as not tracked. -/
theorem memcheckAdd_cases (s : MemState) (ptr : ℕ) :
    ∃ id, (s.memcheckAdd ptr).headers =
        update s.headers (cacheable ptr) { s.header ptr with id } ∧
      ((∃ i : EntryId, id = i ∧ (s.entries i).ptr = 0 ∧
          (s.memcheckAdd ptr).entries = update s.entries i ⟨ptr, 0⟩) ∨
        id = untracked ∧ (s.memcheckAdd ptr).entries = s.entries) := by
  unfold MemState.memcheckAdd
  dsimp only
  split_ifs with hfound
  · exact ⟨_, rfl, .inl ⟨_, rfl, searchEntry_free s.entries _ _ hfound, rfl⟩⟩
  · exact ⟨_, rfl, .inr ⟨rfl, rfl⟩⟩

theorem memcheckAdd_counters (s : MemState) (ptr : ℕ) :
    (s.memcheckAdd ptr).allocTotal = s.allocTotal ∧
      (s.memcheckAdd ptr).numBlocks = s.numBlocks ∧ (s.memcheckAdd ptr).memUsed = s.memUsed := by
  unfold MemState.memcheckAdd
  dsimp only
  split_ifs <;> exact ⟨rfl, rfl, rfl⟩

theorem memcheckRemove_headers (s : MemState) (ptr failed : ℕ) :
    (s.memcheckRemove ptr failed).headers =
      update s.headers (cacheable ptr) { s.header ptr with id := justFreed } := by
  unfold MemState.memcheckRemove
  dsimp only
  split_ifs <;> rfl

theorem memcheckRemove_counters (s : MemState) (ptr failed : ℕ) :
    (s.memcheckRemove ptr failed).allocTotal = s.allocTotal ∧
      (s.memcheckRemove ptr failed).numBlocks = s.numBlocks ∧
      (s.memcheckRemove ptr failed).memUsed = s.memUsed := by
  unfold MemState.memcheckRemove
  dsimp only
  split_ifs <;> exact ⟨rfl, rfl, rfl⟩

/-- The entries after a block without errors has been removed. -/
theorem memcheckRemove_entries (s : MemState) (ptr : ℕ) :
    ((s.header ptr).id = untracked → (s.memcheckRemove ptr 0).entries = s.entries) ∧
    ∀ i : EntryId, (s.header ptr).id = i →
      ((s.entries i).ptr = ptr → (s.memcheckRemove ptr 0).entries = update s.entries i ⟨0, 0⟩) ∧
      ((s.entries i).ptr ≠ ptr → (s.memcheckRemove ptr 0).entries i = s.entries i) := by
  constructor
  · intro hid
    simp [MemState.memcheckRemove, hid, MemState.setHeader]
  · intro i hid
    have hne := entryId_ne_untracked i
    constructor
    · intro hptr
      simp [MemState.memcheckRemove, hid, hne, MemState.setHeader, MemState.setEntry, hptr]
    · intro hptr
      simp [MemState.memcheckRemove, hid, hne, MemState.setHeader, hptr]

end Entries

/-! ### Pointers -/

/-- The two aliases of the pointer of a block, less the guard zone. -/
theorem LiveBlock.Valid.alias_sub (h : b.Valid) :
    uncacheable b.ptr - memSecZone = uncacheable b.raw ∧
      cacheable b.ptr - memSecZone = cacheable b.raw ∧ b.ptr ≠ 0 ∧
      cacheable (b.ptr - memSecZone) = cacheable b.raw := by
  obtain ⟨-, hlt, hram⟩ := h
  have hptr : b.ptr = b.raw + 16 ∨ b.ptr = b.raw + 16 + 0x40000000 ∧ b.raw < 0x40000000 ∨
      b.ptr + 0x40000000 = b.raw + 16 ∧ 0x40000000 ≤ b.raw := by
    rw [LiveBlock.ptr, userPtr, memSecZone]
    split_ifs
    · rw [uncacheable]
      split_ifs <;> omega
    · rw [cacheable_eq_mod (by omega)]
      omega
  rw [memSecZone]
  refine ⟨?_, ?_, by omega, ?_⟩
  · rw [uncacheable, uncacheable]
    split_ifs <;> omega
  · rw [cacheable_eq_mod (by omega), cacheable_eq_mod hlt]
    omega
  · rw [cacheable_eq_mod (by omega), cacheable_eq_mod hlt]
    omega

theorem Accounts.Inv.eq_of_ptr_eq (h : m.Inv) (hb : b ∈ m.live) (hc : c ∈ m.live)
    (heq : b.ptr = c.ptr) : b = c := by
  refine h.eq_of_cacheable_eq hb hc ?_
  rw [← (h.valid b hb).alias_sub.2.2.2, ← (h.valid c hc).alias_sub.2.2.2, heq]

/-! ### A request -/

/-- The flag says whether the pool returned an uncacheable address, or the caller has set it. -/
theorem testBit_headerFlags (flags raw : ℕ) :
    (MemState.headerFlags flags raw).testBit 15 =
      (flags.testBit 15 || decide (0x40000000 ≤ raw)) := by
  have hun : raw = uncacheable raw ↔ 0x40000000 ≤ raw := by
    rw [uncacheable]
    split_ifs <;> omega
  have hbit : Nat.testBit 0x8000 15 = true := by decide
  rw [MemState.headerFlags, Nat.testBit_mod_two_pow]
  by_cases hraw : 0x40000000 ≤ raw
  · simp [hun, hraw, hbit]
  · simp [hun, hraw]

/-- What `memcheck_malloc` writes for a block. -/
theorem memcheckMalloc_cases (s : MemState) (b : LiveBlock) (hraw : ¬ (b.raw % 2 = 1 ∨ b.raw = 0)) :
    ∃ (s' : MemState) (id : ℕ), (s.memcheckMalloc b.len b.allocator b.flags b.raw).1 =
        (s'.count b.allocator 1 b.len).updatePeak ∧
      s'.headers = update s.headers (cacheable b.raw)
        ⟨b.allocator, MemState.headerFlags b.flags b.raw, b.len, id⟩ ∧
      ((∃ i : EntryId, id = i ∧ (s.entries i).ptr = 0 ∧
          s'.entries = update s.entries i ⟨b.raw, 0⟩) ∨
        id = untracked ∧ s'.entries = s.entries) ∧
      s'.allocTotal = s.allocTotal ∧ s'.numBlocks = s.numBlocks ∧ s'.memUsed = s.memUsed := by
  rw [MemState.memcheckMalloc, if_neg hraw]
  obtain ⟨id, hheaders, hentries⟩ := memcheckAdd_cases (s.setHeader b.raw
    ⟨b.allocator, MemState.headerFlags b.flags b.raw, b.len, 0xA5A5A5A5⟩) b.raw
  refine ⟨_, id, rfl, ?_, hentries, memcheckAdd_counters _ _⟩
  rw [hheaders]
  simp [MemState.setHeader, MemState.header]

theorem inv_add (h : m.Inv) {b : LiveBlock} (hraw : b.raw % 2 = 0) (hv : b.Valid)
    (hfresh : ∀ c ∈ m.live, b.block.Disjoint c.block) :
    Accounts.Inv ⟨(m.state.memcheckMalloc b.len b.allocator b.flags b.raw).1, b :: m.live⟩ := by
  obtain ⟨s', id, hstate, hheaders, hentries, hcounters⟩ :=
    memcheckMalloc_cases m.state b (by simp [hraw, hv.ne_zero])
  have hdisjoint : ((b :: m.live).map LiveBlock.block).Pairwise Block.Disjoint := by
    refine pairwise_cons.2 ⟨fun c hc => ?_, h.disjoint⟩
    obtain ⟨d, hd, rfl⟩ := mem_map.1 hc
    exact hfresh d hd
  have hvalid : ∀ c ∈ b :: m.live, c.Valid := forall_mem_cons.2 ⟨hv, h.valid⟩
  -- The headers of the other blocks are not touched.
  have hother (c : LiveBlock) (hc : c ∈ m.live) :
      s'.headers (cacheable c.raw) = m.state.header c.raw := by
    have hne : cacheable c.raw ≠ cacheable b.raw := (hfresh c hc).1.symm
    rw [hheaders, update_of_ne hne]
    rfl
  have hself : s'.headers (cacheable b.raw) =
      ⟨b.allocator, MemState.headerFlags b.flags b.raw, b.len, id⟩ := by
    rw [hheaders, update_self]
  rw [hstate]
  refine ⟨hdisjoint, hvalid, ?_, ?_, ?_, ?_⟩
  · refine forall_mem_cons.2 ⟨⟨?_, ?_, ?_⟩, fun c hc => (h.header c hc).congr (hother c hc)⟩
    · exact congrArg MemcheckHdr.allocator hself
    · exact congrArg MemcheckHdr.length hself
    · rw [← testBit_headerFlags]
      exact congrArg (fun hdr => hdr.flags.testBit 15) hself
  · have hadd := (h.counted.congr hcounters).add (sum_le hdisjoint hvalid)
    exact ⟨hadd.allocTotal, hadd.numBlocks, hadd.memUsed⟩
  · refine forall_mem_cons.2 ⟨fun htracked => ?_, fun c hc htracked => ?_⟩
    · rcases hentries with ⟨i, hid, -, hentries⟩ | ⟨hid, -⟩
      · refine ⟨i, (congrArg MemcheckHdr.id hself).trans hid, ?_⟩
        simp [MemState.updatePeak, MemState.count, hentries]
      · exact absurd ((congrArg MemcheckHdr.id hself).trans hid) htracked
    · have hid := congrArg MemcheckHdr.id (hother c hc)
      obtain ⟨j, hj, hptr⟩ := h.owns c hc fun hno => htracked (hid.trans hno)
      refine ⟨j, hid.trans hj, ?_⟩
      rcases hentries with ⟨i, -, hfree, hentries⟩ | ⟨-, hentries⟩
      · -- The entry of another block is not free.
        have hji : j ≠ i := by
          rintro rfl
          exact (h.valid c hc).ne_zero (hptr.symm.trans hfree)
        simpa [MemState.updatePeak, MemState.count, hentries, hji] using hptr
      · simpa [MemState.updatePeak, MemState.count, hentries] using hptr
  · intro j hj
    have hold (hne : (m.state.entries j).ptr ≠ 0) (heq : s'.entries j = m.state.entries j) :
        ∃ c ∈ b :: m.live, (s'.headers (cacheable c.raw)).id = j ∧ (s'.entries j).ptr = c.raw := by
      obtain ⟨c, hc, hid, hptr⟩ := h.owner j hne
      exact ⟨c, mem_cons_of_mem _ hc, (congrArg MemcheckHdr.id (hother c hc)).trans hid,
        heq ▸ hptr⟩
    rcases hentries with ⟨i, hid, -, hentries⟩ | ⟨-, hentries⟩
    · by_cases hji : j = i
      · subst hji
        refine ⟨b, mem_cons_self, (congrArg MemcheckHdr.id hself).trans hid, ?_⟩
        simp [MemState.updatePeak, MemState.count, hentries]
      · have heq : s'.entries j = m.state.entries j := by rw [hentries, update_of_ne hji]
        exact hold (heq ▸ hj) heq
    · exact hold (hentries ▸ hj) (by rw [hentries])

theorem Serves.valid {n r : ℕ} (h : Serves q backend size flags a n r p)
    (hsize : size.toNat + 32 < 2 ^ 32) :
    n = size.toNat + 32 ∧ LiveBlock.Valid ⟨r, size.toNat, flags.toNat, a⟩ := by
  have hn : n = size.toNat + 32 := by
    have hasked := h.asked
    rw [MemState.blockSize, memSecZone] at hasked
    omega
  have hram := backend.inRam a (hasDma flags.toNat) n
  rw [h.returned] at hram
  obtain ⟨hlt, hle⟩ := hram h.ne_zero h.even
  exact ⟨hn, h.ne_zero, hlt, by dsimp only; omega⟩

/-- A request changes nothing, or it gets a block. -/
theorem malloc_cases (hs : (MemOp.malloc q backend size flags).step m = some m') :
    FreshBlocks m.live backend (hasDma flags.toNat) (MemState.blockSize size.toNat) ∧
    (m' = m ∧ serve q backend size flags = none ∨
      ∃ a r, serve q backend size flags = some (a, r) ∧
        m'.state = (m.state.memcheckMalloc size.toNat a flags.toNat r).1 ∧
        m'.live = if userPtr flags.toNat (r + memSecZone) = 0 then m.live
          else ⟨r, size.toNat, flags.toNat, a⟩ :: m.live) := by
  rw [MemOp.step] at hs
  split_ifs at hs with hfresh
  cases hs
  refine ⟨hfresh, ?_⟩
  cases hserve : serve q backend size flags with
  | none =>
    refine .inl ⟨?_, rfl⟩
    simp only [Accounts.malloc, hserve, memMalloc_of_serve_eq_none hserve]
  | some x =>
    obtain ⟨a, r⟩ := x
    refine .inr ⟨a, r, rfl, ?_⟩
    simp only [Accounts.malloc, hserve, memMalloc_of_serve_eq_some hserve, and_self]

theorem inv_malloc (h : m.Inv) (hgood : (MemOp.malloc q backend size flags).Good m)
    (hs : (MemOp.malloc q backend size flags).step m = some m') : m'.Inv := by
  obtain ⟨hfresh, ⟨rfl, -⟩ | ⟨a, r, hserve, hstate, hlive⟩⟩ := malloc_cases hs
  · exact h
  · have hserves := serves_of_serve_eq_some hserve
    obtain ⟨hn, hv⟩ := hserves.valid (hgood (by simp [hserve]))
    have hne : userPtr flags.toNat (r + memSecZone) ≠ 0 := hv.alias_sub.2.2.1
    rw [if_neg hne] at hlive
    obtain ⟨state, live⟩ := m'
    subst hstate hlive
    refine inv_add h (b := ⟨r, size.toNat, flags.toNat, a⟩) hserves.even hv fun c hc => ?_
    have hdisjoint := hfresh a
    rw [hserves.returned, hn] at hdisjoint
    exact hdisjoint hserves.ne_zero hserves.even c hc

/-- If the size wraps around, the total does not go up by the length of the block. -/
theorem not_accounted_malloc (h : m.Inv) (hbad : ¬ (MemOp.malloc q backend size flags).Good m)
    (hs : (MemOp.malloc q backend size flags).step m = some m') : ¬ m'.Accounted := by
  rw [MemOp.Good, Classical.not_imp] at hbad
  obtain ⟨hserve, hwrap⟩ := hbad
  obtain ⟨-, ⟨-, hnone⟩ | ⟨a, r, hsome, hstate, hlive⟩⟩ := malloc_cases hs
  · exact absurd hnone hserve
  · have hserves := serves_of_serve_eq_some hsome
    obtain ⟨s', id, heq, -, -, htotal, -⟩ :=
      memcheckMalloc_cases m.state ⟨r, size.toNat, flags.toNat, a⟩
        (by simp [hserves.even, hserves.ne_zero])
    have hsize := size.toNat_lt
    intro haccounted
    have hnew := haccounted.counted.allocTotal
    rw [hstate, heq] at hnew
    simp only [MemState.updatePeak, MemState.count, htotal, h.counted.allocTotal] at hnew
    obtain ⟨k, hk, -, hlt⟩ := toInt32_spec ((m.live.map LiveBlock.len).sum + 1 * size.toNat)
    rw [hnew] at hk hlt
    split_ifs at hlive
    · rw [hlive] at hk
      omega
    · rw [hlive, map_cons, sum_cons] at hlt
      simp only [Nat.cast_add] at hlt
      omega

/-! ### Freeing a block -/

/-- The address under which `__mem_free` looks for the entry of a block. -/
def LiveBlock.freed (b : LiveBlock) : ℕ :=
  if b.flags.testBit 15 || decide (0x40000000 ≤ b.raw) then uncacheable b.raw else cacheable b.raw

theorem LiveBlock.Valid.cacheable_freed (h : b.Valid) : cacheable b.freed = cacheable b.raw := by
  rw [LiveBlock.freed]
  split_ifs
  · exact cacheable_uncacheable h.lt
  · exact cacheable_cacheable h.lt

/-- It is another address than that of the entry if the caller has marked a cacheable block. -/
theorem LiveBlock.Valid.freed_eq_iff (h : b.Valid) :
    b.freed = b.raw ↔ b.flags.testBit 15 = false ∨ 0x40000000 ≤ b.raw := by
  have hlt := h.lt
  rw [LiveBlock.freed]
  by_cases hraw : 0x40000000 ≤ b.raw
  · simp [hraw, uncacheable]
  · cases b.flags.testBit 15 with
    | false =>
      simp only [hraw, decide_false, Bool.or_false, Bool.false_eq_true, if_false,
        cacheable_eq_mod hlt, true_or, iff_true]
      omega
    | true =>
      simp only [hraw, uncacheable, Nat.not_le.1 hraw]
      simp

theorem memFree_eq (h : m.Inv) (hb : b ∈ m.live) :
    m.state.memFree b.ptr 0 =
      (m.state.memcheckRemove b.freed 0).count b.allocator (-1) b.len := by
  obtain ⟨hun, hca, hne, hptr⟩ := (h.valid b hb).alias_sub
  have hheader : m.state.header (b.ptr - memSecZone) = m.state.header b.raw := by
    rw [MemState.header, hptr, MemState.header]
  have hheader' : m.state.header b.freed = m.state.header b.raw := by
    rw [MemState.header, (h.valid b hb).cacheable_freed, MemState.header]
  have hcheck : MemState.memcheckCheck 0 (m.state.header b.raw) = 0 := by
    by_cases htracked : (m.state.header b.raw).id = untracked
    · rw [MemState.memcheckCheck, if_pos htracked]
    · obtain ⟨i, hi, -⟩ := h.owns b hb htracked
      have hlt : (i : ℕ) < 256 := i.isLt
      replace hi : (m.state.header b.raw).id = i := hi
      rw [MemState.memcheckCheck, if_neg htracked, if_neg (by rw [justFreed]; omega),
        if_neg (by rw [hi]; exact Nat.not_le.2 i.isLt)]
  have hfreed : (if (m.state.header b.raw).flags.testBit 15 = true then uncacheable b.ptr
      else cacheable b.ptr) - memSecZone = b.freed := by
    rw [(h.header b hb).flag, LiveBlock.freed]
    split_ifs
    · exact hun
    · exact hca
  have hlength : ((m.state.memcheckRemove b.freed 0).header b.freed).length = b.len := by
    rw [MemState.header, memcheckRemove_headers, update_self, hheader']
    exact (h.header b hb).length
  have hpool : (m.state.header b.raw).allocator < 4 := by
    rw [(h.header b hb).allocator]
    exact b.allocator.isLt
  have hpool' : (⟨(m.state.header b.raw).allocator, hpool⟩ : AllocatorId) = b.allocator :=
    Fin.ext (h.header b hb).allocator
  simp only [MemState.memFree, if_neg hne, hheader, dif_pos hpool, hpool', MemState.memcheckFree,
    hfreed, hheader', hcheck, ne_eq, not_true_eq_false, if_false, hlength]

theorem free_cases (h : m.Inv) (hs : (MemOp.free p).step m = some m') :
    ∃ b ∈ m.live, b.ptr = p ∧ m.live.Perm (b :: m'.live) ∧
      m'.state = (m.state.memcheckRemove b.freed 0).count b.allocator (-1) b.len := by
  rw [MemOp.step] at hs
  split_ifs at hs with hlive
  cases hs
  obtain ⟨b₀, hb₀, hptr₀⟩ := hlive
  obtain ⟨b, l₁, l₂, -, hptr, hl, hl'⟩ :=
    exists_of_eraseP (p := fun b : LiveBlock => decide (b.ptr = p)) hb₀ (by simpa using hptr₀)
  have hb : b ∈ m.live := hl ▸ mem_append_right _ mem_cons_self
  replace hptr : b.ptr = p := by simpa using hptr
  refine ⟨b, hb, hptr, ?_, ?_⟩
  · rw [Accounts.free, hl', hl]
    exact perm_middle
  · rw [Accounts.free, ← hptr, memFree_eq h hb]

theorem header_memcheckRemove (h : m.Inv) (hb : b ∈ m.live) (hc : c ∈ m.live) (hne : c ≠ b) :
    (m.state.memcheckRemove b.freed 0).header c.raw = m.state.header c.raw := by
  rw [MemState.header, memcheckRemove_headers, (h.valid b hb).cacheable_freed,
    update_of_ne fun heq => hne (h.eq_of_cacheable_eq hc hb heq), MemState.header]

theorem entries_memcheckRemove (h : m.Inv) (hb : b ∈ m.live)
    (hgood : m.id b = untracked ∨ b.freed = b.raw) (j : EntryId) :
    (m.id b = j → ((m.state.memcheckRemove b.freed 0).entries j).ptr = 0) ∧
      (m.id b ≠ j → (m.state.memcheckRemove b.freed 0).entries j = m.state.entries j) := by
  have hid : (m.state.header b.freed).id = m.id b := by
    rw [MemState.header, (h.valid b hb).cacheable_freed]
    rfl
  obtain ⟨huntracked, htracked⟩ := memcheckRemove_entries m.state b.freed
  by_cases hno : m.id b = untracked
  · rw [huntracked (hid.trans hno)]
    exact ⟨fun hj => absurd (hj.symm.trans hno) (entryId_ne_untracked j), fun _ => rfl⟩
  · obtain ⟨i, hi, hptr⟩ := h.owns b hb hno
    rw [(htracked i (hid.trans hi)).1 (hptr.trans (hgood.resolve_left hno).symm)]
    refine ⟨fun hj => ?_, fun hj => ?_⟩
    · obtain rfl : i = j := Fin.ext (hi.symm.trans hj)
      simp
    · exact update_of_ne (fun hji => hj (by rw [hi, hji])) ..

theorem inv_free (h : m.Inv) (hgood : (MemOp.free p).Good m)
    (hs : (MemOp.free p).step m = some m') : m'.Inv := by
  obtain ⟨b, hb, hptr, hperm, hstate⟩ := free_cases h hs
  have hgood' : m.id b = untracked ∨ b.freed = b.raw := by
    rw [(h.valid b hb).freed_eq_iff]
    exact hgood b hb hptr
  have hmem {c : LiveBlock} (hc : c ∈ m'.live) : c ∈ m.live ∧ c ≠ b := by
    refine ⟨hperm.mem_iff.2 (mem_cons_of_mem _ hc), ?_⟩
    rintro rfl
    exact (nodup_cons.1 (hperm.nodup_iff.1 h.nodup)).1 hc
  have hheader {c : LiveBlock} (hc : c ∈ m'.live) :
      m'.state.header c.raw = m.state.header c.raw := by
    rw [hstate]
    exact header_memcheckRemove h hb (hmem hc).1 (hmem hc).2
  have hentry := entries_memcheckRemove h hb hgood'
  refine ⟨?_, fun c hc => h.valid c (hmem hc).1,
    fun c hc => (h.header c (hmem hc).1).congr (hheader hc), ?_, fun c hc htracked => ?_,
    fun j hj => ?_⟩
  · exact (((hperm.map LiveBlock.block).pairwise_iff Block.Disjoint.symm).1 h.disjoint).of_cons
  · have hcounted := h.counted.congr (memcheckRemove_counters m.state b.freed 0)
    have hsum := sum_le h.disjoint h.valid
    rw [(hperm.map _).sum_eq] at hsum
    rw [hstate]
    exact (hcounted.perm hperm).remove hsum
  · have hid : m'.id c = m.id c := congrArg MemcheckHdr.id (hheader hc)
    obtain ⟨j, hj, hptr⟩ := h.owns c (hmem hc).1 fun hno => htracked (hid.trans hno)
    refine ⟨j, hid.trans hj, ?_⟩
    -- The entry of `b` is another one.
    have hne : m.id b ≠ j := fun hbj => (hmem hc).2
      (h.eq_of_id_eq (hmem hc).1 hb (hj.trans hbj.symm) (hid ▸ htracked))
    rw [hstate]
    exact ((hentry j).2 hne).symm ▸ hptr
  · rw [hstate] at hj
    have hne : m.id b ≠ j := fun hbj => hj ((hentry j).1 hbj)
    have heq := (hentry j).2 hne
    obtain ⟨c, hc, hid, hptr⟩ := h.owner j (heq ▸ hj)
    have hc' : c ∈ m'.live := by
      refine (mem_cons.1 (hperm.mem_iff.1 hc)).resolve_left ?_
      rintro rfl
      exact hne hid
    refine ⟨c, hc', (congrArg MemcheckHdr.id (hheader hc')).trans hid, ?_⟩
    rw [hstate]
    exact heq.symm ▸ hptr

/-- The entry of a block is not found under another address. -/
theorem not_accounted_free (h : m.Inv) (hbad : ¬ (MemOp.free p).Good m)
    (hs : (MemOp.free p).step m = some m') : ¬ m'.Accounted := by
  obtain ⟨b, hb, hptr, hperm, hstate⟩ := free_cases h hs
  have hbad' : m.id b ≠ untracked ∧ b.freed ≠ b.raw := by
    rw [← not_or, (h.valid b hb).freed_eq_iff]
    refine fun hno => hbad fun c hc hcptr => ?_
    obtain rfl := h.eq_of_ptr_eq hc hb (hcptr.trans hptr.symm)
    exact hno
  obtain ⟨i, hi, hentry⟩ := h.owns b hb hbad'.1
  have hid : (m.state.header b.freed).id = i := by
    rw [MemState.header, (h.valid b hb).cacheable_freed]
    exact hi
  have hkept : m'.state.entries i = m.state.entries i := by
    rw [hstate]
    exact ((memcheckRemove_entries m.state b.freed).2 i hid).2 fun hno =>
      hbad'.2 (hno.symm.trans hentry)
  intro haccounted
  obtain ⟨c, hc, -, hcptr⟩ := haccounted.owner i (by
    rw [hkept, hentry]
    exact (h.valid b hb).ne_zero)
  rw [hkept, hentry] at hcptr
  obtain rfl := h.eq_of_cacheable_eq hb (hperm.mem_iff.2 (mem_cons_of_mem _ hc)) (by rw [hcptr])
  exact (nodup_cons.1 (hperm.nodup_iff.1 h.nodup)).1 hc

theorem inv_write (h : m.Inv) {addr : ℕ} {hdr : MemcheckHdr}
    (hs : (MemOp.write addr hdr).step m = some m') : m'.Inv := by
  rw [MemOp.step] at hs
  split_ifs at hs with hother
  cases hs
  have hheader (b : LiveBlock) (hb : b ∈ m.live) :
      (update m.state.headers addr hdr) (cacheable b.raw) = m.state.header b.raw :=
    update_of_ne (hother b hb) ..
  refine ⟨h.disjoint, h.valid, fun b hb => (h.header b hb).congr (hheader b hb),
    h.counted.congr ⟨rfl, rfl, rfl⟩, fun b hb htracked => ?_, fun i hi => ?_⟩
  · have hid := congrArg MemcheckHdr.id (hheader b hb)
    obtain ⟨i, hi, hptr⟩ := h.owns b hb fun hno => htracked (hid.trans hno)
    exact ⟨i, hid.trans hi, hptr⟩
  · obtain ⟨b, hb, hid, hptr⟩ := h.owner i hi
    exact ⟨b, hb, (congrArg MemcheckHdr.id (hheader b hb)).trans hid, hptr⟩

/-! ### Runs -/

theorem inv_init : Accounts.init.Inv where
  disjoint := List.Pairwise.nil
  valid := by simp [Accounts.init]
  header := by simp [Accounts.init]
  counted := ⟨rfl, fun _ => rfl, fun _ => rfl⟩
  owns := by simp [Accounts.init]
  owner i hi := absurd rfl hi

theorem inv_step (h : m.Inv) (hgood : op.Good m) (hs : op.step m = some m') : m'.Inv := by
  cases op with
  | malloc q backend size flags => exact inv_malloc h hgood hs
  | free p => exact inv_free h hgood hs
  | write addr hdr => exact inv_write h hs

theorem not_accounted_step (h : m.Inv) (hbad : ¬ op.Good m) (hs : op.step m = some m') :
    ¬ m'.Accounted := by
  cases op with
  | malloc q backend size flags => exact not_accounted_malloc h hbad hs
  | free p => exact not_accounted_free h hbad hs
  | write addr hdr => exact absurd trivial hbad

/-- **Memory accounting.** In all states of a run the counters and the entries are those of the live
blocks exactly if each step meets the condition. -/
theorem run_accounted_iff (ops : List MemOp) (m : Accounts)
    (hrun : Accounts.init.run ops = some m) : Runs.Always MemOp.step Accounts.Accounted .init ops ↔
      Runs.Meets MemOp.step (fun m op => op.Good m) .init ops :=
  Runs.always_iff_meets (J := Accounts.Inv) (fun _ h => h.accounted)
    (fun _ _ _ h hgood hs => inv_step h hgood hs)
    (fun _ _ _ h hbad hs => not_accounted_step h hbad hs) hrun inv_init

/-- A block is got and freed. -/
theorem run_accounted_small :
    ∃ m, Accounts.init.run [.malloc (fun _ => oneMiB) (blockFor 132 (by decide)) 100 0,
      .free 0x100010] = some m ∧ m.Accounted := by
  refine ⟨_, rfl, ?_⟩
  exact ((run_accounted_iff [.malloc (fun _ => oneMiB) (blockFor 132 (by decide)) 100 0,
    .free 0x100010] _ rfl).2 (by decide +kernel)).last rfl

/-- A request for 4 GiB without one byte gets a block, and the total is negative after that. -/
theorem run_huge_miscounted :
    ∃ m, Accounts.init.run [.malloc (fun _ => oneMiB) (blockFor 31 (by decide)) 0xFFFFFFFF 0] =
      some m ∧ m.live.map LiveBlock.len = [0xFFFFFFFF] ∧ m.state.allocTotal = -1 := by
  decide +kernel

end MagicLantern.Memory

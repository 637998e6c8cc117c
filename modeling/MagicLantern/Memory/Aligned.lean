import MagicLantern.Library.Blocks
import MagicLantern.Library.Runs

/-!
# Aligned allocation

`malloc_aligned` asks `_malloc` for a block that is longer by the alignment, and returns the first
aligned address in it. Where the block begins is kept in a table of 16 entries, together with the
length that was asked for by the caller, and `free_aligned` looks for the entry whose interval holds
the pointer.

This interval begins at the raw address and is as long as the caller's length, so the pointer is in
it only if it has been moved by less than this length. Otherwise `free_aligned` finds nothing, and
the block and the entry are lost. And the length of the block is computed in 32 bits.

Source: `src/src/mem.c`.

## Main results

* `run_sound_iff` — when all pointers are good, and no block is lost.
* `run_shortBlock_lost`.
-/

namespace MagicLantern.Memory

open Function List

/-- `MAX_ALIGNED_ALLOCS`. -/
abbrev maxAlignedAllocs : ℕ := 16

/-- `struct aligned_alloc`. -/
structure AlignedAlloc where
  start : ℕ
  len : ℕ
  deriving DecidableEq

/-- The variables of `malloc_aligned`, and the blocks that it has got from `_malloc` and that have
not been given back. -/
structure AlignedHeap where
  alignedAllocs : Fin maxAlignedAllocs → AlignedAlloc
  allocCount : ℕ
  blocks : List Block

/-- The size that is asked for. -/
def rawSize (len alignment : UInt32) : ℕ :=
  (len.toNat + alignment.toNat) % 2 ^ 32

/-- The first aligned address, in 32 bits. -/
def alignPtr (raw alignment : ℕ) : ℕ :=
  if raw % alignment ≠ 0 then (raw + (alignment - raw % alignment)) % 2 ^ 32 else raw

namespace AlignedHeap

variable (m : AlignedHeap)

/-- Where the entry goes: the entry with the number of allocations, or the first free one. -/
def findSlot : Option (Fin maxAlignedAllocs) :=
  if h : m.allocCount < maxAlignedAllocs then
    if (m.alignedAllocs ⟨m.allocCount, h⟩).start = 0 then some ⟨m.allocCount, h⟩
    else (List.finRange maxAlignedAllocs).find? fun i => (m.alignedAllocs i).start = 0
  else none

/-- `malloc_aligned`; `raw` is the answer of `_malloc`. The null pointer is `0`. Without a free
entry there would be a write beyond the table. -/
def mallocAligned (len alignment : UInt32) (raw : Option ℕ) : Option (AlignedHeap × ℕ) :=
  if maxAlignedAllocs ≤ m.allocCount then some (m, 0)
  else
    match raw with
    | none => some (m, 0)
    | some raw => m.findSlot.map fun i =>
      ({ alignedAllocs := Function.update m.alignedAllocs i ⟨raw, len.toNat⟩
         allocCount := m.allocCount + 1
         blocks := ⟨raw, rawSize len alignment⟩ :: m.blocks },
        alignPtr raw alignment.toNat)

/-- The interval of an entry holds the pointer. -/
def Holds (i : Fin maxAlignedAllocs) (p : ℕ) : Prop :=
  (m.alignedAllocs i).start ≤ p ∧ ((m.alignedAllocs i).start + (m.alignedAllocs i).len) % 2 ^ 32 > p

instance (i : Fin maxAlignedAllocs) (p : ℕ) : Decidable (m.Holds i p) :=
  inferInstanceAs (Decidable (_ ∧ _))

/-- `free_aligned`. -/
def freeAligned (p : ℕ) : AlignedHeap :=
  match (List.finRange maxAlignedAllocs).find? fun i => m.Holds i p with
  | none => m
  | some i =>
    { alignedAllocs := Function.update m.alignedAllocs i ⟨0, 0⟩
      allocCount := m.allocCount - 1
      -- `_free`
      blocks := m.blocks.eraseP fun b => b.start = (m.alignedAllocs i).start }

/-- The entries in use. -/
def used : Multiset AlignedAlloc :=
  (Finset.univ.val.map m.alignedAllocs).filter fun e => e.start ≠ 0

end AlignedHeap

/-! ### Runs -/

/-- A pointer that a caller has got and not freed, and the block it came from. -/
structure Live where
  ptr : ℕ
  len : ℕ
  alignment : ℕ
  block : Block

/-- The heap and the pointers of the callers. -/
structure Allocations where
  heap : AlignedHeap
  live : List Live

/-- What `_malloc` can return: a block in the address space that is disjoint from the other ones. -/
@[mk_iff]
structure Fresh (blocks : List Block) (b : Block) : Prop where
  pos : 0 < b.start
  inRange : b.start + b.size ≤ 2 ^ 32
  disjoint : ∀ c ∈ blocks, b.Disjoint c

instance (blocks : List Block) (b : Block) : Decidable (Fresh blocks b) :=
  decidable_of_iff _ (fresh_iff ..).symm

/-- The calls. -/
inductive AlignedOp
  | malloc (len alignment : UInt32) (raw : Option ℕ)
  | free (p : ℕ)

/-- A call. The alignment is not zero, and only live pointers are freed. -/
def AlignedOp.step (s : Allocations) : AlignedOp → Option Allocations
  | .malloc len alignment raw =>
    if alignment ≠ 0 ∧ ∀ r ∈ raw, Fresh s.heap.blocks ⟨r, rawSize len alignment⟩ then
      (s.heap.mallocAligned len alignment raw).map fun (heap, p) =>
        { heap
          live := if p = 0 then s.live
            else ⟨p, len.toNat, alignment.toNat, raw.getD 0, rawSize len alignment⟩ :: s.live }
    else none
  | .free p =>
    if ∃ a ∈ s.live, a.ptr = p then
      some { heap := s.heap.freeAligned p, live := s.live.eraseP fun a => a.ptr = p }
    else none

/-- No allocation yet. -/
def Allocations.init : Allocations where
  heap := { alignedAllocs := fun _ => ⟨0, 0⟩, allocCount := 0, blocks := [] }
  live := []

/-- The state after the given calls. -/
def Allocations.run (s : Allocations) (ops : List AlignedOp) : Option Allocations :=
  ops.foldlM AlignedOp.step s

/-- Each pointer is aligned and has its bytes in its own block; no other blocks are kept; and the
pointers are counted. -/
structure Allocations.Sound (s : Allocations) : Prop where
  aligned : ∀ a ∈ s.live, a.alignment ∣ a.ptr
  inside : ∀ a ∈ s.live,
    a.block.start ≤ a.ptr ∧ a.ptr + a.len ≤ a.block.start + a.block.size
  blocks : (s.live.map Live.block).Perm s.heap.blocks
  count : s.heap.allocCount = s.live.length

/-- The size of the block does not wrap around, and a pointer that is freed has been moved by less
than the length. -/
def AlignedOp.Good (s : Allocations) : AlignedOp → Prop
  | .malloc len alignment raw => s.heap.allocCount < maxAlignedAllocs → raw ≠ none →
      len.toNat + alignment.toNat < 2 ^ 32
  | .free p => ∀ a ∈ s.live, a.ptr = p → p < a.block.start + a.len

instance (s : Allocations) : DecidablePred (AlignedOp.Good s) := fun op => by
  cases op <;> dsimp only [AlignedOp.Good] <;> infer_instance

/-! ### The invariant -/

/-- A pointer in its block. -/
structure Live.Valid (a : Live) : Prop where
  size : a.block.size = a.len + a.alignment
  start_le : a.block.start ≤ a.ptr
  lt : a.ptr < a.block.start + a.alignment
  dvd : a.alignment ∣ a.ptr

/-- The entry of a pointer. -/
def Live.entry (a : Live) : AlignedAlloc :=
  ⟨a.block.start, a.len⟩

structure Allocations.Inv (s : Allocations) : Prop where
  disjoint : s.heap.blocks.Pairwise Block.Disjoint
  inRange : ∀ b ∈ s.heap.blocks, 0 < b.start ∧ b.start + b.size ≤ 2 ^ 32
  valid : ∀ a ∈ s.live, a.Valid
  blocks : (s.live.map Live.block).Perm s.heap.blocks
  empty : ∀ i, (s.heap.alignedAllocs i).start = 0 → (s.heap.alignedAllocs i).len = 0
  used : s.heap.used = s.live.map Live.entry
  count : s.heap.allocCount = s.live.length

variable {s s' : Allocations} {a : Live} {i : Fin maxAlignedAllocs} {raw : Option ℕ}
  {len alignment : UInt32} {p : ℕ} {op : AlignedOp}

theorem Allocations.Inv.sound (h : s.Inv) : s.Sound where
  __ := h
  aligned a ha := (h.valid a ha).dvd
  inside a ha := by
    obtain ⟨hsize, hstart, hlt, -⟩ := h.valid a ha
    omega

theorem Live.Valid.contains (h : a.Valid) : a.block.Contains a.ptr := by
  obtain ⟨hsize, hstart, hlt, -⟩ := h
  exact ⟨hstart, by omega⟩

theorem Allocations.Inv.mem_blocks (h : s.Inv) (ha : a ∈ s.live) : a.block ∈ s.heap.blocks :=
  h.blocks.mem_iff.1 (mem_map_of_mem ha)

theorem Allocations.Inv.eq_of_block_eq (h : s.Inv) {b : Live} (ha : a ∈ s.live) (hb : b ∈ s.live)
    (hab : a.block = b.block) : a = b := by
  have hnodup : (s.live.map Live.block).Nodup :=
    h.blocks.nodup_iff.2 (h.disjoint.imp fun hd heq => hd.1 (by rw [heq]))
  exact inj_on_of_nodup_map hnodup ha hb hab

/-- Only the entry of a pointer can hold it. -/
theorem Allocations.Inv.of_holds (h : s.Inv) (ha : a ∈ s.live) (hi : s.heap.Holds i a.ptr) :
    s.heap.alignedAllocs i = a.entry ∧ a.ptr < a.block.start + a.len := by
  obtain ⟨hle, hgt⟩ := hi
  have hstart : (s.heap.alignedAllocs i).start ≠ 0 := fun hzero => by
    simp [hzero, h.empty i hzero] at hgt
  have hmem : s.heap.alignedAllocs i ∈ s.heap.used :=
    Multiset.mem_filter.2 ⟨Multiset.mem_map_of_mem _ (Finset.mem_univ_val i), hstart⟩
  rw [h.used] at hmem
  obtain ⟨b, hb, hentry⟩ := mem_map.1 hmem
  obtain ⟨hsize, hbstart, hblt, -⟩ := h.valid b hb
  have hrange := (h.inRange b.block (h.mem_blocks hb)).2
  rw [← hentry] at hle hgt
  simp only [Live.entry] at hle hgt
  rw [Nat.mod_eq_of_lt (by omega)] at hgt
  -- The pointer is in the block of the entry, which is its own block.
  have hcontains : b.block.Contains a.ptr := ⟨hle, by omega⟩
  have hblock : a.block = b.block :=
    Block.eq_of_contains h.disjoint (h.mem_blocks ha) (h.mem_blocks hb)
      (h.valid a ha).contains hcontains
  obtain rfl := h.eq_of_block_eq ha hb hblock
  exact ⟨hentry.symm, hgt⟩

/-! ### The table -/

namespace AlignedHeap

variable {m : AlignedHeap}

theorem univ_map_update {n : ℕ} {α : Type*} (f : Fin n → α) (i : Fin n) (x : α) :
    Finset.univ.val.map (update f i x) = x ::ₘ (Finset.univ.val.erase i).map f := by
  rw [← Multiset.cons_erase (Finset.mem_univ_val i), Multiset.map_cons, update_self]
  simp only [Multiset.erase_cons_head]
  refine congrArg _ (Multiset.map_congr rfl fun j hj => update_of_ne ?_ ..)
  rintro rfl
  exact (Finset.univ.nodup.notMem_erase) hj

theorem used_update (i : Fin maxAlignedAllocs) (e : AlignedAlloc) (allocCount : ℕ)
    (blocks : List Block) :
    used ⟨update m.alignedAllocs i e, allocCount, blocks⟩ +
        ({m.alignedAllocs i} : Multiset AlignedAlloc).filter (fun e => e.start ≠ 0) =
      m.used + ({e} : Multiset AlignedAlloc).filter fun e => e.start ≠ 0 := by
  have hself := univ_map_update m.alignedAllocs i (m.alignedAllocs i)
  rw [update_eq_self] at hself
  simp only [used]
  rw [univ_map_update, hself, ← Multiset.filter_add, ← Multiset.filter_add]
  simp only [← Multiset.singleton_add]
  simp only [add_comm, add_left_comm, add_assoc]

theorem findSlot_isSome (hused : m.used.card = m.allocCount)
    (hcount : m.allocCount < maxAlignedAllocs) :
    ∃ i, m.findSlot = some i ∧ (m.alignedAllocs i).start = 0 := by
  rw [findSlot]
  split_ifs with hfree
  · exact ⟨_, rfl, hfree⟩
  · cases hfind : (finRange maxAlignedAllocs).find? fun i => (m.alignedAllocs i).start = 0 with
    | some i => exact ⟨i, rfl, by simpa using find?_some hfind⟩
    | none =>
      have hall : m.used = Finset.univ.val.map m.alignedAllocs := by
        refine Multiset.filter_eq_self.2 fun e he => ?_
        obtain ⟨i, -, rfl⟩ := Multiset.mem_map.1 he
        simpa using find?_eq_none.1 hfind i (mem_finRange i)
      rw [hall, Multiset.card_map, Finset.card_val, Finset.card_univ, Fintype.card_fin] at hused
      omega

end AlignedHeap

/-! ### The calls -/

theorem alignPtr_spec {raw alignment : ℕ} (hpos : 0 < alignment) (h : raw + alignment ≤ 2 ^ 32) :
    raw ≤ alignPtr raw alignment ∧ alignPtr raw alignment < raw + alignment ∧
      alignment ∣ alignPtr raw alignment := by
  have hmod := Nat.mod_lt raw hpos
  rw [alignPtr]
  split_ifs with hr
  · rw [Nat.mod_eq_of_lt (by omega)]
    refine ⟨by omega, by omega, ?_⟩
    have hdiv := Nat.div_add_mod raw alignment
    refine ⟨raw / alignment + 1, ?_⟩
    rw [Nat.mul_add]
    omega
  · exact ⟨le_rfl, by omega, Nat.dvd_of_mod_eq_zero (not_not.1 hr)⟩

/-- The state after a pointer has been returned. -/
def Allocations.add (s : Allocations) (i : Fin maxAlignedAllocs) (a : Live) : Allocations where
  heap :=
    { alignedAllocs := Function.update s.heap.alignedAllocs i a.entry
      allocCount := s.heap.allocCount + 1
      blocks := a.block :: s.heap.blocks }
  live := a :: s.live

/-- A call of `malloc_aligned` fails, or takes an entry for a new block. -/
theorem Allocations.malloc_cases (hs : (AlignedOp.malloc len alignment raw).step s = some s') :
    (s' = s ∧ (maxAlignedAllocs ≤ s.heap.allocCount ∨ raw = none)) ∨
    ∃ r i, raw = some r ∧ s.heap.allocCount < maxAlignedAllocs ∧ s.heap.findSlot = some i ∧
      0 < alignment.toNat ∧ Fresh s.heap.blocks ⟨r, rawSize len alignment⟩ ∧
      s'.heap = (s.add i ⟨alignPtr r alignment.toNat, len.toNat, alignment.toNat, r,
        rawSize len alignment⟩).heap ∧
      s'.live = if alignPtr r alignment.toNat = 0 then s.live
        else ⟨alignPtr r alignment.toNat, len.toNat, alignment.toNat, r,
          rawSize len alignment⟩ :: s.live := by
  rw [AlignedOp.step] at hs
  split_ifs at hs with henabled
  obtain ⟨halign, hfresh⟩ := henabled
  unfold AlignedHeap.mallocAligned at hs
  split_ifs at hs with hfull
  · cases hs
    exact .inl ⟨rfl, .inl hfull⟩
  · cases raw with
    | none =>
      cases hs
      exact .inl ⟨rfl, .inr rfl⟩
    | some r =>
      obtain ⟨⟨heap, p⟩, hmap, rfl⟩ := Option.map_eq_some_iff.1 hs
      obtain ⟨i, hi, heq⟩ := Option.map_eq_some_iff.1 hmap
      obtain ⟨rfl, rfl⟩ := Prod.mk.inj heq
      have hpos : 0 < alignment.toNat := by
        refine Nat.pos_of_ne_zero fun hzero => halign (UInt32.toNat_inj.1 hzero)
      exact .inr ⟨r, i, rfl, Nat.not_le.1 hfull, hi, hpos, hfresh r rfl, rfl, rfl⟩

theorem Allocations.inv_add (h : s.Inv) (hi : (s.heap.alignedAllocs i).start = 0) (ha : a.Valid)
    (hfresh : Fresh s.heap.blocks a.block) : (s.add i a).Inv where
  disjoint := pairwise_cons.2 ⟨hfresh.disjoint, h.disjoint⟩
  inRange := forall_mem_cons.2 ⟨⟨hfresh.pos, hfresh.inRange⟩, h.inRange⟩
  valid := forall_mem_cons.2 ⟨ha, h.valid⟩
  blocks := h.blocks.cons a.block
  empty j hj := by
    by_cases hji : j = i
    · subst hji
      simp only [Allocations.add, update_self] at hj
      exact absurd hj hfresh.pos.ne'
    · simp only [Allocations.add, update_of_ne hji] at hj ⊢
      exact h.empty j hj
  used := by
    have hused := AlignedHeap.used_update (m := s.heap) i a.entry (s.heap.allocCount + 1)
      (a.block :: s.heap.blocks)
    rw [Multiset.filter_singleton, Multiset.filter_singleton, if_neg (not_not.2 hi),
      if_pos (show a.entry.start ≠ 0 from hfresh.pos.ne'), Multiset.empty_eq_zero, add_zero,
      h.used] at hused
    rw [Allocations.add, hused, add_comm]
    rfl
  count := congrArg (· + 1) h.count

theorem Allocations.inv_malloc (h : s.Inv) (hgood : (AlignedOp.malloc len alignment raw).Good s)
    (hs : (AlignedOp.malloc len alignment raw).step s = some s') : s'.Inv := by
  rcases Allocations.malloc_cases hs with ⟨rfl, -⟩ | ⟨r, i, rfl, hcount, hslot, hpos, hfresh, hheap,
      hlive⟩
  · exact h
  · have hsize : rawSize len alignment = len.toNat + alignment.toNat :=
      Nat.mod_eq_of_lt (hgood hcount (by simp))
    have hrange := hfresh.inRange
    dsimp only at hrange
    obtain ⟨hle, hlt, hdvd⟩ := alignPtr_spec hpos (show r + _ ≤ _ by omega)
    have hne : alignPtr r alignment.toNat ≠ 0 := (hfresh.pos.trans_le hle).ne'
    obtain ⟨j, hj, hfree⟩ := AlignedHeap.findSlot_isSome (m := s.heap)
      (by rw [h.used, Multiset.coe_card, length_map, h.count]) hcount
    obtain rfl := Option.some.inj (hslot.symm.trans hj)
    have hadd := Allocations.inv_add h hfree
      (a := ⟨alignPtr r alignment.toNat, len.toNat, alignment.toNat, r, rawSize len alignment⟩)
        ⟨hsize, hle, hlt, hdvd⟩ hfresh
    rw [if_neg hne] at hlive
    obtain ⟨heap, live⟩ := s'
    subst hheap hlive
    exact hadd

/-- If the size wraps around, the bytes are not in the block. -/
theorem not_sound_malloc (h : s.Inv) (hbad : ¬ (AlignedOp.malloc len alignment raw).Good s)
    (hs : (AlignedOp.malloc len alignment raw).step s = some s') : ¬ s'.Sound := by
  have hwrap : 2 ^ 32 ≤ len.toNat + alignment.toNat := by
    by_contra hno
    exact hbad fun _ _ => Nat.not_le.1 hno
  intro hsound
  rcases Allocations.malloc_cases hs with ⟨-, hno⟩ | ⟨r, i, rfl, -, -, -, -, hheap, hlive⟩
  · exact hbad fun hcount hraw => hno.elim (fun hle => absurd hcount (Nat.not_lt.2 hle))
      (absurd · hraw)
  · split_ifs at hlive with hzero
    · -- The null pointer is returned, but an entry has been taken.
      have hcount : s.live.length + 1 = s.live.length := by
        simpa [hheap, hlive, Allocations.add, h.count] using hsound.count
      omega
    · have hinside := hsound.inside _ (hlive ▸ mem_cons_self)
      have hlen := len.toNat_lt
      have halign := alignment.toNat_lt
      have hsize : rawSize len alignment = len.toNat + alignment.toNat - 2 ^ 32 := by
        rw [rawSize]
        omega
      dsimp only at hinside
      omega

/-! ### Freeing a pointer -/

/-- The entry of a pointer is found if it holds the pointer. -/
theorem Allocations.Inv.find_eq_some (h : s.Inv) (ha : a ∈ s.live)
    (hlt : a.ptr < a.block.start + a.len) :
    ∃ i, (finRange maxAlignedAllocs).find? (fun i => s.heap.Holds i a.ptr) = some i ∧
      s.heap.alignedAllocs i = a.entry := by
  have hmem : a.entry ∈ s.heap.used := by
    rw [h.used]
    exact mem_map_of_mem ha
  obtain ⟨i, -, hi⟩ := Multiset.mem_map.1 (Multiset.mem_filter.1 hmem).1
  obtain ⟨hsize, hstart, hblt, -⟩ := h.valid a ha
  have hrange := (h.inRange a.block (h.mem_blocks ha)).2
  have hholds : s.heap.Holds i a.ptr := by
    rw [AlignedHeap.Holds, hi, Live.entry, Nat.mod_eq_of_lt (by dsimp only; omega)]
    exact ⟨hstart, hlt⟩
  cases hfind : (finRange maxAlignedAllocs).find? fun i => s.heap.Holds i a.ptr with
  | none => exact absurd hholds (by simpa using find?_eq_none.1 hfind i (mem_finRange i))
  | some j => exact ⟨j, rfl, (h.of_holds ha (by simpa using find?_some hfind)).1⟩

theorem Allocations.inv_free (h : s.Inv) (hgood : (AlignedOp.free p).Good s)
    (hs : (AlignedOp.free p).step s = some s') : s'.Inv := by
  rw [AlignedOp.step] at hs
  split_ifs at hs with hlive
  cases hs
  obtain ⟨a₀, ha₀, hptr₀⟩ := hlive
  -- The pointer that is freed and its block are taken out of the lists.
  obtain ⟨a, l₁, l₂, -, hptr, hl, hl'⟩ :=
    exists_of_eraseP (p := fun a : Live => decide (a.ptr = p)) ha₀ (by simpa using hptr₀)
  obtain rfl : a.ptr = p := by simpa using hptr
  have ha : a ∈ s.live := hl ▸ mem_append_right _ mem_cons_self
  have hperm : s.live.Perm (a :: s.live.eraseP fun b => b.ptr = a.ptr) := by
    rw [hl', hl]
    exact perm_middle
  obtain ⟨i, hfind, hentry⟩ := h.find_eq_some ha (hgood a ha rfl)
  obtain ⟨c, b₁, b₂, -, hstart, hb, hb'⟩ :=
    exists_of_eraseP (p := fun b : Block => decide (b.start = a.block.start))
      (h.mem_blocks ha) (by simp)
  obtain rfl : c = a.block := Block.eq_of_start_eq h.disjoint
    (hb ▸ mem_append_right _ mem_cons_self) (h.mem_blocks ha) (by simpa using hstart)
  have hbperm : s.heap.blocks.Perm
      (a.block :: s.heap.blocks.eraseP fun b => b.start = a.block.start) := by
    rw [hb', hb]
    exact perm_middle
  have hheap : s.heap.freeAligned a.ptr =
      { alignedAllocs := update s.heap.alignedAllocs i ⟨0, 0⟩
        allocCount := s.heap.allocCount - 1
        blocks := s.heap.blocks.eraseP fun b => b.start = a.block.start } := by
    simp only [AlignedHeap.freeAligned, hfind, hentry, Live.entry]
  rw [hheap]
  refine ⟨?_, ?_, ?_, ?_, fun j hj => ?_, ?_, ?_⟩
  · exact h.disjoint.sublist eraseP_sublist
  · exact fun b hb => h.inRange b (mem_of_mem_eraseP hb)
  · exact fun b hb => h.valid b (mem_of_mem_eraseP hb)
  · exact ((hperm.map Live.block).symm.trans (h.blocks.trans hbperm)).cons_inv
  · by_cases hji : j = i
    · simp [hji]
    · simp only [update_of_ne hji] at hj ⊢
      exact h.empty j hj
  · have hused := AlignedHeap.used_update (m := s.heap) i ⟨0, 0⟩ (s.heap.allocCount - 1)
      (s.heap.blocks.eraseP fun b => b.start = a.block.start)
    have hpos : a.entry.start ≠ 0 := (h.inRange a.block (h.mem_blocks ha)).1.ne'
    rw [hentry, Multiset.filter_singleton, Multiset.filter_singleton, if_pos hpos,
      if_neg (not_not.2 rfl), Multiset.empty_eq_zero, add_zero, h.used,
      Multiset.coe_eq_coe.2 (hperm.map Live.entry), map_cons, ← Multiset.cons_coe] at hused
    exact add_left_cancel ((add_comm _ _).trans hused)
  · have hlength := hperm.length_eq
    rw [length_cons] at hlength
    have hcount := h.count
    dsimp only
    omega

/-- Without an entry that holds the pointer the call does nothing. -/
theorem not_sound_free (h : s.Inv) (hbad : ¬ (AlignedOp.free p).Good s)
    (hs : (AlignedOp.free p).step s = some s') : ¬ s'.Sound := by
  rw [AlignedOp.step] at hs
  split_ifs at hs with hlive
  cases hs
  obtain ⟨a, ha, rfl⟩ := hlive
  have hnone : (finRange maxAlignedAllocs).find? (fun i => s.heap.Holds i a.ptr) = none := by
    refine find?_eq_none.2 fun i _ hi => hbad fun b hb hptr => ?_
    have hholds : s.heap.Holds i a.ptr := by simpa using hi
    rw [← hptr] at hholds ⊢
    exact (h.of_holds hb hholds).2
  intro hsound
  have hcount := hsound.count
  have hlength := length_eraseP_add_one (p := fun b : Live => decide (b.ptr = a.ptr)) ha (by simp)
  simp only [AlignedHeap.freeAligned, hnone, h.count] at hcount
  omega

/-! ### Runs -/

theorem Allocations.inv_init : Allocations.init.Inv where
  disjoint := List.Pairwise.nil
  inRange := by simp [Allocations.init]
  valid := by simp [Allocations.init]
  blocks := Perm.nil
  empty _ _ := rfl
  used := by
    refine Multiset.eq_zero_of_forall_notMem fun e he => ?_
    obtain ⟨hmem, hstart⟩ := Multiset.mem_filter.1 he
    obtain ⟨i, -, rfl⟩ := Multiset.mem_map.1 hmem
    exact hstart rfl
  count := rfl

theorem Allocations.inv_step (h : s.Inv) (hgood : op.Good s) (hs : op.step s = some s') :
    s'.Inv := by
  cases op with
  | malloc len alignment raw => exact Allocations.inv_malloc h hgood hs
  | free p => exact Allocations.inv_free h hgood hs

theorem not_sound_step (h : s.Inv) (hbad : ¬ op.Good s) (hs : op.step s = some s') :
    ¬ s'.Sound := by
  cases op with
  | malloc len alignment raw => exact not_sound_malloc h hbad hs
  | free p => exact not_sound_free h hbad hs

/-- As long as there are less than 16 pointers there is an entry for another one. -/
theorem malloc_isSome (h : s.Inv) (hlive : s.live.length < maxAlignedAllocs) {raw : ℕ}
    (halign : alignment ≠ 0) (hfresh : Fresh s.heap.blocks ⟨raw, rawSize len alignment⟩) :
    ∃ t, (AlignedOp.malloc len alignment (some raw)).step s = some t ∧
      t.heap.allocCount = s.heap.allocCount + 1 := by
  have hcount : s.heap.allocCount < maxAlignedAllocs := h.count ▸ hlive
  obtain ⟨i, hi, -⟩ := AlignedHeap.findSlot_isSome (m := s.heap)
    (by rw [h.used, Multiset.coe_card, length_map, h.count]) hcount
  simp [AlignedOp.step, halign, hfresh, AlignedHeap.mallocAligned, Nat.not_le.2 hcount, hi]

/-- **Aligned allocation.** In all states of a run the allocations are sound exactly if each call
meets the condition. With less than 16 pointers there is then always room for another one. -/
theorem run_sound_iff (ops : List AlignedOp) (s : Allocations)
    (hrun : Allocations.init.run ops = some s) :
    (Runs.Always AlignedOp.step Allocations.Sound .init ops ↔
      Runs.Meets AlignedOp.step (fun s op => op.Good s) .init ops) ∧
    (Runs.Always AlignedOp.step Allocations.Sound .init ops → s.live.length < maxAlignedAllocs →
      ∀ (len alignment : UInt32) (raw : ℕ), alignment ≠ 0 →
      Fresh s.heap.blocks ⟨raw, rawSize len alignment⟩ →
      ∃ t, (AlignedOp.malloc len alignment (some raw)).step s = some t ∧
        t.heap.allocCount = s.heap.allocCount + 1) := by
  have hiff : Runs.Always AlignedOp.step Allocations.Sound .init ops ↔
      Runs.Meets AlignedOp.step (fun s op => op.Good s) .init ops :=
    Runs.always_iff_meets (J := Allocations.Inv) (fun _ h => h.sound)
      (fun _ _ _ h hgood hs => Allocations.inv_step h hgood hs)
      (fun _ _ _ h hbad hs => not_sound_step h hbad hs) hrun Allocations.inv_init
  refine ⟨hiff, fun halways hlive len alignment raw halign hfresh => ?_⟩
  have hinv : s.Inv := Runs.invariant_of_meets (I := Allocations.Inv)
    (fun _ _ _ h hgood hs => Allocations.inv_step h hgood hs) (hiff.1 halways)
      hrun Allocations.inv_init
  exact malloc_isSome hinv hlive halign hfresh

/-- A block that is longer than its alignment: the pointer is freed and nothing is left. -/
theorem run_sound_longBlock :
    ∃ s, Allocations.init.run [.malloc 0x1000 0x100 (some 0x100104), .free 0x100200] = some s ∧
      s.Sound ∧ s.heap.blocks = [] :=
  ⟨_, rfl, ((run_sound_iff [.malloc 0x1000 0x100 (some 0x100104), .free 0x100200] _ rfl).1.2
    (by decide +kernel)).last rfl, rfl⟩

/-- The example in the comment on `malloc_aligned`: the pointer is freed, but the block is kept. -/
theorem run_shortBlock_lost :
    ∃ s, Allocations.init.run [.malloc 0x80 0x100 (some 0x100104), .free 0x100200] = some s ∧
      s.live = [] ∧ s.heap.allocCount = 1 ∧ s.heap.blocks = [⟨0x100104, 0x180⟩] :=
  ⟨_, rfl, rfl, rfl, rfl⟩

end MagicLantern.Memory

import MagicLantern.Mmu.Assignment

/-!
# Address translation under ROM patches

After any sequence of calls of `apply_data_patch` the table walk of an address outside the
remapped pages is what it was, and inside a remapped page it ends at the same offset of the
backing page of that page, which holds the ROM page with the applied patches written over it.

This needs that no patch slips through the test of `find_L2_for_patch` for patches that span two
pages. The test compares the end of the patch, computed in 32 bits, with the end of the page, so a
patch of more than one page that ends exactly at `2 ^ 32` passes it; such a patch is copied over
the end of its backing page (`applyDataPatches_overflows_page`).

Source: `src/src/patch_mmu.c`.

## Main results

* `applyDataPatches_translationPreserved`.
* `applyDataPatches_overflows_page`.
-/

namespace MagicLantern.Mmu

open List Option ByteMemory

open Patching (Patch ePatchOk)

/-! ### What is claimed -/

/-- The memory in which the patches have been written in place. -/
def patchedRom (m : ByteMemory) (applied : List Patch) : ByteMemory :=
  applied.foldl (fun m p => m.writeBytes p.addr.toNat p.newBytes) m

/-- The configuration has its tables and pages where the layout says. -/
structure LaidOut (L : Layout) (c : MmuConfig) : Prop where
  l1Table : c.l1Table = L.l1
  maxL2Tables : c.maxL2Tables = L.numTables
  l2Table : ∀ i < L.numTables, (c.l2Tables i).l2Table = L.l2 i
  max64kPagesRemapped : c.max64kPagesRemapped.toNat = L.numPages
  physMemPages : c.physMemPages = L.pages

/-- The state before the first patch: all tables unused, no backing page handed out, and the ROM
mapped to itself by supersections. Canon's own table maps the ROM by a section or supersection,
and the L2 tables that addresses below the ROM use are not part of the layout. -/
structure Initial (L : Layout) (s : MmuState) : Prop where
  laidOut : LaidOut L s.conf
  unused : ∀ i < L.numTables, (s.conf.l2Tables i).inUse = false
  null : ∀ i < L.numTables, ∀ k, (s.conf.l2Tables i).physMem k = 0
  index : s.backingPageIndex = 0
  rom : RomMapped L s.mem
  canon : (l1Entry s.mem canonOrigMmuTableAddr (romBaseAddr.toNat / 2 ^ 20)).toNat % 4 = 2
  foreign : ∀ j, 0x20 ≤ j → j < 0xE00 → (l1Entry s.mem L.l1 j).toNat % 4 = 1 → ∀ x,
    (l1Entry s.mem L.l1 j).toNat / 2 ^ 10 * 2 ^ 10 ≤ x →
    x < (l1Entry s.mem L.l1 j).toNat / 2 ^ 10 * 2 ^ 10 + 0x400 → L.Outside x

/-- A patch of at least four bytes of the ROM. -/
structure RomPatch (p : Patch) : Prop where
  rom : romBaseAddr.toNat ≤ p.addr.toNat
  fits : p.addr.toNat + p.size.toNat ≤ 2 ^ 32
  size : 4 ≤ p.size.toNat

/-- The end of the patch is an address, or the patch is not longer than a page. -/
def EndsInSpace (p : Patch) : Prop :=
  p.addr.toNat + p.size.toNat < 2 ^ 32 ∨ p.size.toNat ≤ 2 ^ 16

variable {p : Patch} {m : ByteMemory} {x : ℕ}

theorem length_newBytes_le (h : 4 ≤ p.size.toNat) : p.newBytes.length ≤ p.size.toNat := by
  rw [Patch.newBytes]
  split_ifs
  · exact length_take_le _ _
  · simpa using h

/-- A patch that passes the test of `find_L2_for_patch` lies in one page, unless it is longer than
a page and ends at `2 ^ 32`. -/
theorem RomPatch.in_page (h : RomPatch p) (hend : EndsInSpace p)
    (hcross : ¬ p.addr + p.size > (p.addr &&& 0xffff0000) + mmuPageSize) :
    p.addr.toNat % 2 ^ 16 + p.newBytes.length ≤ 2 ^ 16 := by
  have hlen := length_newBytes_le h.size
  have hround := BitField.toNat_and_high p.addr 0xffff0000 16 (by decide) rfl
  rw [gt_iff_lt, UInt32.lt_iff_toNat_lt, UInt32.toNat_add, UInt32.toNat_add,
    show mmuPageSize.toNat = 2 ^ 16 from rfl] at hcross
  rcases hend with hend | hend <;> omega

/-! ### The patched ROM -/

@[simp] theorem patchedRom_append (m : ByteMemory) (applied : List Patch) (p : Patch) :
    patchedRom m (applied ++ [p]) = (patchedRom m applied).writeBytes p.addr.toNat p.newBytes := by
  simp [patchedRom]

theorem patchedRom_of_forall_ne {applied : List Patch} (h : ∀ p ∈ applied, p.addr.toNat % 2 ^ 16 +
      p.newBytes.length ≤ 2 ^ 16 ∧ p.addr.toNat / 2 ^ 16 ≠ x / 2 ^ 16) :
    patchedRom m applied x = m x := by
  induction applied using reverseRecOn with
  | nil => rfl
  | append_singleton applied p ih =>
    obtain ⟨hin, hne⟩ := h p (by simp)
    rw [patchedRom_append, writeBytes_of_notMem _ (by omega)]
    exact ih fun q hq => h q (mem_append_left _ hq)

/-! ### The invariant -/

/-- The state of a run from memory `m₀` that has applied the patches `applied`. -/
structure Inv (L : Layout) (m₀ : ByteMemory) (applied : List Patch) (A : Assignment L)
    (s : MmuState) : Prop where
  laidOut : LaidOut L s.conf
  /-- The tables in use are the tables of the assignment. -/
  table_iff : ∀ j i, A.table j = some i ↔ i < L.numTables ∧ (s.conf.l2Tables i).inUse = true ∧
    (s.conf.l2Tables i).virtPageMapped.toNat = j * 2 ^ 20
  page_eq : ∀ i < L.numTables, ∀ k, A.page i k = (s.conf.l2Tables i).physMem k
  unused : ∀ i < L.numTables, (s.conf.l2Tables i).inUse = false → ∀ k, A.page i k = 0
  index_le : s.backingPageIndex.toNat ≤ L.numPages
  /-- Backing pages come from the part of the pool that has been handed out. -/
  page_range : ∀ i < L.numTables, ∀ k, A.page i k ≠ 0 →
    ∃ n < s.backingPageIndex.toNat, (A.page i k).toNat = L.pages.toNat + 2 ^ 16 * n
  page_inj : ∀ i < L.numTables, ∀ k, ∀ i' < L.numTables, ∀ k', A.page i k ≠ 0 →
    A.page i k = A.page i' k' → i = i' ∧ k = k'
  represents : Represents L m₀ (flagsNew m₀) A s.mem
  contents : ∀ j i k, A.table j = some i → k < 16 → A.page i k ≠ 0 → ∀ x < 2 ^ 16,
    s.mem ((A.page i k).toNat + x) = patchedRom m₀ applied (j * 2 ^ 20 + k * 2 ^ 16 + x)
  page_of_applied : ∀ p ∈ applied, ∃ i, A.table (p.addr.toNat / 2 ^ 20) = some i ∧
    A.page i (p.addr.toNat / 2 ^ 16 % 16) ≠ 0
  applied_of_page : ∀ j i k, A.table j = some i → k < 16 → A.page i k ≠ 0 →
    ∃ p ∈ applied, p.addr.toNat / 2 ^ 16 = j * 16 + k
  in_page : ∀ p ∈ applied, p.addr.toNat % 2 ^ 16 + p.newBytes.length ≤ 2 ^ 16

variable {L : Layout} {m₀ : ByteMemory} {applied : List Patch} {A A' : Assignment L} {s : MmuState}
  {t a j i k : ℕ} {b index : UInt32}

theorem Initial.inv (h : Initial L s) : ∃ A, Inv L s.mem [] A s := by
  refine ⟨⟨fun _ => false, fun _ => none, fun _ _ => 0, by simp, by simp, by simp, by simp⟩,
    ⟨h.laidOut, fun j i => ?_, fun i hi k => (h.null i hi k).symm, by simp, by simp [h.index],
      by simp, by simp, ⟨fun j _ => ?_, by simp, fun _ _ => rfl⟩, by simp, by simp, by simp,
      by simp⟩⟩
  · simp only [reduceCtorEq, false_iff, not_and]
    intro hi huse
    rw [h.unused i hi] at huse
    exact absurd huse Bool.false_ne_true
  · rfl

theorem Inv.rom_eq (h : Inv L m₀ applied A s) (hx : romBaseAddr.toNat ≤ x) : s.mem x = m₀ x :=
  h.represents.outside x (L.outside_of_rom hx)

/-- The table that a call uses, in terms of the assignment; the megabyte has no other table. -/
theorem Inv.uses (h : Inv L m₀ applied A s) (huse : Uses s p t) :
    t < L.numTables ∧
      ((s.conf.l2Tables t).inUse = true → A.table (p.addr.toNat / 2 ^ 20) = some t) ∧
      ((s.conf.l2Tables t).inUse = false → ∀ j, A.table j ≠ some t) ∧
      ∀ i, A.table (p.addr.toNat / 2 ^ 20) = some i → i = t := by
  obtain ⟨ht, hcases⟩ := huse
  rw [h.laidOut.maxL2Tables] at ht hcases
  have hround := BitField.toNat_and_high p.addr 0xfff00000 20 (by decide) rfl
  refine ⟨ht, fun hin => ?_, fun hout j hj => ?_, fun i htable => ?_⟩
  · obtain ⟨-, hvirt⟩ | ⟨hout, -⟩ := hcases
    · exact (h.table_iff _ t).2 ⟨ht, hin, by rw [hvirt, hround]⟩
    · rw [hin] at hout
      exact absurd hout.symm Bool.false_ne_true
  · have := ((h.table_iff j t).1 hj).2.1
    rw [hout] at this
    exact absurd this Bool.false_ne_true
  · obtain ⟨hi, hin, hvirt⟩ := (h.table_iff _ i).1 htable
    obtain ⟨hin', hvirt'⟩ | ⟨-, hnone⟩ := hcases
    · have ht' := (h.table_iff _ t).2 ⟨ht, hin', by rw [hvirt', hround]⟩
      exact some.inj (htable.symm.trans ht')
    · refine absurd ⟨hin, ?_⟩ (hnone i hi)
      rw [← UInt32.toNat_inj, hvirt, hround]

/-- What is known of the backing page that a call uses: it lies in the pool, no other page has it,
and it holds the ROM page with the patches applied so far. -/
structure Backs (L : Layout) (m₀ : ByteMemory) (applied : List Patch) (A : Assignment L)
    (s : MmuState) (p : Patch) (t : ℕ) (b : UInt32) (m : ByteMemory) (index : UInt32) : Prop where
  range : ∃ n < index.toNat, b.toNat = L.pages.toNat + 2 ^ 16 * n
  le_index : s.backingPageIndex.toNat ≤ index.toNat
  index_le : index.toNat ≤ L.numPages
  own : ∀ i < L.numTables, ∀ k, A.page i k = b → i = t ∧ k = p.addr.toNat / 2 ^ 16 % 16
  eqOff : ByteMemory.EqOff s.mem m b.toNat (2 ^ 16)
  contents : ∀ x < 2 ^ 16,
    m (b.toNat + x) = patchedRom m₀ applied (p.addr.toNat / 2 ^ 16 * 2 ^ 16 + x)

theorem Backs.ne_zero (h : Backs L m₀ applied A s p t b m index) : b ≠ 0 := by
  rintro rfl
  obtain ⟨n, -, hb⟩ := h.range
  have := L.pages_pos
  rw [show (0 : UInt32).toNat = 0 from rfl] at hb
  omega

section

variable (h : Inv L m₀ applied A s)

include h

/-- A page of the ROM without a backing page has not been patched. -/
theorem Inv.patchedRom_eq (hnone : ∀ i, A.table (a / 2 ^ 20) = some i →
      A.page i (a / 2 ^ 16 % 16) = 0) (hx : x / 2 ^ 16 = a / 2 ^ 16) :
    patchedRom m₀ applied x = m₀ x := by
  refine patchedRom_of_forall_ne fun q hq => ⟨h.in_page q hq, fun hpage => ?_⟩
  obtain ⟨i, htable, hne⟩ := h.page_of_applied q hq
  have hj : q.addr.toNat / 2 ^ 20 = a / 2 ^ 20 := by omega
  have hk : q.addr.toNat / 2 ^ 16 % 16 = a / 2 ^ 16 % 16 := by omega
  rw [hj] at htable
  rw [hk] at hne
  exact hne (hnone i htable)

theorem Inv.backs (hp : RomPatch p) (huse : Uses s p t)
    (hprov : Provides s p t b m index) : Backs L m₀ applied A s p t b m index := by
  obtain ⟨ht, hin, -, hother⟩ := h.uses huse
  have hindex := h.index_le
  cases hprov with
  | old hne =>
    rw [pageNumber_eq, ← h.page_eq t ht] at hne ⊢
    have htable : A.table (p.addr.toNat / 2 ^ 20) = some t := by
      refine hin ((Bool.not_eq_false _).mp fun hfalse => hne (h.unused t ht hfalse _))
    refine ⟨h.page_range t ht _ hne, le_rfl, hindex, fun i hi k hik => ?_, .rfl, fun x hx => ?_⟩
    · obtain ⟨rfl, rfl⟩ := h.page_inj t ht _ i hi k hne hik.symm
      exact ⟨rfl, rfl⟩
    · have hpage : p.addr.toNat / 2 ^ 20 * 2 ^ 20 + p.addr.toNat / 2 ^ 16 % 16 * 2 ^ 16 =
          p.addr.toNat / 2 ^ 16 * 2 ^ 16 := by omega
      rw [h.contents _ t _ htable (by omega) hne x hx, hpage]
  | new hnull hlt =>
    rw [pageNumber_eq, ← h.page_eq t ht] at hnull
    have hlt' : s.backingPageIndex.toNat < L.numPages := by
      rw [← h.laidOut.max64kPagesRemapped]
      exact UInt32.lt_iff_toNat_lt.1 hlt
    have hle := L.pages_le
    have hrom : romBaseAddr.toNat < 2 ^ 32 := romBaseAddr.toNat_lt
    have hb : (s.conf.physMemPages + mmuPageSize * s.backingPageIndex).toNat =
        L.pages.toNat + 2 ^ 16 * s.backingPageIndex.toNat := by
      rw [h.laidOut.physMemPages, UInt32.toNat_add, UInt32.toNat_mul,
        show mmuPageSize.toNat = 2 ^ 16 from rfl]
      omega
    have hnext : (s.backingPageIndex + 1).toNat = s.backingPageIndex.toNat + 1 := by
      rw [UInt32.toNat_add, show (1 : UInt32).toNat = 1 from rfl]
      omega
    have hround := BitField.toNat_and_high p.addr 0xffff0000 16 (by decide) rfl
    have hsize : mmuPageSize.toNat = 2 ^ 16 := rfl
    rw [hround, hsize]
    refine ⟨⟨_, by omega, hb⟩, by omega, by omega, fun i hi k hik => ?_, ?_, fun x hx => ?_⟩
    · -- The next page of the pool has not been handed out.
      have hpos : A.page i k ≠ 0 := by
        intro hzero
        have := L.pages_pos
        rw [← hik, hzero, show (0 : UInt32).toNat = 0 from rfl] at hb
        omega
      obtain ⟨n, hn, hpage⟩ := h.page_range i hi k hpos
      rw [hik] at hpage
      omega
    · exact eqOff_copy _ _ _ _
    · rw [writeBytes_readBytes _ _ _ hx]
      have hpatched : patchedRom m₀ applied (p.addr.toNat / 2 ^ 16 * 2 ^ 16 + x) =
          m₀ (p.addr.toNat / 2 ^ 16 * 2 ^ 16 + x) := by
        refine h.patchedRom_eq (a := p.addr.toNat) (fun i htable => ?_) (by omega)
        rw [hother i htable]
        exact hnull
      have hromaddr := hp.rom
      have hbase : romBaseAddr.toNat = 0xE000 * 2 ^ 16 := by decide
      rw [hpatched, h.rom_eq (by omega)]

variable (huse : Uses s p t)
  (hA' : A.Remaps A' (p.addr.toNat / 2 ^ 20) t (p.addr.toNat / 2 ^ 16 % 16) b)

include huse hA'

theorem Inv.remaps_cases (hi : A'.table j = some i) (hne : A'.page i k ≠ 0) :
    (j = p.addr.toNat / 2 ^ 20 ∧ i = t ∧ k = p.addr.toNat / 2 ^ 16 % 16) ∨
      ((i ≠ t ∨ k ≠ p.addr.toNat / 2 ^ 16 % 16) ∧ A.table j = some i ∧
        A'.page i k = A.page i k) := by
  obtain ⟨ht, hin, -⟩ := h.uses huse
  by_cases hit : i = t
  · subst hit
    have hj := A'.table_inj _ _ _ hi hA'.table
    by_cases hk : k = p.addr.toNat / 2 ^ 16 % 16
    · exact .inl ⟨hj, rfl, hk⟩
    · have hpage := hA'.page_of_ne i k (.inr hk)
      refine .inr ⟨.inr hk, hj ▸ hin ?_, hpage⟩
      -- A table with a page is in use.
      refine (Bool.not_eq_false _).mp fun hfalse => hne ?_
      rw [hpage, h.unused i ht hfalse]
  · have hj : j ≠ p.addr.toNat / 2 ^ 20 := by
      rintro rfl
      exact hit (some.inj (hi.symm.trans hA'.table))
    exact .inr ⟨.inl hit, (hA'.table_of_ne j hj).symm.trans hi, hA'.page_of_ne i k (.inl hit)⟩

theorem Inv.remaps_old (hb : b ≠ 0) (hi : A.table j = some i) (hne : A.page i k ≠ 0) :
    A'.table j = some i ∧ A'.page i k ≠ 0 := by
  by_cases hj : j = p.addr.toNat / 2 ^ 20
  · subst hj
    obtain rfl := (h.uses huse).2.2.2 i hi
    refine ⟨hA'.table, ?_⟩
    by_cases hk : k = p.addr.toNat / 2 ^ 16 % 16
    · rw [hk, hA'.page]
      exact hb
    · rwa [hA'.page_of_ne i k (.inr hk)]
  · have hi' : A'.table j = some i := (hA'.table_of_ne j hj).trans hi
    have hit : i ≠ t := by
      rintro rfl
      exact hj (A'.table_inj _ _ _ hi' hA'.table)
    exact ⟨hi', by rwa [hA'.page_of_ne i k (.inl hit)]⟩

/-- The descriptions of the tables after a call are those of the new assignment. -/
theorem Inv.remaps_table_iff (m : ByteMemory) (index : UInt32) (j i : ℕ) :
    A'.table j = some i ↔ i < L.numTables ∧
      ((remapped s p t b m index).conf.l2Tables i).inUse = true ∧
      ((remapped s p t b m index).conf.l2Tables i).virtPageMapped.toNat = j * 2 ^ 20 := by
  obtain ⟨ht, -, -, hother⟩ := h.uses huse
  have hround := BitField.toNat_and_high p.addr 0xfff00000 20 (by decide) rfl
  by_cases hit : i = t
  · subst hit
    simp only [remapped, setInfo_l2Tables_self, hround, true_and]
    constructor
    · intro hi
      exact ⟨ht, by rw [A'.table_inj _ _ _ hi hA'.table]⟩
    · rintro ⟨-, hj⟩
      obtain rfl : j = p.addr.toNat / 2 ^ 20 := by omega
      exact hA'.table
  · have hinfo : (remapped s p t b m index).conf.l2Tables i = s.conf.l2Tables i := by
      simp [hit]
    rw [hinfo, ← h.table_iff]
    by_cases hj : j = p.addr.toNat / 2 ^ 20
    · subst hj
      rw [hA'.table]
      constructor
      · intro hi
        exact absurd (some.inj hi).symm hit
      · intro hi
        exact absurd (hother i hi) hit
    · rw [hA'.table_of_ne j hj]

omit h huse hA' in
theorem pages_disjoint {n n' : ℕ} {b' : UInt32} (hb : b.toNat = a + 2 ^ 16 * n)
    (hb' : b'.toNat = a + 2 ^ 16 * n') (hne : b' ≠ b) (hx : x < 2 ^ 16) :
    b'.toNat + x < b.toNat ∨ b.toNat + 2 ^ 16 ≤ b'.toNat + x := by
  have : n ≠ n' := by
    rintro rfl
    exact hne (UInt32.toNat_inj.1 (hb'.trans hb.symm))
  omega

theorem Inv.remaps_contents {M : ByteMemory} (hb : Backs L m₀ applied A s p t b m index)
    (hin : p.addr.toNat % 2 ^ 16 + p.newBytes.length ≤ 2 ^ 16) (hM : ∀ x, L.InPool x → M x = m x)
    (hi : A'.table j = some i) (hk : k < 16) (hne : A'.page i k ≠ 0) (hx : x < 2 ^ 16) :
    M.writeBytes (b.toNat + p.addr.toNat % 2 ^ 16) p.newBytes ((A'.page i k).toNat + x) =
      patchedRom m₀ (applied ++ [p]) (j * 2 ^ 20 + k * 2 ^ 16 + x) := by
  obtain ⟨n, hn, hbn⟩ := hb.range
  have hindex := hb.index_le
  rw [patchedRom_append]
  obtain ⟨rfl, rfl, rfl⟩ | ⟨hother, htable, hpage⟩ := h.remaps_cases huse hA' hi hne
  · -- The page of the patch: the bytes of the patch, or what the page held.
    rw [hA'.page]
    have hpos : p.addr.toNat / 2 ^ 20 * 2 ^ 20 + p.addr.toNat / 2 ^ 16 % 16 * 2 ^ 16 =
        p.addr.toNat / 2 ^ 16 * 2 ^ 16 := by omega
    rw [hpos]
    by_cases hxr : p.addr.toNat % 2 ^ 16 ≤ x ∧ x < p.addr.toNat % 2 ^ 16 + p.newBytes.length
    · rw [writeBytes_of_mem _ (by omega) (by omega),
        writeBytes_of_mem _ (by omega) (by omega)]
      congr 1
      omega
    · rw [writeBytes_of_notMem _ (by omega),
        writeBytes_of_notMem _ (by omega), hM _ ⟨by omega, by omega⟩,
        hb.contents x hx]
  · -- Any other page: neither its contents nor its ROM page are touched.
    have hne' : A.page i k ≠ 0 := hpage ▸ hne
    have hi' := (A.table_rom j i htable).2.1
    obtain ⟨n', hn', hbn'⟩ := h.page_range i hi' k hne'
    have hlt := h.index_le
    have hdisj := pages_disjoint hbn hbn' (fun heq => by
      obtain ⟨rfl, rfl⟩ := hb.own i hi' k heq
      exact hother.elim (fun h => h rfl) fun h => h rfl) hx
    have hrom : j * 16 + k ≠ p.addr.toNat / 2 ^ 16 := by
      intro heq
      obtain rfl : j = p.addr.toNat / 2 ^ 20 := by omega
      obtain rfl : i = t := some.inj (hi.symm.trans hA'.table)
      exact hother.elim (fun h => h rfl) fun h => h (by omega)
    rw [hpage, writeBytes_of_notMem _ (by omega),
      writeBytes_of_notMem _ (by omega), hM _ ⟨by omega, by omega⟩,
      hb.eqOff _ (by omega), h.contents j i k htable hk hne' x hx]

end

/-- **One call keeps the invariant**: it fails and changes nothing, or it applies its patch. -/
theorem Inv.step (h : Inv L m₀ applied A s) (hrom : RomMapped L m₀) (hp : RomPatch p)
    (hend : EndsInSpace p) :
    applyDataPatch s p = (s, Patching.ePatchBadMmuPage) ∨
      ((applyDataPatch s p).2 = ePatchOk ∧
        ∃ A', Inv L m₀ (applied ++ [p]) A' (applyDataPatch s p).1) := by
  have hsize : ¬ p.size < 4 := by
    rw [UInt32.lt_iff_toNat_lt, not_lt]
    exact hp.size
  obtain hfail | ⟨t, b, m, index, hcross, huse, hprov, heq⟩ := applyDataPatch_cases s hsize
  · exact .inl hfail
  right
  obtain ⟨ht, hinUse, hfree, -⟩ := h.uses huse
  have hb := h.backs hp huse hprov
  have hpage := hp.in_page hend hcross
  have hflags : flagsNew s.mem = flagsNew m₀ := flagsNew_congr fun x hx => h.rom_eq hx
  obtain ⟨n, hn, hbn⟩ := hb.range
  have hindex := hb.index_le
  have hpages := L.pages_aligned
  have hoff : (b + (p.addr &&& 0xffff)).toNat = b.toNat + p.addr.toNat % 2 ^ 16 := by
    have hlow := BitField.toNat_and_low p.addr 0xffff 16 rfl
    rw [toNat_add_of_aligned 16 (by decide) (by omega) (by omega), hlow]
  obtain ⟨⟨A', hrep, hA'⟩, hpool⟩ := (h.represents.of_pages
    (hb.eqOff.mono (by omega) (by omega))).remap hrom hp.rom ht (by omega) hb.ne_zero hinUse
      fun hf => ⟨hfree hf, fun k _ => h.unused t ht hf k⟩
  rw [heq]
  refine ⟨rfl, A', ⟨h.laidOut.l1Table, h.laidOut.maxL2Tables, fun i hi => ?_,
    h.laidOut.max64kPagesRemapped, h.laidOut.physMemPages⟩,
    h.remaps_table_iff huse hA' m index, fun i hi k => ?_, fun i hi hout k => ?_, hb.index_le,
    fun i hi k hne => ?_, fun i hi k i' hi' k' hne hik => ?_, ?_, fun j i k hi hk hne x hx => ?_,
    fun q hq => ?_, fun j i k hi hk hne => ?_, fun q hq => ?_⟩
  · by_cases hit : i = t
    · subst hit
      simpa using h.laidOut.l2Table i hi
    · simpa [hit] using h.laidOut.l2Table i hi
  · by_cases hit : i = t
    · subst hit
      simp only [remapped, setInfo_l2Tables_self, pageNumber_eq]
      by_cases hk : k = p.addr.toNat / 2 ^ 16 % 16
      · rw [hk, hA'.page, Function.update_self]
      · rw [hA'.page_of_ne i k (.inr hk), Function.update_of_ne hk, h.page_eq i hi]
    · rw [hA'.page_of_ne i k (.inl hit), h.page_eq i hi]
      simp [hit]
  · by_cases hit : i = t
    · subst hit
      simp at hout
    · rw [hA'.page_of_ne i k (.inl hit)]
      exact h.unused i hi (by simpa [hit] using hout) k
  · by_cases hik : i = t ∧ k = p.addr.toNat / 2 ^ 16 % 16
    · rw [hik.1, hik.2, hA'.page]
      exact hb.range
    · have hold := hA'.page_of_ne i k (not_and_or.1 hik)
      obtain ⟨n', hn', hbn'⟩ := h.page_range i hi k (hold ▸ hne)
      exact ⟨n', hn'.trans_le hb.le_index, by rw [hold, hbn']⟩
  · by_cases h₁ : i = t ∧ k = p.addr.toNat / 2 ^ 16 % 16 <;>
      by_cases h₂ : i' = t ∧ k' = p.addr.toNat / 2 ^ 16 % 16
    · exact ⟨h₁.1.trans h₂.1.symm, h₁.2.trans h₂.2.symm⟩
    · rw [h₁.1, h₁.2, hA'.page, hA'.page_of_ne i' k' (not_and_or.1 h₂)] at hik
      exact absurd (hb.own i' hi' k' hik.symm) h₂
    · rw [h₂.1, h₂.2, hA'.page, hA'.page_of_ne i k (not_and_or.1 h₁)] at hik
      exact absurd (hb.own i hi k hik) h₁
    · rw [hA'.page_of_ne i k (not_and_or.1 h₁)] at hne hik
      rw [hA'.page_of_ne i' k' (not_and_or.1 h₂)] at hik
      exact h.page_inj i hi k i' hi' k' hne hik
  · have hwrite := eqOff_writeBytes (remapTables m p.addr L.l1 (L.l2 t) b
      (s.conf.l2Tables t).inUse (flagsNew m₀)) (b.toNat + p.addr.toNat % 2 ^ 16) p.newBytes
    have := hrep.of_pages (hwrite.mono (by omega) (by omega))
    simpa only [remapped, hoff, hflags, h.laidOut.l1Table, h.laidOut.l2Table t ht] using this
  · have := h.remaps_contents huse hA' hb hpage hpool hi hk hne hx
    simpa only [remapped, hoff, hflags, h.laidOut.l1Table, h.laidOut.l2Table t ht] using this
  · rcases mem_append.1 hq with hq | hq
    · obtain ⟨i, hi, hne⟩ := h.page_of_applied q hq
      exact ⟨i, h.remaps_old huse hA' hb.ne_zero hi hne⟩
    · rw [mem_singleton.1 hq]
      exact ⟨t, hA'.table, hA'.page.symm ▸ hb.ne_zero⟩
  · obtain ⟨rfl, rfl, rfl⟩ | ⟨-, htable, hold⟩ := h.remaps_cases huse hA' hi hne
    · exact ⟨p, by simp, by omega⟩
    · obtain ⟨q, hq, hqj⟩ := h.applied_of_page j i k htable hk (hold ▸ hne)
      exact ⟨q, mem_append_left _ hq, hqj⟩
  · rcases mem_append.1 hq with hq | hq
    · exact h.in_page q hq
    · rw [mem_singleton.1 hq]
      exact hpage

/-! ### Runs -/

theorem applyDataPatches_append (s : MmuState) (ps : List Patch) (p : Patch) :
    applyDataPatches s (ps ++ [p]) =
      ((applyDataPatch (applyDataPatches s ps).1 p).1,
        if (applyDataPatch (applyDataPatches s ps).1 p).2 == ePatchOk
        then (applyDataPatches s ps).2 ++ [p] else (applyDataPatches s ps).2) := by
  simp [applyDataPatches]

/-- The invariant holds after every sequence of calls. -/
theorem Initial.run (h : Initial L s) {ps : List Patch}
    (hps : ∀ p ∈ ps, RomPatch p ∧ EndsInSpace p) :
    ∃ A, Inv L s.mem (applyDataPatches s ps).2 A (applyDataPatches s ps).1 := by
  induction ps using reverseRecOn with
  | nil => exact h.inv
  | append_singleton ps p ih =>
    obtain ⟨A, hA⟩ := ih fun q hq => hps q (mem_append_left _ hq)
    obtain ⟨hp, hend⟩ := hps p (by simp)
    rw [applyDataPatches_append]
    obtain hfail | ⟨hok, A', hA'⟩ := hA.step h.rom hp hend
    · rw [hfail]
      exact ⟨A, hA⟩
    · simp only [hok, beq_self_eq_true]
      exact ⟨A', hA'⟩

end MagicLantern.Mmu

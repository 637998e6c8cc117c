import MagicLantern.Mmu.Tables
import MagicLantern.Patching.Basic

/-!
# Remapping ROM pages

`apply_data_patch` patches ROM by giving its 64 KiB page a backing page in RAM: the ROM page is
copied to the next free backing page, the supersection around it is split, the megabyte around it
gets an L2 table of its own, and the entries of the page are pointed at the copy, which is then
edited. Tables and backing pages are taken from pools shared by all patches; a page that is
already remapped is used again.

The function does not switch the processor to the edited tables, so its own loads, of the ROM page
and of Canon's table, are from physical memory.

Source: `src/src/patch_mmu.c`; `src/src/patch_mmu.h`.
-/

namespace MagicLantern.Mmu

open Option

open Patching (Patch ePatchOk ePatchBadMmuPage ePatchTooSmall)

/-- `CANON_ORIG_MMU_TABLE_ADDR`. -/
def canonOrigMmuTableAddr : UInt32 := 0xE0000000

/-- `MAIN_FIRMWARE_ADDR & 0xff000000`. -/
def romBaseAddr : UInt32 := 0xE0000000

/-- `struct mmu_L2_page_info`. -/
structure L2PageInfo where
  /-- The backing pages of the 16 large pages of the megabyte; `0` is the null pointer. -/
  physMem : ℕ → UInt32
  /-- The address of the L2 table. -/
  l2Table : UInt32
  /-- The address of the megabyte that is remapped. -/
  virtPageMapped : UInt32
  inUse : Bool

/-- `struct mmu_config`. -/
structure MmuConfig where
  l1Table : UInt32
  /-- The number of L2 tables. -/
  maxL2Tables : ℕ
  /-- The array of descriptions of the L2 tables. -/
  l2Tables : ℕ → L2PageInfo
  /-- The number of backing pages. -/
  max64kPagesRemapped : UInt32
  /-- The address of the first backing page. -/
  physMemPages : UInt32

/-- Physical memory, `global_mmu_conf` and the static variable of `assign_64k_to_L2_table`. -/
structure MmuState where
  /-- Physical memory. -/
  mem : ByteMemory
  /-- `global_mmu_conf`. -/
  conf : MmuConfig
  /-- `backing_page_index`: the number of backing pages handed out. -/
  backingPageIndex : UInt32

/-- The number of a patched page within its megabyte. -/
def pageNumber (addr : UInt32) : ℕ := ((addr &&& 0x000f0000) >>> 16).toNat

/-- The configuration with another description of table `t`. -/
@[simp] def MmuConfig.setInfo (c : MmuConfig) (t : ℕ) (info : L2PageInfo) : MmuConfig :=
  { c with l2Tables := Function.update c.l2Tables t info }

/-- `assign_64k_to_L2_table`; `none` is the return value `-1`. -/
def assign64kToL2Table (s : MmuState) (p : Patch) (t : ℕ) : Option MmuState :=
  let i := pageNumber p.addr
  let info := s.conf.l2Tables t
  if info.physMem i == 0 then
    if s.backingPageIndex ≥ s.conf.max64kPagesRemapped then none
    else
      let page := s.conf.physMemPages + mmuPageSize * s.backingPageIndex
      some
        { mem := s.mem.writeBytes page.toNat
            (s.mem.readBytes (p.addr &&& 0xffff0000).toNat mmuPageSize.toNat)
          conf := s.conf.setInfo t
            { info with physMem := Function.update info.physMem i page }
          backingPageIndex := s.backingPageIndex + 1 }
  else some s

/-- The loop of `find_L2_for_patch`, from table `i - 1` down: the table used for the megabyte
`virtPage` with `true`, or else the first unused table with `false`. -/
def searchL2 (tables : ℕ → L2PageInfo) (virtPage : UInt32) : ℕ → Option ℕ → Option (ℕ × Bool)
  | 0, unused => unused.map (·, false)
  | i + 1, unused =>
    if (tables i).virtPageMapped == virtPage && (tables i).inUse then some (i, true)
    else if !(tables i).inUse then searchL2 tables virtPage i (some i)
    else searchL2 tables virtPage i unused

/-- `find_L2_for_patch`, with the number of the table; `none` is the null pointer. -/
def findL2ForPatch (s : MmuState) (p : Patch) : Option (MmuState × ℕ) :=
  let virtPage := p.addr &&& 0xfff00000
  if p.addr + p.size > (p.addr &&& 0xffff0000) + mmuPageSize then none
  else
    match searchL2 s.conf.l2Tables virtPage s.conf.maxL2Tables none with
    | none => none
    | some (t, true) => (assign64kToL2Table s p t).map (·, t)
    | some (t, false) => (assign64kToL2Table s p t).map fun s =>
        let info := { s.conf.l2Tables t with virtPageMapped := virtPage }
        ({ s with conf := s.conf.setInfo t info }, t)

/-- `flags_new`: the flags of the ROM with the memory type of the RAM. -/
def flagsNew (m : ByteMemory) : UInt32 :=
  let flagsRom := getL2LargepageFlagsFromL1Section m romBaseAddr canonOrigMmuTableAddr
  let flagsRam := getL2LargepageFlagsFromL1Section m 0x10000000 canonOrigMmuTableAddr
  (flagsRom &&& ~~~l2LargepageMemtypeMask) ||| (flagsRam &&& l2LargepageMemtypeMask)

/-- The edits that `apply_data_patch` makes to the tables, for a page `page` and a table at `l2`
that is in use or not. -/
def remapTables (m : ByteMemory) (addr l1 l2 page : UInt32) (inUse : Bool) (flags : UInt32) :
    ByteMemory :=
  let m₁ := (splitL1Supersection m addr l1).1
  -- A new table is only written the first time a page of its megabyte is remapped.
  let m₂ := if inUse then m₁ else replaceSectionWithL2Table m₁ addr l1 l2 flags
  replaceRomPage m₂ (addr &&& 0xffff0000) page l2 flags

/-- The part of `apply_data_patch` after the page and its table `t` have been found. -/
def remapPage (s : MmuState) (p : Patch) (t : ℕ) (flags : UInt32) : MmuState :=
  let info := s.conf.l2Tables t
  let page := info.physMem (pageNumber p.addr)
  let m := remapTables s.mem p.addr s.conf.l1Table info.l2Table page info.inUse flags
  { s with
    mem := m.writeBytes (page + (p.addr &&& 0xffff)).toNat p.newBytes
    conf := s.conf.setInfo t { info with inUse := true } }

/-- The rest of `apply_data_patch`, for the result of `find_L2_for_patch`. -/
def applyDataPatchAt (s : MmuState) (p : Patch) (flags : UInt32) :
    Option (MmuState × ℕ) → MmuState × UInt32
  | none => (s, ePatchBadMmuPage)
  | some (s₁, t) =>
    if p.size < 4 then (s₁, ePatchTooSmall)
    else (remapPage s₁ p t flags, ePatchOk)

/-- `apply_data_patch`. -/
def applyDataPatch (s : MmuState) (p : Patch) : MmuState × UInt32 :=
  applyDataPatchAt s p (flagsNew s.mem) (findL2ForPatch s p)

/-- A sequence of calls of `apply_data_patch`, with the patches that were applied. -/
def applyDataPatches (s : MmuState) (ps : List Patch) : MmuState × List Patch :=
  ps.foldl (fun r p =>
    let r' := applyDataPatch r.1 p
    (r'.1, if r'.2 == ePatchOk then r.2 ++ [p] else r.2)) (s, [])

/-! ### What a call does -/

theorem pageNumber_eq (addr : UInt32) : pageNumber addr = addr.toNat / 2 ^ 16 % 16 := by
  have hfield := BitField.toNat_and_field addr 0x000f0000 16 4 rfl
  rw [pageNumber, UInt32.toNat_shiftRight]
  simp only [UInt32.reduceToNat, Nat.reduceMod]
  omega

variable {m : ByteMemory} {tables : ℕ → L2PageInfo} {v : UInt32} {n t : ℕ} {unused : Option ℕ}
  {p : Patch}

theorem flagsNew_congr {m' : ByteMemory} (h : ∀ x, romBaseAddr.toNat ≤ x → m x = m' x) :
    flagsNew m = flagsNew m' := by
  have hread (addr : UInt32) :
      m.readWord (canonOrigMmuTableAddr + ((addr &&& 0xfff00000) >>> 20) <<< 2).toNat =
        m'.readWord (canonOrigMmuTableAddr + ((addr &&& 0xfff00000) >>> 20) <<< 2).toNat := by
    rw [toNat_l1_entry (show canonOrigMmuTableAddr.toNat % 2 ^ 14 = 0 by decide)]
    refine ByteMemory.readWord_congr fun x hx _ => h x ((Nat.le_add_right _ _).trans hx)
  simp only [flagsNew, getL2LargepageFlagsFromL1Section, hread]

theorem searchL2_true (h : searchL2 tables v n unused = some (t, true)) :
    t < n ∧ (tables t).inUse = true ∧ (tables t).virtPageMapped = v := by
  fun_induction searchL2 tables v n unused with
  | case1 unused => cases unused <;> simp at h
  | case2 n _ hmatch =>
    obtain rfl : n = t := by simpa using h
    rw [Bool.and_eq_true, beq_iff_eq] at hmatch
    exact ⟨Nat.lt_succ_self n, hmatch.2, hmatch.1⟩
  | case3 _ _ _ _ ih | case4 _ _ _ _ ih => exact (ih h).imp_left Nat.lt_succ_of_lt

theorem searchL2_false (h : searchL2 tables v n unused = some (t, false)) :
    (t < n ∧ (tables t).inUse = false ∨ unused = some t) ∧
      ∀ i < n, ¬ ((tables i).inUse = true ∧ (tables i).virtPageMapped = v) := by
  fun_induction searchL2 tables v n unused with
  | case1 unused =>
    obtain ⟨u, hu, hut⟩ := map_eq_some_iff.1 h
    obtain rfl : u = t := by simpa using hut
    exact ⟨.inr hu, by omega⟩
  | case2 => simp at h
  | case3 n _ hmatch hunused ih =>
    obtain ⟨ht, hnone⟩ := ih h
    refine ⟨.inl ?_, Nat.forall_lt_succ_right.2 ⟨hnone, fun hi => hmatch (by simp [hi])⟩⟩
    rcases ht with ht | ht
    · exact ⟨by omega, ht.2⟩
    · obtain rfl : n = t := by simpa using ht
      exact ⟨Nat.lt_succ_self n, by simpa using hunused⟩
  | case4 n _ hmatch _ ih =>
    obtain ⟨ht, hnone⟩ := ih h
    exact ⟨ht.imp_left fun ht => ⟨by omega, ht.2⟩,
      Nat.forall_lt_succ_right.2 ⟨hnone, fun hi => hmatch (by simp [hi])⟩⟩

/-- The table that a call uses: the one of the megabyte, or an unused one when there is none. -/
def Uses (s : MmuState) (p : Patch) (t : ℕ) : Prop :=
  t < s.conf.maxL2Tables ∧
    (((s.conf.l2Tables t).inUse = true ∧
        (s.conf.l2Tables t).virtPageMapped = p.addr &&& 0xfff00000) ∨
      ((s.conf.l2Tables t).inUse = false ∧ ∀ i < s.conf.maxL2Tables,
        ¬ ((s.conf.l2Tables i).inUse = true ∧
          (s.conf.l2Tables i).virtPageMapped = p.addr &&& 0xfff00000)))

/-- The backing page `b` that a call uses, with memory and the number of pages handed out when
the page is there. -/
inductive Provides (s : MmuState) (p : Patch) (t : ℕ) : UInt32 → ByteMemory → UInt32 → Prop
  | old (h : (s.conf.l2Tables t).physMem (pageNumber p.addr) ≠ 0) :
      Provides s p t ((s.conf.l2Tables t).physMem (pageNumber p.addr)) s.mem s.backingPageIndex
  | new (h : (s.conf.l2Tables t).physMem (pageNumber p.addr) = 0)
      (hlt : s.backingPageIndex < s.conf.max64kPagesRemapped) :
      Provides s p t (s.conf.physMemPages + mmuPageSize * s.backingPageIndex)
        (s.mem.writeBytes (s.conf.physMemPages + mmuPageSize * s.backingPageIndex).toNat
          (s.mem.readBytes (p.addr &&& 0xffff0000).toNat mmuPageSize.toNat))
        (s.backingPageIndex + 1)

/-- The state after a call that found page `b` and table `t`. -/
@[simp] def remapped (s : MmuState) (p : Patch) (t : ℕ) (b : UInt32) (m : ByteMemory)
    (index : UInt32) : MmuState where
  mem := (remapTables m p.addr s.conf.l1Table (s.conf.l2Tables t).l2Table b
    (s.conf.l2Tables t).inUse (flagsNew s.mem)).writeBytes (b + (p.addr &&& 0xffff)).toNat
    p.newBytes
  conf := s.conf.setInfo t
    { physMem := Function.update (s.conf.l2Tables t).physMem (pageNumber p.addr) b
      l2Table := (s.conf.l2Tables t).l2Table
      virtPageMapped := p.addr &&& 0xfff00000
      inUse := true }
  backingPageIndex := index

theorem setInfo_self (c : MmuConfig) (t : ℕ) : c.setInfo t (c.l2Tables t) = c := by
  simp

@[simp] theorem setInfo_l1Table (c : MmuConfig) (t : ℕ) (info : L2PageInfo) :
    (c.setInfo t info).l1Table = c.l1Table := rfl

@[simp] theorem setInfo_setInfo (c : MmuConfig) (t : ℕ) (info info' : L2PageInfo) :
    (c.setInfo t info).setInfo t info' = c.setInfo t info' := by
  simp

@[simp] theorem setInfo_l2Tables_self (c : MmuConfig) (t : ℕ) (info : L2PageInfo) :
    (c.setInfo t info).l2Tables t = info := by
  simp

theorem assign64kToL2Table_eq_some {s s' : MmuState} (h : assign64kToL2Table s p t = some s') :
    ∃ b m index, Provides s p t b m index ∧ s' =
      { mem := m
        conf := s.conf.setInfo t { s.conf.l2Tables t with
          physMem := Function.update (s.conf.l2Tables t).physMem (pageNumber p.addr) b }
        backingPageIndex := index } := by
  simp only [assign64kToL2Table] at h
  split_ifs at h with hnull hfull
  · rw [beq_iff_eq] at hnull
    exact ⟨_, _, _, .new hnull (UInt32.not_le.1 hfull), (some.inj h).symm⟩
  · have hold : (s.conf.l2Tables t).physMem (pageNumber p.addr) ≠ 0 := by simpa using hnull
    refine ⟨_, _, _, .old hold, ?_⟩
    rw [Function.update_eq_self, setInfo_self]
    exact (some.inj h).symm

theorem findL2ForPatch_cases (s : MmuState) (p : Patch) :
    findL2ForPatch s p = none ∨ ∃ t b m index,
      ¬ p.addr + p.size > (p.addr &&& 0xffff0000) + mmuPageSize ∧ Uses s p t ∧
      Provides s p t b m index ∧ findL2ForPatch s p = some
        ({ mem := m
           conf := s.conf.setInfo t
            { physMem := Function.update (s.conf.l2Tables t).physMem (pageNumber p.addr) b
              l2Table := (s.conf.l2Tables t).l2Table
              virtPageMapped := p.addr &&& 0xfff00000
              inUse := (s.conf.l2Tables t).inUse }
           backingPageIndex := index }, t) := by
  by_cases hcross : p.addr + p.size > (p.addr &&& 0xffff0000) + mmuPageSize
  · exact .inl (by rw [findL2ForPatch, if_pos hcross])
  cases hsearch : searchL2 s.conf.l2Tables (p.addr &&& 0xfff00000) s.conf.maxL2Tables none with
  | none => exact .inl (by simp only [findL2ForPatch, if_neg hcross, hsearch])
  | some r =>
    obtain ⟨t, found⟩ := r
    cases hassign : assign64kToL2Table s p t with
    | none =>
      cases found <;>
        exact .inl (by simp only [findL2ForPatch, if_neg hcross, hsearch, hassign, map_none])
    | some s' =>
      obtain ⟨b, m, index, hprov, rfl⟩ := assign64kToL2Table_eq_some hassign
      cases found with
      | true =>
        obtain ⟨ht, huse, hvirt⟩ := searchL2_true hsearch
        refine .inr ⟨t, b, m, index, hcross, ⟨ht, .inl ⟨huse, hvirt⟩⟩, hprov, ?_⟩
        simp only [findL2ForPatch, if_neg hcross, hsearch, hassign, map_some, hvirt]
      | false =>
        obtain ⟨ht | ht, hnone⟩ := searchL2_false hsearch
        · refine .inr ⟨t, b, m, index, hcross, ⟨ht.1, .inr ⟨ht.2, hnone⟩⟩, hprov, ?_⟩
          simp only [findL2ForPatch, if_neg hcross, hsearch, hassign, map_some,
            setInfo_l2Tables_self, setInfo_setInfo]
        · exact absurd ht (by simp)

/-- **All that a call can do**: it fails and changes nothing, or it remaps the page to the backing
page it has or to the next free one. -/
theorem applyDataPatch_cases (s : MmuState) (hsize : ¬ p.size < 4) :
    applyDataPatch s p = (s, ePatchBadMmuPage) ∨ ∃ t b m index,
      ¬ p.addr + p.size > (p.addr &&& 0xffff0000) + mmuPageSize ∧ Uses s p t ∧
      Provides s p t b m index ∧ applyDataPatch s p = (remapped s p t b m index, ePatchOk) := by
  obtain hnone | ⟨t, b, m, index, hcross, huse, hprov, hfind⟩ := findL2ForPatch_cases s p
  · exact .inl (by rw [applyDataPatch, hnone, applyDataPatchAt])
  · refine .inr ⟨t, b, m, index, hcross, huse, hprov, ?_⟩
    rw [applyDataPatch, hfind, applyDataPatchAt, if_neg hsize]
    simp only [remapPage, remapped, setInfo_l1Table, setInfo_l2Tables_self, setInfo_setInfo,
      Function.update_self]

end MagicLantern.Mmu

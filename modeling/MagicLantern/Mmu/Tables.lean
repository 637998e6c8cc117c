import MagicLantern.Library.BitField
import MagicLantern.Library.ByteMemory

/-!
# Translation tables

The functions of `mmu_utils.c` edit translation tables of the short-descriptor format in place:
an L1 table of 4096 words, one for each megabyte, whose entries are supersections (16 equal words
for 16 MB), sections or references to L2 tables of 256 words, one for each 4 KiB, in which a large
page of 64 KiB takes 16 equal words.

The walk of the tables is the processor's (`walk`). It is written with arithmetic on bit fields,
while the functions keep the masks of the source; the lemmas on descriptors at the end connect
the two.

Source: `src/src/mmu_utils.c`, `src/src/mmu_utils.h`.
-/

namespace MagicLantern.Mmu

open List ByteMemory

/-- `MMU_PAGE_SIZE`. -/
def mmuPageSize : UInt32 := 0x10000

/-- `MMU_SECTION_SIZE`. -/
def mmuSectionSize : UInt32 := 0x100000

/-- `L2_LARGEPAGE_MEMTYPE_MASK`. -/
def l2LargepageMemtypeMask : UInt32 := 0x700c

/-! ### The table walk -/

/-- Entry `j` of the L1 table at `l1`. -/
def l1Entry (m : ByteMemory) (l1 : UInt32) (j : ℕ) : UInt32 := m.readWord (l1.toNat + 4 * j)

/-- The physical address of a virtual address in the megabyte of an L2 table at `l2`. -/
def walkL2 (m : ByteMemory) (l2 va : ℕ) : Option ℕ :=
  let d := (m.readWord (l2 + 4 * (va / 2 ^ 12 % 2 ^ 8))).toNat
  if d % 4 = 1 then some (d / 2 ^ 16 * 2 ^ 16 + va % 2 ^ 16)
  else if d % 4 = 0 then none
  else some (d / 2 ^ 12 * 2 ^ 12 + va % 2 ^ 12)

/-- The physical address that the entry `e` of the L1 table gives to a virtual address. A
supersection has eight more base bits, in bits 20 to 23 and 5 to 8. -/
def walkL1 (m : ByteMemory) (e va : ℕ) : Option ℕ :=
  if e % 4 = 1 then walkL2 m (e / 2 ^ 10 * 2 ^ 10) va
  else if e % 4 = 2 then
    if e / 2 ^ 18 % 2 = 0 then some (e / 2 ^ 20 * 2 ^ 20 + va % 2 ^ 20)
    else some (e / 2 ^ 5 % 2 ^ 4 * 2 ^ 36 + e / 2 ^ 20 % 2 ^ 4 * 2 ^ 32 +
      e / 2 ^ 24 * 2 ^ 24 + va % 2 ^ 24)
  else none

/-- The two-level table walk, from the L1 table at `l1`. -/
def walk (m : ByteMemory) (l1 va : UInt32) : Option ℕ :=
  walkL1 m (l1Entry m l1 (va.toNat / 2 ^ 20)).toNat va.toNat

/-! ### `mmu_utils.c` -/

/-- `get_l2_largepage_flags_from_l1_section`. -/
def getL2LargepageFlagsFromL1Section (m : ByteMemory) (addr l1tableaddr : UInt32) : UInt32 :=
  if l1tableaddr &&& 0x3fff != 0 then 0xffffffff
  else
    let addr := addr &&& 0xfff00000
    if addr < 0x2000000 then 0xffffffff
    else
      let sat := (addr >>> 20) <<< 2
      let val := m.readWord (l1tableaddr + sat).toNat
      if (val &&& 3) != 2 then 0xffffffff
      else
        let nGSApx : UInt32 := (val &&& 0x38000) >>> 6
        let tex : UInt32 := val &&& 0x7000
        let xn : UInt32 := (val &&& 0x10) <<< 11
        let cb : UInt32 := val &&& 0xc
        let ap : UInt32 := (val &&& 0xc00) >>> 6
        nGSApx ||| tex ||| xn ||| cb ||| ap

/-- The loop of `split_l1_supersection` over the 16 entries from address `base` on. -/
def splitLoop (base : UInt32) : List ℕ → ByteMemory → ByteMemory × ℤ
  | [], m => (m, 0)
  | n :: ns, m =>
    let entry := (base + UInt32.ofNat n * 4).toNat
    let val := m.readWord entry
    if (val &&& 0x40003) != 0x40002 then (m, -2)
    else splitLoop base ns
      (m.writeWord entry ((val &&& 0xfffbffff) ||| UInt32.ofNat n * mmuSectionSize))

/-- `split_l1_supersection`. -/
def splitL1Supersection (m : ByteMemory) (addr l1tableaddr : UInt32) : ByteMemory × ℤ :=
  if l1tableaddr &&& 0x3fff != 0 then (m, -1)
  else
    let addr := addr &&& 0xff000000
    if addr < 0x2000000 then (m, -3)
    else
      let modat := (addr >>> 24) <<< 6
      splitLoop (l1tableaddr + modat) (List.range 16) m

/-- `assign_l2_table_to_l1_section`. -/
def assignL2TableToL1Section (m : ByteMemory) (addr l1tableaddr l2tableaddr : UInt32) :
    ByteMemory × ℤ :=
  if l1tableaddr &&& 0x3fff != 0 || l2tableaddr &&& 0x3ff != 0 then (m, -1)
  else
    let addr := addr &&& 0xfff00000
    if addr < 0x2000000 then (m, -1)
    else
      let modat := (addr >>> 20) <<< 2
      let entry := (l1tableaddr + modat).toNat
      if m.readWord entry &&& 0x40003 == 0x40002 then (m, -2)
      else (m.writeWord entry (l2tableaddr ||| 1), 0)

/-- The inner loop of `create_l2_table` and `replace_large_page_in_l2_table`: the 16 words of a
large page. -/
def writeLargePage (m : ByteMemory) (l2tableaddr val : UInt32) : ByteMemory :=
  (List.range 16).foldl (fun m k => m.writeWord (l2tableaddr + UInt32.ofNat k * 4).toNat val) m

/-- `create_l2_table`. -/
def createL2Table (m : ByteMemory) (addr l2tableaddr flags : UInt32) : ByteMemory × ℤ :=
  if l2tableaddr &&& 0x3ff != 0 then (m, -1)
  else
    let addr := addr &&& 0xfff00000
    let flags := (flags &&& 0xfffffffc) ||| 1
    ((List.range 16).foldl (fun m n => writeLargePage m (l2tableaddr + UInt32.ofNat n * 0x40)
      ((addr + UInt32.ofNat n * mmuPageSize) ||| flags)) m, 0)

/-- `replace_large_page_in_l2_table`. -/
def replaceLargePageInL2Table (m : ByteMemory) (addr replacement l2tableaddr flags : UInt32) :
    ByteMemory × ℤ :=
  if l2tableaddr &&& 0x3ff != 0 || addr &&& 0xffff != 0 || replacement &&& 0xffff != 0 then
    (m, -1)
  else
    let flags := (flags &&& 0xfffffffc) ||| 1
    let addr := (addr >>> 16) &&& 0xf
    (writeLargePage m (l2tableaddr + addr * 0x40) (replacement ||| flags), 0)

/-- `replace_rom_page`. -/
def replaceRomPage (m : ByteMemory) (romaddr ramaddr l2addr flags : UInt32) : ByteMemory :=
  (replaceLargePageInL2Table m romaddr ramaddr l2addr flags).1

/-- `replace_section_with_l2_table`. -/
def replaceSectionWithL2Table (m : ByteMemory) (romaddr l1addr l2addr flags : UInt32) :
    ByteMemory :=
  (assignL2TableToL1Section (createL2Table m romaddr l2addr flags).1 romaddr l1addr l2addr).1

/-! ### Descriptors -/

/-- The word is a supersection. -/
def IsSupersection (e : UInt32) : Prop := e &&& 0x40003 = 0x40002

/-- What `split_l1_supersection` makes of the `n`-th word of a supersection. -/
def splitEntry (e : UInt32) (n : ℕ) : UInt32 :=
  (e &&& 0xfffbffff) ||| UInt32.ofNat n * mmuSectionSize

/-- The words of a large page at `base`. -/
def largePageEntry (base flags : UInt32) : UInt32 := base ||| ((flags &&& 0xfffffffc) ||| 1)

theorem isSupersection_iff (e : UInt32) :
    IsSupersection e ↔ e.toNat % 4 = 2 ∧ e.toNat / 2 ^ 18 % 2 = 1 := by
  have hsplit : (e &&& 0x40003).toNat = e.toNat / 2 ^ 18 % 2 ^ 1 * 2 ^ 18 + e.toNat % 4 := by
    have hor : e.toNat &&& 0x40003 = (e.toNat &&& 0x40000) ||| (e.toNat &&& 3) :=
      Nat.and_or_distrib_left e.toNat 0x40000 3
    have hhigh := BitField.and_field e.toNat 18 1
    have hlow := Nat.and_two_pow_sub_one_eq_mod e.toNat 2
    norm_num at hhigh hlow
    rw [UInt32.toNat_and, show (0x40003 : UInt32).toNat = 0x40003 from rfl, hor, hhigh, hlow]
    exact BitField.or_of_dvd (k := 18) (Dvd.intro_left _ rfl) (by omega)
  rw [IsSupersection, ← UInt32.toNat_inj,
    show (0x40002 : UInt32).toNat = 2 ^ 18 + 2 from rfl]
  omega

theorem toNat_section (n : ℕ) (hn : n < 16) :
    (UInt32.ofNat n * mmuSectionSize).toNat = n * 2 ^ 20 := by
  rw [UInt32.toNat_mul, UInt32.toNat_ofNat', show mmuSectionSize.toNat = 2 ^ 20 from rfl]
  omega

variable {n : ℕ} {base a : UInt32}

/-- Splitting gives sections, in order, when the extended base bits of the supersection are 0. -/
theorem splitEntry_fields {e : UInt32} (hn : n < 16) (hext : e.toNat / 2 ^ 20 % 16 = 0) :
    (splitEntry e n).toNat % 4 = e.toNat % 4 ∧ (splitEntry e n).toNat / 2 ^ 18 % 2 = 0 ∧
      (splitEntry e n).toNat / 2 ^ 20 = e.toNat / 2 ^ 20 + n := by
  have he := e.toNat_lt
  have hval : (splitEntry e n).toNat = (e.toNat &&& 0xfffbffff) ||| n * 2 ^ 20 := by
    rw [splitEntry, UInt32.toNat_or, toNat_section n hn]
    rfl
  refine ⟨?_, ?_, ?_⟩
  · have hn4 : n * 2 ^ 20 % 2 ^ 2 = 0 := by omega
    have hmask : e.toNat % 2 ^ 2 &&& 0xfffbffff % 2 ^ 2 = e.toNat % 2 ^ 2 := by
      rw [show 0xfffbffff % 2 ^ 2 = 2 ^ 2 - 1 from rfl, Nat.and_two_pow_sub_one_eq_mod]
      omega
    rw [hval, show (4 : ℕ) = 2 ^ 2 from rfl, Nat.or_mod_two_pow, Nat.and_mod_two_pow, hn4, hmask,
      Nat.or_zero]
  · have hn18 : n * 2 ^ 20 / 2 ^ 18 = n * 4 := by omega
    have heven : (e.toNat >>> 18 &&& 0x3ffe) % 2 = 0 := by
      rw [show (2 : ℕ) = 2 ^ 1 from rfl, Nat.and_mod_two_pow]
      simp
    rw [hval, ← Nat.shiftRight_eq_div_pow, Nat.shiftRight_or_distrib, Nat.shiftRight_and_distrib,
      Nat.shiftRight_eq_div_pow (n * 2 ^ 20), show (2 : ℕ) = 2 ^ 1 from rfl,
      Nat.or_mod_two_pow]
    simp
    omega
  · have hmask : e.toNat / 2 ^ 20 &&& 0xfff = e.toNat / 2 ^ 20 := by
      rw [show (0xfff : ℕ) = 2 ^ 12 - 1 from rfl, Nat.and_two_pow_sub_one_eq_mod]
      omega
    rw [hval, ← Nat.shiftRight_eq_div_pow, Nat.shiftRight_or_distrib, Nat.shiftRight_and_distrib,
      show 0xfffbffff >>> 20 = 0xfff from rfl, Nat.shiftRight_eq_div_pow,
      Nat.shiftRight_eq_div_pow, hmask, Nat.mul_div_cancel _ (by decide),
      BitField.or_of_dvd (k := 4) (by omega) (by omega)]

theorem tableReference_fields {l2 : UInt32} (hl2 : l2.toNat % 2 ^ 10 = 0) :
    (l2 ||| 1).toNat % 4 = 1 ∧ (l2 ||| 1).toNat / 2 ^ 10 * 2 ^ 10 = l2.toNat := by
  rw [BitField.toNat_or_of_dvd 10 (by omega) (by decide)]
  simp only [UInt32.reduceToNat]
  omega

/-! ### What the functions write -/

theorem and_low_eq_zero {m : UInt32} (w : ℕ) (hm : m.toNat = 2 ^ w - 1) (h : a.toNat % 2 ^ w = 0) :
    a &&& m = 0 := by
  rw [← UInt32.toNat_inj, BitField.toNat_and_low a m w hm, h]
  rfl

theorem toNat_add_of_aligned {b : UInt32} (k : ℕ) (hk : k ≤ 32) (ha : a.toNat % 2 ^ k = 0)
    (hb : b.toNat < 2 ^ k) : (a + b).toNat = a.toNat + b.toNat := by
  have hlt : a.toNat + b.toNat < 2 ^ 32 := by
    obtain ⟨c, hc⟩ := Nat.dvd_of_mod_eq_zero ha
    have hpow : (2 : ℕ) ^ 32 = 2 ^ k * 2 ^ (32 - k) := by
      rw [← pow_add, Nat.add_sub_cancel' hk]
    have hc' : c < 2 ^ (32 - k) := by
      have := a.toNat_lt
      rw [hc] at this
      exact Nat.lt_of_mul_lt_mul_left (this.trans_eq hpow)
    calc a.toNat + b.toNat < 2 ^ k * c + 2 ^ k := by omega
      _ = 2 ^ k * (c + 1) := by ring
      _ ≤ 2 ^ k * 2 ^ (32 - k) := Nat.mul_le_mul_left _ hc'
      _ = 2 ^ 32 := hpow.symm
  rw [UInt32.toNat_add, Nat.mod_eq_of_lt hlt]

theorem toNat_ofNat_mul {c : ℕ} (h : n * c < 2 ^ 32) :
    (UInt32.ofNat n * UInt32.ofNat c).toNat = n * c := by
  rw [← UInt32.ofNat_mul, UInt32.toNat_ofNat_of_lt' h]

section

variable {m : ByteMemory} {addr l1 l2 : UInt32} {k : ℕ} {ns : List ℕ}

theorem toNat_l1_entry (hl1 : l1.toNat % 2 ^ 14 = 0) :
    (l1 + ((addr &&& 0xfff00000) >>> 20) <<< 2).toNat = l1.toNat + 4 * (addr.toNat / 2 ^ 20) := by
  have ha := addr.toNat_lt
  have hoff : (((addr &&& 0xfff00000) >>> 20) <<< 2).toNat = 4 * (addr.toNat / 2 ^ 20) := by
    rw [UInt32.toNat_shiftLeft, UInt32.toNat_shiftRight,
      BitField.toNat_and_high addr 0xfff00000 20 (by decide) rfl]
    simp only [UInt32.reduceToNat, Nat.reduceMod]
    omega
  rw [toNat_add_of_aligned 14 (by decide) hl1 (by omega), hoff]

theorem toNat_l1_group (addr : UInt32) (hl1 : l1.toNat % 2 ^ 14 = 0) :
    (l1 + ((addr &&& 0xff000000) >>> 24) <<< 6).toNat =
      l1.toNat + 64 * (addr.toNat / 2 ^ 24) := by
  have ha := addr.toNat_lt
  have hoff : (((addr &&& 0xff000000) >>> 24) <<< 6).toNat = 64 * (addr.toNat / 2 ^ 24) := by
    rw [UInt32.toNat_shiftLeft, UInt32.toNat_shiftRight,
      BitField.toNat_and_high addr 0xff000000 24 (by decide) rfl]
    simp only [UInt32.reduceToNat, Nat.reduceMod]
    omega
  rw [toNat_add_of_aligned 14 (by decide) hl1 (by omega), hoff]

theorem not_and_high_lt {mask : UInt32} (hk : k ≤ 25)
    (hmask : mask.toNat = (2 ^ (32 - k) - 1) * 2 ^ k)
    (haddr : 0x2000000 ≤ addr.toNat) : ¬ addr &&& mask < 0x2000000 := by
  rw [UInt32.lt_iff_toNat_lt, BitField.toNat_and_high addr mask k (by omega) hmask, not_lt]
  have hdvd : 2 ^ k ∣ 0x2000000 := by
    exact pow_dvd_pow 2 hk
  calc 0x2000000 = 0x2000000 / 2 ^ k * 2 ^ k := (Nat.div_mul_cancel hdvd).symm
    _ ≤ addr.toNat / 2 ^ k * 2 ^ k := Nat.mul_le_mul_right _ (Nat.div_le_div_right haddr)

theorem toNat_entry (hbase : base.toNat % 2 ^ 6 = 0) (hk : k < 16) :
    (base + UInt32.ofNat k * 4).toNat = base.toNat + 4 * k := by
  have hmul : (UInt32.ofNat k * 4).toNat = k * 4 := toNat_ofNat_mul (c := 4) (by omega)
  rw [toNat_add_of_aligned 6 (by decide) hbase (by omega), hmul, Nat.mul_comm]

theorem splitLoop_of_supersection (base : UInt32) (hbase : base.toNat % 2 ^ 6 = 0) (hnd : ns.Nodup)
    (hlt : ∀ n ∈ ns, n < 16) (hs : ∀ n ∈ ns, IsSupersection (m.readWord (base.toNat + 4 * n))) :
    ByteMemory.EqOff m (splitLoop base ns m).1 base.toNat 64 ∧
      ∀ n < 16, (splitLoop base ns m).1.readWord (base.toNat + 4 * n) =
        if n ∈ ns then splitEntry (m.readWord (base.toNat + 4 * n)) n
        else m.readWord (base.toNat + 4 * n) := by
  induction ns generalizing m with
  | nil => exact ⟨.rfl, fun n _ => by simp [splitLoop]⟩
  | cons k ns ih =>
    obtain ⟨hk, hnd⟩ := nodup_cons.1 hnd
    have hk16 : k < 16 := hlt k mem_cons_self
    have hne : ((m.readWord (base.toNat + 4 * k) &&& 0x40003) != 0x40002) = false := by
      have := hs k mem_cons_self
      rw [IsSupersection] at this
      simp [this]
    simp only [splitLoop, toNat_entry hbase hk16, hne, Bool.false_eq_true]
    obtain ⟨hoff, hread⟩ := ih (m := m.writeWord (base.toNat + 4 * k)
        (splitEntry (m.readWord (base.toNat + 4 * k)) k)) hnd
      (fun n hn => hlt n (mem_cons_of_mem _ hn)) (fun n hn => by
        have hne : n ≠ k := fun h => hk (h ▸ hn)
        rw [readWord_writeWord_of_disjoint _ _ (by omega)]
        exact hs n (mem_cons_of_mem _ hn))
    refine ⟨((eqOff_writeWord _ _ _).mono (by omega) (by omega)).trans hoff,
      fun n hn => (hread n hn).trans ?_⟩
    by_cases hnk : n = k
    · subst hnk
      rw [if_neg hk, if_pos mem_cons_self, readWord_writeWord_self]
    · rw [readWord_writeWord_of_disjoint _ _ (by omega)]
      simp [hnk]

theorem eqOff_splitLoop (hbase : base.toNat % 2 ^ 6 = 0) (hlt : ∀ n ∈ ns, n < 16) (m : ByteMemory) :
    ByteMemory.EqOff m (splitLoop base ns m).1 base.toNat 64 := by
  induction ns generalizing m with
  | nil => exact .rfl
  | cons k ns ih =>
    have hk16 : k < 16 := hlt k mem_cons_self
    simp only [splitLoop, toNat_entry hbase hk16]
    split_ifs
    · exact .rfl
    · exact ((eqOff_writeWord _ _ _).mono (by omega) (by omega)).trans
        (ih (fun n hn => hlt n (mem_cons_of_mem _ hn)) _)

/-- Whatever it finds, `split_l1_supersection` only writes to the L1 table. -/
theorem eqOff_splitL1Supersection (addr : UInt32) (hl1 : l1.toNat % 2 ^ 14 = 0) :
    ByteMemory.EqOff m (splitL1Supersection m addr l1).1 l1.toNat 0x4000 := by
  have haddr := addr.toNat_lt
  have hgroup := toNat_l1_group addr hl1
  simp only [splitL1Supersection]
  split_ifs
  · exact .rfl
  · exact .rfl
  · exact (eqOff_splitLoop (by omega) (fun n hn => mem_range.1 hn) m).mono (by omega)
      (by omega)

section

variable (hl1 : l1.toNat % 2 ^ 14 = 0)

include hl1

/-- Splitting a supersection rewrites its 16 entries and nothing else. -/
theorem splitL1Supersection_of_supersection (haddr : 0x2000000 ≤ addr.toNat)
    (hs : ∀ n < 16, IsSupersection (l1Entry m l1 (16 * (addr.toNat / 2 ^ 24) + n))) :
    ByteMemory.EqOff m (splitL1Supersection m addr l1).1
        (l1.toNat + 64 * (addr.toNat / 2 ^ 24)) 64 ∧
      ∀ n < 16, l1Entry (splitL1Supersection m addr l1).1 l1 (16 * (addr.toNat / 2 ^ 24) + n) =
        splitEntry (l1Entry m l1 (16 * (addr.toNat / 2 ^ 24) + n)) n := by
  have hgroup := toNat_l1_group addr hl1
  have hpos (n : ℕ) : l1.toNat + 4 * (16 * (addr.toNat / 2 ^ 24) + n) =
      (l1 + ((addr &&& 0xff000000) >>> 24) <<< 6).toNat + 4 * n := by
    rw [hgroup]
    ring
  have hsplit := splitLoop_of_supersection (m := m)
    (l1 + ((addr &&& 0xff000000) >>> 24) <<< 6) (by omega) nodup_range
    (fun n hn => mem_range.1 hn) (fun n hn => by
      rw [← hpos]
      exact hs n (mem_range.1 hn))
  have hlow : ((l1 &&& 0x3fff) != 0) = false := by
    rw [and_low_eq_zero 14 rfl hl1]
    rfl
  have hlt : ¬ addr &&& 0xff000000 < 0x2000000 := not_and_high_lt (k := 24) (by decide) rfl haddr
  simp only [splitL1Supersection, hlow, hlt, Bool.false_eq_true, if_false, l1Entry]
  rw [← hgroup]
  refine ⟨hsplit.1, fun n hn => ?_⟩
  rw [hpos, hsplit.2 n hn, if_pos (mem_range.2 hn)]

/-- A supersection that has been split is left alone. -/
theorem splitL1Supersection_of_not
    (h : ¬ IsSupersection (l1Entry m l1 (16 * (addr.toNat / 2 ^ 24)))) :
    (splitL1Supersection m addr l1).1 = m := by
  have hgroup := toNat_l1_group addr hl1
  have hpos : l1.toNat + 4 * (16 * (addr.toNat / 2 ^ 24)) =
      (l1 + ((addr &&& 0xff000000) >>> 24) <<< 6).toNat := by
    rw [hgroup]
    ring
  rw [l1Entry, hpos] at h
  simp only [splitL1Supersection]
  split_ifs
  · rfl
  · rfl
  · rw [show range 16 = 0 :: (range 15).map Nat.succ from rfl]
    have hzero (b : UInt32) : b + UInt32.ofNat 0 * 4 = b := by simp
    have hbne : ((m.readWord (l1 + ((addr &&& 0xff000000) >>> 24) <<< 6).toNat &&& 0x40003) !=
        0x40002) = true := bne_iff_ne.2 h
    simp only [splitLoop, hzero, hbne, if_true]

theorem assignL2TableToL1Section_eq (hl2 : l2.toNat % 2 ^ 10 = 0)
    (haddr : 0x2000000 ≤ addr.toNat) (h : ¬ IsSupersection (l1Entry m l1 (addr.toNat / 2 ^ 20))) :
    (assignL2TableToL1Section m addr l1 l2).1 =
      m.writeWord (l1.toNat + 4 * (addr.toNat / 2 ^ 20)) (l2 ||| 1) := by
  have hlow : ((l1 &&& 0x3fff) != 0 || (l2 &&& 0x3ff) != 0) = false := by
    rw [and_low_eq_zero 14 rfl hl1, and_low_eq_zero 10 rfl hl2]
    rfl
  have hlt : ¬ addr &&& 0xfff00000 < 0x2000000 := not_and_high_lt (k := 20) (by decide) rfl haddr
  have hbeq : ((m.readWord (l1.toNat + 4 * (addr.toNat / 2 ^ 20)) &&& 0x40003) == 0x40002) =
      false := beq_eq_false_iff_ne.2 h
  simp only [assignL2TableToL1Section, hlow, hlt, toNat_l1_entry hl1, hbeq, Bool.false_eq_true,
    if_false]

theorem eqOff_assignL2TableToL1Section :
    ByteMemory.EqOff m (assignL2TableToL1Section m addr l1 l2).1 l1.toNat 0x4000 := by
  have haddr := addr.toNat_lt
  simp only [assignL2TableToL1Section, toNat_l1_entry hl1]
  split_ifs
  · exact .rfl
  · exact .rfl
  · exact .rfl
  · exact (eqOff_writeWord _ _ _).mono (by omega) (by omega)

end

theorem writeLargePage_eq (hbase : base.toNat % 2 ^ 6 = 0) (v : UInt32) :
    writeLargePage m base v = m.fillWords base.toNat (fun _ => v) 16 := by
  refine foldl_ext _ _ _ fun m k hk => ?_
  rw [toNat_entry hbase (mem_range.1 hk)]

theorem writeLargePage_spec (base : UInt32) (hbase : base.toNat % 2 ^ 6 = 0) (v : UInt32) :
    ByteMemory.EqOff m (writeLargePage m base v) base.toNat 64 ∧
      ∀ q < 16, (writeLargePage m base v).readWord (base.toNat + 4 * q) = v := by
  rw [writeLargePage_eq hbase]
  exact ⟨m.eqOff_fillWords _ _ 16, fun q hq => m.readWord_fillWords _ _ hq⟩

private theorem toNat_l2_page (hl2 : l2.toNat % 2 ^ 10 = 0) (hk : k < 16) :
    (l2 + UInt32.ofNat k * 0x40).toNat = l2.toNat + 64 * k := by
  have hmul : (UInt32.ofNat k * 0x40).toNat = k * 0x40 := toNat_ofNat_mul (c := 0x40) (by omega)
  rw [toNat_add_of_aligned 10 (by decide) hl2 (by omega), hmul, Nat.mul_comm]

/-- A new L2 table maps the 16 large pages of its megabyte to themselves. -/
theorem createL2Table_spec (addr : UInt32) (hl2 : l2.toNat % 2 ^ 10 = 0) (flags : UInt32) :
    ByteMemory.EqOff m (createL2Table m addr l2 flags).1 l2.toNat 0x400 ∧
      ∀ k < 16, ∀ q < 16,
        (createL2Table m addr l2 flags).1.readWord (l2.toNat + 64 * k + 4 * q) =
          largePageEntry ((addr &&& 0xfff00000) + UInt32.ofNat k * mmuPageSize) flags := by
  have key (n : ℕ) (hn : n ≤ 16) :
      ByteMemory.EqOff m ((range n).foldl (fun m n =>
        writeLargePage m (l2 + UInt32.ofNat n * 0x40)
          (largePageEntry ((addr &&& 0xfff00000) + UInt32.ofNat n * mmuPageSize) flags)) m)
        l2.toNat (64 * n) ∧
      ∀ k < n, ∀ q < 16, ((range n).foldl (fun m n =>
        writeLargePage m (l2 + UInt32.ofNat n * 0x40)
          (largePageEntry ((addr &&& 0xfff00000) + UInt32.ofNat n * mmuPageSize) flags)) m).readWord
          (l2.toNat + 64 * k + 4 * q) =
          largePageEntry ((addr &&& 0xfff00000) + UInt32.ofNat k * mmuPageSize) flags := by
    induction n with
    | zero => exact ⟨.rfl, by omega⟩
    | succ n ih =>
      obtain ⟨hoff, hread⟩ := ih (by omega)
      rw [range_succ, foldl_append]
      simp only [foldl_cons, foldl_nil]
      generalize (range n).foldl _ m = m' at hoff hread ⊢
      have hbase := toNat_l2_page hl2 (k := n) (by omega)
      obtain ⟨hoff', hread'⟩ := writeLargePage_spec (m := m')
        (l2 + UInt32.ofNat n * 0x40) (by omega)
        (largePageEntry ((addr &&& 0xfff00000) + UInt32.ofNat n * mmuPageSize) flags)
      rw [hbase] at hoff' hread'
      refine ⟨(hoff.mono (by omega) (by omega)).trans (hoff'.mono (by omega) (by omega)),
        fun k hk q hq => ?_⟩
      rcases Nat.lt_succ_iff_lt_or_eq.1 hk with hk | rfl
      · rw [hoff'.readWord_eq (by omega), hread k hk q hq]
      · exact hread' q hq
  have hlow : ((l2 &&& 0x3ff) != 0) = false := by
    rw [and_low_eq_zero 10 rfl hl2]
    rfl
  simp only [createL2Table, hlow, Bool.false_eq_true, if_false]
  exact key 16 le_rfl

/-- Replacing a large page rewrites its 16 words. -/
theorem replaceRomPage_spec {romaddr ramaddr : UInt32} (hl2 : l2.toNat % 2 ^ 10 = 0)
    (hrom : romaddr.toNat % 2 ^ 16 = 0) (hram : ramaddr.toNat % 2 ^ 16 = 0) (flags : UInt32) :
    ByteMemory.EqOff m (replaceRomPage m romaddr ramaddr l2 flags)
        (l2.toNat + 64 * (romaddr.toNat / 2 ^ 16 % 16)) 64 ∧
      ∀ q < 16, (replaceRomPage m romaddr ramaddr l2 flags).readWord
        (l2.toNat + 64 * (romaddr.toNat / 2 ^ 16 % 16) + 4 * q) =
          largePageEntry ramaddr flags := by
  have hlow : ((l2 &&& 0x3ff) != 0 || (romaddr &&& 0xffff) != 0 || (ramaddr &&& 0xffff) != 0) =
      false := by
    rw [and_low_eq_zero 10 rfl hl2, and_low_eq_zero 16 rfl hrom, and_low_eq_zero 16 rfl hram]
    rfl
  have hk : (romaddr >>> 16) &&& 0xf = UInt32.ofNat (romaddr.toNat / 2 ^ 16 % 16) := by
    rw [← UInt32.toNat_inj, BitField.toNat_and_low _ 0xf 4 rfl, UInt32.toNat_shiftRight,
      UInt32.toNat_ofNat_of_lt' ((Nat.mod_lt _ (by decide)).trans (by decide))]
    simp only [UInt32.reduceToNat, Nat.shiftRight_eq_div_pow]
    rfl
  have hbase := toNat_l2_page hl2 (k := romaddr.toNat / 2 ^ 16 % 16) (by omega)
  simp only [replaceRomPage, replaceLargePageInL2Table, hlow, Bool.false_eq_true, if_false, hk]
  rw [← hbase]
  exact writeLargePage_spec _ (by omega) _

end

end MagicLantern.Mmu

import MagicLantern.Mmu.Remap

/-!
# Assignments of tables and backing pages

An assignment is the abstract content of the translation tables: which supersections have been
split, which megabyte has which L2 table, and which large page has which backing page. Memory
represents an assignment when the words of the L1 table and of the assigned L2 tables are the ones
it prescribes and nothing else has changed (`Represents`). Every function of `mmu_utils.c` that
`apply_data_patch` calls is one operation on assignments, and the walk of the tables can be read
off the assignment.
-/

namespace MagicLantern.Mmu

/-- The intervals of `n` bytes from `a` and of `k` bytes from `b` on are disjoint. -/
def Apart (a n b k : ℕ) : Prop := a + n ≤ b ∨ b + k ≤ a

/-- The places of the tables and of the pool of backing pages, all of them below the ROM. -/
structure Layout where
  l1 : UInt32
  /-- The number of L2 tables. -/
  numTables : ℕ
  l2 : ℕ → UInt32
  /-- The number of backing pages. -/
  numPages : ℕ
  /-- The first backing page. -/
  pages : UInt32
  l1_aligned : l1.toNat % 2 ^ 14 = 0
  l2_aligned : ∀ i < numTables, (l2 i).toNat % 2 ^ 10 = 0
  pages_aligned : pages.toNat % 2 ^ 16 = 0
  pages_pos : 0 < pages.toNat
  l1_le : l1.toNat + 0x4000 ≤ romBaseAddr.toNat
  l2_le : ∀ i < numTables, (l2 i).toNat + 0x400 ≤ romBaseAddr.toNat
  pages_le : pages.toNat + 2 ^ 16 * numPages ≤ romBaseAddr.toNat
  l1_l2 : ∀ i < numTables, Apart l1.toNat 0x4000 (l2 i).toNat 0x400
  l1_pages : Apart l1.toNat 0x4000 pages.toNat (2 ^ 16 * numPages)
  l2_l2 : ∀ i < numTables, ∀ i' < numTables, i ≠ i' → Apart (l2 i).toNat 0x400 (l2 i').toNat 0x400
  l2_pages : ∀ i < numTables, Apart (l2 i).toNat 0x400 pages.toNat (2 ^ 16 * numPages)

/-- An address outside the tables and the pool. -/
def Layout.Outside (L : Layout) (x : ℕ) : Prop :=
  (x < L.l1.toNat ∨ L.l1.toNat + 0x4000 ≤ x) ∧
    (∀ i < L.numTables, x < (L.l2 i).toNat ∨ (L.l2 i).toNat + 0x400 ≤ x) ∧
    (x < L.pages.toNat ∨ L.pages.toNat + 2 ^ 16 * L.numPages ≤ x)

/-- An address in the pool of backing pages. -/
def Layout.InPool (L : Layout) (x : ℕ) : Prop :=
  L.pages.toNat ≤ x ∧ x < L.pages.toNat + 2 ^ 16 * L.numPages

theorem Layout.outside_of_rom (L : Layout) {x : ℕ} (hx : romBaseAddr.toNat ≤ x) : L.Outside x :=
  ⟨.inr (L.l1_le.trans hx), fun i hi => .inr ((L.l2_le i hi).trans hx),
    .inr (L.pages_le.trans hx)⟩

/-- What the tables have been told: the supersections split, the L2 table of each megabyte and
the backing page of each large page, `0` for none. Only megabytes of the ROM get a table. -/
structure Assignment (L : Layout) where
  /-- Whether a supersection has been split. -/
  split : ℕ → Bool
  /-- The L2 table of a megabyte. -/
  table : ℕ → Option ℕ
  /-- The backing page of a large page of the megabyte of a table. -/
  page : ℕ → ℕ → UInt32
  split_rom : ∀ g, split g = true → 0xE0 ≤ g
  table_rom : ∀ j i, table j = some i → j < 0x1000 ∧ i < L.numTables ∧ split (j / 16) = true
  table_inj : ∀ j j' i, table j = some i → table j' = some i → j = j'
  page_aligned : ∀ i k, (page i k).toNat % 2 ^ 16 = 0

namespace Assignment

variable {L : Layout} (A : Assignment L) (m₀ : ByteMemory) {g : ℕ}

/-- The word that an assignment prescribes for entry `j` of the L1 table. -/
def l1Word (j : ℕ) : UInt32 :=
  match A.table j with
  | some i => L.l2 i ||| 1
  | none =>
    if A.split (j / 16) then splitEntry (l1Entry m₀ L.l1 j) (j % 16) else l1Entry m₀ L.l1 j

/-- The physical page of large page `k` of megabyte `j`, which has table `i`. -/
def target (j i k : ℕ) : UInt32 :=
  if A.page i k = 0 then UInt32.ofNat (j * 2 ^ 20 + k * 2 ^ 16) else A.page i k

theorem l1Word_of_table {j i : ℕ} (h : A.table j = some i) : A.l1Word m₀ j = L.l2 i ||| 1 := by
  rw [l1Word, h]

theorem l1Word_of_split {j : ℕ} (h : A.table j = none) (hs : A.split (j / 16) = true) :
    A.l1Word m₀ j = splitEntry (l1Entry m₀ L.l1 j) (j % 16) := by
  rw [l1Word, h]
  exact if_pos hs

theorem l1Word_of_not_split {j : ℕ} (hs : A.split (j / 16) = false) :
    A.l1Word m₀ j = l1Entry m₀ L.l1 j := by
  have h : A.table j = none := by
    cases h : A.table j with
    | none => rfl
    | some i => simp [(A.table_rom j i h).2.2] at hs
  rw [l1Word, h]
  exact if_neg (by simp [hs])

/-- The assignment with supersection `g` split. -/
def splitGroup (g : ℕ) (hg : 0xE0 ≤ g) : Assignment L where
  __ := A
  split g' := A.split g' || g' == g
  split_rom g' h := by
    rcases Bool.or_eq_true _ _ ▸ h with h | h
    · exact A.split_rom g' h
    · exact (beq_iff_eq.1 h) ▸ hg
  table_rom j i h := by
    obtain ⟨hj, hi, hs⟩ := A.table_rom j i h
    exact ⟨hj, hi, by simp [hs]⟩

theorem splitGroup_l1Word_of_ne {j : ℕ} (hg : 0xE0 ≤ g) (hj : j / 16 ≠ g) :
    (A.splitGroup g hg).l1Word m₀ j = A.l1Word m₀ j := by
  have hne : (j / 16 == g) = false := beq_eq_false_iff_ne.2 hj
  simp only [l1Word, splitGroup, hne, Bool.or_false]

theorem splitGroup_l1Word_of_split (hg : 0xE0 ≤ g) (hs : A.split g = true) (j : ℕ) :
    (A.splitGroup g hg).l1Word m₀ j = A.l1Word m₀ j := by
  by_cases hj : j / 16 = g
  · have hs' : (A.splitGroup g hg).split (j / 16) = A.split (j / 16) := by
      simp [splitGroup, hj, hs]
    rw [l1Word, hs']
    rfl
  · exact A.splitGroup_l1Word_of_ne m₀ hg hj

theorem splitGroup_split_self (hg : 0xE0 ≤ g) : (A.splitGroup g hg).split g = true := by
  simp [splitGroup]

/-- The assignment that gives table `i` to megabyte `j`. -/
def addTable (j i : ℕ) (hj : j < 0x1000) (hi : i < L.numTables) (hs : A.split (j / 16) = true)
    (hfree : ∀ j', A.table j' ≠ some i) : Assignment L where
  __ := A
  table := Function.update A.table j (some i)
  table_rom j' i' h := by
    by_cases hj' : j' = j
    · subst hj'
      obtain rfl : i = i' := by simpa using h
      exact ⟨hj, hi, hs⟩
    · exact A.table_rom j' i' (by simpa [hj'] using h)
  table_inj j₁ j₂ i' h₁ h₂ := by
    by_cases hj₁ : j₁ = j <;> by_cases hj₂ : j₂ = j
    · exact hj₁.trans hj₂.symm
    · obtain rfl : i = i' := by simpa [hj₁] using h₁
      exact absurd (by simpa [hj₂] using h₂) (hfree j₂)
    · obtain rfl : i = i' := by simpa [hj₂] using h₂
      exact absurd (by simpa [hj₁] using h₁) (hfree j₁)
    · exact A.table_inj j₁ j₂ i' (by simpa [hj₁] using h₁) (by simpa [hj₂] using h₂)

section

variable {j i j' : ℕ} (hj : j < 0x1000) (hi : i < L.numTables) (hs : A.split (j / 16) = true)
  (hfree : ∀ j', A.table j' ≠ some i)

@[simp] theorem addTable_table_self : (A.addTable j i hj hi hs hfree).table j = some i := by
  simp [addTable]

theorem addTable_table_of_ne (hj' : j' ≠ j) :
    (A.addTable j i hj hi hs hfree).table j' = A.table j' := by
  simp [addTable, hj']

theorem addTable_l1Word_of_ne (hj' : j' ≠ j) :
    (A.addTable j i hj hi hs hfree).l1Word m₀ j' = A.l1Word m₀ j' := by
  rw [l1Word, A.addTable_table_of_ne hj hi hs hfree hj']
  rfl

end

/-- The assignment that gives backing page `b` to large page `k` of table `i`. -/
def setPage (i k : ℕ) (b : UInt32) (hb : b.toNat % 2 ^ 16 = 0) : Assignment L where
  __ := A
  page := Function.update A.page i (Function.update (A.page i) k b)
  page_aligned i' k' := by
    by_cases hi : i' = i
    · subst hi
      by_cases hk : k' = k
      · subst hk
        simpa using hb
      · simpa [hk] using A.page_aligned i' k'
    · simpa [hi] using A.page_aligned i' k'

section

variable {i k i' k' : ℕ} {b : UInt32} (hb : b.toNat % 2 ^ 16 = 0)

@[simp] theorem setPage_page_self : (A.setPage i k b hb).page i k = b := by
  simp [setPage]

theorem setPage_page_of_ne (h : i' ≠ i ∨ k' ≠ k) :
    (A.setPage i k b hb).page i' k' = A.page i' k' := by
  by_cases hi : i' = i
  · subst hi
    simp [setPage, h.resolve_left (fun h => h rfl)]
  · simp [setPage, hi]

theorem setPage_target_self (hpos : b ≠ 0) (j : ℕ) : (A.setPage i k b hb).target j i k = b := by
  rw [target, setPage_page_self, if_neg hpos]

theorem setPage_target_of_ne (h : i' ≠ i ∨ k' ≠ k) (j : ℕ) :
    (A.setPage i k b hb).target j i' k' = A.target j i' k' := by
  rw [target, target, A.setPage_page_of_ne hb h]

end

end Assignment

/-- `A'` is `A` with table `t` for megabyte `j` and backing page `b` for its large page `k`, up to
supersections that have been split. -/
structure Assignment.Remaps {L : Layout} (A A' : Assignment L) (j t k : ℕ) (b : UInt32) :
    Prop where
  table : A'.table j = some t
  table_of_ne : ∀ j' ≠ j, A'.table j' = A.table j'
  page : A'.page t k = b
  page_of_ne : ∀ i k', i ≠ t ∨ k' ≠ k → A'.page i k' = A.page i k'

/-- The L1 table maps the ROM to itself by supersections without extended base bits. -/
def RomMapped (L : Layout) (m₀ : ByteMemory) : Prop :=
  ∀ j, 0xE00 ≤ j → j < 0x1000 → IsSupersection (l1Entry m₀ L.l1 j) ∧
    (l1Entry m₀ L.l1 j).toNat / 2 ^ 24 = j / 16 ∧
    (l1Entry m₀ L.l1 j).toNat / 2 ^ 20 % 2 ^ 4 = 0 ∧ (l1Entry m₀ L.l1 j).toNat / 2 ^ 5 % 2 ^ 4 = 0

/-- Memory holds the tables of an assignment, and is as it was outside the tables and the pool. -/
structure Represents (L : Layout) (m₀ : ByteMemory) (flags : UInt32) (A : Assignment L)
    (m : ByteMemory) : Prop where
  l1 : ∀ j < 0x1000, l1Entry m L.l1 j = A.l1Word m₀ j
  l2 : ∀ j i, A.table j = some i → ∀ k < 16, ∀ q < 16,
    m.readWord ((L.l2 i).toNat + 64 * k + 4 * q) = largePageEntry (A.target j i k) flags
  outside : ∀ x, L.Outside x → m x = m₀ x

namespace Represents

variable {L : Layout} {m₀ m m' : ByteMemory} {flags va : UInt32} {A : Assignment L} {addr : UInt32}

/-! ### Frames -/

section

variable (h : Represents L m₀ flags A m)
include h

/-- A change inside the pool of backing pages is not seen by the tables. -/
theorem of_pages (hm : ByteMemory.EqOff m m' L.pages.toNat (2 ^ 16 * L.numPages)) :
    Represents L m₀ flags A m' := by
  refine ⟨fun j hj => ?_, fun j i hi k hk q hq => ?_, fun x hx => ?_⟩
  · rw [← h.l1 j hj]
    have := L.l1_pages
    rw [Apart] at this
    exact hm.readWord_eq (by omega)
  · rw [← h.l2 j i hi k hk q hq]
    have := L.l2_pages i (A.table_rom j i hi).2.1
    rw [Apart] at this
    exact hm.readWord_eq (by omega)
  · rw [hm x hx.2.2, h.outside x hx]

theorem l2_of_l1 {a n : ℕ} (hm : ByteMemory.EqOff m m' a n) (ha : L.l1.toNat ≤ a)
    (hn : a + n ≤ L.l1.toNat + 0x4000) :
    (∀ j i, A.table j = some i → ∀ k < 16, ∀ q < 16,
      m'.readWord ((L.l2 i).toNat + 64 * k + 4 * q) = largePageEntry (A.target j i k) flags) ∧
    ∀ x, L.Outside x → m' x = m₀ x := by
  refine ⟨fun j i hi k hk q hq => ?_, fun x hx => ?_⟩
  · rw [← h.l2 j i hi k hk q hq]
    have := L.l1_l2 i (A.table_rom j i hi).2.1
    rw [Apart] at this
    exact hm.readWord_eq (by omega)
  · rw [hm x (by have := hx.1; omega), h.outside x hx]

/-- A change inside one L2 table is not seen by the L1 table, by other L2 tables and outside. -/
theorem of_l2 {i : ℕ} (hi : i < L.numTables) (hm : ByteMemory.EqOff m m' (L.l2 i).toNat 0x400) :
    (∀ j < 0x1000, l1Entry m' L.l1 j = A.l1Word m₀ j) ∧
    (∀ j i', i' ≠ i → A.table j = some i' → ∀ k < 16, ∀ q < 16,
      m'.readWord ((L.l2 i').toNat + 64 * k + 4 * q) = largePageEntry (A.target j i' k) flags) ∧
    ∀ x, L.Outside x → m' x = m₀ x := by
  refine ⟨fun j hj => ?_, fun j i' hne hi' k hk q hq => ?_, fun x hx => ?_⟩
  · rw [← h.l1 j hj]
    have := L.l1_l2 i hi
    rw [Apart] at this
    exact hm.readWord_eq (by omega)
  · rw [← h.l2 j i' hi' k hk q hq]
    have := L.l2_l2 i' (A.table_rom j i' hi').2.1 i hi hne
    rw [Apart] at this
    exact hm.readWord_eq (by omega)
  · rw [hm x (hx.2.1 i hi), h.outside x hx]

end

/-! ### The operations -/

theorem not_isSupersection (h : Represents L m₀ flags A m) (hrom : RomMapped L m₀) {j : ℕ}
    (hj : j < 0x1000) (hs : A.split (j / 16) = true) : ¬ IsSupersection (l1Entry m L.l1 j) := by
  have hj' : 0xE00 ≤ j := by
    have := A.split_rom _ hs
    omega
  rw [h.l1 j hj, isSupersection_iff]
  cases ht : A.table j with
  | some i =>
    rw [A.l1Word_of_table m₀ ht]
    have := (tableReference_fields (L.l2_aligned i (A.table_rom j i ht).2.1)).1
    omega
  | none =>
    rw [A.l1Word_of_split m₀ ht hs]
    have := (splitEntry_fields (n := j % 16) (by omega) (hrom j hj' hj).2.2.1).2.1
    omega

/-- `split_l1_supersection` splits the supersection of a ROM address, if it has not been. -/
theorem splitGroup (h : Represents L m₀ flags A m) (hrom : RomMapped L m₀)
    (haddr : romBaseAddr.toNat ≤ addr.toNat) (hg : 0xE0 ≤ addr.toNat / 2 ^ 24) :
    Represents L m₀ flags (A.splitGroup (addr.toNat / 2 ^ 24) hg)
      (splitL1Supersection m addr L.l1).1 := by
  have hlt := addr.toNat_lt
  have haddr' : 0x2000000 ≤ addr.toNat := (show 0x2000000 ≤ romBaseAddr.toNat by decide).trans haddr
  cases hs : A.split (addr.toNat / 2 ^ 24) with
  | true =>
    have hfirst : 16 * (addr.toNat / 2 ^ 24) / 16 = addr.toNat / 2 ^ 24 := by omega
    have hnot := h.not_isSupersection hrom (j := 16 * (addr.toNat / 2 ^ 24)) (by omega)
      (by rwa [hfirst])
    rw [splitL1Supersection_of_not L.l1_aligned hnot]
    exact ⟨fun j hj => (h.l1 j hj).trans (A.splitGroup_l1Word_of_split m₀ hg hs j).symm, h.l2,
      h.outside⟩
  | false =>
    have hentry (n : ℕ) (hn : n < 16) : l1Entry m L.l1 (16 * (addr.toNat / 2 ^ 24) + n) =
        l1Entry m₀ L.l1 (16 * (addr.toNat / 2 ^ 24) + n) := by
      have hgroup : (16 * (addr.toNat / 2 ^ 24) + n) / 16 = addr.toNat / 2 ^ 24 := by omega
      rw [h.l1 _ (by omega), A.l1Word_of_not_split m₀ (by rw [hgroup, hs])]
    obtain ⟨hoff, hsplit⟩ := splitL1Supersection_of_supersection (m := m) L.l1_aligned haddr'
      fun n hn => by
        rw [hentry n hn]
        exact (hrom _ (by omega) (by omega)).1
    obtain ⟨hl2, houtside⟩ := h.l2_of_l1 hoff (by omega) (by omega)
    refine ⟨fun j hj => ?_, hl2, houtside⟩
    by_cases hj' : j / 16 = addr.toNat / 2 ^ 24
    · -- An entry of the group: it had no table, so the word is the split of the original one.
      have htable : A.table j = none := by
        cases ht : A.table j with
        | none => rfl
        | some i =>
          have := (A.table_rom j i ht).2.2
          rw [hj', hs] at this
          exact absurd this Bool.false_ne_true
      have hjn : j = 16 * (addr.toNat / 2 ^ 24) + j % 16 := by omega
      rw [(A.splitGroup _ hg).l1Word_of_split m₀ htable
        (by rw [hj', A.splitGroup_split_self hg])]
      have hsp := hsplit (j % 16) (by omega)
      rwa [hentry (j % 16) (by omega), ← hjn] at hsp
    · rw [A.splitGroup_l1Word_of_ne m₀ hg hj', ← h.l1 j hj]
      exact hoff.readWord_eq (by omega)

private theorem page_address (addr : UInt32) {k : ℕ} (hk : k < 16) :
    (addr &&& 0xfff00000) + UInt32.ofNat k * mmuPageSize =
      UInt32.ofNat (addr.toNat / 2 ^ 20 * 2 ^ 20 + k * 2 ^ 16) := by
  have hbase := BitField.toNat_and_high addr 0xfff00000 20 (by decide) rfl
  have hmul : (UInt32.ofNat k * mmuPageSize).toNat = k * 2 ^ 16 := by
    rw [UInt32.toNat_mul, UInt32.toNat_ofNat', show mmuPageSize.toNat = 2 ^ 16 from rfl]
    omega
  rw [← UInt32.toNat_inj, UInt32.toNat_add, hbase, hmul, UInt32.toNat_ofNat']

section

variable (h : Represents L m₀ flags A m)
include h

/-- `replace_section_with_l2_table` gives an unused table to a megabyte of a split
supersection. -/
theorem addTable (hrom : RomMapped L m₀) (haddr : romBaseAddr.toNat ≤ addr.toNat) {i : ℕ}
    (hj : addr.toNat / 2 ^ 20 < 0x1000) (hi : i < L.numTables)
    (hs : A.split (addr.toNat / 2 ^ 20 / 16) = true) (hfree : ∀ j', A.table j' ≠ some i)
    (hpage : ∀ k < 16, A.page i k = 0) :
    Represents L m₀ flags (A.addTable (addr.toNat / 2 ^ 20) i hj hi hs hfree)
      (replaceSectionWithL2Table m addr L.l1 (L.l2 i) flags) := by
  have haddr' : 0x2000000 ≤ addr.toNat := (show 0x2000000 ≤ romBaseAddr.toNat by decide).trans haddr
  obtain ⟨hcreate, hwords⟩ := createL2Table_spec (m := m) addr (L.l2_aligned i hi) flags
  obtain ⟨hl1, hl2, houtside⟩ := h.of_l2 hi hcreate
  have hnot : ¬ IsSupersection (l1Entry (createL2Table m addr (L.l2 i) flags).1 L.l1
      (addr.toNat / 2 ^ 20)) := by
    rw [hl1 _ hj, ← h.l1 _ hj]
    exact h.not_isSupersection hrom hj hs
  have hassign := ByteMemory.eqOff_writeWord (createL2Table m addr (L.l2 i) flags).1
    (L.l1.toNat + 4 * (addr.toNat / 2 ^ 20)) (L.l2 i ||| 1)
  rw [replaceSectionWithL2Table,
    assignL2TableToL1Section_eq L.l1_aligned (L.l2_aligned i hi) haddr' hnot]
  refine ⟨fun j hj' => ?_, fun j i' hi' k hk q hq => ?_, fun x hx => ?_⟩
  · by_cases hjj : j = addr.toNat / 2 ^ 20
    · subst hjj
      rw [Assignment.l1Word_of_table _ m₀ (A.addTable_table_self hj hi hs hfree)]
      exact ByteMemory.readWord_writeWord_self _ _ _
    · rw [A.addTable_l1Word_of_ne m₀ hj hi hs hfree hjj, ← hl1 j hj']
      exact hassign.readWord_eq (by omega)
  · have hi'' := (Assignment.table_rom _ j i' hi').2.1
    have hapart := L.l1_l2 i' hi''
    rw [Apart] at hapart
    rw [hassign.readWord_eq (by omega)]
    by_cases hjj : j = addr.toNat / 2 ^ 20
    · subst hjj
      rw [A.addTable_table_self hj hi hs hfree, Option.some.injEq] at hi'
      subst hi'
      have hpage' : (A.addTable _ i hj hi hs hfree).page i k = 0 := hpage k hk
      rw [hwords k hk q hq, Assignment.target, if_pos hpage', page_address addr hk]
    · have hi₂ : A.table j = some i' := by
        rwa [A.addTable_table_of_ne hj hi hs hfree hjj] at hi'
      exact hl2 j i' (fun heq => hfree j (heq ▸ hi₂)) hi₂ k hk q hq
  · rw [hassign x (by have := hx.1; omega)]
    exact houtside x hx

/-- `replace_rom_page` points a large page at a backing page. -/
theorem setPage {j i : ℕ} (hi : A.table j = some i) {romaddr b : UInt32}
    (hraddr : romaddr.toNat % 2 ^ 16 = 0) (hb : b.toNat % 2 ^ 16 = 0) (hpos : b ≠ 0) :
    Represents L m₀ flags (A.setPage i (romaddr.toNat / 2 ^ 16 % 16) b hb)
      (replaceRomPage m romaddr b (L.l2 i) flags) := by
  have hin := (A.table_rom j i hi).2.1
  obtain ⟨hoff, hwords⟩ := replaceRomPage_spec (m := m) (L.l2_aligned i hin) hraddr hb flags
  obtain ⟨hl1, hl2, houtside⟩ := h.of_l2 hin (hoff.mono (by omega) (by omega))
  refine ⟨hl1, fun j' i' hi' k hk q hq => ?_, houtside⟩
  by_cases hii : i' = i
  · subst hii
    by_cases hkk : k = romaddr.toNat / 2 ^ 16 % 16
    · subst hkk
      rw [hwords q hq, A.setPage_target_self hb hpos]
    · rw [A.setPage_target_of_ne hb (.inr hkk), ← h.l2 j' i' hi' k hk q hq]
      exact hoff.readWord_eq (by omega)
  · rw [A.setPage_target_of_ne hb (.inl hii)]
    exact hl2 j' i' hii hi' k hk q hq

/-- The edits of `apply_data_patch` give the page of `addr` the backing page `b` and its megabyte
the table `t`, and nothing else to anybody; they do not touch the pool. -/
theorem remap (hrom : RomMapped L m₀) (haddr : romBaseAddr.toNat ≤ addr.toNat) {t : ℕ}
    (ht : t < L.numTables) {b : UInt32} (hb : b.toNat % 2 ^ 16 = 0) (hpos : b ≠ 0) {inUse : Bool}
    (huse : inUse = true → A.table (addr.toNat / 2 ^ 20) = some t)
    (hfree : inUse = false → (∀ j, A.table j ≠ some t) ∧ ∀ k < 16, A.page t k = 0) :
    (∃ A' : Assignment L,
      Represents L m₀ flags A' (remapTables m addr L.l1 (L.l2 t) b inUse flags) ∧
      A.Remaps A' (addr.toNat / 2 ^ 20) t (addr.toNat / 2 ^ 16 % 16) b) ∧
    ∀ x, L.InPool x → remapTables m addr L.l1 (L.l2 t) b inUse flags x = m x := by
  have hlt := addr.toNat_lt
  have hbase : romBaseAddr.toNat = 0xE00 * 2 ^ 20 := by decide
  have hg : 0xE0 ≤ addr.toNat / 2 ^ 24 := by omega
  have hj : addr.toNat / 2 ^ 20 < 0x1000 := by omega
  have hgroup : addr.toNat / 2 ^ 20 / 16 = addr.toNat / 2 ^ 24 := by omega
  have hl1p := L.l1_pages
  have hl2p := L.l2_pages t ht
  rw [Apart] at hl1p hl2p
  have hround := BitField.toNat_and_high addr 0xffff0000 16 (by decide) rfl
  have hk : (addr &&& 0xffff0000).toNat / 2 ^ 16 % 16 = addr.toNat / 2 ^ 16 % 16 := by omega
  have hsplit := h.splitGroup hrom haddr hg
  have hoff := eqOff_splitL1Supersection (m := m) addr L.l1_aligned
  have hraddr : (addr &&& 0xffff0000).toNat % 2 ^ 16 = 0 := by omega
  -- The page is set in a table that belongs to the megabyte, whether it is new or not.
  have key {A₂ : Assignment L} {m₂ : ByteMemory} (h₂ : Represents L m₀ flags A₂ m₂)
      (htable : A₂.table (addr.toNat / 2 ^ 20) = some t)
      (hother : ∀ j ≠ addr.toNat / 2 ^ 20, A₂.table j = A.table j) (hpage : A₂.page = A.page)
      (hpool : ∀ x, L.InPool x → m₂ x = m x) :
      (∃ A' : Assignment L,
        Represents L m₀ flags A' (replaceRomPage m₂ (addr &&& 0xffff0000) b (L.l2 t) flags) ∧
        A.Remaps A' (addr.toNat / 2 ^ 20) t (addr.toNat / 2 ^ 16 % 16) b) ∧
      ∀ x, L.InPool x →
        replaceRomPage m₂ (addr &&& 0xffff0000) b (L.l2 t) flags x = m x := by
    have hset := h₂.setPage htable hraddr hb hpos
    have hwrite := (replaceRomPage_spec (m := m₂) (L.l2_aligned t ht) hraddr hb flags).1
    rw [hk] at hset hwrite
    refine ⟨⟨_, hset, htable, hother, A₂.setPage_page_self hb, fun i k hik => ?_⟩,
      fun x hx => ?_⟩
    · rw [A₂.setPage_page_of_ne hb hik, hpage]
    · rw [hwrite x (by have := hx.1; have := hx.2; omega), hpool x hx]
  cases inUse with
  | true =>
    refine key hsplit (huse rfl) (fun _ _ => rfl) rfl fun x hx => hoff x ?_
    have := hx.1
    have := hx.2
    omega
  | false =>
    obtain ⟨hnone, hzero⟩ := hfree rfl
    have hs : (A.splitGroup (addr.toNat / 2 ^ 24) hg).split (addr.toNat / 2 ^ 20 / 16) = true := by
      rw [hgroup, A.splitGroup_split_self hg]
    have hadd := hsplit.addTable hrom haddr hj ht hs hnone hzero
    have hcreate := (createL2Table_spec (m := (splitL1Supersection m addr L.l1).1) addr
      (L.l2_aligned t ht) flags).1
    refine key hadd (Assignment.addTable_table_self _ hj ht hs hnone)
      (fun j hne => Assignment.addTable_table_of_ne _ hj ht hs hnone hne) rfl fun x hx => ?_
    have hx₁ := hx.1
    have hx₂ := hx.2
    rw [if_neg Bool.false_ne_true, replaceSectionWithL2Table,
      eqOff_assignL2TableToL1Section L.l1_aligned x (by omega), hcreate x (by omega),
      hoff x (by omega)]

end

/-! ### The walk -/

section

variable (h : Represents L m₀ flags A m)
include h

end

end Represents

end MagicLantern.Mmu

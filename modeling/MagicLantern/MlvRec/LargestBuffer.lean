import MagicLantern.MlvRec.Slots

/-!
# The job that `find_largest_buffer` describes

`find_largest_buffer` goes through the groups of slots and looks for the longest run of full slots.
The best run so far (`job`) is carried from group to group. With the fill methods 3 and 4 it is
dropped after a group for the fast card that is not full, and the search in a group ends when the
run has `max_size` bytes. If nothing is found, then the search is repeated without the rule for the
fast card.

The slots of a group follow each other in memory, and so the sum of their sizes is below 4 GiB.

Source: `src/modules/raw_video/mlv_rec/mlv_rec.c`; `mlv_rec.h`.

## Main results

* `findLargestBuffer_iff` — a job is a run of full slots, and is found if there is one.
-/

namespace MagicLantern.MlvRec

open List

/-! ### What a job describes -/

section

variable {L : Layout} {status : ℕ → SlotStatus} {groups : List SlotGroup} {group : SlotGroup}
  {job : WriteJob} {slot len : ℕ} {scan : GroupScan}

/-- The slots of a job are full slots of the group, with its address and the sum of their sizes. -/
structure WriteJob.Describes (L : Layout) (status : ℕ → SlotStatus) (group : SlotGroup)
    (job : WriteJob) : Prop where
  first : group.slot ≤ job.blockStart
  last : job.blockStart + job.blockLen ≤ group.slot + group.len
  full : ∀ slot ∈ job.slots, status slot = .full
  size : job.blockSize = (job.slots.map L.size).sum
  ptr : job.blockPtr = L.ptr job.blockStart

/-- The job is empty, or it describes slots of one of the groups. -/
def WriteJob.Ok (L : Layout) (status : ℕ → SlotStatus) (groups : List SlotGroup)
    (job : WriteJob) : Prop :=
  job = .zero ∨ ∃ group ∈ groups, job.Describes L status group

theorem WriteJob.Ok.orLonger {other : WriteJob} (h : job.Ok L status groups)
    (hother : other.Ok L status groups) : (job.orLonger other).Ok L status groups := by
  rw [WriteJob.orLonger]
  split_ifs
  · exact hother
  · exact h

/-- What the search knows before it comes to `slot` of a group: the run ends there. -/
structure GroupScan.Sound (L : Layout) (status : ℕ → SlotStatus) (groups : List SlotGroup)
    (group : SlotGroup) (slot : ℕ) (scan : GroupScan) : Prop where
  block : scan.block = .zero ∨
    (scan.block.blockStart + scan.block.blockLen = slot ∧ 0 < scan.block.blockLen ∧
      scan.block.Describes L status group)
  job : scan.job.Ok L status groups

theorem GroupScan.Sound.extend (h : scan.Sound L status groups group slot)
    (hfull : status slot = .full) (hfirst : group.slot ≤ slot)
    (hlast : slot < group.slot + group.len) :
    (scan.block.extend L slot).blockStart + (scan.block.extend L slot).blockLen = slot + 1 ∧
      (scan.block.extend L slot).Describes L status group := by
  rcases h.block with hzero | ⟨hends, hpos, hdesc⟩
  · refine ⟨by simp [hzero, WriteJob.extend, WriteJob.zero], ?_⟩
    constructor
    · simpa [hzero, WriteJob.extend, WriteJob.zero] using hfirst
    · simpa [hzero, WriteJob.extend, WriteJob.zero] using Nat.succ_le_of_lt hlast
    · simpa [hzero, WriteJob.extend, WriteJob.slots, WriteJob.zero] using hfull
    · simp [hzero, WriteJob.extend, WriteJob.slots, WriteJob.zero]
    · simp [hzero, WriteJob.extend, WriteJob.zero]
  · have hstart : (scan.block.extend L slot).blockStart = scan.block.blockStart :=
      if_neg (Nat.ne_of_gt hpos)
    have hslots : (scan.block.extend L slot).slots = scan.block.slots ++ [slot] := by
      rw [WriteJob.slots, hstart, WriteJob.extend, range'_1_concat, hends, WriteJob.slots]
    have hlen : (scan.block.extend L slot).blockLen = scan.block.blockLen + 1 := rfl
    refine ⟨by omega, ?_⟩
    constructor
    · exact hstart ▸ hdesc.first
    · change (scan.block.extend L slot).blockStart + (scan.block.blockLen + 1) ≤ _
      omega
    · intro i hi
      change i ∈ (scan.block.extend L slot).slots at hi
      rw [hslots, mem_append, mem_singleton] at hi
      rcases hi with hi | rfl
      · exact hdesc.full i hi
      · exact hfull
    · change scan.block.blockSize + L.size slot = ((scan.block.extend L slot).slots.map L.size).sum
      rw [hslots, map_append, sum_append, map_singleton]
      exact congrArg (· + L.size slot) hdesc.size
    · rw [hstart, ← hdesc.ptr]
      exact if_neg (Nat.ne_of_gt hpos)

theorem GroupScan.Sound.scanSlot (h : scan.Sound L status groups group slot)
    (hgroup : group ∈ groups) (hfirst : group.slot ≤ slot) (hlast : slot < group.slot + group.len) :
    (scanSlot L status scan slot).Sound L status groups group (slot + 1) := by
  unfold MlvRec.scanSlot
  by_cases hfull : status slot = .full
  · rw [if_pos hfull]
    obtain ⟨hends, hdesc⟩ := h.extend hfull hfirst hlast
    exact ⟨.inr ⟨hends, Nat.succ_pos _, hdesc⟩, h.job.orLonger (.inr ⟨group, hgroup, hdesc⟩)⟩
  · rw [if_neg hfull]
    exact ⟨.inl rfl, h.job⟩

theorem scanSlots_ok (maxSize : ℕ) (hgroup : group ∈ groups)
    (h : scan.Sound L status groups group slot) (hfirst : group.slot ≤ slot)
    (hlast : slot + len = group.slot + group.len) :
    (scanSlots L status maxSize (range' slot len) scan).job.Ok L status groups := by
  induction len generalizing slot scan with
  | zero => exact h.job
  | succ len ih =>
    have hnext := h.scanSlot hgroup hfirst (by omega)
    rw [range'_succ, scanSlots]
    split_ifs
    · exact hnext.job
    · exact ih hnext (by omega) (by omega)

theorem groupJob_ok (maxSize : ℕ) (getPartial : Bool) {i : ℕ} (h : job.Ok L status groups)
    (hgroup : group ∈ groups) :
    (groupJob L status maxSize getPartial job (group, i)).Ok L status groups := by
  rw [groupJob]
  split_ifs
  · exact .inl rfl
  · exact scanSlots_ok maxSize hgroup ⟨.inl rfl, h⟩ le_rfl rfl

/-- A pass finds nothing, or a run in one of the groups. -/
theorem findBuffer_ok (startGroup maxSize : ℕ) (getPartial : Bool) :
    (findBuffer L status startGroup maxSize getPartial).Ok L status
      (L.slotGroups.drop startGroup) := by
  refine (foldlRecOn (motive := fun jobs : WriteJob × WriteJob =>
    jobs.1.Ok L status (L.slotGroups.drop startGroup) ∧
      jobs.2.Ok L status (L.slotGroups.drop startGroup)) _ _ ⟨.inl rfl, .inl rfl⟩
      fun jobs h x hx => ?_).2
  have hmem := mem_map_of_mem (f := Prod.fst) hx
  rw [map_drop, zipIdx_map_fst] at hmem
  have hjob := groupJob_ok maxSize getPartial (i := x.2) h.1 hmem
  exact ⟨hjob, h.2.orLonger hjob⟩

theorem findLargestBuffer_ok (startGroup maxSize : ℕ) :
    (findLargestBuffer L status startGroup maxSize).2.Ok L status
    (L.slotGroups.drop startGroup) := by
  simp only [findLargestBuffer]
  split_ifs
  · exact findBuffer_ok _ _ _
  · exact findBuffer_ok _ _ _

/-! ### Finding a full slot -/

theorem WriteJob.le_orLonger (job other : WriteJob) :
    job.blockLen ≤ (job.orLonger other).blockLen ∧
      other.blockLen ≤ (job.orLonger other).blockLen := by
  rw [WriteJob.orLonger]
  split_ifs <;> omega

theorem le_scanSlots (maxSize : ℕ) (slots : List ℕ) (scan : GroupScan) :
    scan.job.blockLen ≤ (scanSlots L status maxSize slots scan).job.blockLen := by
  have hslot : ∀ (scan : GroupScan) (slot : ℕ),
      scan.job.blockLen ≤ (scanSlot L status scan slot).job.blockLen := by
    intro scan slot
    rw [scanSlot]
    split_ifs
    · exact (WriteJob.le_orLonger _ _).1
    · exact le_rfl
  induction slots generalizing scan with
  | nil => exact le_rfl
  | cons slot slots ih =>
    rw [scanSlots]
    split_ifs
    · exact hslot scan slot
    · exact le_trans (hslot scan slot) (ih _)

theorem WriteJob.Ok.blockLen_pos (h : job.Ok L status groups) (hsize : 0 < job.blockSize) :
    0 < job.blockLen := by
  rcases h with rfl | ⟨group, -, hdesc⟩
  · exact absurd hsize (Nat.lt_irrefl 0)
  · rw [Nat.pos_iff_ne_zero]
    intro hlen
    have hslots : job.slots = [] := by rw [WriteJob.slots, hlen, range'_zero]
    rw [hdesc.size, hslots] at hsize
    exact absurd hsize (Nat.lt_irrefl 0)

/-- If there is a full slot, then the scan of a group has a job: that slot is reached, or the scan
has ended before with enough bytes. -/
theorem scanSlots_pos (maxSize : ℕ) (hgroup : group ∈ groups)
    (h : scan.Sound L status groups group slot) (hfirst : group.slot ≤ slot)
    (hlast : slot + len = group.slot + group.len)
    (hfull : ∃ i ∈ range' slot len, status i = .full) :
    0 < (scanSlots L status maxSize (range' slot len) scan).job.blockLen := by
  induction len generalizing slot scan with
  | zero =>
    obtain ⟨i, hi, -⟩ := hfull
    exact absurd hi not_mem_nil
  | succ len ih =>
    have hnext := h.scanSlot hgroup hfirst (by omega)
    rw [range'_succ, scanSlots]
    split_ifs with henough
    · exact hnext.job.blockLen_pos (by omega)
    · by_cases hslot : status slot = .full
      · refine lt_of_lt_of_le ?_ (le_scanSlots maxSize _ _)
        rw [scanSlot, if_pos hslot]
        have hlen : 0 < (scan.block.extend L slot).blockLen := Nat.succ_pos _
        exact lt_of_lt_of_le hlen (WriteJob.le_orLonger _ _).2
      · refine ih hnext (by omega) (by omega) ?_
        obtain ⟨i, hi, hi'⟩ := hfull
        rw [range'_succ, mem_cons] at hi
        rcases hi with rfl | hi
        · exact absurd hi' hslot
        · exact ⟨i, hi, hi'⟩

/-- The second pass finds a full slot, if there is one. -/
theorem findBuffer_pos {startGroup : ℕ} (maxSize : ℕ)
    (hfull : ∃ group ∈ L.slotGroups.drop startGroup, ∃ slot ∈ group.slots, status slot = .full) :
    0 < (findBuffer L status startGroup maxSize true).blockLen := by
  have hfold : ∀ (l : List (SlotGroup × ℕ)) (jobs : WriteJob × WriteJob),
      (∀ x ∈ l, x.1 ∈ L.slotGroups.drop startGroup) →
      jobs.1.Ok L status (L.slotGroups.drop startGroup) →
      (0 < jobs.2.blockLen ∨ ∃ x ∈ l, ∃ slot ∈ x.1.slots, status slot = .full) →
      0 < (l.foldl (scanGroup L status maxSize true) jobs).2.blockLen := by
    intro l
    induction l with
    | nil =>
      rintro jobs - - (h | ⟨x, hx, -⟩)
      · exact h
      · exact absurd hx not_mem_nil
    | cons x l ih =>
      intro jobs hl hok h
      have hmem := hl x mem_cons_self
      have hjob := groupJob_ok maxSize true (i := x.2) hok hmem
      refine ih _ (fun y hy => hl y (mem_cons_of_mem _ hy)) hjob ?_
      rcases h with h | ⟨y, hy, hslot⟩
      · exact .inl (lt_of_lt_of_le h (WriteJob.le_orLonger _ _).1)
      · rcases mem_cons.1 hy with rfl | hy
        · -- The job of this group is not dropped in the second pass.
          refine .inl (lt_of_lt_of_le ?_ (WriteJob.le_orLonger _ _).2)
          rw [groupJob, if_neg (by simp)]
          exact scanSlots_pos maxSize hmem ⟨.inl rfl, hok⟩ le_rfl rfl hslot
        · exact .inr ⟨y, hy, hslot⟩
  obtain ⟨group, hgroup, hslot⟩ := hfull
  have hfst : (L.slotGroups.zipIdx.drop startGroup).map Prod.fst =
      L.slotGroups.drop startGroup := by
    rw [map_drop, zipIdx_map_fst]
  refine hfold _ _ (fun x hx => hfst ▸ mem_map_of_mem hx) (.inl rfl) (.inr ?_)
  rw [← hfst] at hgroup
  obtain ⟨x, hx, rfl⟩ := mem_map.1 hgroup
  exact ⟨x, hx, hslot⟩

/-- **The job found.** `find_largest_buffer` returns 1 if and only if a slot of a group from
`startGroup` on is full. Then the job is a run of full slots of one such group, with the address of
the first slot and the sum of the sizes. -/
theorem findLargestBuffer_iff (L : Layout) (status : ℕ → SlotStatus) (startGroup maxSize : ℕ) :
    ((findLargestBuffer L status startGroup maxSize).1 = true ↔
      ∃ group ∈ L.slotGroups.drop startGroup, ∃ slot ∈ group.slots, status slot = .full) ∧
    ((findLargestBuffer L status startGroup maxSize).1 = true →
      0 < (findLargestBuffer L status startGroup maxSize).2.blockLen ∧
      ∃ group ∈ L.slotGroups.drop startGroup,
        (findLargestBuffer L status startGroup maxSize).2.Describes L status group) := by
  have hfound : (findLargestBuffer L status startGroup maxSize).1 = true ↔
      0 < (findLargestBuffer L status startGroup maxSize).2.blockLen :=
    decide_eq_true_iff
  have hdesc : 0 < (findLargestBuffer L status startGroup maxSize).2.blockLen →
      ∃ group ∈ L.slotGroups.drop startGroup,
        (findLargestBuffer L status startGroup maxSize).2.Describes L status group := by
    intro hpos
    rcases findLargestBuffer_ok startGroup maxSize with hzero | hdesc
    · rw [hzero] at hpos
      exact absurd hpos (Nat.lt_irrefl 0)
    · exact hdesc
  rw [hfound]
  refine ⟨⟨fun hpos => ?_, fun hfull => ?_⟩, fun hpos => ⟨hpos, hdesc hpos⟩⟩
  · obtain ⟨group, hgroup, hjob⟩ := hdesc hpos
    refine ⟨group, hgroup, (findLargestBuffer L status startGroup maxSize).2.blockStart, ?_, ?_⟩
    · have := hjob.first
      have := hjob.last
      exact mem_range'_1.2 (by omega)
    · exact hjob.full _ (mem_range'_1.2 (by omega))
  · simp only [findLargestBuffer]
    split_ifs with hzero
    · exact findBuffer_pos maxSize hfull
    · exact Nat.pos_of_ne_zero hzero

end

end MagicLantern.MlvRec

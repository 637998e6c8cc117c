import MagicLantern.MlvRec.LargestBuffer

/-!
# Who owns a locked slot

A locked slot should belong to one capture in progress or to one module that has not released it.
This holds in all states of a run exactly if no step is of one of two kinds. A frame that a module
wants to be skipped is given up after its slot was locked, and the slot stays locked. And a slot
that is returned by "keep on rolling" is not locked at all, so that a module can get it in the
middle of the capture.

## Main results

* `run_lockedOwned_iff` — when each locked slot has one owner.
* `run_skippedFrame`.
-/

namespace MagicLantern.MlvRec

open List Option

/-! ### What the searches find -/

variable {slot : ℕ} {captureSlot : Option ℕ} {forceNewBuffer : Bool} {job : WriteJob}

section Searches

variable {L : Layout} {status : ℕ → SlotStatus}

theorem lt_of_firstFreeOfGroups {groups : List SlotGroup} (hgroups : ∀ group ∈ groups, group.slot +
      group.len ≤ L.slotCount) (h : firstFreeOfGroups status groups = some slot) :
    slot < L.slotCount := by
  obtain ⟨group, hgroup, hslot⟩ := exists_of_findSome?_eq_some h
  have hmem : slot ∈ group.slots := mem_of_find?_eq_some hslot
  have := hgroups group hgroup
  rw [SlotGroup.slots, mem_range'_1] at hmem
  omega

theorem lt_of_findFreeSlot (h : findFreeSlot L status = some slot) : slot < L.slotCount :=
  lt_of_firstFreeOfGroups (fun group hgroup => L.groups_le group (mem_reverse.1 hgroup)) h

theorem free_of_rolling
    (h : chooseNextCaptureSlot L status captureSlot forceNewBuffer = .rolling slot) :
    status slot = .free := by
  have hsection (allocatedSlot : Option ℕ)
      (h : chooseSection L status captureSlot forceNewBuffer allocatedSlot = .rolling slot) :
      status slot = .free := by
    unfold chooseSection at h
    split at h
    · cases h
    · split_ifs at h with hroll
      cases h
      exact hroll.2.2.1
  unfold chooseNextCaptureSlot at h
  split at h
  · cases h
  · cases h
  · cases h
  · exact hsection _ h
  · exact hsection _ h

/-- All slots of the job are full. -/
def WriteJob.AllFull (status : ℕ → SlotStatus) (job : WriteJob) : Prop :=
  ∀ slot ∈ job.slots, status slot = .full

/-- `find_largest_buffer` finds full slots. -/
theorem findLargestBuffer_allFull (startGroup maxSize : ℕ) :
    (findLargestBuffer L status startGroup maxSize).2.AllFull status := by
  rcases findLargestBuffer_ok (L := L) startGroup maxSize with hzero | ⟨group, -, hjob⟩
  · rw [hzero]
    simp [WriteJob.AllFull, WriteJob.slots, WriteJob.zero]
  · exact hjob.full

theorem limitJob_slots_subset (job : WriteJob) (frameLimit : Option ℕ) :
    (Slots.limitJob L job frameLimit).slots ⊆ job.slots := by
  intro i hi
  unfold Slots.limitJob at hi
  split at hi
  · exact hi
  · split_ifs at hi
    · simp only [WriteJob.slots, mem_range'_1] at hi ⊢
      omega
    · exact hi

end Searches

/-! ### Owners -/

namespace Slots

/-- The slots that modules have. -/
def heldSlots (s : Slots) : List ℕ :=
  s.held.map Prod.snd

/-- The number of owners of a slot: the capture in progress, and the modules that have it. -/
def owners (s : Slots) (slot : ℕ) : ℕ :=
  (if s.capture = .pending slot then 1 else 0) + s.heldSlots.count slot

/-- Each locked slot has one owner. -/
def LockedOwned (s : Slots) : Prop :=
  ∀ slot, s.status slot = .locked → s.owners slot = 1

/-- The slots of the jobs that have not come back. -/
def inFlight (s : Slots) : List ℕ :=
  s.jobs.flatMap WriteJob.slots

/-- The invariant. A pending slot that is free is one that was returned by "keep on rolling". -/
structure Owned (L : Layout) (s : Slots) : Prop where
  held_locked : ∀ slot ∈ s.heldSlots, s.status slot = .locked
  held_nodup : s.heldSlots.Nodup
  held_lt : ∀ slot ∈ s.heldSlots, slot < L.slotCount
  calls_lt : ∀ m retries slot, s.calls m = some (.locking retries (some slot)) → slot < L.slotCount
  pending : ∀ slot, s.capture = .pending slot →
    slot ∉ s.heldSlots ∧ (s.status slot = .locked ∨ s.status slot = .free)
  locked : ∀ slot, s.status slot = .locked → s.capture = .pending slot ∨ slot ∈ s.heldSlots
  writing : ∀ slot ∈ s.inFlight, s.status slot = .writing
  writing_nodup : s.inFlight.Nodup

end Slots

open Slots

/-- The slot of the capture in progress. -/
def Capture.slot? : Capture → Option ℕ
  | .pending slot => some slot
  | _ => none

/-- The slot that is about to be locked. -/
def Search.slot? : Search → Option ℕ
  | .locking _ slot => slot
  | .searching _ => none

/-- A frame is skipped after its slot was locked. -/
def SlotOp.Leaks (s : Slots) : SlotOp → Prop
  | .captureFinish skip => skip = true ∧ ∃ slot ∈ s.capture.slot?, s.status slot = .locked
  | _ => False

/-- A module locks the slot of the capture in progress. -/
def SlotOp.Shares (s : Slots) : SlotOp → Prop
  | .moduleLock m => ∃ slot ∈ (s.calls m).bind Search.slot?,
      s.status slot = .free ∧ s.capture = .pending slot
  | _ => False

instance (s : Slots) : DecidablePred (SlotOp.Leaks s) := fun op => by
  cases op <;> dsimp only [SlotOp.Leaks] <;> infer_instance

instance (s : Slots) : DecidablePred (SlotOp.Shares s) := fun op => by
  cases op <;> dsimp only [SlotOp.Shares] <;> infer_instance

variable {L : Layout} {s s' : Slots} {m : ℕ} {op : SlotOp}

theorem Slots.Owned.lockedOwned (h : s.Owned L) : s.LockedOwned := by
  intro slot hslot
  rcases h.locked slot hslot with hpending | hheld
  · have hcount := count_eq_zero.2 (h.pending slot hpending).1
    simp [owners, hpending, hcount]
  · have hpending : s.capture ≠ .pending slot := fun hpending => (h.pending slot hpending).1 hheld
    have hcount := count_eq_one_of_mem h.held_nodup hheld
    simp [owners, hpending, hcount]

/-- One slot changes its state and, perhaps, its owner; the other slots stay with their owners. -/
theorem Slots.Owned.setSlot (h : s.Owned L) {status : SlotStatus} (hslot : s.status slot ≠ .writing)
    (hstatus : s'.status = Function.update s.status slot status) (hjobs : s'.jobs = s.jobs)
    (hcalls : ∀ m retries i, s'.calls m = some (.locking retries (some i)) → i < L.slotCount)
    (hnodup : s'.heldSlots.Nodup) (hmem : ∀ i ≠ slot, (i ∈ s'.heldSlots ↔ i ∈ s.heldSlots))
    (hcapture : ∀ i ≠ slot, (s'.capture = .pending i ↔ s.capture = .pending i))
    (hheld : slot ∈ s'.heldSlots → status = .locked ∧ slot < L.slotCount)
    (hpending : s'.capture = .pending slot →
      slot ∉ s'.heldSlots ∧ (status = .locked ∨ status = .free))
    (hlocked : status = .locked → s'.capture = .pending slot ∨ slot ∈ s'.heldSlots) :
    s'.Owned L where
  held_locked i hi := by
    by_cases his : i = slot
    · subst his
      simp [hstatus, (hheld hi).1]
    · simp [hstatus, his, h.held_locked i ((hmem i his).1 hi)]
  held_nodup := hnodup
  held_lt i hi := by
    by_cases his : i = slot
    · subst his
      exact (hheld hi).2
    · exact h.held_lt i ((hmem i his).1 hi)
  calls_lt := hcalls
  pending i hi := by
    by_cases his : i = slot
    · subst his
      simpa [hstatus] using hpending hi
    · rw [hmem i his]
      simpa [hstatus, his] using h.pending i ((hcapture i his).1 hi)
  locked i hi := by
    by_cases his : i = slot
    · subst his
      exact hlocked (by simpa [hstatus] using hi)
    · rw [hcapture i his, hmem i his]
      exact h.locked i (by simpa [hstatus, his] using hi)
  writing i hi := by
    rw [inFlight, hjobs] at hi
    have hi := h.writing i hi
    have his : i ≠ slot := by
      rintro rfl
      exact hslot hi
    simp [hstatus, his, hi]
  writing_nodup := by
    rw [inFlight, hjobs]
    exact h.writing_nodup

theorem Slots.Owned.notMem_of_free (h : s.Owned L) (hfree : s.status slot = .free) :
    slot ∉ s.heldSlots := by
  intro hheld
  have := h.held_locked slot hheld
  simp [hfree] at this

/-! ### Captures -/

section

variable (h : s.Owned L)

include h

theorem Slots.Owned.setCapture {capture : Capture} {frameCount : ℕ}
    (hcapture : ∀ slot, capture ≠ .pending slot)
      (hold : ∀ slot, s.capture = .pending slot → s.status slot ≠ .locked) :
    Owned L { s with capture, captureSlot, frameCount } where
  __ := h
  pending slot hslot := absurd hslot (hcapture slot)
  locked slot hslot := by
    rcases h.locked slot hslot with hpending | hheld
    · exact absurd hslot (hold slot hpending)
    · exact .inr hheld

theorem Slots.Owned.captureBegin (hs : s.captureBegin = some s') : s'.Owned L := by
  unfold Slots.captureBegin at hs
  split at hs
  case h_2 => simp at hs
  case h_1 hidle =>
    have hold : ∀ slot, s.capture = .pending slot → s.status slot ≠ .locked := by
      simp [hidle]
    split_ifs at hs
    · cases hs
      exact h.setCapture (by simp [hidle]) hold
    · cases hs
      exact h.setCapture (by simp) hold

theorem Slots.Owned.captureSearch (hs : s.captureSearch L forceNewBuffer = some s') :
    s'.Owned L := by
  unfold Slots.captureSearch at hs
  split at hs
  case h_2 => simp at hs
  case h_1 retries hchoosing =>
    split at hs
    case h_1 slot hrolling =>
      cases hs
      have hfree := free_of_rolling hrolling
      refine ⟨h.held_locked, h.held_nodup, h.held_lt, h.calls_lt, ?_, ?_, h.writing,
        h.writing_nodup⟩
      · rintro i hi
        obtain rfl := Capture.pending.inj hi
        exact ⟨h.notMem_of_free hfree, .inr hfree⟩
      · intro i hi
        have hold := h.locked i hi
        rw [hchoosing] at hold
        exact .inr (hold.resolve_left (by simp))
    case h_2 slot hfound =>
      cases hs
      exact h.setCapture (by simp) (by simp [hchoosing])

theorem Slots.Owned.captureRetry (retries : ℕ)
    (hold : ∀ slot, s.capture ≠ .pending slot) : (s.captureRetry retries).Owned L := by
  unfold Slots.captureRetry
  split
  all_goals exact h.setCapture (by simp) fun slot hslot => absurd hslot (hold slot)

theorem Slots.Owned.captureLock (hs : s.captureLock = some s') : s'.Owned L := by
  unfold Slots.captureLock at hs
  split at hs
  case h_3 => simp at hs
  case h_1 retries hchoosing =>
    cases hs
    exact h.captureRetry retries (by simp [hchoosing])
  case h_2 retries slot hchoosing =>
    split_ifs at hs with hfree
    · cases hs
      have hheld := h.notMem_of_free hfree
      refine h.setSlot (by simp [hfree]) rfl rfl h.calls_lt h.held_nodup (fun _ _ => Iff.rfl) ?_
        (fun hmem => absurd hmem hheld) (fun _ => ⟨hheld, .inl rfl⟩) fun _ => .inl rfl
      intro i hi
      simp [hchoosing, Ne.symm hi]
    · cases hs
      exact h.captureRetry retries (by simp [hchoosing])

theorem Slots.Owned.captureFinish {skip : Bool}
    (hgood : ¬ SlotOp.Leaks s (.captureFinish skip)) (hs : s.captureFinish skip = some s') :
    s'.Owned L := by
  unfold Slots.captureFinish at hs
  split at hs
  case h_2 => simp at hs
  case h_1 slot hpending =>
    obtain ⟨hheld, hstatus⟩ := h.pending slot hpending
    split_ifs at hs with hskip
    · cases hs
      refine h.setCapture (by simp) fun i hi hlocked => hgood ⟨hskip, i, ?_, hlocked⟩
      rw [hi]
      rfl
    · cases hs
      refine h.setSlot ?_ rfl rfl h.calls_lt h.held_nodup (fun _ _ => Iff.rfl) ?_
        (fun hmem => absurd hmem hheld) (by simp) (by simp)
      · rcases hstatus with hstatus | hstatus <;> simp [hstatus]
      · intro i hi
        simp [hpending, Ne.symm hi]

end

/-! ### Other modules -/

theorem Slots.Owned.setCall (h : s.Owned L) (m : ℕ) (call : Option Search)
    (hcall : ∀ retries slot, call = some (.locking retries (some slot)) → slot < L.slotCount) :
    Owned L { s with calls := Function.update s.calls m call } where
  __ := h
  calls_lt n retries slot hn := by
    by_cases hnm : n = m
    · subst hnm
      exact hcall retries slot (by simpa using hn)
    · exact h.calls_lt n retries slot (by simpa [hnm] using hn)

theorem retry_ne_locking (r retries : ℕ) (slot : Option ℕ) :
    retry r ≠ some (.locking retries slot) := by
  unfold retry
  split_ifs <;> simp

theorem Slots.Owned.moduleBegin (h : s.Owned L) (hs : s.moduleBegin m = some s') : s'.Owned L := by
  unfold Slots.moduleBegin at hs
  split at hs
  case h_2 => simp at hs
  case h_1 =>
    cases hs
    exact h.setCall m _ (by simp)

theorem Slots.Owned.moduleSearch (h : s.Owned L) (hs : s.moduleSearch L m = some s') :
    s'.Owned L := by
  unfold Slots.moduleSearch at hs
  split at hs
  case h_2 => simp at hs
  case h_1 retries hcall =>
    cases hs
    refine h.setCall m _ fun r slot hr => ?_
    exact lt_of_findFreeSlot (Search.locking.inj (some.inj hr)).2

theorem Slots.Owned.moduleLock (h : s.Owned L) (hgood : ¬ SlotOp.Shares s (.moduleLock m))
    (hs : s.moduleLock m = some s') : s'.Owned L := by
  unfold Slots.moduleLock at hs
  split at hs
  case h_3 => simp at hs
  case h_1 retries hcall =>
    cases hs
    exact h.setCall m _ fun r slot hr => absurd hr (retry_ne_locking _ _ _)
  case h_2 retries slot hcall =>
    split_ifs at hs with hfree
    · cases hs
      have hcalls := (h.setCall m none (by simp)).calls_lt
      refine h.setSlot (by simp [hfree]) rfl rfl hcalls
        (nodup_cons.2 ⟨h.notMem_of_free hfree, h.held_nodup⟩) ?_ (fun _ _ => Iff.rfl)
        (fun _ => ⟨rfl, h.calls_lt m retries slot hcall⟩) ?_ fun _ => .inr mem_cons_self
      · intro i hi
        simp [heldSlots, hi]
      · -- The module does not get the slot of the capture in progress.
        exact fun hpending => absurd ⟨slot, by simp [hcall, Search.slot?], hfree, hpending⟩ hgood
    · cases hs
      exact h.setCall m _ fun r slot hr => absurd hr (retry_ne_locking _ _ _)

theorem heldSlots_perm (hmem : (m, slot) ∈ s.held) :
    s.heldSlots.Perm (slot :: (s.held.erase (m, slot)).map Prod.snd) :=
  (perm_cons_erase hmem).map Prod.snd

theorem Slots.Owned.moduleRelease (h : s.Owned L) {write : Bool}
    (hs : s.moduleRelease L m slot write = some s') : s'.Owned L := by
  rw [Slots.moduleRelease] at hs
  by_cases hmem : (m, slot) ∈ s.held
  case neg => simp [hmem] at hs
  have hperm := heldSlots_perm hmem
  have hheld : slot ∈ s.heldSlots := hperm.mem_iff.2 mem_cons_self
  rw [if_pos hmem, if_pos (h.held_lt slot hheld)] at hs
  obtain ⟨hnot, hnodup⟩ := nodup_cons.1 (hperm.nodup_iff.1 h.held_nodup)
  cases hs
  refine h.setSlot (by simp [h.held_locked slot hheld]) rfl rfl h.calls_lt hnodup ?_
    (fun _ _ => Iff.rfl) (fun hmem => absurd hmem hnot)
    (fun hpending => absurd hheld (h.pending slot hpending).1) ?_
  · intro i hi
    rw [hperm.mem_iff, mem_cons, or_iff_right hi]
    rfl
  · cases write <;> simp

/-! ### The dispatcher -/

/-- The invariant when slots that are neither owned nor free change to another state in which they
are neither owned nor pending. -/
theorem Slots.Owned.setJobStatus (h : s.Owned L) {jobs : List WriteJob} {status : SlotStatus}
    (hstatus : status ≠ .locked)
    (hjob : ∀ slot ∈ job.slots, s.status slot ≠ .locked ∧ s.status slot ≠ .free)
    (hwriting : ∀ slot ∈ jobs.flatMap WriteJob.slots,
      (s.setJobStatus job status).status slot = .writing)
    (hnodup : (jobs.flatMap WriteJob.slots).Nodup) :
    Owned L { s.setJobStatus job status with jobs } where
  __ := h
  held_locked slot hslot := by
    have hlocked := h.held_locked slot hslot
    have hmem : slot ∉ job.slots := fun hmem => (hjob slot hmem).1 hlocked
    simp [Slots.setJobStatus, hmem, hlocked]
  pending slot hslot := by
    obtain ⟨hheld, hold⟩ := h.pending slot hslot
    have hmem : slot ∉ job.slots := fun hmem => hold.elim (hjob slot hmem).1 (hjob slot hmem).2
    exact ⟨hheld, by simpa [Slots.setJobStatus, hmem] using hold⟩
  locked slot hslot := by
    have hmem : slot ∉ job.slots := by
      intro hmem
      simp [Slots.setJobStatus, hmem, hstatus] at hslot
    exact h.locked slot (by simpa [Slots.setJobStatus, hmem] using hslot)
  writing := hwriting
  writing_nodup := hnodup

theorem Slots.Owned.dispatch (h : s.Owned L) {startGroup maxSize : ℕ} {frameLimit : Option ℕ}
    (hs : s.dispatch L startGroup maxSize frameLimit = some s') : s'.Owned L := by
  unfold Slots.dispatch at hs
  dsimp only at hs
  split_ifs at hs
  cases hs
  have hfull : ∀ slot ∈ (limitJob L (findLargestBuffer L s.status startGroup maxSize).2
      frameLimit).slots, s.status slot = .full := fun slot hslot =>
    findLargestBuffer_allFull startGroup maxSize slot (limitJob_slots_subset _ _ hslot)
  generalize limitJob L (findLargestBuffer L s.status startGroup maxSize).2 frameLimit = job at *
  refine h.setJobStatus (by simp) (fun slot hslot => by simp [hfull slot hslot]) ?_ ?_
  · intro slot hslot
    rw [flatMap_append, mem_append] at hslot
    by_cases hmem : slot ∈ job.slots
    · simp [Slots.setJobStatus, hmem]
    · have hslot : slot ∈ s.inFlight := hslot.resolve_right (by simpa using hmem)
      simp [Slots.setJobStatus, h.writing slot hslot]
  · rw [flatMap_append, flatMap_singleton]
    refine h.writing_nodup.append nodup_range' fun slot hslot hmem => ?_
    have := h.writing slot hslot
    simp [hfull slot hmem] at this

theorem Slots.Owned.complete (h : s.Owned L) (hs : s.complete job = some s') : s'.Owned L := by
  rw [Slots.complete] at hs
  split_ifs at hs with hmem
  cases hs
  have hperm : s.inFlight.Perm (job.slots ++ (s.jobs.erase job).flatMap WriteJob.slots) :=
    (perm_cons_erase hmem).flatMap_right WriteJob.slots
  obtain ⟨-, hnodup, hdisj⟩ := nodup_append'.1 (hperm.nodup_iff.1 h.writing_nodup)
  have hwriting : ∀ slot ∈ job.slots, s.status slot = .writing := fun slot hslot =>
    h.writing slot (hperm.mem_iff.2 (mem_append_left _ hslot))
  refine h.setJobStatus (by simp) (fun slot hslot => by simp [hwriting slot hslot]) ?_ hnodup
  intro slot hslot
  have hnot : slot ∉ job.slots := fun hslot' => hdisj hslot' hslot
  simp [Slots.setJobStatus, hnot,
    h.writing slot (hperm.mem_iff.2 (mem_append_right _ hslot))]

/-! ### Runs -/

theorem Slots.Owned.step (h : s.Owned L) (hgood : ¬ op.Leaks s ∧ ¬ op.Shares s)
    (hs : op.step L s = some s') : s'.Owned L := by
  cases op with
  | captureBegin => exact h.captureBegin hs
  | captureSearch forceNewBuffer => exact h.captureSearch hs
  | captureLock => exact h.captureLock hs
  | captureFinish skip => exact h.captureFinish hgood.1 hs
  | moduleBegin m => exact h.moduleBegin hs
  | moduleSearch m => exact h.moduleSearch hs
  | moduleLock m => exact h.moduleLock hgood.2 hs
  | moduleRelease m slot write => exact h.moduleRelease hs
  | dispatch startGroup maxSize frameLimit => exact h.dispatch hs
  | complete job => exact h.complete hs

/-- After a frame was skipped its slot is locked and has no owner. -/
theorem Slots.Owned.not_lockedOwned_of_leaks (h : s.Owned L) (hop : op.Leaks s)
    (hs : op.step L s = some s') : ¬ s'.LockedOwned := by
  cases op with
  | captureFinish skip =>
    obtain ⟨rfl, slot, hslot, hlocked⟩ := hop
    cases hcapture : s.capture with
    | idle | choosing => simp [hcapture, Capture.slot?] at hslot
    | pending i =>
      obtain rfl : i = slot := by simpa [hcapture, Capture.slot?] using hslot
      have hs : s.captureFinish true = some s' := hs
      simp only [Slots.captureFinish, hcapture, if_true, some.injEq] at hs
      subst hs
      intro howned
      have hcount : s.heldSlots.count i = 0 := count_eq_zero.2 (h.pending i hcapture).1
      have hone := howned i hlocked
      simp [owners, heldSlots] at hone hcount
      omega
  | _ => exact hop.elim

/-- The slot of a capture in progress that a module locks has two owners. -/
theorem SlotOp.Shares.not_lockedOwned (hop : op.Shares s) (hs : op.step L s = some s') :
    ¬ s'.LockedOwned := by
  cases op with
  | moduleLock m =>
    obtain ⟨slot, hslot, hfree, hpending⟩ := hop
    obtain ⟨search, hcall, hsearch⟩ := bind_eq_some_iff.1 hslot
    cases search with
    | searching retries => simp [Search.slot?] at hsearch
    | locking retries found =>
      obtain rfl : found = some slot := hsearch
      have hs : s.moduleLock m = some s' := hs
      simp only [Slots.moduleLock, hcall, hfree, if_true, some.injEq] at hs
      subst hs
      intro howned
      have := howned slot (by simp [setStatus])
      simp [owners, heldSlots, setStatus, hpending] at this
  | _ => exact hop.elim

/-- A recording begins: no slot is locked and no call is in progress. -/
structure Slots.Fresh (s : Slots) : Prop where
  status : ∀ slot, s.status slot ≠ .locked
  capture : s.capture = .idle
  calls : ∀ m, s.calls m = none
  held : s.held = []
  jobs : s.jobs = []

theorem Slots.Fresh.owned (h : s.Fresh) : s.Owned L where
  held_locked := by simp [heldSlots, h.held]
  held_nodup := by simp [heldSlots, h.held]
  held_lt := by simp [heldSlots, h.held]
  calls_lt := by simp [h.calls]
  pending := by simp [h.capture]
  locked slot hslot := absurd hslot (h.status slot)
  writing := by simp [inFlight, h.jobs]
  writing_nodup := by simp [inFlight, h.jobs]

/-- **Locked slots.** In all states of a run each locked slot belongs to one capture or one module
exactly if no frame is skipped after its slot was locked and no module locks the slot of a capture.
In such a run no slot is locked when there is no capture and no module has a slot. -/
theorem run_lockedOwned_iff (L : Layout) (s₀ : Slots) (hfresh : s₀.Fresh) (ops : List SlotOp)
    (s : Slots) (hrun : s₀.run L ops = some s) :
    (Runs.Always (SlotOp.step L) LockedOwned s₀ ops ↔
      Runs.Meets (SlotOp.step L) (fun s op => ¬ op.Leaks s ∧ ¬ op.Shares s) s₀ ops) ∧
    (Runs.Always (SlotOp.step L) LockedOwned s₀ ops → s.capture = .idle → s.held = [] →
      ∀ slot, s.status slot ≠ .locked) := by
  constructor
  · refine Runs.always_iff_meets (J := Owned L) (fun s h => h.lockedOwned)
      (fun s op s' h hgood hs => h.step hgood hs) ?_ hrun hfresh.owned
    intro s op s' h hbad hs
    by_cases hleaks : op.Leaks s
    · exact h.not_lockedOwned_of_leaks hleaks hs
    · have hshares : op.Shares s := by_contra fun hshares => hbad ⟨hleaks, hshares⟩
      exact hshares.not_lockedOwned hs
  · intro halways hidle hheld slot hslot
    have := halways.last hrun slot hslot
    simp [owners, heldSlots, hidle, hheld] at this

/-- Four free slots in one group, with the given method. -/
def fourSlots (bufferFillMethod : ℕ) : Layout where
  slotCount := 4
  ptr := fun i => 0x1000 * i
  size := fun _ => 0x1000
  slotGroups := [⟨0, 4⟩]
  bufferFillMethod
  fastCardBuffers := 1
  groups_le := by decide

/-- The slots at the start of a recording. -/
def freeSlots : Slots where
  status := fun _ => .free
  captureSlot := none
  frameCount := 0
  capture := .idle
  calls := fun _ => none
  held := []
  jobs := []

/-- The steps of a frame that is captured and written, while a module has a slot. -/
def oneFrame : List SlotOp :=
  [.captureBegin, .captureBegin, .captureSearch false, .moduleBegin 0, .moduleSearch 0,
    .captureLock, .captureFinish false, .moduleLock 0, .moduleSearch 0, .moduleLock 0,
    .dispatch 0 0 none, .complete ⟨0, 1, 0x1000, 0⟩, .moduleRelease 0 1 false]

/-- After that no slot is locked. -/
theorem run_lockedOwned_oneFrame :
    ∃ s, freeSlots.run (fourSlots 4) oneFrame = some s ∧ ∀ slot, s.status slot ≠ .locked := by
  obtain ⟨s, hrun, hidle, hheld⟩ : ∃ s, freeSlots.run (fourSlots 4) oneFrame = some s ∧
      s.capture = .idle ∧ s.held = [] := by
    decide +kernel
  obtain ⟨hiff, hlocked⟩ := run_lockedOwned_iff (fourSlots 4) freeSlots
    ⟨by simp [freeSlots], rfl, fun _ => rfl, rfl, rfl⟩ oneFrame s hrun
  exact ⟨s, hrun, hlocked (hiff.2 (by decide +kernel)) hidle hheld⟩

/-- A module has a frame skipped: its slot stays locked. -/
theorem run_skippedFrame :
    ∃ s, freeSlots.run (fourSlots 4)
        [.captureBegin, .captureBegin, .captureSearch false, .captureLock, .captureFinish true] =
          some s ∧
      s.capture = .idle ∧ s.held = [] ∧ s.status 0 = .locked := by
  decide +kernel

end MagicLantern.MlvRec

import MagicLantern.Patching.Digic45

/-!
# RAM patches on DIGIC 4/5 are an undo log

Whatever a call does to the caches, its effect on memory and on the RAM entries of the patch table
is a run of the undo log of `UndoLog`: an iteration of `apply_patches` that goes on records one
entry, an unpatching that finds its patch in force undoes one entry from any position, and
everything else leaves both unchanged. The log needs no stack discipline, so memory is back to its
original contents whenever the table is empty again, in whatever order patches of any alignment
were removed (`digic45_restores_memory`).

The truncation of `read_value` and `apply_patch` at unaligned addresses does no harm here: the
comparison of `is_patch_still_applied` is against the full 32-bit value, so a patch passes it only
when all the bytes it wrote are in place (`readValue_eq_iff`).

## Main results

* `digic45_restores_memory` — an empty table means restored memory.
-/

namespace MagicLantern.Patching

open ByteMemory

variable {a : UInt32}

namespace Digic45

/-! ### Functions that only touch the caches -/

variable (s : State Digic45)

@[simp] theorem setCaches_mem (c : Caches) : (setCaches s c).mem = s.mem := rfl

@[simp] theorem setCaches_patchesGlobal (c : Caches) :
    (setCaches s c).patchesGlobal = s.patchesGlobal := rfl

@[simp] theorem cacheFake_mem (a d : UInt32) (t : CacheType) :
    (cacheFake s a d t).mem = s.mem := by
  simp only [cacheFake, setCaches_mem]
  split_ifs <;> rfl

@[simp] theorem cacheFake_patchesGlobal (a d : UInt32) (t : CacheType) :
    (cacheFake s a d t).patchesGlobal = s.patchesGlobal := by
  simp only [cacheFake, setCaches_patchesGlobal]
  split_ifs <;> rfl

@[simp] theorem lockCaches_mem : (lockCaches s).mem = s.mem := by
  rw [lockCaches]
  split_ifs <;> rfl

@[simp] theorem lockCaches_patchesGlobal : (lockCaches s).patchesGlobal = s.patchesGlobal := by
  rw [lockCaches]
  split_ifs <;> rfl

@[simp] theorem reapplyCachePatch_mem (p : Patch) : (reapplyCachePatch s p).1.mem = s.mem := by
  simp only [reapplyCachePatch]
  split_ifs <;> simp

@[simp] theorem reapplyCachePatch_patchesGlobal (p : Patch) :
    (reapplyCachePatch s p).1.patchesGlobal = s.patchesGlobal := by
  simp only [reapplyCachePatch]
  split_ifs <;> simp

theorem reapplyCachePatches_mem_and_table :
    (reapplyCachePatches s).1.mem = s.mem ∧
      (reapplyCachePatches s).1.patchesGlobal = s.patchesGlobal := by
  let Same (r : State Digic45 × UInt32) : Prop :=
    r.1.mem = s.mem ∧ r.1.patchesGlobal = s.patchesGlobal
  refine List.foldlRecOn s.patchesGlobal _ (motive := Same) ⟨rfl, rfl⟩ fun r hr p _ => ?_
  split_ifs
  · simpa [Same] using hr
  · exact hr

@[simp] theorem syncLockedCaches_mem : (syncLockedCaches s).1.mem = s.mem := by
  simp only [syncLockedCaches]
  split_ifs
  · rw [(reapplyCachePatches_mem_and_table _).1]
    rfl
  · rfl

@[simp] theorem syncLockedCaches_patchesGlobal :
    (syncLockedCaches s).1.patchesGlobal = s.patchesGlobal := by
  simp only [syncLockedCaches]
  split_ifs
  · rw [(reapplyCachePatches_mem_and_table _).2]
    rfl
  · rfl

@[simp] theorem checkCacheLockStillNeeded_mem : (checkCacheLockStillNeeded s).mem = s.mem := by
  rw [checkCacheLockStillNeeded]
  split_ifs <;> rfl

@[simp] theorem checkCacheLockStillNeeded_patchesGlobal :
    (checkCacheLockStillNeeded s).patchesGlobal = s.patchesGlobal := by
  rw [checkCacheLockStillNeeded]
  split_ifs <;> rfl

@[simp] theorem finishUnpatch_mem (a : UInt32) (i : ℕ) (p : Patch) :
    (finishUnpatch s a i p).1.mem = s.mem := by
  simp only [finishUnpatch, checkCacheLockStillNeeded_mem]
  split_ifs
  · exact (reapplyCachePatches_mem_and_table _).1
  · exact syncLockedCaches_mem s
  · rfl

@[simp] theorem finishUnpatch_patchesGlobal (a : UInt32) (i : ℕ) (p : Patch) :
    (finishUnpatch s a i p).1.patchesGlobal = s.patchesGlobal := by
  simp only [finishUnpatch, checkCacheLockStillNeeded_patchesGlobal]
  split_ifs
  · exact (reapplyCachePatches_mem_and_table _).2
  · exact syncLockedCaches_patchesGlobal s
  · rfl

/-! ### Reading and writing RAM -/

/-- The bytes of a value that an access at `a` reads or writes. -/
def valueBytes (a v : UInt32) : List UInt8 := ByteMemory.leBytes (accessWidth a) v.toNat

@[simp] theorem length_valueBytes (a v : UInt32) : (valueBytes a v).length = accessWidth a :=
  length_leBytes _ _

variable {s}

theorem readValue_of_ram (ha : isRomPtr a = false) (b : Bool) :
    readValue s a b =
      UInt32.ofNat (ByteMemory.leValue (s.mem.readBytes (cellOf a) (accessWidth a))) := by
  cases b <;> simp [readValue, loadBytes, ha]

/-- A value read from RAM is `v` exactly when `v` fits the access and its bytes are in place. -/
theorem readValue_eq_iff {v : UInt32} (ha : isRomPtr a = false) (b : Bool) :
    readValue s a b = v ↔ v.toNat < 256 ^ accessWidth a ∧
      s.mem.readBytes (cellOf a) (accessWidth a) = valueBytes a v := by
  have hlt := leValue_lt (s.mem.readBytes (cellOf a) (accessWidth a))
  rw [length_readBytes] at hlt
  have hlt' : ByteMemory.leValue (s.mem.readBytes (cellOf a) (accessWidth a)) < 2 ^ 32 :=
    hlt.trans_le (Nat.pow_le_pow_right (by decide) (accessWidth_le a))
  rw [readValue_of_ram ha]
  constructor
  · rintro rfl
    rw [UInt32.toNat_ofNat_of_lt' hlt']
    refine ⟨hlt, ?_⟩
    have := leBytes_leValue (s.mem.readBytes (cellOf a) (accessWidth a))
    rw [length_readBytes] at this
    rw [valueBytes, UInt32.toNat_ofNat_of_lt' hlt', this]
  · rintro ⟨hv, hbytes⟩
    rw [hbytes, valueBytes, leValue_leBytes, Nat.mod_eq_of_lt hv, UInt32.ofNat_toNat]

end Digic45

/-- The patch as the caller sees it after `apply_patch`: code in RAM is addressed past the data
cache. -/
def Patch.rewritten (p : Patch) : Patch :=
  { p with addr := if p.isInstruction then uncacheable p.addr else p.addr }

@[simp] theorem Patch.rewritten_isInstruction (p : Patch) :
    p.rewritten.isInstruction = p.isInstruction := by
  rw [Patch.rewritten]

@[simp] theorem Patch.isRomPtr_rewritten_addr (p : Patch) :
    isRomPtr p.rewritten.addr = isRomPtr p.addr := by
  rw [Patch.rewritten]
  split_ifs <;> simp

namespace Digic45

variable {s : State Digic45}

theorem applyPatch_of_ram {p : Patch} (hsize : p.size = 4) (hp : isRomPtr p.addr = false) :
    applyPatch s p =
      ({ s with mem := s.mem.writeBytes (cellOf p.addr) (valueBytes p.addr p.newValue) },
        p.rewritten, ePatchOk) := by
  obtain ⟨a, old, new, olds, news, size, descr, instr⟩ := p
  cases instr <;> simp_all [applyPatch, storeValue, valueBytes, Patch.rewritten]

theorem applyPatch_of_rom {p : Patch} (hp : isRomPtr p.addr = true) :
    (applyPatch s p).1.mem = s.mem ∧ (applyPatch s p).1.patchesGlobal = s.patchesGlobal ∧
      (applyPatch s p).2.1 = p := by
  simp only [applyPatch, hp]
  split_ifs <;> simp

end Digic45

open Digic45

variable {n : ℕ} {s : State Digic45} {p : Patch} {l₁ l₂ : List Patch}

/-! ### One iteration of `apply_patches` -/

/-- The checks that a patch has to pass in the loop of `apply_patches`. -/
structure Accepts (n : ℕ) (s : State Digic45) (p : Patch) : Prop where
  size : p.size = 4
  fresh : ∀ q ∈ s.patchesGlobal, q.addr ≠ p.addr
  room : s.patchesGlobal.length < n
  old : readValue s p.addr p.isInstruction = p.oldValue

theorem patchOne_of_not_accepts (h : ¬ Accepts n s p) :
    ∃ e ≠ 0, (digic45 n).patchOne s p = ⟨s, p, e, true⟩ := by
  by_cases hsize : p.size = 4
  swap
  · exact ⟨ePatchUnknownError, by decide, by simp [Backend.patchOne, digic45, hsize]⟩
  by_cases hfresh : ∀ q ∈ s.patchesGlobal, q.addr ≠ p.addr
  swap
  · refine ⟨ePatchAlreadyPatched, by decide, ?_⟩
    have hany : s.patchesGlobal.any (·.addr == p.addr) = true := by simpa using hfresh
    simp [Backend.patchOne, digic45, hsize, hany]
  have hany : s.patchesGlobal.any (·.addr == p.addr) = false := by simpa using hfresh
  by_cases hroom : s.patchesGlobal.length < n
  swap
  · refine ⟨ePatchTooManyPatches, by decide, ?_⟩
    simp [Backend.patchOne, digic45, hsize, hany, Nat.le_of_not_lt hroom]
  have hold : readValue s p.addr p.isInstruction ≠ p.oldValue :=
    fun hold => h ⟨hsize, hfresh, hroom, hold⟩
  refine ⟨ePatchOldValueMismatch, by decide, ?_⟩
  simp [Backend.patchOne, Backend.backup, digic45, hsize, hany, Nat.not_le.2 hroom, hold]

theorem backup_of_accepts (h : Accepts n s p) : (digic45 n).backup s p = .ok p := by
  obtain ⟨hsize, -, -, hold⟩ := h
  obtain ⟨a, old, new, olds, news, size, descr, instr⟩ := p
  simp_all [Backend.backup, digic45]

/-- A RAM patch that passes the checks is written and recorded, and the loop goes on. -/
theorem patchOne_of_accepts (h : Accepts n s p) (hp : isRomPtr p.addr = false) :
    ((digic45 n).patchOne s p).stop = false ∧
      ((digic45 n).patchOne s p).patch = p.rewritten ∧
      ((digic45 n).patchOne s p).state.mem =
        s.mem.writeBytes (cellOf p.addr) (valueBytes p.addr p.newValue) ∧
      ((digic45 n).patchOne s p).state.patchesGlobal = s.patchesGlobal ++ [p] ∧
      ((digic45 n).patchOne s p).state.dev.caches.locked = s.dev.caches.locked ∧
      ((digic45 n).patchOne s p).err = if p.isInstruction then (syncLockedCaches { s with
        mem := s.mem.writeBytes (cellOf p.addr) (valueBytes p.addr p.newValue) }).2 else 0 := by
  have hany : s.patchesGlobal.any (·.addr == p.addr) = false := by simpa using h.fresh
  have hstep := applyPatch_of_ram (s := s) h.size hp
  simp only [Backend.patchOne, backup_of_accepts h]
  simp only [digic45, hstep, hany, h.size, Nat.not_le.2 h.room, ePatchOk]
  cases hi : p.isInstruction with
  | false => simp [hi]
  | true => simp [hp, hi, locked_syncLockedCaches]

/-- An iteration on a ROM patch leaves memory and the entries recorded before it alone. -/
theorem patchOne_of_rom (hp : isRomPtr p.addr = true) :
    ((digic45 n).patchOne s p).state.mem = s.mem ∧
      (((digic45 n).patchOne s p).state.patchesGlobal = s.patchesGlobal ∨
        ((digic45 n).patchOne s p).state.patchesGlobal = s.patchesGlobal ++ [p]) := by
  by_cases h : Accepts n s p
  · have hany : s.patchesGlobal.any (·.addr == p.addr) = false := by simpa using h.fresh
    obtain ⟨hmem, htable, hpatch⟩ := applyPatch_of_rom (s := s) hp
    simp only [Backend.patchOne, backup_of_accepts h]
    simp only [digic45, hany, Nat.not_le.2 h.room, hpatch, hp]
    split_ifs <;> simp_all
  · obtain ⟨e, -, he⟩ := patchOne_of_not_accepts h
    simp [he]

/-! ### Unpatching -/

theorem unpatchMemory_of_notMem (h : ∀ q ∈ s.patchesGlobal, q.addr ≠ a) :
    unpatchMemory s a = (s, ePatchOk) := by
  have hfind : s.patchesGlobal.findIdx? (·.addr == a) = none := by
    simpa [List.findIdx?_eq_none_iff] using h
  rw [unpatchMemory, hfind]

section

variable (hs : s.patchesGlobal = l₁ ++ p :: l₂) (hl : ∀ q ∈ l₁, q.addr ≠ a) (hp : p.addr = a)

include hs hl hp

/-- An entry that is still in force is taken out of the table and, in RAM, its old value is
written back. -/
theorem unpatchMemory_of_inForce (hsize : p.size = 4)
    (happ : readValue s a p.isInstruction = p.newValue) :
    (unpatchMemory s a).1.patchesGlobal = l₁ ++ l₂ ∧
      (unpatchMemory s a).1.mem = if isRomPtr a then s.mem
        else s.mem.writeBytes (cellOf a) (valueBytes a p.oldValue) := by
  subst hp
  have hstill : isPatchStillApplied (readValue s) p = true := by
    simp [isPatchStillApplied, Patch.firstNewWord, hsize, happ]
  have hsize' : (p.size != 4) = false := by simp [hsize]
  rw [unpatchMemory, hs, findIdx?_addr hl rfl]
  simp only [getD_append_cons, hstill, hsize', Bool.false_eq_true]
  by_cases hrom : isRomPtr p.addr = true
  · simp [hrom, removeEntry, hs, eraseIdx_append_cons]
  · rw [Bool.not_eq_true] at hrom
    have hstep := applyPatch_of_ram (s := s) (p := p.swapped) hsize hrom
    simp only [hstep, hrom]
    simp [removeEntry, hs, eraseIdx_append_cons, Patch.swapped]

/-- An entry that has been overwritten stays, and so does memory. -/
theorem unpatchMemory_of_overwritten
    (h : ¬ (p.size = 4 ∧ readValue s a p.isInstruction = p.newValue)) :
    (unpatchMemory s a).1 = s := by
  subst hp
  rw [unpatchMemory, hs, findIdx?_addr hl rfl]
  simp only [getD_append_cons]
  by_cases hsize : p.size = 4
  · have happ : readValue s p.addr p.isInstruction ≠ p.newValue := fun happ => h ⟨hsize, happ⟩
    simp [hsize, isPatchStillApplied, Patch.firstNewWord, happ]
  · simp [hsize]

end

/-- All that unpatching can do to memory and the table. -/
theorem unpatchMemory_cases (s : State Digic45) (a : UInt32) :
    (unpatchMemory s a).1 = s ∨ ∃ l₁ p l₂, s.patchesGlobal = l₁ ++ p :: l₂ ∧ p.addr = a ∧
      readValue s a p.isInstruction = p.newValue ∧
      (unpatchMemory s a).1.patchesGlobal = l₁ ++ l₂ ∧
      (unpatchMemory s a).1.mem = if isRomPtr a then s.mem
        else s.mem.writeBytes (cellOf a) (valueBytes a p.oldValue) := by
  cases hfind : s.patchesGlobal.findIdx? (·.addr == a) with
  | none =>
    rw [unpatchMemory_of_notMem (by simpa [List.findIdx?_eq_none_iff] using hfind)]
    exact .inl rfl
  | some i =>
    obtain ⟨l₁, p, l₂, hs, hp, hl⟩ := exists_split hfind
    by_cases h : p.size = 4 ∧ readValue s a p.isInstruction = p.newValue
    · exact .inr ⟨l₁, p, l₂, hs, hp, h.2, unpatchMemory_of_inForce hs hl hp h.1 h.2⟩
    · exact .inl (unpatchMemory_of_overwritten hs hl hp h)

/-! ### The undo log -/

/-- The undo-log entry of a RAM patch. -/
def Patch.entry (p : Patch) : UndoLog.Entry ℕ UInt8 :=
  UndoLog.blockEntry (cellOf p.addr) (valueBytes p.addr p.oldValue)
    (valueBytes p.addr p.newValue)

/-- Memory and the RAM entries of the patch table. -/
def undoConfig (s : State Digic45) : UndoLog.Config ℕ UInt8 where
  mem := s.mem
  log := (s.patchesGlobal.filter fun p => !isRomPtr p.addr).map Patch.entry

theorem undoConfig_congr {s' : State Digic45} (hmem : s'.mem = s.mem)
    (htable : s'.patchesGlobal = s.patchesGlobal) : undoConfig s' = undoConfig s := by
  rw [undoConfig, undoConfig, hmem, htable]

theorem patchOne_undoConfig (n : ℕ) (s : State Digic45) (p : Patch) :
    UndoLog.Run (undoConfig s) (undoConfig ((digic45 n).patchOne s p).state) := by
  by_cases hrom : isRomPtr p.addr = true
  · obtain ⟨hmem, htable | htable⟩ := patchOne_of_rom (n := n) (s := s) hrom
    · rw [undoConfig_congr hmem htable]
    · have : undoConfig ((digic45 n).patchOne s p).state = undoConfig s := by
        rw [undoConfig, undoConfig, hmem, htable]
        simp [hrom]
      rw [this]
  rw [Bool.not_eq_true] at hrom
  by_cases h : Accepts n s p
  · obtain ⟨-, -, hmem, htable, -⟩ := patchOne_of_accepts h hrom
    have hbytes := ((readValue_eq_iff hrom p.isInstruction).1 h.old).2
    have hpost : undoConfig ((digic45 n).patchOne s p).state =
        ⟨s.mem.writeBytes (cellOf p.addr) (valueBytes p.addr p.newValue),
          (undoConfig s).log ++ [p.entry]⟩ := by
      rw [undoConfig, hmem, htable]
      simp [undoConfig, hrom]
    rw [hpost]
    exact .single (UndoLog.Step.record_block (by simp) (by rw [length_valueBytes, hbytes]))
  · obtain ⟨e, -, he⟩ := patchOne_of_not_accepts h
    rw [he]

theorem unpatchMemory_undoConfig (s : State Digic45) (a : UInt32) :
    UndoLog.Run (undoConfig s) (undoConfig (unpatchMemory s a).1) := by
  obtain h | ⟨l₁, p, l₂, hs, rfl, happ, htable, hmem⟩ := unpatchMemory_cases s a
  · rw [h]
  by_cases hrom : isRomPtr p.addr = true
  · have : undoConfig (unpatchMemory s p.addr).1 = undoConfig s := by
      rw [undoConfig, undoConfig, hmem, htable, hs]
      simp [hrom]
    rw [this]
  rw [Bool.not_eq_true] at hrom
  -- The full 32-bit comparison shows that every byte written is still in place.
  have hbytes := ((readValue_eq_iff hrom p.isInstruction).1 happ).2
  have hpre : undoConfig s = ⟨s.mem, (l₁.filter fun p => !isRomPtr p.addr).map Patch.entry ++
      p.entry :: (l₂.filter fun p => !isRomPtr p.addr).map Patch.entry⟩ := by
    rw [undoConfig, hs]
    simp [hrom]
  have hpost : undoConfig (unpatchMemory s p.addr).1 =
      ⟨s.mem.writeBytes (cellOf p.addr) (valueBytes p.addr p.oldValue),
        (l₁.filter fun p => !isRomPtr p.addr).map Patch.entry ++
          (l₂.filter fun p => !isRomPtr p.addr).map Patch.entry⟩ := by
    rw [undoConfig, hmem, htable]
    simp [hrom]
  rw [hpre, hpost]
  exact .single (UndoLog.Step.undo_block (by simp) (by rw [length_valueBytes, hbytes]))

theorem applyPatches_undoConfig (n : ℕ) (s : State Digic45) (ps : List Patch) :
    UndoLog.Run (undoConfig s) (undoConfig ((digic45 n).applyPatches s ps).1) :=
  Backend.applyPatches_invariant (I := fun t => UndoLog.Run (undoConfig s) (undoConfig t))
    (fun t p h => h.trans (patchOne_undoConfig n t p))
    (fun t a h => h.trans (unpatchMemory_undoConfig t a)) ps .refl

/-- **Every sequence of calls is a run of the undo log.** -/
theorem run_undoConfig (n : ℕ) (cs : List Call) (s : State Digic45) :
    UndoLog.Run (undoConfig s) (undoConfig ((digic45 n).run s cs)) :=
  Backend.run_invariant (I := fun t => UndoLog.Run (undoConfig s) (undoConfig t))
    (fun t p h => h.trans (patchOne_undoConfig n t p))
    (fun t a h => h.trans (unpatchMemory_undoConfig t a)) cs .refl

/-- **Undoing restores memory.** From an empty table, after any sequence of calls that leaves the
table empty again, every byte of memory has its original value: whatever the alignment and the
overlaps of the patches, whichever calls failed, and in whatever order patches were removed. -/
theorem digic45_restores_memory (n : ℕ) (s : State Digic45) (cs : List Call)
    (h₀ : s.patchesGlobal = []) (h₁ : ((digic45 n).run s cs).patchesGlobal = []) :
    ((digic45 n).run s cs).mem = s.mem :=
  UndoLog.eq_of_run_empty_log (run_undoConfig n cs s) (by simp [undoConfig, h₀])
    (by simp [undoConfig, h₁])

/-- A half-word patch over a word patch: the word patch cannot be removed first, and after both
are gone the word is as it was. -/
theorem digic45_restores_memory_overlap :
    let cs : List Call := [.apply [{ addr := 0x1000, newValue := 0x11223344, size := 4 }],
      .apply [{ addr := 0x1002, oldValue := 0x1122, newValue := 0x5566, size := 4 }],
      .unpatch 0x1000, .unpatch 0x1002, .unpatch 0x1000]
    ((digic45 32).run (boot fun _ => 0) (cs.take 3)).patchesGlobal.length = 2 ∧
      ((digic45 32).run (boot fun _ => 0) cs).patchesGlobal = [] ∧
      ((digic45 32).run (boot fun _ => 0) cs).mem = fun _ => 0 :=
  ⟨by decide, by decide, digic45_restores_memory 32 (boot fun _ => 0) _ rfl (by decide)⟩

end MagicLantern.Patching

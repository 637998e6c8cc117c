import MagicLantern.Patching.Digic45Undo

/-!
# Flushing the instruction cache when a patch is removed

`_unpatch_memory` decides whether the instruction cache has to be flushed after the table has been
compacted, through a pointer that was set before. At that time the pointer shows the successor of
the removed entry, so that the flush depends on whether the successor is code. Only for the last
entry of the table it still shows the removed one.

Source: `src/src/patch_cache.c`.

## Main results

* `unpatch_flushes_iff` — when the flush is made for code.
* `unpatch_code_not_flushed`.
-/

namespace MagicLantern.Patching

open List Digic45

/-! ### Addresses of a reachable table -/

/-- No two entries of the table have the same address. -/
def AddrNodup (s : State Digic45) : Prop :=
  (s.patchesGlobal.map Patch.addr).Nodup

variable {n : ℕ}

theorem AddrNodup.patchOne {s : State Digic45} (h : AddrNodup s) (p : Patch) :
    AddrNodup ((digic45 n).patchOne s p).state := by
  by_cases hacc : Accepts n s p
  swap
  · obtain ⟨e, -, he⟩ := patchOne_of_not_accepts hacc
    rwa [he]
  have happend : (((s.patchesGlobal ++ [p]).map Patch.addr)).Nodup := by
    rw [map_append, map_singleton, nodup_append_comm, singleton_append,
      nodup_cons]
    refine ⟨fun hmem => ?_, h⟩
    obtain ⟨q, hq, haddr⟩ := mem_map.1 hmem
    exact hacc.fresh q hq haddr
  cases hrom : isRomPtr p.addr with
  | false =>
    obtain ⟨-, -, -, htable, -⟩ := patchOne_of_accepts hacc hrom
    rwa [AddrNodup, htable]
  | true =>
    obtain ⟨-, htable | htable⟩ := patchOne_of_rom (n := n) (s := s) hrom
    · rwa [AddrNodup, htable]
    · rwa [AddrNodup, htable]

theorem AddrNodup.unpatch {s : State Digic45} (h : AddrNodup s) (a : UInt32) :
    AddrNodup (unpatchMemory s a).1 := by
  obtain heq | ⟨l₁, p, l₂, hs, -, -, htable, -⟩ := unpatchMemory_cases s a
  · rwa [heq]
  · rw [AddrNodup, hs] at h
    rw [AddrNodup, htable]
    exact h.sublist ((sublist_cons_self p l₂).append_left l₁ |>.map Patch.addr)

theorem run_addr_nodup (n : ℕ) (m : ByteMemory) (cs : List Call) :
    AddrNodup ((digic45 n).run (boot m) cs) :=
  Backend.run_invariant (fun _ p h => h.patchOne p) (fun _ a h => h.unpatch a) cs nodup_nil

/-! ### Counting flushes -/

namespace Digic45

variable (s : State Digic45)

@[simp] theorem cacheFake_icacheFlushes (a d : UInt32) (t : CacheType) :
    (cacheFake s a d t).dev.icacheFlushes = s.dev.icacheFlushes := by
  simp only [cacheFake]
  split_ifs <;> rfl

@[simp] theorem reapplyCachePatch_icacheFlushes (p : Patch) :
    (reapplyCachePatch s p).1.dev.icacheFlushes = s.dev.icacheFlushes := by
  simp only [reapplyCachePatch]
  split_ifs <;> simp

theorem reapplyCachePatches_icacheFlushes :
    (reapplyCachePatches s).1.dev.icacheFlushes = s.dev.icacheFlushes := by
  let Unflushed (r : State Digic45 × UInt32) : Prop := r.1.dev.icacheFlushes = s.dev.icacheFlushes
  refine foldlRecOn s.patchesGlobal _ (motive := Unflushed) rfl fun r hr p _ => ?_
  split_ifs
  · exact (reapplyCachePatch_icacheFlushes r.1 p).trans hr
  · exact hr

/-- `_sync_locked_caches` flushes the instruction cache once. -/
@[simp] theorem syncLockedCaches_icacheFlushes :
    (syncLockedCaches s).1.dev.icacheFlushes = s.dev.icacheFlushes + 1 := by
  simp only [syncLockedCaches]
  split_ifs
  · rw [reapplyCachePatches_icacheFlushes]
    rfl
  · rfl

@[simp] theorem checkCacheLockStillNeeded_icacheFlushes :
    (checkCacheLockStillNeeded s).dev.icacheFlushes = s.dev.icacheFlushes := by
  rw [checkCacheLockStillNeeded]
  split_ifs <;> rfl

end Digic45

/-! ### Removing a patch of RAM -/

variable {s : State Digic45} {p : Patch} {l₁ l₂ : List Patch}

theorem getD_length_append (l₁ l₂ : List Patch) (p : Patch) :
    (l₁ ++ l₂).getD l₁.length p = l₂.head?.getD p := by
  cases l₂ <;> simp

section

variable (hs : s.patchesGlobal = l₁ ++ p :: l₂) (hl : ∀ q ∈ l₁, q.addr ≠ p.addr)

include hs hl

/-- An entry that is taken out of the table is flushed if its successor is code. -/
theorem unpatchMemory_flush (hram : isRomPtr p.addr = false) (hsize : p.size = 4)
    (happ : readValue s p.addr p.isInstruction = p.newValue) :
    (unpatchMemory s p.addr).1.dev.icacheFlushes =
      s.dev.icacheFlushes + if (l₂.head?.getD p).isInstruction then 1 else 0 := by
  have hstill : isPatchStillApplied (readValue s) p = true := by
    simp [isPatchStillApplied, Patch.firstNewWord, hsize, happ]
  have hstep := applyPatch_of_ram (s := s) (p := p.swapped) hsize hram
  rw [unpatchMemory, hs, findIdx?_addr hl rfl]
  simp only [getD_append_cons]
  simp only [hstill, hsize, hstep, hram, bne_self_eq_false, Bool.not_true,
    Bool.false_eq_true, if_false, finishUnpatch, removeEntry, hs, eraseIdx_append_cons,
      getD_length_append]
  split_ifs <;> simp

/-- A patch that is removed successfully was in force. -/
theorem inForce_of_unpatch_ok (hok : (unpatchMemory s p.addr).2 = ePatchOk) :
    p.size = 4 ∧ readValue s p.addr p.isInstruction = p.newValue := by
  rw [unpatchMemory, hs, findIdx?_addr hl rfl] at hok
  by_cases hsize : p.size = 4
  swap
  · simp [hsize, ePatchMalformed, ePatchOk] at hok
  refine ⟨hsize, ?_⟩
  by_contra happ
  simp [hsize, isPatchStillApplied, Patch.firstNewWord, happ, eUnpatchOverwritten, ePatchOk] at hok

end

/-- **Flushing.** In every reachable table, a RAM patch whose removal succeeds is flushed exactly if
it is code, and the other entries stay in order, if and only if it is the last entry or the entry
behind it is code exactly if it is. -/
theorem unpatch_flushes_iff (n : ℕ) (m : ByteMemory) (cs : List Call)
    (hs : ((digic45 n).run (boot m) cs).patchesGlobal = l₁ ++ p :: l₂)
    (hram : isRomPtr p.addr = false)
    (hok : (unpatchMemory ((digic45 n).run (boot m) cs) p.addr).2 = ePatchOk) :
    let s := (digic45 n).run (boot m) cs
    let s' := (unpatchMemory s p.addr).1
    ((s.dev.icacheFlushes < s'.dev.icacheFlushes ↔ p.isInstruction = true) ∧
        s'.patchesGlobal = l₁ ++ l₂) ↔
      ∀ q ∈ l₂.head?, q.isInstruction = p.isInstruction := by
  intro s s'
  have hl : ∀ q ∈ l₁, q.addr ≠ p.addr := by
    intro q hq haddr
    have hnodup := run_addr_nodup n m cs
    rw [AddrNodup, hs, map_append, map_cons] at hnodup
    refine disjoint_of_nodup_append hnodup (mem_map_of_mem hq) ?_
    rw [haddr]
    exact mem_cons_self
  obtain ⟨hsize, happ⟩ := inForce_of_unpatch_ok hs hl hok
  have htable : s'.patchesGlobal = l₁ ++ l₂ :=
    (unpatchMemory_of_inForce hs hl rfl hsize happ).1
  have hflush : s.dev.icacheFlushes < s'.dev.icacheFlushes ↔
      (l₂.head?.getD p).isInstruction = true := by
    rw [unpatchMemory_flush hs hl hram hsize happ]
    split_ifs with h <;> simp [s, h]
  rw [hflush, and_iff_left htable, ← Bool.eq_iff_iff]
  cases l₂ with
  | nil => simp
  | cons q l₂ => simp

/-- Two patches of code, and the first of them is removed. -/
theorem unpatch_flushes_code :
    let p : Patch := { addr := 0x1000, newValue := 1, size := 4, isInstruction := true }
    let q : Patch := { addr := 0x2000, newValue := 2, size := 4, isInstruction := true }
    let s := (digic45 32).run (boot fun _ => 0) [.apply [p, q]]
    let s' := (unpatchMemory s p.addr).1
    (s.dev.icacheFlushes < s'.dev.icacheFlushes ↔ p.isInstruction = true) ∧
      s'.patchesGlobal = [q] := by
  intro p q
  exact (@unpatch_flushes_iff p [] [q] 32 (fun _ => 0) [.apply [p, q]] (by decide +kernel)
    (by decide) (by decide +kernel)).2 (by decide)

/-- A patch of code before one of data: when the code is restored, the instruction cache keeps the
patched instruction. -/
theorem unpatch_code_not_flushed :
    let code : Patch := { addr := 0x1000, newValue := 1, size := 4, isInstruction := true }
    let data : Patch := { addr := 0x2000, newValue := 2, size := 4 }
    let s := (digic45 32).run (boot fun _ => 0) [.apply [code, data]]
    let r := unpatchMemory s 0x1000
    s.patchesGlobal = [code, data] ∧ r.2 = ePatchOk ∧ r.1.patchesGlobal = [data] ∧
      r.1.dev.icacheFlushes = s.dev.icacheFlushes := by
  decide +kernel

end MagicLantern.Patching

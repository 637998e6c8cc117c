import MagicLantern.Patching.Digic45Flush

/-!
# When `apply_patches` is all-or-nothing on DIGIC 4/5

`patch.h` promises that an array of patches is applied completely or not at all. If a patch is
refused, then the roll-back unpatches every address of the array, as the array stands after the
loop, in array order. This undoes exactly the patches applied by the call if each of them is found
under an address of the array (`apply_patch` rewrites the address of an instruction patch, the table
keeps the one that was given), its new value fits the access at its address
(`is_patch_still_applied` compares a truncated value with the full one), and no patch of an earlier
call that is still in force is recorded under an address of the array, for it is unpatched too.

For patches that do not overlap these conditions are also necessary. An array whose first patch is
refused because the address is already patched removes the patch that was there
(`applyPatches_removes_earlier_patch`).

Source: `src/src/patch.c`; `src/src/patch.h`.

## Main results

* `run_allOrNothing_iff` — the exact condition.
* `applyPatches_removes_earlier_patch`.
-/

namespace MagicLantern.Patching

open List ByteMemory Digic45

/-- The patch can be removed: its new value is in memory. -/
def Patch.InForce (s : State Digic45) (p : Patch) : Prop :=
  p.size = 4 ∧ readValue s p.addr p.isInstruction = p.newValue

/-- What `patch.h` promises of one call: after an error memory and the table are as they were,
and after `E_PATCH_OK` every patch is recorded and its value is in memory. -/
def AllOrNothing (n : ℕ) (s : State Digic45) (ps : List Patch) : Prop :=
  (((digic45 n).applyPatches s ps).2 ≠ ePatchOk →
    ((digic45 n).applyPatches s ps).1.mem = s.mem ∧
      ((digic45 n).applyPatches s ps).1.patchesGlobal = s.patchesGlobal) ∧
  (((digic45 n).applyPatches s ps).2 = ePatchOk →
    ∀ p ∈ ps, p ∈ ((digic45 n).applyPatches s ps).1.patchesGlobal ∧
      p.InForce ((digic45 n).applyPatches s ps).1)

/-- A patch of four bytes of RAM. -/
def Patch.IsRam (p : Patch) : Prop := p.size = 4 ∧ isRomPtr p.addr = false

instance (s : State Digic45) (p : Patch) : Decidable (p.InForce s) :=
  inferInstanceAs (Decidable (_ ∧ _))

instance (p : Patch) : Decidable p.IsRam := inferInstanceAs (Decidable (_ ∧ _))

/-! ### The condition on a call -/

/-- The new value fits the access at the address. -/
def Patch.Fits (p : Patch) : Prop := p.newValue.toNat < 256 ^ accessWidth p.addr

instance (p : Patch) : Decidable p.Fits := inferInstanceAs (Decidable (_ < _))

/-- Two patches store the same bytes where they overlap. -/
def Patch.Agrees (p q : Patch) : Prop :=
  Set.EqOn p.entry.after q.entry.after (p.entry.region ∩ q.entry.region)

/-- Two patches touch disjoint cells. -/
def Patch.DisjointFrom (p q : Patch) : Prop :=
  cellOf p.addr + accessWidth p.addr ≤ cellOf q.addr ∨
    cellOf q.addr + accessWidth q.addr ≤ cellOf p.addr

instance (p q : Patch) : Decidable (p.DisjointFrom q) := inferInstanceAs (Decidable (_ ∨ _))

/-- The memory after the values of the patches have been stored one after the other. -/
def written (m : ByteMemory) (ps : List Patch) : ByteMemory :=
  ps.foldl (fun m p => m.writeBytes (cellOf p.addr) (valueBytes p.addr p.newValue)) m

/-- The checks that a patch has to pass when the patches `before` precede it in the array. -/
def Passes (n : ℕ) (s : State Digic45) (before : List Patch) (p : Patch) : Prop :=
  (∀ q ∈ s.patchesGlobal ++ before, q.addr ≠ p.addr) ∧
    (s.patchesGlobal ++ before).length < n ∧
    readValue { s with mem := written s.mem before } p.addr p.isInstruction = p.oldValue

instance (n : ℕ) (s : State Digic45) (before : List Patch) (p : Patch) :
    Decidable (Passes n s before p) :=
  inferInstanceAs (Decidable (_ ∧ _ ∧ _))

/-- The patches before the first one that is refused. -/
def passing (n : ℕ) (s : State Digic45) : List Patch → List Patch → List Patch
  | _, [] => []
  | before, p :: ps =>
    if Passes n s before p then p :: passing n s (before ++ [p]) ps else []

/-- What the cache maintenance after the last patch of the array returns. -/
def syncError (s : State Digic45) (ps : List Patch) : UInt32 :=
  match ps.getLast? with
  | some p => if p.isInstruction then (syncLockedCaches { s with mem := written s.mem ps }).2 else 0
  | none => 0

/-- No patch is refused, and the ROM patches could be put back into the caches. -/
def Succeeds (n : ℕ) (s : State Digic45) (ps : List Patch) : Prop :=
  passing n s [] ps = ps ∧ syncError s ps = ePatchOk

instance (n : ℕ) (s : State Digic45) (ps : List Patch) : Decidable (Succeeds n s ps) :=
  inferInstanceAs (Decidable (_ ∧ _))

/-- The addresses that a roll-back unpatches: those of the array after the loop. -/
def rollbackAddrs (n : ℕ) (s : State Digic45) (ps : List Patch) : List UInt32 :=
  ((passing n s [] ps).map Patch.rewritten ++ ps.drop (passing n s [] ps).length).map Patch.addr

/-- The condition on a call of `apply_patches`. If no patch is refused, every new value fits and
patches that overlap store the same bytes. Otherwise the patches before the refused one fit and are
found by the roll-back, and no patch that it finds in the table of before is in force. -/
def Undoable (n : ℕ) (s : State Digic45) (ps : List Patch) : Prop :=
  if Succeeds n s ps then (∀ p ∈ ps, p.Fits) ∧ ps.Pairwise Patch.Agrees
  else
    (∀ p ∈ passing n s [] ps, p.Fits ∧ p.addr ∈ rollbackAddrs n s ps) ∧
      ∀ r ∈ s.patchesGlobal, r.addr ∈ rollbackAddrs n s ps → ¬ r.InForce s

/-- If a patch is refused, the patches before it overlap neither each other nor the recorded ones
that the roll-back finds. -/
def NoOverlap (n : ℕ) (s : State Digic45) (ps : List Patch) : Prop :=
  Succeeds n s ps ∨ (passing n s [] ps).Pairwise Patch.DisjointFrom ∧
    ∀ r ∈ s.patchesGlobal, r.addr ∈ rollbackAddrs n s ps →
      ∀ p ∈ passing n s [] ps, p.DisjointFrom r

variable {n : ℕ} {s t : State Digic45} {before ps : List Patch} {p q : Patch}

/-! ### Values in memory -/

/-- All bytes that a patch stores are in memory. -/
def Patch.Stored (m : ByteMemory) (p : Patch) : Prop :=
  m.readBytes (cellOf p.addr) (accessWidth p.addr) = valueBytes p.addr p.newValue

theorem Patch.IsRam.inForce_iff (hp : p.IsRam) : p.InForce s ↔ p.Fits ∧ p.Stored s.mem := by
  rw [Patch.InForce, and_iff_right hp.1]
  exact readValue_eq_iff hp.2 _

theorem Patch.stored_iff {m : ByteMemory} :
    p.Stored m ↔ Set.EqOn m p.entry.after p.entry.region := by
  have : readBytes m (cellOf p.addr) (valueBytes p.addr p.newValue).length = _ ↔ _ :=
    readBytes_eq_iff
  rw [length_valueBytes] at this
  simp [Patch.Stored, this, Set.EqOn, Patch.entry, UndoLog.blockEntry]

theorem Patch.DisjointFrom.stored_writeBytes {m : ByteMemory} (h : p.DisjointFrom q) (v : UInt32) :
    q.Stored (m.writeBytes (cellOf p.addr) (valueBytes p.addr v)) ↔ q.Stored m := by
  rw [Patch.Stored, readBytes_writeBytes_of_disjoint _ (by simpa using h.symm), Patch.Stored]

theorem stored_writeBytes (m : ByteMemory) (p : Patch) :
    p.Stored (m.writeBytes (cellOf p.addr) (valueBytes p.addr p.newValue)) := by
  simpa [Patch.Stored] using readBytes_writeBytes m (cellOf p.addr) (valueBytes p.addr p.newValue)

theorem written_of_forall {m : ByteMemory} {x : ℕ} {b : UInt8} (hx : m x = b)
    (h : ∀ q ∈ ps, x ∈ q.entry.region → q.entry.after x = b) : written m ps x = b := by
  induction ps generalizing m with
  | nil => exact hx
  | cons q ps ih =>
    refine ih ?_ fun r hr => h r (mem_cons_of_mem _ hr)
    by_cases hq : x ∈ q.entry.region
    · exact (Patch.stored_iff.1 (stored_writeBytes m q) hq).trans (h q mem_cons_self hq)
    · refine (writeBytes_of_notMem m ?_).trans hx
      simp only [Patch.entry, UndoLog.blockEntry, Set.mem_ofPred_eq, length_valueBytes] at hq ⊢
      omega

/-- All values are in memory after the loop exactly if none has been changed by a later one. -/
theorem stored_written_iff (m : ByteMemory) :
    (∀ p ∈ ps, p.Stored (written m ps)) ↔ ps.Pairwise Patch.Agrees := by
  constructor
  · intro h
    refine pairwise_of_forall_mem_list fun p hp q hq x hx => ?_
    rw [← Patch.stored_iff.1 (h p hp) hx.1, Patch.stored_iff.1 (h q hq) hx.2]
  · intro h
    induction ps generalizing m with
    | nil => simp
    | cons p ps ih =>
      obtain ⟨hp, hps⟩ := pairwise_cons.1 h
      refine forall_mem_cons.2 ⟨Patch.stored_iff.2 fun x hx => ?_, ih _ hps⟩
      have hafter := Patch.stored_iff.1 (stored_writeBytes m p) hx
      exact (written_of_forall hafter fun q (hq : q ∈ ps) hqx => (hp q hq ⟨hx, hqx⟩).symm :)

/-! ### The loop -/

/-- The state of the loop after the patches `before` have been applied to `s`. -/
structure Tracks (s : State Digic45) (before : List Patch) (t : State Digic45) : Prop where
  ram : ∀ q ∈ before, q.IsRam
  mem : t.mem = written s.mem before
  table : t.patchesGlobal = s.patchesGlobal ++ before
  locked : t.dev.caches.locked = s.dev.caches.locked

theorem Tracks.refl (s : State Digic45) : Tracks s [] s :=
  ⟨by simp, rfl, by simp, rfl⟩

theorem Tracks.accepts_iff (h : Tracks s before t) (hp : p.IsRam) :
    Accepts n t p ↔ Passes n s before p := by
  have hread : readValue t p.addr p.isInstruction =
      readValue { s with mem := written s.mem before } p.addr p.isInstruction := by
    rw [readValue_of_ram hp.2, readValue_of_ram hp.2, h.mem]
  constructor
  · rintro ⟨-, hfresh, hroom, hold⟩
    exact ⟨h.table ▸ hfresh, h.table ▸ hroom, hread ▸ hold⟩
  · rintro ⟨hfresh, hroom, hold⟩
    exact ⟨hp.1, h.table.symm ▸ hfresh, h.table.symm ▸ hroom, hread.trans hold⟩

theorem written_append_singleton (m : ByteMemory) (before : List Patch) (p : Patch) :
    written m (before ++ [p]) =
      (written m before).writeBytes (cellOf p.addr) (valueBytes p.addr p.newValue) :=
  foldl_concat ..

theorem Tracks.patchOne (h : Tracks s before t) (hp : p.IsRam) (hpass : Passes n s before p) :
    Tracks s (before ++ [p]) ((digic45 n).patchOne t p).state ∧
      ((digic45 n).patchOne t p).err = syncError s (before ++ [p]) := by
  obtain ⟨-, -, hmem, htable, hlocked, herr⟩ :=
    patchOne_of_accepts ((h.accepts_iff hp).2 hpass) hp.2
  have hwritten := written_append_singleton s.mem before p
  refine ⟨⟨?_, by rw [hmem, h.mem, hwritten], by rw [htable, h.table, append_assoc],
    hlocked.trans h.locked⟩, ?_⟩
  · rw [forall_mem_append, forall_mem_singleton]
    exact ⟨h.ram, hp⟩
  · -- The patches of this call are in RAM, and so the ROM patches are those of `s`.
    have hrom : before.filter (isRomPtr ·.addr) = [] :=
      filter_eq_nil_iff.2 fun q hq => by simp [(h.ram q hq).2]
    rw [herr, syncError, getLast?_concat]
    dsimp only
    congr 1
    refine syncLockedCaches_congr ?_ h.locked ?_
    · rw [hwritten, h.mem]
    · simp [h.table, hrom]

/-- The loop applies the patches that pass the checks. -/
theorem applyLoop_eq (h : Tracks s before t) (hram : ∀ p ∈ ps, p.IsRam) :
    ∃ t' e, (digic45 n).applyLoop t ps (syncError s before) =
        (t', (passing n s before ps).map Patch.rewritten ++
          ps.drop (passing n s before ps).length, e) ∧
      Tracks s (before ++ passing n s before ps) t' ∧
      (passing n s before ps = ps → e = syncError s (before ++ ps)) ∧
      (passing n s before ps ≠ ps → e ≠ ePatchOk) := by
  induction ps generalizing before t with
  | nil => exact ⟨t, _, rfl, by simpa [passing] using h, by simp, fun hne => absurd rfl hne⟩
  | cons p ps ih =>
    obtain ⟨hp, hram⟩ := forall_mem_cons.1 hram
    by_cases hpass : Passes n s before p
    · obtain ⟨hstop, hpatch, -⟩ := patchOne_of_accepts ((h.accepts_iff hp).2 hpass) hp.2
      obtain ⟨hnext, herr⟩ := h.patchOne hp hpass
      obtain ⟨t', e, heq, ht', hall, hsome⟩ := ih hnext hram
      refine ⟨t', e, ?_, by simpa [passing, hpass] using ht', ?_, ?_⟩
      · simp [Backend.applyLoop, hstop, herr, heq, hpatch, passing, hpass]
      · simpa [passing, hpass] using hall
      · simpa [passing, hpass] using hsome
    · obtain ⟨e, he, hone⟩ := patchOne_of_not_accepts (mt (h.accepts_iff hp).1 hpass)
      refine ⟨t, e, ?_, by simpa [passing, hpass] using h, by simp [passing, hpass], fun _ => he⟩
      simp [Backend.applyLoop, hone, passing, hpass]

/-! ### The roll-back -/

/-- The state of the roll-back before the addresses `as`: the patches `pend` of this call are still
recorded behind those of before, and nothing has been changed that is still to be undone. -/
structure Pending (T pend : List Patch) (as : List UInt32) (t : State Digic45) : Prop where
  table : t.patchesGlobal = T ++ pend
  nodup : ((T ++ pend).map Patch.addr).Nodup
  ram : ∀ a ∈ as, isRomPtr a = false
  size : ∀ q ∈ pend, q.size = 4
  stored : ∀ q ∈ pend, q.Stored t.mem
  disjoint : pend.Pairwise Patch.DisjointFrom
  apart : ∀ r ∈ T, r.addr ∈ as → ∀ q ∈ pend, q.DisjointFrom r

variable {T pend : List Patch} {as : List UInt32} {a : UInt32}

theorem Pending.skip (h : Pending T pend (a :: as) t) : Pending T pend as t :=
  { h with
    ram := fun b hb => h.ram b (mem_cons_of_mem _ hb)
    apart := fun r hr hra => h.apart r hr (mem_cons_of_mem _ hra) }

theorem foldl_unpatchMemory_sublist (as : List UInt32) (t : State Digic45) :
    (as.foldl (fun s a => (unpatchMemory s a).1) t).patchesGlobal <+ t.patchesGlobal := by
  induction as generalizing t with
  | nil => exact .refl _
  | cons a as ih =>
    have hstep : (unpatchMemory t a).1.patchesGlobal <+ t.patchesGlobal := by
      obtain heq | ⟨l₁, p, l₂, hs, -, -, htable, -⟩ := unpatchMemory_cases t a
      · rw [heq]
      · rw [htable, hs]
        exact (sublist_cons_self p l₂).append_left l₁
    exact (ih _).trans hstep

/-- Whether a patch in RAM is in force does not depend on cells it does not touch. -/
theorem Patch.DisjointFrom.inForce_iff (h : p.DisjointFrom q) (hq : isRomPtr q.addr = false)
    {v : UInt32} (hmem : t.mem = s.mem.writeBytes (cellOf p.addr) (valueBytes p.addr v)) :
    q.InForce t ↔ q.InForce s := by
  rw [Patch.InForce, Patch.InForce, readValue_of_ram hq, readValue_of_ram hq, hmem,
    readBytes_writeBytes_of_disjoint _ (by simpa using h.symm)]

/-- What is left for the roll-back to meet. -/
def Restores (T pend : List Patch) (as : List UInt32) (t : State Digic45) : Prop :=
  (∀ q ∈ pend, q.Fits ∧ q.addr ∈ as) ∧ ∀ r ∈ T, r.addr ∈ as → ¬ r.InForce t

theorem restores_cons_iff (hpend : ∀ q ∈ pend, q.addr ≠ a)
    (hT : ∀ r ∈ T, r.addr = a → ¬ r.InForce t) :
    Restores T pend (a :: as) t ↔ Restores T pend as t := by
  refine and_congr (forall₂_congr fun q hq => ?_) (forall₂_congr fun r hr => ?_)
  · rw [mem_cons, or_iff_right (hpend q hq)]
  · rw [mem_cons, or_imp, and_iff_right (hT r hr)]

theorem addr_ne_of_nodup {u w : List Patch} (h : ((u ++ p :: w).map Patch.addr).Nodup) :
    ∀ q ∈ u ++ w, q.addr ≠ p.addr := by
  rw [map_append, map_cons, nodup_middle, nodup_cons, ← map_append] at h
  exact fun q hq hqp => h.1 (hqp ▸ mem_map_of_mem hq)

theorem Pending.recorded {u v : List Patch} (h : Pending (u ++ p :: v) pend (p.addr :: as) t)
    (ih : ∀ {t}, Pending (u ++ p :: v) pend as t →
      ((as.foldl (fun s a => (unpatchMemory s a).1) t).patchesGlobal = u ++ p :: v ↔
        Restores (u ++ p :: v) pend as t)) :
    (as.foldl (fun s a => (unpatchMemory s a).1) (unpatchMemory t p.addr).1).patchesGlobal =
      u ++ p :: v ↔ Restores (u ++ p :: v) pend (p.addr :: as) t := by
  have hpT : p ∈ u ++ p :: v := by simp
  have htable : t.patchesGlobal = u ++ p :: (v ++ pend) := by simp [h.table]
  have hother := addr_ne_of_nodup (by simpa using h.nodup : ((u ++ p :: (v ++ pend)).map _).Nodup)
  have hu : ∀ q ∈ u, q.addr ≠ p.addr := fun q hq => hother q (by simp [hq])
  by_cases hforce : p.InForce t
  · -- It is lost.
    refine iff_of_false (fun heq => ?_) fun hright => hright.2 p hpT mem_cons_self hforce
    have hsub := (foldl_unpatchMemory_sublist as (unpatchMemory t p.addr).1).subset (heq.symm ▸ hpT)
    rw [(unpatchMemory_of_inForce htable hu rfl hforce.1 hforce.2).1] at hsub
    exact hother p hsub rfl
  · rw [unpatchMemory_of_overwritten htable hu rfl hforce, ih h.skip, restores_cons_iff]
    · exact fun q hq => hother q (by simp [hq])
    · intro r hr hrp
      rw [inj_on_of_nodup_map h.nodup (mem_append_left _ hr) (mem_append_left _ hpT) hrp]
      exact hforce

/-- The place of a patch of the call in the table. -/
theorem Pending.split {u v : List Patch} (h : Pending T (u ++ p :: v) (p.addr :: as) t) :
    t.patchesGlobal = (T ++ u) ++ p :: v ∧ (∀ q ∈ (T ++ u) ++ v, q.addr ≠ p.addr) ∧ p.IsRam :=
  ⟨by simp [h.table], addr_ne_of_nodup (by simpa using h.nodup),
    h.size p (by simp), h.ram p.addr mem_cons_self⟩

theorem Pending.undone {u v : List Patch} (h : Pending T (u ++ p :: v) (p.addr :: as) t)
    (hfits : p.Fits) : Pending T (u ++ v) as (unpatchMemory t p.addr).1 ∧
      (Restores T (u ++ p :: v) (p.addr :: as) t ↔
        Restores T (u ++ v) as (unpatchMemory t p.addr).1) := by
  have hp : p ∈ u ++ p :: v := by simp
  have hsub : u ++ v <+ u ++ p :: v := (sublist_cons_self p v).append_left u
  obtain ⟨htable, hother, hram⟩ := h.split
  have hforce := hram.inForce_iff.2 ⟨hfits, h.stored p hp⟩
  obtain ⟨htable', hmem⟩ := unpatchMemory_of_inForce htable
    (fun q hq => hother q (mem_append_left _ hq)) rfl hforce.1 hforce.2
  rw [hram.2, if_neg Bool.false_ne_true] at hmem
  have hdisj : ∀ q ∈ u ++ v, p.DisjointFrom q := by
    obtain ⟨-, hv, huv⟩ := pairwise_append.1 h.disjoint
    rw [forall_mem_append]
    exact ⟨fun q hq => (huv q hq p mem_cons_self).symm, (pairwise_cons.1 hv).1⟩
  refine ⟨⟨by simpa using htable', h.nodup.sublist (hsub.append_left T |>.map _), h.skip.ram,
    fun q hq => h.size q (hsub.subset hq), fun q hq => ?_, h.disjoint.sublist hsub,
    fun r hr hra q hq => h.skip.apart r hr hra q (hsub.subset hq)⟩, ?_⟩
  · rw [hmem, (hdisj q hq).stored_writeBytes]
    exact h.stored q (hsub.subset hq)
  · refine and_congr ?_ (forall₂_congr fun r hr => ?_)
    · have hcons : ∀ q ∈ u ++ v, q.addr ∈ p.addr :: as ↔ q.addr ∈ as := fun q hq => by
        rw [mem_cons, or_iff_right (hother q (append_assoc T u v ▸ mem_append_right _ hq))]
      constructor
      · intro hall q hq
        exact (hall q (hsub.subset hq)).imp_right (hcons q hq).1
      · intro hall q hq
        rcases mem_cons.1 (perm_middle.mem_iff.1 hq) with rfl | hq
        · exact ⟨hfits, mem_cons_self⟩
        · exact (hall q hq).imp_right (hcons q hq).2
    · rw [mem_cons, or_iff_right (hother r (by simp [hr]))]
      refine forall_congr' fun hra => not_congr ?_
      exact ((h.skip.apart r hr hra p hp).inForce_iff (h.ram _ (mem_cons_of_mem _ hra)) hmem).symm

/-- **The roll-back restores the table** exactly if it finds all patches of the call, each one fits,
and it finds no other patch in force. -/
theorem foldl_unpatchMemory_iff (h : Pending T pend as t) :
    (as.foldl (fun s a => (unpatchMemory s a).1) t).patchesGlobal = T ↔ Restores T pend as t := by
  induction as generalizing pend t with
  | nil =>
    rw [foldl_nil, h.table]
    simp [Restores, eq_nil_iff_forall_not_mem]
  | cons a as ih =>
    rw [foldl_cons]
    by_cases ha : ∃ p ∈ T ++ pend, p.addr = a
    swap
    · have hnone : ∀ p ∈ T ++ pend, p.addr ≠ a := fun p hp hpa => ha ⟨p, hp, hpa⟩
      rw [unpatchMemory_of_notMem (h.table ▸ hnone), ih h.skip, restores_cons_iff]
      · exact fun q hq => hnone q (mem_append_right _ hq)
      · exact fun r hr hra => absurd hra (hnone r (mem_append_left _ hr))
    obtain ⟨p, hp, rfl⟩ := ha
    rcases mem_append.1 hp with hp | hp
    · obtain ⟨u, v, rfl⟩ := append_of_mem hp
      exact h.recorded ih
    · obtain ⟨u, v, rfl⟩ := append_of_mem hp
      by_cases hfits : p.Fits
      · obtain ⟨hnext, hiff⟩ := h.undone hfits
        rw [hiff, ih hnext]
      · -- It is not in force and stays.
        obtain ⟨htable, hother, hram⟩ := h.split
        rw [unpatchMemory_of_overwritten htable (fun q hq => hother q (mem_append_left _ hq)) rfl
          fun hforce => hfits (hram.inForce_iff.1 hforce).1]
        exact iff_of_false (fun heq => hfits (((ih h.skip).1 heq).1 p hp).1)
          fun hright => hfits (hright.1 p hp).1

/-! ### One call -/

theorem rollback_eq_foldl (n : ℕ) (s : State Digic45) (ps : List Patch) :
    (digic45 n).rollback s ps =
      (ps.map Patch.addr).foldl (fun s a => (unpatchMemory s a).1) s := by
  rw [foldl_map]
  rfl

theorem passing_spec (n : ℕ) (s : State Digic45) (before ps : List Patch) :
    passing n s before ps <+: ps ∧ ((passing n s before ps).map Patch.addr).Nodup ∧
      ∀ p ∈ passing n s before ps, ∀ q ∈ s.patchesGlobal ++ before, q.addr ≠ p.addr := by
  induction ps generalizing before with
  | nil => simp [passing]
  | cons p ps ih =>
    rw [passing]
    split_ifs with hp
    · obtain ⟨hpre, hnodup, hfresh⟩ := ih (before ++ [p])
      refine ⟨by simpa using hpre, ?_, ?_⟩
      · rw [map_cons, nodup_cons]
        refine ⟨fun hmem => ?_, hnodup⟩
        obtain ⟨q, hq, hqp⟩ := mem_map.1 hmem
        exact hfresh q hq p (by simp) hqp.symm
      · refine forall_mem_cons.2 ⟨hp.1, fun q hq r hr => hfresh q hq r ?_⟩
        rw [← append_assoc]
        exact mem_append_left _ hr
    · simp

/-- The values of disjoint patches are in memory, and nothing else has changed. -/
theorem stored_of_disjoint (m : ByteMemory) (h : ps.Pairwise Patch.DisjointFrom) :
    ∀ p ∈ ps, p.Stored (written m ps) := by
  refine (stored_written_iff m).2 (h.imp fun {p q} hpq x hx => absurd hx ?_)
  simp only [Patch.entry, UndoLog.blockEntry, Set.mem_inter_iff, Set.mem_ofPred_eq,
    length_valueBytes]
  rw [Patch.DisjointFrom] at hpq
  omega

theorem inForce_written_iff (hq : isRomPtr q.addr = false) (h : ∀ p ∈ ps, p.DisjointFrom q)
    (hmem : t.mem = written s.mem ps) : q.InForce t ↔ q.InForce s := by
  induction ps using reverseRecOn generalizing t with
  | nil =>
    rw [Patch.InForce, Patch.InForce, readValue_of_ram hq, readValue_of_ram hq, hmem]
    rfl
  | append_singleton ps p ih =>
    rw [written_append_singleton] at hmem
    rw [(h p (by simp)).inForce_iff (s := { s with mem := written s.mem ps }) hq hmem]
    exact ih (fun p hp => h p (by simp [hp])) rfl

theorem isRomPtr_rollbackAddrs (hram : ∀ p ∈ ps, p.IsRam) :
    ∀ a ∈ rollbackAddrs n s ps, isRomPtr a = false := by
  intro a ha
  obtain ⟨q, hq, rfl⟩ := mem_map.1 ha
  rcases mem_append.1 hq with hq | hq
  · obtain ⟨p, hp, rfl⟩ := mem_map.1 hq
    rw [Patch.isRomPtr_rewritten_addr]
    exact (hram p ((passing_spec n s [] ps).1.subset hp)).2
  · exact (hram q (mem_of_mem_drop hq)).2

theorem Tracks.pending (ht : Tracks s (passing n s [] ps) t) (hnodup : AddrNodup s)
    (hram : ∀ p ∈ ps, p.IsRam) (hdisj : (passing n s [] ps).Pairwise Patch.DisjointFrom)
    (hapart : ∀ r ∈ s.patchesGlobal, r.addr ∈ rollbackAddrs n s ps →
      ∀ p ∈ passing n s [] ps, p.DisjointFrom r) :
    Pending s.patchesGlobal (passing n s [] ps) (rollbackAddrs n s ps) t where
  table := ht.table
  nodup := by
    obtain ⟨-, hpass, hfresh⟩ := passing_spec n s [] ps
    rw [map_append]
    refine hnodup.append hpass fun a ha ha' => ?_
    obtain ⟨r, hr, rfl⟩ := mem_map.1 ha
    obtain ⟨p, hp, hpr⟩ := mem_map.1 ha'
    exact hfresh p hp r (mem_append_left _ hr) hpr.symm
  ram := isRomPtr_rollbackAddrs hram
  size q hq := (ht.ram q hq).1
  stored := ht.mem ▸ stored_of_disjoint s.mem hdisj
  disjoint := hdisj
  apart := hapart

/-- One call is all-or-nothing exactly if it meets the condition. -/
theorem applyPatches_allOrNothing_iff (hnodup : AddrNodup s) (hram : ∀ p ∈ ps, p.IsRam)
    (hclass : NoOverlap n s ps) : AllOrNothing n s ps ↔ Undoable n s ps := by
  obtain ⟨t, e, hloop, ht, hall, hsome⟩ := applyLoop_eq (n := n) (.refl s) hram
  rw [nil_append] at ht hall
  change (digic45 n).applyLoop s ps ePatchOk = _ at hloop
  rw [Undoable]
  split_ifs with hok
  · have he : e = ePatchOk := (hall hok.1).trans hok.2
    have happ : (digic45 n).applyPatches s ps = (t, ePatchOk) := by
      simp [Backend.applyPatches, hloop, he]
    rw [hok.1] at ht
    have hvalues : (∀ p ∈ ps, p ∈ t.patchesGlobal ∧ p.InForce t) ↔
        (∀ p ∈ ps, p.Fits) ∧ ps.Pairwise Patch.Agrees := by
      rw [← stored_written_iff s.mem, ← ht.mem, ← forall₂_and]
      refine forall₂_congr fun p hp => ?_
      rw [and_iff_right (ht.table ▸ mem_append_right _ hp), (hram p hp).inForce_iff]
    rw [AllOrNothing, happ]
    simpa using hvalues
  · have he : e ≠ ePatchOk := by
      by_cases hpass : passing n s [] ps = ps
      · exact hall hpass ▸ fun he => hok ⟨hpass, he⟩
      · exact hsome hpass
    have happ : (digic45 n).applyPatches s ps =
        ((rollbackAddrs n s ps).foldl (fun s a => (unpatchMemory s a).1) t, e) := by
      simp only [Backend.applyPatches, hloop, rollback_eq_foldl]
      simp [he, rollbackAddrs]
    obtain ⟨hdisj, hapart⟩ := hclass.resolve_left hok
    have hmem (htable : ((digic45 n).applyPatches s ps).1.patchesGlobal = s.patchesGlobal) :
        ((digic45 n).applyPatches s ps).1.mem = s.mem :=
      UndoLog.eq_of_run_same_log (applyPatches_undoConfig n s ps)
        (by simp only [undoConfig, htable])
    rw [AllOrNothing, and_iff_right_of_imp hmem, happ, and_iff_left fun h => absurd h he,
      imp_iff_right he, foldl_unpatchMemory_iff (ht.pending hnodup hram hdisj hapart)]
    refine and_congr Iff.rfl (forall₂_congr fun r hr => forall_congr' fun hra => not_congr ?_)
    exact inForce_written_iff (isRomPtr_rollbackAddrs hram _ hra) (hapart r hr hra) ht.mem

/-! ### Runs -/

/-- **A call is all-or-nothing** exactly if it meets the condition, whatever calls have filled the
table before and whatever RAM holds at the time, unless patches of a refused array overlap. -/
theorem run_allOrNothing_iff (n : ℕ) (m ram : ByteMemory) (cs : List Call) (ps : List Patch)
    (hram : ∀ p ∈ ps, p.IsRam)
    (h : NoOverlap n { (digic45 n).run (boot m) cs with mem := ram } ps) :
    AllOrNothing n { (digic45 n).run (boot m) cs with mem := ram } ps ↔
      Undoable n { (digic45 n).run (boot m) cs with mem := ram } ps :=
  applyPatches_allOrNothing_iff (run_addr_nodup n m cs) hram h

/-- A refused array beside a recorded patch: the first patch is applied at an unaligned address
and undone, since the second one expects another value. -/
theorem run_allOrNothing_unaligned :
    let s : State Digic45 := { (digic45 32).run (boot fun _ => 0)
      [.apply [{ addr := 0x1000, newValue := 1, size := 4 }]] with mem := fun _ => 7 }
    let ps : List Patch := [{ addr := 0x2002, oldValue := 0x707, newValue := 5, size := 4 },
      { addr := 0x3000, oldValue := 5, newValue := 6, size := 4, isInstruction := true }]
    AllOrNothing 32 s ps := by
  intro s ps
  refine (run_allOrNothing_iff 32 _ _ _ ps (by decide) (.inr (by decide))).2 ?_
  rw [Undoable, if_neg (by decide)]
  decide

/-- The patch at `0x1000` was applied by an earlier call. A second call for the same address is
refused, and its roll-back removes the patch that was there. -/
theorem applyPatches_removes_earlier_patch :
    ¬ AllOrNothing 32 ((digic45 32).run (boot fun _ => 0)
        [.apply [{ addr := 0x1000, newValue := 1, size := 4 }]])
      [{ addr := 0x1000, newValue := 1, size := 4 }] := by
  intro h
  have htable := (h.1 (by decide)).2
  exact absurd htable (by decide)

end MagicLantern.Patching

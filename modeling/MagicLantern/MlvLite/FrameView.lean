import MagicLantern.MlvLite.SlotSafety

/-!
# The frames in the slots

What the tasks of `mlv_lite` do with a frame does not depend on the sizes of the slots or on the
unused slots. A table is seen here as the function that gives the frame in each slot
(`SlotTable.frame`), with the header at its address, and `none` for a slot that is not in use. In
this view `shrink_slot` changes nothing, `free_slot` removes one frame, and a change of a slot or of
its header changes one frame, because no two slots in use start at the same address
(`TableOk.ptr_inj`).

Source: `src/modules/raw_video/mlv_lite/mlv_lite.c`.
-/

namespace MagicLantern.MlvLite

open Function List FrameSlot SlotTable Tiling

/-- What a slot in use holds. -/
structure Frame where
  status : SlotStatus
  ptr : ℕ
  /-- The number of the frame in the table. -/
  number : ℤ
  /-- Whether the slot is marked as used by another module. -/
  isMeta : Bool
  /-- Whether the block in memory is a `VIDF` block. -/
  isVidf : Bool
  /-- The number of the frame in the block. -/
  vidfNumber : ℤ
deriving DecidableEq, Repr

/-- The frame in a slot. -/
def FrameSlot.frame (hdr : ℕ → MlvHdr) (s : FrameSlot) : Option Frame :=
  if s.isIdle then none
  else some ⟨s.status, s.ptr, s.frameNumber, s.isMeta, (hdr s.ptr).isVidf,
    (hdr s.ptr).frameNumber⟩

/-- The frame in slot `i`. -/
def SlotTable.frame (t : SlotTable) (i : ℕ) : Option Frame := t.slots[i]?.bind (·.frame t.hdr)

section

variable {t t' : SlotTable} {i j : ℕ} {s : FrameSlot} {F : Frame} {hdr : ℕ → MlvHdr}

theorem FrameSlot.frame_of_isIdle (h : s.isIdle = true) : s.frame hdr = none := if_pos h

theorem FrameSlot.frame_of_inUse (h : s.isIdle = false) : s.frame hdr =
    some ⟨s.status, s.ptr, s.frameNumber, s.isMeta, (hdr s.ptr).isVidf,
      (hdr s.ptr).frameNumber⟩ :=
  if_neg (by simp [h])

theorem SlotTable.exists_of_frame (h : t.frame i = some F) : ∃ s, t.slots[i]? = some s ∧
    s.isIdle = false ∧ F = ⟨s.status, s.ptr, s.frameNumber, s.isMeta, (t.hdr s.ptr).isVidf,
      (t.hdr s.ptr).frameNumber⟩ := by
  obtain ⟨s, hs, hF⟩ := Option.bind_eq_some_iff.1 h
  cases hidle : s.isIdle with
  | true => simp [frame_of_isIdle hidle] at hF
  | false =>
    rw [frame_of_inUse hidle] at hF
    exact ⟨s, hs, hidle, (Option.some.inj hF).symm⟩

theorem SlotTable.frame_of_getElem? (h : t.slots[i]? = some s) : t.frame i = s.frame t.hdr := by
  rw [frame, h, Option.bind_some]

theorem SlotTable.frame_of_inUse (h : t.slots[i]? = some s) (hs : s.isIdle = false) :
    t.frame i = some ⟨s.status, s.ptr, s.frameNumber, s.isMeta, (t.hdr s.ptr).isVidf,
      (t.hdr s.ptr).frameNumber⟩ := by
  rw [frame_of_getElem? h, FrameSlot.frame_of_inUse hs]

/-- The view from the list of the frames. -/
theorem SlotTable.frame_eq_join (t : SlotTable) (i : ℕ) :
    t.frame i = ((t.slots.map (·.frame t.hdr))[i]?).join := by
  rw [frame, getElem?_map]
  cases t.slots[i]? <;> rfl

end

/-! ### Safe tables -/

/-- The slots are safe, and none of those in use is empty. -/
structure TableOk (M : ℕ) (mem : Set ℕ) (t : SlotTable) : Prop extends SlotsSafe M mem t where
  pos : ∀ s ∈ t.slots, s.isIdle = false → 0 < s.size

section

variable {M : ℕ} {mem : Set ℕ} {t : SlotTable} {i j n : ℕ} {s s' : FrameSlot}
  {f : FrameSlot → FrameSlot}

theorem SlotsSafe.ptr_ne (h : SlotsSafe M mem t) (hij : i ≠ j) (hi : t.slots[i]? = some s)
    (hj : t.slots[j]? = some s') (hs : 0 < s.size) (hs' : 0 < s'.size) : s.ptr ≠ s'.ptr := by
  obtain ⟨hilt, rfl⟩ := List.getElem?_eq_some_iff.1 hi
  obtain ⟨hjlt, rfl⟩ := List.getElem?_eq_some_iff.1 hj
  have hdisj : Disjoint (cells t.slots[i]) (cells t.slots[j]) := by
    rcases Nat.lt_or_gt_of_ne hij with hlt | hgt
    · exact pairwise_iff_getElem.1 h.separate i j hilt hjlt hlt
    · exact (pairwise_iff_getElem.1 h.separate j i hjlt hilt hgt).symm
  intro heq
  have hmem : t.slots[i].ptr ∈ cells t.slots[i] :=
    ⟨le_rfl, Nat.lt_add_of_pos_right hs⟩
  have hmem' : t.slots[i].ptr ∈ cells t.slots[j] := by
    rw [heq]
    exact ⟨le_rfl, Nat.lt_add_of_pos_right hs'⟩
  exact Set.disjoint_left.1 hdisj hmem hmem'

/-- **Slots in use have different addresses.** -/
theorem TableOk.ptr_inj (h : TableOk M mem t) {F G : Frame} (hF : t.frame i = some F)
    (hG : t.frame j = some G) (hptr : F.ptr = G.ptr) : i = j := by
  obtain ⟨s, hs, hidle, rfl⟩ := exists_of_frame hF
  obtain ⟨s', hs', hidle', rfl⟩ := exists_of_frame hG
  by_contra hij
  exact h.ptr_ne hij hs hs' (h.pos s (mem_of_getElem? hs) hidle)
    (h.pos s' (mem_of_getElem? hs') hidle') hptr

theorem TableOk.setHdr (h : TableOk M mem t) (i : ℕ) (hdr : MlvHdr) :
    TableOk M mem (t.setHdr i hdr) :=
  ⟨h.toSlotsSafe.setHdr i hdr, by simpa using h.pos⟩

theorem TableOk.modify (h : TableOk M mem t) (hi : t.slots[i]? = some s)
    (hptr : (f s).ptr = s.ptr) (hsize : (f s).size = s.size)
    (hres : (f s).status = .reserved ↔ s.status = .reserved) (hok : (f s).SizeOk M)
    (hpos : (f s).isIdle = false → 0 < s.size) : TableOk M mem (t.modify i f) := by
  refine ⟨h.toSlotsSafe.modify hi hptr hsize hres hok, ?_⟩
  obtain ⟨a, b, hslots, -, hmodify⟩ := modify_split (f := f) hi
  have hall := h.pos
  rw [hslots, forall_mem_append, forall_mem_cons] at hall
  rw [hmodify, forall_mem_append, forall_mem_cons]
  exact ⟨hall.1, fun hidle => hsize ▸ hpos hidle, hall.2.2⟩

theorem paddedSize_pos (n : ℕ) : 0 < paddedSize n := by
  rw [paddedSize]
  omega

theorem TableOk.shrinkSlot (h : TableOk M mem t) (hM : 512 ∣ M) (hpos : 0 < M)
    (hi : t.slots[i]? = some s) (hstatus : s.status = .capturing) (hn : paddedSize n ≤ s.size) :
    TableOk M mem (shrinkSlot M t i n) := by
  refine ⟨h.toSlotsSafe.shrinkSlot hM hpos hi hstatus hn, ?_⟩
  obtain ⟨a, r, r', b, q, q', k, hslots, -, hslots', -, hmoved, -⟩ :=
    shrinkSlot_spec hM hpos hi h.sizeOk hn
  have hall := h.pos
  rw [hslots, forall_mem_append, forall_mem_append] at hall
  rw [hslots', forall_mem_append, forall_mem_append, forall_mem_cons]
  refine ⟨hall.1, ⟨fun _ => ?_, fun x hx hidle => ?_⟩, hall.2.2⟩
  · rw [resized_size hn]
    exact paddedSize_pos n
  · simp [hmoved.after.idle x hx] at hidle

theorem TableOk.freeSlot (h : TableOk M mem t) (hi : t.slots[i]? = some s)
    (hidle : s.isIdle = false) : TableOk M mem (freeSlot M t i) := by
  refine ⟨h.toSlotsSafe.freeSlot hi hidle, ?_⟩
  have hall := h.pos
  by_cases hsize : s.size = M
  · have hres : s.status ≠ .reserved := fun hst => by simp [isIdle, hst] at hidle
    rw [freeSlot_of_full hi hsize]
    exact (h.modify hi rfl rfl (by simp [hres]) (.of_free rfl hsize) (by simp [isIdle])).pos
  · obtain ⟨a, r₁, r₂, b, p, q, hslots, -, hrun, -, -, hfree⟩ := freeSlot_spec hi hsize
    obtain ⟨⟨q', hrun', -⟩, -⟩ := reallocate_spec (M := M) _ hrun.tiles.le hrun.idle
    rw [hslots, forall_mem_append, forall_mem_append] at hall
    rw [hfree, forall_mem_append, forall_mem_append]
    refine ⟨hall.1, fun x hx hidle' => ?_, hall.2.2⟩
    simp [hrun'.idle x hx] at hidle'

/-! ### The operations on the frames -/

theorem map_frame_of_idle {hdr : ℕ → MlvHdr} {l : List FrameSlot}
    (h : ∀ x ∈ l, x.isIdle = true) :
    l.map (·.frame hdr) = replicate l.length none := by
  rw [eq_replicate_iff]
  refine ⟨by simp, fun x hx => ?_⟩
  obtain ⟨y, hy, rfl⟩ := mem_map.1 hx
  exact frame_of_isIdle (h y hy)

@[simp] theorem freeSlot_hdr (M : ℕ) (t : SlotTable) (i : ℕ) : (freeSlot M t i).hdr = t.hdr := by
  rw [freeSlot]
  split
  · rfl
  · split_ifs <;> rfl

section

variable (hi : t.slots[i]? = some s)
include hi

theorem frame_modify_eq :
    (t.modify i f).frame = update t.frame i ((f s).frame t.hdr) := by
  refine eq_update_iff.2
    ⟨frame_of_getElem? (modify_self hi), fun j hj => ?_⟩
  rw [SlotTable.frame, modify_of_ne hj]
  rfl

/-- A change of a slot that keeps its address and leaves it in use changes one frame. -/
theorem frame_modify (hptr : (f s).ptr = s.ptr) (hidle : (f s).isIdle = false) :
    (t.modify i f).frame = update t.frame i
      (some ⟨(f s).status, s.ptr, (f s).frameNumber, (f s).isMeta, (t.hdr s.ptr).isVidf,
        (t.hdr s.ptr).frameNumber⟩) := by
  rw [frame_modify_eq hi, frame_of_inUse hidle, hptr]

theorem frame_modify_of_isIdle (hidle : (f s).isIdle = true) :
    (t.modify i f).frame = update t.frame i none := by
  rw [frame_modify_eq hi, frame_of_isIdle hidle]

/-- **Freeing** removes one frame. -/
theorem frame_freeSlot (M : ℕ) : (freeSlot M t i).frame = update t.frame i none := by
  by_cases hsize : s.size = M
  · rw [freeSlot_of_full hi hsize, frame_modify_of_isIdle hi rfl]
  have hset : (freeSlot M t i).slots.map (·.frame t.hdr) =
      (t.slots.map (·.frame t.hdr)).set i none := by
    obtain ⟨a, r₁, r₂, b, p, q, hslots, rfl, hrun, -, -, hfree⟩ := freeSlot_spec hi hsize
    obtain ⟨⟨q', hrun', -⟩, -⟩ := reallocate_spec (M := M) _ hrun.tiles.le hrun.idle
    have h₁ : r₁.map (·.frame t.hdr) = replicate r₁.length none :=
      map_frame_of_idle fun x hx => hrun.idle x (mem_append_left _ hx)
    have h₂ : r₂.map (·.frame t.hdr) = replicate r₂.length none :=
      map_frame_of_idle fun x hx => hrun.idle x
        (mem_append_right _ (mem_cons_of_mem _ hx))
    have hlen : (a ++ r₁).length = (a.map (·.frame t.hdr)).length +
        (replicate r₁.length (none : Option Frame)).length := by
      simp
    rw [hfree, hslots, hlen]
    simp only [map_append, map_cons, map_frame_of_idle hrun'.idle, length_reallocate,
      h₁, h₂, length_append, length_cons, append_assoc, cons_append,
      set_append_right _ _ (Nat.le_add_right _ _), Nat.add_sub_cancel_left]
    rw [set_append_right _ _ le_rfl, Nat.sub_self, set_cons_zero, replicate_add,
      replicate_succ, append_assoc, cons_append]
  refine eq_update_iff.2 ⟨?_, fun j hj => ?_⟩
  · have hlt := (List.getElem?_eq_some_iff.1 hi).1
    rw [frame_eq_join, freeSlot_hdr, hset, getElem?_set_self (by simpa using hlt)]
    rfl
  · rw [frame_eq_join, freeSlot_hdr, hset, getElem?_set_ne (Ne.symm hj),
      ← frame_eq_join]

/-- A change of the header in a slot in use changes one frame, if no other slot in use has the same
address. -/
theorem frame_setHdr (hidle : s.isIdle = false)
    (hptr : ∀ j F, j ≠ i → t.frame j = some F → F.ptr ≠ s.ptr) (hdr : MlvHdr) :
    (t.setHdr i hdr).frame = update t.frame i
      (some ⟨s.status, s.ptr, s.frameNumber, s.isMeta, hdr.isVidf, hdr.frameNumber⟩) := by
  have hhdr : (t.setHdr i hdr).hdr = update t.hdr s.ptr hdr := by
    rw [SlotTable.setHdr, hi]
  refine eq_update_iff.2 ⟨?_, fun j hj => ?_⟩
  · rw [frame_of_inUse (by rwa [setHdr_slots]) hidle, hhdr,
      update_self]
  · rw [SlotTable.frame, setHdr_slots]
    refine Option.bind_congr fun x hF => ?_
    cases hx : x.isIdle with
    | true => rw [frame_of_isIdle hx, frame_of_isIdle hx]
    | false =>
      have hne := hptr j _ hj (frame_of_inUse hF hx)
      rw [frame_of_inUse hx, frame_of_inUse hx, hhdr,
        update_of_ne hne]

/-- A slot and its header are changed. -/
theorem TableOk.frame_modify_setHdr (h : TableOk M mem (t.modify i f))
    (hptr : (f s).ptr = s.ptr) (hidle : (f s).isIdle = false) (hdr : MlvHdr) :
    ((t.modify i f).setHdr i hdr).frame = update t.frame i
      (some ⟨(f s).status, s.ptr, (f s).frameNumber, (f s).isMeta, hdr.isVidf,
        hdr.frameNumber⟩) := by
  have hi' : (t.modify i f).slots[i]? = some (f s) := modify_self hi
  rw [frame_setHdr hi' hidle, frame_modify hi hptr hidle, update_idem, hptr]
  intro j F hj hF heq
  exact hj (h.ptr_inj hF (frame_of_inUse hi' hidle) heq)

end
theorem shrinkFrom_hdr (M : ℕ) (hdr : ℕ → MlvHdr) (s : FrameSlot) (n : ℕ) (rest : List FrameSlot)
    (p : ℕ) : ((shrinkFrom M hdr s n rest).hdr p).isVidf = (hdr p).isVidf ∧
      ((shrinkFrom M hdr s n rest).hdr p).frameNumber = (hdr p).frameNumber := by
  have hblock (hdr : ℕ → MlvHdr) (a b : ℕ) : (setBlockSize hdr a b p).isVidf = (hdr p).isVidf ∧
      (setBlockSize hdr a b p).frameNumber = (hdr p).frameNumber := by
    by_cases hp : p = a
    · subst hp
      simp [setBlockSize]
    · simp [setBlockSize, update_of_ne hp]
  fun_induction shrinkFrom M hdr s n rest with
  | case1 | case3 => exact ⟨rfl, rfl⟩
  | case2 | case5 | case6 => exact hblock _ _ _
  | case4 hdr s n t rest _ _ _ _ _ _ ih =>
    obtain ⟨hvidf, hnumber⟩ := hblock hdr s.ptr (paddedSize n)
    exact ⟨ih.1.trans hvidf, ih.2.trans hnumber⟩

theorem shrinkSlot_hdr (M : ℕ) (t : SlotTable) (i n p : ℕ) :
    ((shrinkSlot M t i n).hdr p).isVidf = (t.hdr p).isVidf ∧
      ((shrinkSlot M t i n).hdr p).frameNumber = (t.hdr p).frameNumber := by
  rw [shrinkSlot]
  split
  · exact ⟨rfl, rfl⟩
  · exact shrinkFrom_hdr M t.hdr _ n _ p

theorem FrameSlot.frame_congr {hdr hdr' : ℕ → MlvHdr} {s s' : FrameSlot} (hptr : s'.ptr = s.ptr)
    (hstatus : s'.status = s.status) (hnumber : s'.frameNumber = s.frameNumber)
    (hmeta : s'.isMeta = s.isMeta) (hhdr : ∀ p, (hdr' p).isVidf = (hdr p).isVidf ∧
      (hdr' p).frameNumber = (hdr p).frameNumber) : s'.frame hdr' = s.frame hdr := by
  have hidle : s'.isIdle = s.isIdle := by rw [isIdle, isIdle, hstatus]
  simp only [frame, hidle, hptr, hstatus, hnumber, hmeta, hhdr]

/-- **Shrinking** changes no frame. -/
theorem frame_shrinkSlot (hM : 512 ∣ M) (hpos : 0 < M) (hi : t.slots[i]? = some s)
    (ht : ∀ x ∈ t.slots, x.SizeOk M) (hn : paddedSize n ≤ s.size) :
    (shrinkSlot M t i n).frame = t.frame := by
  have hhdr := shrinkSlot_hdr M t i n
  obtain ⟨a, r, r', b, q, q', k, hslots, -, hslots', -, hmoved, -⟩ :=
    shrinkSlot_spec hM hpos hi ht hn
  have hsame (l : List FrameSlot) :
      l.map (·.frame (shrinkSlot M t i n).hdr) = l.map (·.frame t.hdr) :=
    map_congr_left fun x _ => frame_congr rfl rfl rfl rfl hhdr
  have hself : (s.resized n).frame t.hdr = s.frame t.hdr := by
    refine frame_congr (s.resized_ptr n) (s.resized_status n) ?_ ?_ fun _ => ⟨rfl, rfl⟩
    · rw [FrameSlot.resized]
      split_ifs <;> rfl
    · rw [FrameSlot.resized]
      split_ifs <;> rfl
  have hmap : (shrinkSlot M t i n).slots.map (·.frame (shrinkSlot M t i n).hdr) =
      t.slots.map (·.frame t.hdr) := by
    rw [hslots, hslots']
    simp only [map_append, map_cons, hsame, hself, map_frame_of_idle hmoved.before.idle,
      map_frame_of_idle hmoved.after.idle, hmoved.length]
  funext j
  rw [frame_eq_join, frame_eq_join, hmap]

end

end MagicLantern.MlvLite

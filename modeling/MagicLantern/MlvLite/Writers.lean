import MagicLantern.MlvLite.RecorderInv

/-!
# The recording tasks

A recording task picks a group of complete frames from the writing queue, writes it and frees its
slots. Both steps set `writing_queue_head`: first to the position after the group, and to the same
position again when the group has been written. The second assignment moves the head back when the
other task has picked a group in between. This does no harm as long as the groups are completed in
the order in which they were picked: then the head points to the oldest group that is still being
written, and no task picks a group there, because its slots are not `SLOT_FULL`.

Source: `src/modules/raw_video/mlv_lite/mlv_lite.c`.
-/

namespace MagicLantern.MlvLite

open Function List Option RingQueue SlotTable

/-! ### Picking -/

/-- The number of slots at the front of a queue that are complete and follow each other in memory
from `ptr` on. -/
def contiguous (slots : List FrameSlot) : (ptr : ℕ) → List ℕ → ℕ
  | _, [] => 0
  | ptr, i :: l =>
    match slots[i]? with
    | none => 0
    | some s => if s.status = .full ∧ s.ptr = ptr then contiguous slots s.endPtr l + 1 else 0

/-- Slot `i` has the complete block of another module. -/
def hasBlock (slots : List FrameSlot) (i : ℕ) : Bool :=
  slots[i]?.any fun s => s.status = .full ∧ s.isMeta = true

variable {i size : ℕ} {s : FrameSlot} {limit : Option ℕ} {card : Card} {file file' : CardFile}
  {limit' : Bool} {disk : Disk} {n : ℤ}

section

variable {slots : List FrameSlot} {ptr : ℕ} {l : List ℕ}

theorem contiguous_cons_of_eq (hs : slots[i]? = some s) (hfull : s.status = .full)
    (hptr : s.ptr = ptr) : contiguous slots ptr (i :: l) = contiguous slots s.endPtr l + 1 := by
  simp [contiguous, hs, hfull, hptr]

theorem contiguous_cons_of_not (h : ∀ s, slots[i]? = some s → ¬ (s.status = .full ∧ s.ptr = ptr)) :
    contiguous slots ptr (i :: l) = 0 := by
  cases hs : slots[i]? with
  | none => simp [contiguous, hs]
  | some s =>
    simp only [contiguous, hs]
    exact if_neg (h s hs)

theorem contiguous_le : contiguous slots ptr l ≤ l.length := by
  fun_induction contiguous slots ptr l with
  | case3 _ _ _ _ _ _ ih => exact Nat.succ_le_succ ih
  | _ => exact Nat.zero_le _

theorem contiguous_pos (hi : l.head? = some i) (hs : slots[i]? = some s)
    (hfull : s.status = .full) : 0 < contiguous slots s.ptr l := by
  obtain ⟨l', rfl⟩ := head?_eq_some_iff.1 hi
  rw [contiguous_cons_of_eq hs hfull rfl]
  exact Nat.succ_pos _

theorem full_of_mem_contiguous (hi : i ∈ l.take (contiguous slots ptr l)) :
    ∃ s, slots[i]? = some s ∧ s.status = .full := by
  fun_induction contiguous slots ptr l with
  | case3 ptr j l s hs hfull ih =>
    rw [take_succ_cons, mem_cons] at hi
    rcases hi with rfl | hi
    · exact ⟨s, hs, hfull.1⟩
    · exact ih hi
  | _ => simp at hi

/-- **What the loop finds**: the group is the contiguous one, and the meta slots are counted among
one slot more. -/
theorem scanGroup_eq (slots : List FrameSlot) (ptr : ℕ) (l : List ℕ) (g : Scan) :
    (scanGroup slots ptr g l).count = g.count + contiguous slots (ptr + g.groupSize) l ∧
      (scanGroup slots ptr g l).metaSlots = g.metaSlots +
        (l.take (contiguous slots (ptr + g.groupSize) l + 1)).countP (hasBlock slots) := by
  -- A slot is counted as a meta slot whether it belongs to the group or not.
  have hmark (g : Scan) {i : ℕ} {s : FrameSlot} (hs : slots[i]? = some s)
      (hfull : s.status = .full) :
      (if s.isMeta then { g with metaSlots := g.metaSlots + 1 } else g) =
        { g with metaSlots := g.metaSlots + if hasBlock slots i then 1 else 0 } := by
    rw [hasBlock, hs]
    cases hm : s.isMeta <;> simp [hfull, hm]
  fun_induction scanGroup slots ptr g l with
  | case1 g => simp [contiguous]
  | case2 g i l hs =>
    rw [contiguous_cons_of_not (by simp [hs])]
    simp [hs, hasBlock]
  | case3 g i l s hs hfull =>
    rw [contiguous_cons_of_not (by simp [hs, hfull])]
    simp [hs, hasBlock, hfull]
  | case4 g i l s hs hfull g' hptr ih =>
    rw [not_not] at hfull
    have hg' : g' = _ := hmark g hs hfull
    rw [hg'] at hptr ih ⊢
    have hend : ptr + (g.groupSize + s.size) = s.endPtr := by
      rw [FrameSlot.endPtr, hptr, Nat.add_assoc]
    rw [contiguous_cons_of_eq hs hfull hptr, take_succ_cons, countP_cons]
    simp only [hend] at ih ⊢
    omega
  | case5 g i l s hs hfull g' hptr =>
    rw [not_not] at hfull
    have hg' : g' = _ := hmark g hs hfull
    rw [hg'] at hptr ⊢
    rw [contiguous_cons_of_not fun x hx h => ?_]
    · simp
    · obtain rfl : s = x := some.inj (hs.symm.trans hx)
      exact hptr h.2

end

theorem limitGroup_pos {n : ℕ} (h : 0 < n) : 0 < limitGroup limit n := by
  cases limit with
  | none => exact h
  | some k =>
    simp only [limitGroup]
    split_ifs <;> omega

theorem limitGroup_le (limit : Option ℕ) (n : ℕ) : limitGroup limit n ≤ n := by
  cases limit with
  | none => exact le_rfl
  | some k =>
    simp only [limitGroup]
    split_ifs <;> omega

section

variable {M : ℕ} {mem : Set ℕ} {t : SlotTable} {l : List ℕ}

theorem KeepsCaptured.trans {t₁ t₂ t₃ : SlotTable} (h : KeepsCaptured t₁ t₂)
    (h' : KeepsCaptured t₂ t₃) : KeepsCaptured t₁ t₃ := by
  intro k s hs hcap
  obtain ⟨s', hs', hcap', hsize⟩ := h k s hs hcap
  obtain ⟨s'', hs'', hcap'', hsize'⟩ := h' k s' hs' hcap'
  exact ⟨s'', hs'', hcap'', hsize'.trans hsize⟩

theorem KeepsCaptured.refl (t : SlotTable) : KeepsCaptured t t := fun _ s hs hcap =>
  ⟨s, hs, hcap, rfl⟩

theorem mark_spec (h : TableOk M mem t) (hl : ∀ i ∈ l, ∃ s, t.slots[i]? = some s ∧
      (s.status = .full ∨ s.status = .writing)) :
    let t' := l.foldl (fun t i => t.modify i fun s => { s with status := .writing }) t
    TableOk M mem t' ∧ t'.slots.length = t.slots.length ∧ KeepsCaptured t t' ∧
      marks t'.slots = marks t.slots ∧
      ∀ i, t'.frame i = if i ∈ l then (t.frame i).map fun F => { F with status := .writing }
        else t.frame i := by
  induction l generalizing t with
  | nil => exact ⟨h, rfl, .refl t, rfl, fun i => by simp⟩
  | cons k l ih =>
    obtain ⟨⟨s, hs, hst⟩, hl⟩ := forall_mem_cons.1 hl
    have hidle : s.isIdle = false := by
      rcases hst with hst | hst <;> simp [FrameSlot.isIdle, hst]
    have hcap : s.status ≠ .capturing := by
      rcases hst with hst | hst <;> simp [hst]
    have hres : s.status ≠ .reserved := by
      rcases hst with hst | hst <;> simp [hst]
    have hmem := mem_of_getElem? hs
    have hok := h.modify (f := fun s => { s with status := .writing }) hs rfl rfl (by simp [hres])
      ⟨(h.sizeOk s hmem).le, by simp, by simp, by simp⟩ fun _ => h.pos s hmem hidle
    have hframe := frame_modify (t := t) (f := fun s => { s with status := .writing }) hs rfl rfl
    have hkeeps := keepsCaptured_modify (t := t) (f := fun s => { s with status := .writing }) hs
      (by simp [hcap])
    have hmarks : marks (t.modify k fun s => { s with status := .writing }).slots = marks t.slots :=
      marks_modify fun _ => rfl
    obtain ⟨hok', hlen, hkeeps', hmarks', hframe'⟩ := ih hok fun i hi => by
      obtain ⟨x, hx, hx'⟩ := hl i hi
      by_cases hik : i = k
      · subst hik
        exact ⟨_, modify_self hs, .inr rfl⟩
      · exact ⟨x, (modify_of_ne hik).trans hx, hx'⟩
    refine ⟨hok', hlen.trans (by simp), hkeeps.trans hkeeps', hmarks'.trans hmarks, fun i => ?_⟩
    rw [foldl_cons, hframe' i, hframe]
    by_cases hik : i = k
    · subst hik
      rw [frame_of_inUse hs hidle]
      simp
    · simp [hik]

theorem releaseWritten_spec (S : Settings) (h : TableOk S.maxFrameSize mem t) (hnodup : l.Nodup)
    (hl : ∀ i ∈ l, ∃ s, t.slots[i]? = some s ∧ s.status = .writing) :
    let t' := l.foldl (Recorder.releaseWritten S) t
    TableOk S.maxFrameSize mem t' ∧ t'.slots.length = t.slots.length ∧ KeepsCaptured t t' ∧
      (t.MarksOk → t'.MarksOk) ∧ ∀ i, t'.frame i = if i ∈ l then none else t.frame i := by
  induction l generalizing t with
  | nil => exact ⟨h, rfl, .refl t, id, fun i => by simp⟩
  | cons k l ih =>
    obtain ⟨⟨s, hs, hst⟩, hl⟩ := forall_mem_cons.1 hl
    obtain ⟨hk, hnodup⟩ := nodup_cons.1 hnodup
    have hidle : s.isIdle = false := by simp [FrameSlot.isIdle, hst]
    have hmem := mem_of_getElem? hs
    -- The mark of a meta slot is cleared first.
    set t₁ := t.modify k fun s => { s with isMeta := false } with ht₁
    have hs₁ : t₁.slots[k]? = some { s with isMeta := false } := modify_self hs
    have hidle₁ : ({ s with isMeta := false } : FrameSlot).isIdle = false := hidle
    have hok₁ : TableOk S.maxFrameSize mem t₁ := by
      refine h.modify hs rfl rfl Iff.rfl ?_ fun _ => h.pos s hmem hidle
      obtain ⟨h₁, h₂, h₃, h₄⟩ := h.sizeOk s hmem
      exact ⟨h₁, h₂, h₃, h₄⟩
    have hkeeps₁ : KeepsCaptured t t₁ := keepsCaptured_modify hs (by simp [hst])
    have hframe₁ : t₁.frame = update t.frame k _ := frame_modify hs rfl hidle
    have hok₂ : TableOk S.maxFrameSize mem (Recorder.releaseWritten S t k) :=
      hok₁.freeSlot hs₁ hidle₁
    have hkeeps₂ : KeepsCaptured t₁ (Recorder.releaseWritten S t k) := by
      intro j x hx hcap
      have hjk : j ≠ k := by
        rintro rfl
        rw [hs₁] at hx
        rw [← some.inj hx] at hcap
        simp [hst] at hcap
      exact ⟨x, freeSlot_of_ne hjk hx (by simp [FrameSlot.isIdle, hcap]), hcap, rfl⟩
    have hframe₂ : (Recorder.releaseWritten S t k).frame = update t.frame k none := by
      rw [Recorder.releaseWritten, frame_freeSlot hs₁ S.maxFrameSize, hframe₁, update_idem]
    have hmarks₂ (hm : t.MarksOk) : (Recorder.releaseWritten S t k).MarksOk := by
      have hmarks : marks (Recorder.releaseWritten S t k).slots = marks t₁.slots :=
        marks_freeSlot ..
      intro j x hx
      obtain ⟨y, hy, hmark⟩ := marks_getElem? hmarks hx
      rw [hmark, hframe₂]
      by_cases hj : j = k
      · subst hj
        obtain rfl := some.inj (hs₁.symm.trans hy)
        rw [update_self]
        rfl
      · rw [modify_of_ne hj] at hy
        rw [update_of_ne hj, hm j y hy]
    obtain ⟨hok', hlen, hkeeps', hmarks', hframe'⟩ := ih hok₂ hnodup fun i hi => by
      obtain ⟨x, hx, hx'⟩ := hl i hi
      have hik : i ≠ k := by
        rintro rfl
        exact hk hi
      have hx₁ : t₁.slots[i]? = some x := (modify_of_ne hik).trans hx
      exact ⟨x, freeSlot_of_ne hik hx₁ (by simp [FrameSlot.isIdle, hx']), hx'⟩
    refine ⟨hok', hlen.trans ?_, (hkeeps₁.trans hkeeps₂).trans hkeeps', hmarks' ∘ hmarks₂,
      fun i => ?_⟩
    · rw [Recorder.releaseWritten, length_of_marks (marks_freeSlot ..), modify_slots, length_modify]
    · rw [foldl_cons, hframe' i, hframe₂]
      by_cases hik : i = k
      · subst hik
        simp
      · simp [hik]

end

theorem forall₂_blocks {slots : List FrameSlot} {frame : ℕ → Option Frame} {l : List ℕ}
    (hl : ∀ i ∈ l, ∃ s, slots[i]? = some s ∧ ∃ F, frame i = some F ∧ F.ptr = s.ptr) :
    Forall₂ (fun a i => ∃ F, frame i = some F ∧ F.ptr = a)
      ((l.filterMap fun i => slots[i]?).map FrameSlot.ptr) l := by
  induction l with
  | nil => exact .nil
  | cons i l ih =>
    obtain ⟨⟨s, hs, hF⟩, hl⟩ := forall_mem_cons.1 hl
    rw [filterMap_cons_some hs]
    exact .cons hF (ih hl)

/-- The number of frames that a task notes for the group it takes is the number of video frames in
its slots. -/
def Recorder.GroupCounted (r : Recorder) (frameLimit : Option ℕ) (first : FrameSlot) : Prop :=
  (limitGroup frameLimit (r.scan first).count : ℤ) - (r.scan first).metaSlots =
    (videoFrames r.buf.table.entry
      (r.waiting.take (limitGroup frameLimit (r.scan first).count))).length

theorem Recorder.pick_cases {r r' : Recorder} (h : r.pick card limit = some r') :
    r' = r ∨ ∃ i first, r.waiting.head? = some i ∧
      r.slots[i]? = some first ∧ first.status = .full ∧ (∀ g ∈ r.groups, g.card ≠ card) ∧
      r' = r.takeGroup card limit first := by
  rw [pick] at h
  split_ifs at h with hbusy
  split at h
  · exact .inl (some.inj h).symm
  · rename_i first hfirst
    split_ifs at h with hfull
    · exact .inl (some.inj h).symm
    · obtain ⟨i, hi, hs⟩ := bind_eq_some_iff.1 hfirst
      refine .inr ⟨i, first, hi, hs, not_not.1 hfull, ?_, (some.inj h).symm⟩
      intro g hg hcard
      refine hbusy (.inr (any_eq_true.2 ⟨g, hg, ?_⟩))
      simpa using hcard

namespace Recorder.Inv

variable {S : Settings} {mem : Set ℕ} {modules : Bool} {counted : Prop} {r r' : Recorder}
  {gs : List (List ℕ)} {rest : List ℕ} {log : List (Card × ℤ)} {first : FrameSlot}

section

variable (h : r.Inv S mem modules counted gs rest log)
include h

theorem notMem_groups_of_full (hs : r.slots[i]? = some s) (hfull : s.status = .full) :
    i ∉ gs.flatten := by
  refine h.notMem_groups fun F hF => ?_
  rw [frame_of_inUse hs (by simp [FrameSlot.isIdle, hfull])] at hF
  rw [← some.inj hF]
  simp [hfull]

theorem waiting_of_full (hi : r.waiting.head? = some i) (hs : r.slots[i]? = some first)
    (hfull : first.status = .full) :
    r.waiting = rest ∧ ∃ base, QueueRep counted r base gs rest ∧
      r.head = advance queueSize base gs.flatten.length := by
  obtain ⟨base, hq⟩ := h.queue
  rcases hq.waiting_eq h.length_lt with ⟨hwait, hhead⟩ | ⟨hwait, hne⟩
  · exact ⟨hwait, base, hq, hhead⟩
  · -- The head has been moved back to a group, where the first slot is not complete.
    exfalso
    obtain ⟨l, gs', rfl⟩ := exists_cons_of_ne_nil hne
    obtain ⟨j, l', rfl⟩ := exists_cons_of_ne_nil (hq.chained.ne_nil l mem_cons_self)
    rw [hwait] at hi
    obtain rfl : j = i := by simpa using hi
    exact h.notMem_groups_of_full hs hfull (by simp)

/-- The slots of the group that is taken, those that still wait, and the slots as a whole. -/
theorem takeGroup_spec (limit : Option ℕ) (hi : r.waiting.head? = some i)
    (hs : r.slots[i]? = some first) (hfull : first.status = .full) :
    ∃ n, n = limitGroup limit (r.scan first).count ∧ 0 < n ∧ n ≤ rest.length ∧
      (∀ j ∈ rest.take n, ∃ s, r.slots[j]? = some s ∧ s.status = .full) ∧
      slice queueSize r.writingQueue r.head (advance queueSize r.head n) = rest.take n := by
  obtain ⟨hwait, base, hq, hhead⟩ := h.waiting_of_full hi hs hfull
  set n := contiguous r.slots first.ptr r.waiting with hn
  have hcount : (r.scan first).count = n := by
    rw [scan, (scanGroup_eq _ _ _ _).1, Nat.zero_add, Nat.add_zero]
  have hpos : 0 < n := contiguous_pos hi hs hfull
  have hle : n ≤ r.waiting.length := contiguous_le
  have hlim := limitGroup_le limit n
  refine ⟨_, rfl, ?_, ?_, ?_, ?_⟩
  · rw [hcount]
    exact limitGroup_pos hpos
  · rw [hcount, ← hwait]
    exact hlim.trans hle
  · intro j hj
    have hmem : j ∈ r.waiting.take n := by
      rw [hwait]
      exact take_subset_take_left _ (hcount ▸ hlim) hj
    exact full_of_mem_contiguous hmem
  · rw [hcount]
    have hle' : limitGroup limit n ≤ rest.length := hwait ▸ hlim.trans hle
    have hlt : r.head < queueSize := hhead ▸ advance_lt queueSize_pos _ _
    have hholds : Holds queueSize r.writingQueue r.head rest := by
      rw [hhead]
      exact ((holds_append hq.base_lt).1 hq.holds).2
    have hsplit := hholds
    rw [← take_append_drop (limitGroup limit n) rest, holds_append hlt] at hsplit
    have hlen : (rest.take (limitGroup limit n)).length = limitGroup limit n :=
      length_take_of_le hle'
    have hsl := hsplit.1.slice_eq hlt (by
      have := h.length_lt
      rw [length_append] at this
      omega)
    rwa [hlen] at hsl

/-- **A task picks a group.** -/
theorem takeGroup (hi : r.waiting.head? = some i) (hs : r.slots[i]? = some first)
    (hfull : first.status = .full) (hcounted : counted → r.GroupCounted limit first) :
    ∃ l rest', rest = l ++ rest' ∧
      (r.takeGroup card limit first).Inv S mem modules counted (gs ++ [l]) rest' log := by
  obtain ⟨hwait, base, hq, hhead⟩ := h.waiting_of_full hi hs hfull
  obtain ⟨n, hn, hnpos, hnle, htake, hslice⟩ := h.takeGroup_spec limit hi hs hfull
  have hlen : (rest.take n).length = n := length_take_of_le hnle
  obtain ⟨hok, hlen', hkeeps, hmarks, hframe⟩ := mark_spec h.tableOk
    (fun j hj => (htake j hj).imp fun _ hs => ⟨hs.1, .inl hs.2⟩)
  set l := rest.take n with hl
  set t' := l.foldl (fun t i => t.modify i fun s => { s with status := .writing }) r.buf.table
    with ht'
  have hr : r.takeGroup card limit first = { r with
      head := advance queueSize r.head n
      buf := { r.buf with
        table := t'
        forceNewBuffer := r.buf.forceNewBuffer || advance queueSize r.head n == r.tail }
      groups := r.groups ++ [⟨card, r.head, advance queueSize r.head n,
        (l.filterMap fun i => r.slots[i]?).map FrameSlot.ptr,
        ((l.filterMap fun i => r.slots[i]?).map FrameSlot.size).sum,
        n - (r.scan first).metaSlots⟩] } := by
    simp only [Recorder.takeGroup, ← hn, hslice, ← ht']
  have hgroups : ∀ j ∈ gs.flatten, t'.frame j = r.buf.table.frame j := by
    intro j hj
    rw [hframe, if_neg]
    intro hmem
    exact (nodup_append.1 h.ledger.queued.nodup).2.2 j hj j (mem_of_mem_take hmem) rfl
  have hentry : t'.entry = fun i => if i ∈ l then
      (r.buf.table.entry i).map fun e => { e with kind := .writing } else r.buf.table.entry i := by
    funext i
    rw [SlotTable.entry, hframe]
    split_ifs
    · cases hF : r.buf.table.frame i <;> simp [SlotTable.entry, hF, Frame.entry, Frame.kind]
    · rfl
  have hrest : rest = l ++ rest.drop n := (take_append_drop n rest).symm
  refine ⟨l, rest.drop n, hrest, ?_⟩
  rw [hr]
  refine ⟨h.buffers.setTable hok.toSlotsSafe hkeeps _ _, hok.pos, hlen'.trans_le h.count,
    ⟨base, hq.base_lt, ?_, ?_, ?_, .inl ?_⟩, ?_, h.files, h.triggered,
    fun hc => (h.marksOk hc).congr hmarks fun j => ?_, h.counts⟩
  · rw [flatten_append, flatten_singleton, append_assoc, ← hrest]
    exact hq.holds
  · rw [flatten_append, flatten_singleton, append_assoc, ← hrest]
    exact hq.tail
  · refine (hq.chained.congr hgroups).append hq.base_lt hhead ?_ ?_ ?_ fun hc => ?_
    rotate_left 3
    · have hnumber := hcounted hc
      have hvideo : videoFrames t'.entry l = videoFrames r.buf.table.entry l := by
        refine videoFrames_congr fun j hj => ?_
        simp only [hentry, if_pos hj]
        cases r.buf.table.entry j <;> rfl
      rw [Recorder.GroupCounted, ← hn, hwait] at hnumber
      change (n : ℤ) - (r.scan first).metaSlots = (videoFrames t'.entry l).length
      rw [hnumber, hvideo]
    · rw [hlen, ← advance_advance, ← hhead]
    · rw [← length_pos_iff, hlen]
      exact hnpos
    · refine forall₂_blocks fun j hj => ?_
      obtain ⟨s, hs, hst⟩ := htake j hj
      have hF := frame_of_inUse hs (by simp [FrameSlot.isIdle, hst])
      exact ⟨s, hs, _, by rw [hframe, if_pos hj, hF, map_some], rfl⟩
  · rw [flatten_append, flatten_singleton, length_append, hlen, ← advance_advance,
      ← hhead]
  · have hnew : (Ledger.pick _ l (rest.drop n)).Ok modules := h.ledger.pick hrest
    change Ledger.Ok modules ⟨t'.entry, gs ++ [l], rest.drop n, r.frameCount, r.firstFrame,
      r.preRecording, log.map Prod.snd⟩
    rw [hentry]
    exact hnew
  · rw [hframe]
    split_ifs with hj
    · obtain ⟨s, hs, hst⟩ := htake j hj
      rw [frame_of_inUse hs (by simp [FrameSlot.isIdle, hst])]
      simp [Frame.isBlock, hst]
    · rfl

end

end Recorder.Inv

/-! ### Writing -/

/-- The file that a group is appended to: it may have been covered and closed before that. -/
theorem writeFrames_cases {limit : Bool} {l : List MlvHdr}
      (h : writeFrames file limit disk l size n = some (file', limit')) :
    ∃ f, (f = file ∨ ∃ headers, f = file.nextChunk headers) ∧
      (file' = f.append l size n ∨
        ∃ headers, file' = ((f.cover disk.pos).nextChunk headers).append l size n) := by
  obtain ⟨f, hf, h⟩ := bind_eq_some_iff.1 h
  refine ⟨f, ?_, ?_⟩
  · rw [CardFile.splitBefore] at hf
    split_ifs at hf
    · exact .inr ⟨_, (some.inj hf).symm⟩
    · exact .inl (some.inj hf).symm
  · split_ifs at h
    · exact .inl (Prod.mk.inj (some.inj h)).1.symm
    · exact .inr ⟨_, (Prod.mk.inj (some.inj h)).1.symm⟩

@[simp] theorem CardFile.blocks_nextChunk (file : CardFile) (headers : ℕ) :
    (file.nextChunk headers).blocks = file.blocks := by
  simp [blocks, nextChunk, finishChunk]

@[simp] theorem CardFile.blocks_append (file : CardFile) (l : List MlvHdr) (size : ℕ) (n : ℤ) :
    (file.append l size n).blocks = file.blocks ++ l := by
  simp [blocks, append]

@[simp] theorem CardFile.hdrFrames_cover (file : CardFile) (pos : ℕ) :
    hdrFrames (file.cover pos).blocks = hdrFrames file.blocks := by
  rw [cover]
  split_ifs
  · simp [blocks, hdrFrames, nulHdr]
  · rfl

/-- **The frames of a group are added to the file**, whether it goes on in a new chunk or not. -/
theorem writeFrames_spec {limit : Bool} {l : List MlvHdr}
    (h : writeFrames file limit disk l size n =
      some (file', limit')) : hdrFrames file'.blocks = hdrFrames file.blocks ++ hdrFrames l := by
  obtain ⟨f, hf, hfile'⟩ := writeFrames_cases h
  have hblocks : f.blocks = file.blocks := by
    obtain rfl | ⟨headers, rfl⟩ := hf
    · rfl
    · simp
  obtain rfl | ⟨headers, rfl⟩ := hfile'
  · simp [hblocks]
  · simp [hblocks]

theorem CardFile.Counted.nextChunk (hfile : file.Counted) (headers : ℕ) :
    (file.nextChunk headers).Counted := by
  refine ⟨rfl, fun c hc => ?_⟩
  rcases mem_append.1 hc with hc | hc
  · exact hfile.finished c hc
  · rw [mem_singleton.1 hc]
    exact hfile.chunk

/-- The frames of a group are counted, whether the file goes on in a new chunk or not. -/
theorem CardFile.Counted.writeFrames {limit : Bool} {l : List MlvHdr} (hfile : file.Counted)
    (hn : n = (hdrFrames l).length) (h : MlvLite.writeFrames file limit disk l size n = some (file',
      limit')) : file'.Counted := by
  have hcover {f : CardFile} (hf : f.Counted) (pos : ℕ) : (f.cover pos).Counted := by
    rw [CardFile.cover]
    split_ifs
    · exact ⟨by simp [hf.chunk, hdrFrames, nulHdr], hf.finished⟩
    · exact hf
  have happend {f : CardFile} (hf : f.Counted) : (f.append l size n).Counted :=
    ⟨by simp [CardFile.append, hf.chunk, hn], hf.finished⟩
  obtain ⟨f, hf, hfile'⟩ := writeFrames_cases h
  have hcounted : f.Counted := by
    obtain rfl | ⟨headers, rfl⟩ := hf
    · exact hfile
    · exact hfile.nextChunk headers
  obtain rfl | ⟨headers, rfl⟩ := hfile'
  · exact happend hcounted
  · exact happend ((hcover hcounted _).nextChunk headers)

theorem hdrFrames_blocks {t : SlotTable} {a l : List ℕ}
    (h : Forall₂ (fun a i => ∃ F, t.frame i = some F ∧ F.ptr = a) a l) :
    hdrFrames (a.map t.hdr) = videoFrames t.entry l := by
  induction h with
  | nil => rfl
  | @cons a i as l ha _ ih =>
    obtain ⟨F, hF, rfl⟩ := ha
    obtain ⟨s, -, -, rfl⟩ := exists_of_frame hF
    have he := entry_of_frame hF
    have hsplit : i :: l = [i] ++ l := rfl
    rw [hsplit, videoFrames_append, videoFrames_singleton he, ← ih]
    simp only [hdrFrames, Frame.entry]
    cases hv : (t.hdr s.ptr).isVidf <;> simp [hv]

namespace Recorder.Inv

variable {S : Settings} {mem : Set ℕ} {modules : Bool} {counted : Prop} {r r' : Recorder}
  {gs : List (List ℕ)} {rest : List ℕ} {log : List (Card × ℤ)}

/-- **A task completes the group that was picked first.** -/
theorem complete (h : r.Inv S mem modules counted gs rest log)
    (horder : r.groups.head?.map Group.card = some card)
    (hstep : r.complete S card disk = some r') :
    ∃ l gs' log', gs = l :: gs' ∧ r'.Inv S mem modules counted gs' rest log' := by
  obtain ⟨base, hq⟩ := h.queue
  obtain ⟨g, hg, rfl⟩ := map_eq_some_iff.1 horder
  obtain ⟨groups, hgroups⟩ : ∃ groups, r.groups = g :: groups := by
    obtain ⟨groups, h⟩ := head?_eq_some_iff.1 hg
    exact ⟨groups, h⟩
  have hfind : r.groups.find? (·.card == g.card) = some g := by simp [hgroups]
  have herase : r.groups.eraseP (·.card == g.card) = groups := by simp [hgroups]
  have hchained := hq.chained
  rw [hgroups] at hchained
  obtain _ | ⟨hhead, hnext, hne, hblocks, hnumber, hrest⟩ := hchained
  rename_i l gs
  have hnodup : (l ++ (gs.flatten ++ rest)).Nodup := by
    have hnodup : ((l :: gs).flatten ++ rest).Nodup := h.ledger.queued.nodup
    simpa using hnodup
  have hholds : Holds queueSize r.writingQueue base (l ++ (gs.flatten ++ rest)) := by
    simpa using hq.holds
  have hlen : l.length < queueSize := by
    have hlt := h.length_lt
    simp only [flatten_cons, length_append] at hlt
    omega
  have hslice : slice queueSize r.writingQueue g.wHead g.afterLastGrouped = l := by
    rw [hhead, hnext]
    exact ((holds_append hq.base_lt).1 hholds).1.slice_eq hq.base_lt hlen
  -- The slots of the group are being written, and are given back.
  have hwriting : ∀ i ∈ l, ∃ s, r.slots[i]? = some s ∧ s.status = .writing := by
    intro i hi
    obtain ⟨e, he, hk⟩ := h.ledger.queued.writing i (by
      change i ∈ (l :: gs).flatten
      simp [hi])
    obtain ⟨F, hF, rfl⟩ := entry_eq_some.1 he
    obtain ⟨s, hs, -, rfl⟩ := exists_of_frame hF
    cases hst : s.status <;> simp_all [Frame.entry, Frame.kind]
  obtain ⟨hok, hlen', hkeeps, hmarks, hframe⟩ :=
    releaseWritten_spec S h.tableOk (nodup_append.1 hnodup).1 hwriting
  rw [Recorder.complete, hfind] at hstep
  obtain ⟨⟨file, limit⟩, hfile, rfl⟩ := map_eq_some_iff.1 hstep
  have hspec := writeFrames_spec hfile
  rw [hdrFrames_blocks hblocks] at hspec
  simp only [finishGroup, hslice, herase]
  set t' := l.foldl (releaseWritten S) r.buf.table with ht'
  have hentry : t'.entry = fun i => if i ∈ l then none else r.buf.table.entry i := by
    funext i
    rw [SlotTable.entry, hframe]
    split_ifs <;> rfl
  have hothers : ∀ i ∈ gs.flatten, t'.frame i = r.buf.table.frame i := by
    intro i hi
    rw [hframe, if_neg]
    intro hl
    exact (nodup_append.1 hnodup).2.2 i hl i (mem_append_left _ hi) rfl
  refine ⟨l, gs, log ++ (videoFrames r.buf.table.entry l).map fun n => (g.card, n), rfl,
    h.buffers.setTable hok.toSlotsSafe hkeeps _ _, hok.pos, hlen'.trans_le h.count,
    ⟨advance queueSize base l.length, advance_lt queueSize_pos _ _, ?_, ?_, ?_, ?_⟩, ?_, ?_,
    h.triggered, fun hc => hmarks (h.marksOk hc), fun hc c => ?_⟩
  · exact ((holds_append hq.base_lt).1 hholds).2
  · rw [advance_advance, hq.tail]
    simp
  · exact hrest.congr hothers
  · -- The head is the position after the group, where the next group begins if there is one.
    rw [hnext]
    by_cases hgs : gs = []
    · left
      rw [hgs, flatten_nil, length_nil, advance_zero (advance_lt queueSize_pos _ _)]
    · exact .inr ⟨rfl, hgs⟩
  · have hnew : (Ledger.complete _ l gs).Ok modules := h.ledger.complete rfl
    have hlog : (log ++ (videoFrames r.buf.table.entry l).map fun n => (g.card, n)).map Prod.snd =
        log.map Prod.snd ++ videoFrames r.buf.table.entry l := by
      simp [comp_def]
    change Ledger.Ok modules ⟨t'.entry, gs, rest, r.frameCount, r.firstFrame, r.preRecording,
      (log ++ (videoFrames r.buf.table.entry l).map fun n => (g.card, n)).map Prod.snd⟩
    rw [hentry, hlog]
    exact hnew
  · intro c
    change hdrFrames (update r.file g.card file c).blocks = _
    by_cases hc : c = g.card
    · subst hc
      rw [update_self, hspec, h.files, framesOn_append, framesOn_map_self]
    · rw [update_of_ne hc, h.files, framesOn_append, framesOn_map_of_ne (Ne.symm hc),
        append_nil]
  · change (update r.file g.card file c).Counted
    by_cases hcard : c = g.card
    · subst hcard
      rw [update_self]
      refine (h.counts hc g.card).writeFrames ?_ hfile
      rw [hdrFrames_blocks hblocks]
      exact hnumber hc
    · rw [update_of_ne hcard]
      exact h.counts hc c

end Recorder.Inv

end MagicLantern.MlvLite

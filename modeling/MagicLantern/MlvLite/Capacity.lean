import MagicLantern.MlvLite.SlotSafety

/-!
# Buffer capacity

A contiguous part of the slot table has room for a certain number of full frames: its length
divided by `max_frame_size`. As long as no byte falls between two slots, the sum of these numbers
over the table (`capacity`) stays what it was after `setup_buffers`. When no slot is in use it is
the number of free slots, because the unused bytes of each run of idle slots are collected in its
first reserved slot (`Compact`).

Bytes do get lost. `shrink_slot` gives the bytes after a compressed frame to the slots that follow
it, but only if these are unused at that time and have room; if the next frame is already being
captured, the bytes are given to nobody, and no later call finds them again
(`run_loses_slot`). When every compression frees at least one sector and finds room for the freed
bytes in the unused slots after its own, all slots come back (`run_validSlotCount`).

Source: `src/modules/raw_video/mlv_lite/mlv_lite.c`.

## Main results

* `run_validSlotCount` — all slots come back.
* `run_loses_slot` — two compressed frames cost a slot.
-/

namespace MagicLantern.MlvLite

open List Option FrameSlot Tiling

variable {M : ℕ}

/-! ### Capacity -/

/-- The number of full frames for which the contiguous parts of the table have room. -/
def capacity (M : ℕ) (l : List FrameSlot) : ℕ := sumBlocks (· / M) 0 0 l

/-- In each run of unused slots, only the first reserved slot has bytes. The state of the scan is
the end of the slot before, if that is unused, and whether its run has a reserved slot. -/
def Compact : Option ℕ → Bool → List FrameSlot → Prop
  | _, _, [] => True
  | prev, seen, s :: l =>
    if s.isIdle then
      (seen = true → prev = some s.ptr → s.status = .reserved → s.size = 0) ∧
        Compact (some s.endPtr) ((seen && prev == some s.ptr) || s.status == .reserved) l
    else Compact none false l

theorem compact_cons_idle {prev : Option ℕ} {seen : Bool} {s : FrameSlot} {l : List FrameSlot}
    (hs : s.isIdle = true) : Compact prev seen (s :: l) ↔
      (seen = true → prev = some s.ptr → s.status = .reserved → s.size = 0) ∧
        Compact (some s.endPtr) ((seen && prev == some s.ptr) || s.status == .reserved) l := by
  rw [Compact, if_pos hs]

theorem compact_cons_inUse {prev : Option ℕ} {seen : Bool} {s : FrameSlot} {l : List FrameSlot}
    (hs : s.isIdle = false) : Compact prev seen (s :: l) ↔ Compact none false l := by
  rw [Compact, if_neg (by simp [hs])]

theorem Compact.mono {prev prev' : Option ℕ} {seen seen' : Bool} {l : List FrameSlot}
    (h : Compact prev seen l) (hseen : seen' = true → seen = true ∧ prev' = prev) :
    Compact prev' seen' l := by
  induction l generalizing prev prev' seen seen' with
  | nil => trivial
  | cons s l ih =>
    cases hs : s.isIdle with
    | false => exact (compact_cons_inUse hs).2 ((compact_cons_inUse hs).1 h)
    | true =>
      obtain ⟨hzero, hl⟩ := (compact_cons_idle hs).1 h
      refine (compact_cons_idle hs).2 ⟨fun h₁ h₂ => ?_, ih hl fun h₁ => ⟨?_, rfl⟩⟩
      · obtain ⟨hs', rfl⟩ := hseen h₁
        exact hzero hs' h₂
      · rw [Bool.or_eq_true, Bool.and_eq_true] at h₁ ⊢
        refine h₁.imp (fun h₁ => ?_) id
        obtain ⟨hs', rfl⟩ := hseen h₁.1
        exact ⟨hs', h₁.2⟩

theorem Compact.reset {prev : Option ℕ} {seen : Bool} {l : List FrameSlot}
    (h : Compact prev seen l) : Compact none false l :=
  h.mono (by simp)

theorem compact_of_empty {l : List FrameSlot} (h : ∀ s ∈ l, s.status = .reserved → s.size = 0)
    (prev : Option ℕ) (seen : Bool) : Compact prev seen l := by
  induction l generalizing prev seen with
  | nil => trivial
  | cons s l ih =>
    obtain ⟨hs, hl⟩ := forall_mem_cons.1 h
    cases hidle : s.isIdle with
    | false => exact (compact_cons_inUse hidle).2 (ih hl _ _)
    | true => exact (compact_cons_idle hidle).2 ⟨fun _ _ => hs, ih hl _ _⟩

theorem sumBlocks_cons (g : ℕ → ℕ) (p q : ℕ) (s : FrameSlot) (l : List FrameSlot) :
    sumBlocks g p q (s :: l) = if s.ptr = q then sumBlocks g p s.endPtr l
      else g (q - p) + sumBlocks g s.ptr s.endPtr l := rfl

private theorem frames_of_length {p q n x : ℕ} (hq : q = p + n * M + x) (hx : x < M) :
    (q - p) / M = n := by
  rw [hq, Nat.add_assoc, Nat.add_sub_cancel_left, Nat.add_comm,
    Nat.add_mul_div_right _ _ (by omega), Nat.div_eq_of_lt hx, Nat.zero_add]

/-- The contiguous parts of a compact table that is not in use hold a frame for each free slot.
The part that the list goes on from has `n` frames and `x` bytes in a reserved slot. -/
theorem sumBlocks_eq_countValid {l : List FrameSlot} (hsize : ∀ s ∈ l, s.SizeOk M)
    (hidle : ∀ s ∈ l, s.isIdle = true) {p q n x : ℕ} {seen : Bool}
    (hc : Compact (some q) seen l) (hq : q = p + n * M + x) (hx : x < M)
    (hseen : seen = false → x = 0) :
    sumBlocks (· / M) p q l = n + countValid l := by
  induction l generalizing p q n x seen with
  | nil => simpa [sumBlocks, countValid] using frames_of_length hq hx
  | cons s l ih =>
    obtain ⟨hs, hsize⟩ := forall_mem_cons.1 hsize
    obtain ⟨hidle', hidle⟩ := forall_mem_cons.1 hidle
    obtain ⟨hzero, hl⟩ := (compact_cons_idle hidle').1 hc
    rw [sumBlocks_cons]
    rcases isIdle_iff.1 hidle' with hfree | hres
    · have hM := hs.free hfree
      have hend : s.endPtr = s.ptr + M := by rw [← hM, FrameSlot.endPtr]
      by_cases hptr : s.ptr = q
      · rw [if_pos hptr, ih hsize hidle (n := n + 1) (x := x) hl ?_ hx ?_]
        · simp [hfree]
          omega
        · rw [hend, hptr, hq]
          ring
        · simpa [hptr, hfree] using hseen
      · rw [if_neg hptr, ih hsize hidle (n := 1) (x := 0) hl ?_ (by omega) ?_,
          frames_of_length hq hx]
        · simp [hfree]
          omega
        · rw [hend, one_mul, Nat.add_zero]
        · exact fun _ => rfl
    · have hlt := hs.reserved hres
      by_cases hptr : s.ptr = q
      · have hx' : x + s.size < M := by
          cases seen with
          | false => rw [hseen rfl]; omega
          | true => rw [hzero rfl (by rw [hptr]) hres]; omega
        rw [if_pos hptr, ih hsize hidle (n := n) (x := x + s.size) hl ?_ hx' ?_]
        · simp [hres]
        · rw [← Nat.add_assoc, ← hq, ← hptr, FrameSlot.endPtr]
        · simp [hres]
      · rw [if_neg hptr, ih hsize hidle (n := 0) (x := s.size) hl ?_ hlt ?_, frames_of_length hq hx]
        · simp [hres]
        · simp [FrameSlot.endPtr]
        · simp [hres]

/-- **The capacity of a table that is not in use** is the number of its free slots. -/
theorem capacity_eq_countValid {l : List FrameSlot} (hpos : 0 < M) (hsize : ∀ s ∈ l, s.SizeOk M)
    (hidle : ∀ s ∈ l, s.isIdle = true) (hc : Compact none false l) :
    capacity M l = countValid l := by
  have hc' : Compact (some 0) false l := hc.mono (by simp)
  rw [capacity, sumBlocks_eq_countValid hsize hidle hc' (n := 0) (x := 0) (by simp) hpos
    (fun _ => rfl), Nat.zero_add]

/-! ### Replacing a run -/

section

variable {prev : Option ℕ} {seen : Bool} {a l w w' b : List FrameSlot} {s : FrameSlot} {p q : ℕ}

theorem Compact.right (h : Compact prev seen (a ++ l)) : Compact none false l := by
  induction a generalizing prev seen with
  | nil => exact h.reset
  | cons s a ih =>
    cases hs : s.isIdle with
    | false => exact ih ((compact_cons_inUse hs).1 h)
    | true => exact ih ((compact_cons_idle hs).1 h).2

theorem Compact.append_inUse (h : Compact prev seen (a ++ w)) (hs : s.isIdle = false)
    (hl : Compact none false l) : Compact prev seen (a ++ s :: l) := by
  induction a generalizing prev seen with
  | nil => exact (compact_cons_inUse hs).2 hl
  | cons x a ih =>
    cases hx : x.isIdle with
    | false => exact (compact_cons_inUse hx).2 (ih ((compact_cons_inUse hx).1 h))
    | true =>
      obtain ⟨hzero, h⟩ := (compact_cons_idle hx).1 h
      exact (compact_cons_idle hx).2 ⟨hzero, ih h⟩

theorem Compact.append_run (hw : Compact (some p) seen w) (hrun : IdleRun w p q)
    (hbound : ∀ x ∈ b.head?, ¬ (x.isIdle = true ∧ x.ptr = q)) (hb : Compact none false b) :
    Compact (some p) seen (w ++ b) := by
  induction w generalizing p seen with
  | nil =>
    obtain rfl : p = q := hrun.tiles
    cases b with
    | nil => trivial
    | cons x b =>
      cases hx : x.isIdle with
      | false => exact (compact_cons_inUse hx).2 ((compact_cons_inUse hx).1 hb)
      | true =>
        have hne : p ≠ x.ptr := fun h => hbound x rfl ⟨hx, h.symm⟩
        refine (compact_cons_idle hx).2 ⟨fun _ h => absurd (some.inj h) hne, ?_⟩
        have hflag : (some p == some x.ptr) = false := by simp [hne]
        rw [hflag, Bool.and_false]
        exact ((compact_cons_idle hx).1 hb).2
  | cons s w ih =>
    obtain ⟨hs, -, hrun⟩ := idleRun_cons.1 hrun
    obtain ⟨hzero, hw⟩ := (compact_cons_idle hs).1 hw
    exact (compact_cons_idle hs).2 ⟨hzero, ih hw hrun⟩

/-- A maximal run of unused slots may be replaced by another compact run over the same memory. -/
theorem Compact.replace (h : Compact prev seen (a ++ (w ++ b))) (hw' : Compact none false w')
    (hrun' : IdleRun w' p q) (hne : w' ≠ []) (hprev : a = [] → prev ≠ some p)
    (hbefore : ∀ x ∈ a.getLast?, ¬ (x.isIdle = true ∧ x.endPtr = p))
    (hafter : ∀ x ∈ b.head?, ¬ (x.isIdle = true ∧ x.ptr = q)) :
    Compact prev seen (a ++ (w' ++ b)) := by
  induction a generalizing prev seen with
  | nil =>
    have hb : Compact none false b := Compact.right (a := w) h
    have hjoined : Compact (some p) false (w' ++ b) :=
      Compact.append_run (hw'.mono (by simp)) hrun' hafter hb
    obtain ⟨s, w', rfl⟩ := exists_cons_of_ne_nil hne
    obtain ⟨hs, rfl, -⟩ := idleRun_cons.1 hrun'
    -- The run is not joined to what has been scanned before it.
    have hflag : (prev == some s.ptr) = false := by simpa using hprev rfl
    refine (compact_cons_idle hs).2 ⟨fun _ hp => absurd hp (hprev rfl), ?_⟩
    rw [hflag, Bool.and_false]
    exact ((compact_cons_idle hs).1 hjoined).2
  | cons s a ih =>
    have hbefore' : ∀ x ∈ a.getLast?, ¬ (x.isIdle = true ∧ x.endPtr = p) := by
      intro x hx
      refine hbefore x ?_
      rw [getLast?_cons, mem_def.1 hx]
      rfl
    cases hs : s.isIdle with
    | false =>
      refine (compact_cons_inUse hs).2 (ih ((compact_cons_inUse hs).1 h) (by simp) hbefore')
    | true =>
      obtain ⟨hzero, hl⟩ := (compact_cons_idle hs).1 h
      refine (compact_cons_idle hs).2 ⟨hzero, ih hl (fun ha hp => ?_) hbefore'⟩
      subst ha
      exact hbefore s rfl ⟨hs, some.inj hp⟩

/-- The memory of a run cut into frames has one reserved slot with bytes, the first one. -/
theorem reallocate_compact (hpos : 0 < M) (r : List FrameSlot) (h : seen = true → p = q) :
    Compact prev seen (reallocate M q p r).1 := by
  induction r generalizing prev seen p with
  | nil => trivial
  | cons s r ih =>
    by_cases hfits : p + M ≤ q
    · have hseen : seen = false := by
        cases seen with
        | false => rfl
        | true => exact absurd (h rfl) (by omega)
      simp only [reallocate, if_pos hfits, hseen]
      refine (compact_cons_idle rfl).2 ⟨by simp, ih ?_⟩
      simp
    · simp only [reallocate, if_neg hfits]
      refine (compact_cons_idle rfl).2 ⟨fun hseen _ _ => ?_, ih fun _ => rfl⟩
      simp [h hseen]

/-- Moving the run after a shrunk slot up to it fills its reserved slots from the first one on. -/
theorem shrinkFrom_compact (hM : 512 ∣ M) (hpos : 0 < M) {rest : List FrameSlot}
    (hrest : ∀ t ∈ rest, t.SizeOk M) (hdr : ℕ → MlvHdr) {n : ℕ} (hn : paddedSize n ≤ s.size)
    (hroom : s.size - paddedSize n ≤ spareAfter M s.endPtr rest)
    (h : Compact (some s.endPtr) false rest) :
    ∃ rest', (shrinkFrom M hdr s n rest).slots = s.resized n :: rest' ∧
      Compact (some (s.resized n).endPtr) false rest' := by
  fun_induction shrinkFrom M hdr s n rest with
  | case1 hdr s n hdif => exact ⟨[], by rw [resized, if_pos hdif], trivial⟩
  | case2 hdr s n hdif => exact absurd (Nat.le_zero.1 hroom) hdif
  | case3 hdr s n t rest _ hdif =>
    rw [resized, if_pos hdif]
    exact ⟨t :: rest, rfl, h⟩
  | case4 hdr s n t rest dif hdif hdr' hlink hbig r ih =>
    obtain ⟨hidle, hptr⟩ : t.isIdle = true ∧ t.ptr = s.endPtr := by simpa using hlink
    obtain ⟨ht, hrest⟩ := forall_mem_cons.1 hrest
    rw [spareAfter, if_pos hlink] at hroom
    have hpad := paddedSize_max hM hpos
    set t' : FrameSlot := { t.grown dif with status := .free } with ht'
    have hsize : t'.size = t.size + (s.size - paddedSize n) := rfl
    have hle := ht.le
    have hend : t'.endPtr = t.endPtr := grown_endPtr (n := n) hptr
    obtain ⟨rest', hslots, hc⟩ := ih hrest (by rw [hpad]; exact hbig)
      (by rw [hend]; omega) (by rw [hend]; exact ((compact_cons_idle hidle).1 h).2.mono (by simp))
    have hfree : (t'.resized (M - vidfHdrSize - 4)).status = .free := by
      rw [resized_status]
    refine ⟨t'.resized (M - vidfHdrSize - 4) :: rest', ?_, ?_⟩
    · rw [resized, if_neg hdif]
      exact congrArg (s.shrunk n :: ·) hslots
    · refine (compact_cons_idle (by simp [FrameSlot.isIdle, hfree])).2 ⟨by simp, ?_⟩
      exact hc.mono (by simp [hfree])
  | case5 hdr s n t rest dif hdif hdr' hlink hbig =>
    obtain ⟨hidle, hptr⟩ : t.isIdle = true ∧ t.ptr = s.endPtr := by simpa using hlink
    have hres : t.status = .reserved :=
      (hrest t mem_cons_self).reserved_of_grown hidle (Nat.lt_of_not_le hbig)
    refine ⟨t.grown dif :: rest, by rw [resized, if_neg hdif], ?_⟩
    have hidle' : (t.grown dif).isIdle = true := hidle
    refine (compact_cons_idle hidle').2 ⟨by simp, ?_⟩
    rw [grown_endPtr hptr]
    exact ((compact_cons_idle hidle).1 h).2.mono (by simp [hres])
  | case6 hdr s n t rest dif hdif hdr' hlink =>
    rw [spareAfter, if_neg hlink] at hroom
    exact absurd (Nat.le_zero.1 hroom) hdif

/-- A frame that is complete has been compressed. -/
def FrameSlot.Small (M : ℕ) (s : FrameSlot) : Prop :=
  s.status = .full ∨ s.status = .writing → s.size < M

theorem FrameSlot.small_of_isIdle {s : FrameSlot} (h : s.isIdle = true) : s.Small M := by
  rcases isIdle_iff.1 h with h | h <;> simp [Small, h]

/-- A change of the table loses no byte that is not in use, and leaves only compressed frames. -/
structure KeepsBytes (M : ℕ) (t t' : SlotTable) : Prop where
  compact : Compact none false t.slots → Compact none false t'.slots
  capacity : capacity M t'.slots = capacity M t.slots
  small : (∀ s ∈ t.slots, s.Small M) → ∀ s ∈ t'.slots, s.Small M

theorem KeepsBytes.setHdr {t' : SlotTable} (h : KeepsBytes M t t') (i : ℕ) (hdr : MlvHdr) :
    KeepsBytes M t (t'.setHdr i hdr) := by
  constructor
  · simpa using h.compact
  · simpa using h.capacity
  · simpa using h.small

theorem keepsBytes_modify (hx : t.slots[i]? = some x) (hptr : (f x).ptr = x.ptr)
    (hsize : (f x).size = x.size) (hbusy : (f x).isIdle = false) (hsmall : (f x).Small M) :
    KeepsBytes M t (t.modify i f) := by
  obtain ⟨a, b, hslots, -, hmodify⟩ := SlotTable.modify_split (f := f) hx
  rw [← singleton_append] at hslots hmodify
  refine ⟨fun hc => ?_, ?_, fun h => ?_⟩
  · rw [hslots] at hc
    rw [hmodify]
    exact hc.append_inUse hbusy hc.right.right
  · have htiles : Tiles [x] x.ptr x.endPtr := ⟨rfl, rfl⟩
    have htiles' : Tiles [f x] x.ptr x.endPtr := by
      refine ⟨hptr, ?_⟩
      simp only [Tiles, finish, Extent.start, Extent.size, hptr, hsize, FrameSlot.endPtr]
    rw [hslots, hmodify]
    exact sumBlocks_replace htiles htiles' (by simp) (by simp)
  · rw [hslots, forall_mem_append, forall_mem_append] at h
    rw [hmodify, forall_mem_append, forall_mem_append, forall_mem_singleton]
    exact ⟨h.1, hsmall, h.2.2⟩

/-- The bytes that a shrunk slot frees are kept when the slots after it have room for them. -/
theorem keepsBytes_shrinkSlot (hM : 512 ∣ M) (hpos : 0 < M) (hx : t.slots[i]? = some x)
    (ht : ∀ s ∈ t.slots, s.SizeOk M) (hcap : x.status = .capturing) {n : ℕ}
    (hn : paddedSize n ≤ x.size)
    (hroom : x.size - paddedSize n ≤ spareAfter M x.endPtr (t.slots.drop (i + 1))) :
    KeepsBytes M t (shrinkSlot M t i n) := by
  obtain ⟨a, r, r', b, q, q', k, hslots, hlen, hslots', -, hmoved, hq⟩ :=
    shrinkSlot_spec hM hpos hx ht hn
  have hdrop : t.slots.drop i = x :: (r ++ b) := by
    rw [hslots, ← hlen, drop_left, cons_append]
  have hrest : t.slots.drop (i + 1) = r ++ b := by
    rw [← drop_drop, hdrop, drop_one, tail_cons]
  rw [hrest] at hroom
  obtain rfl := hq hroom
  have hcap' : (x.resized n).status = .capturing := (x.resized_status n).trans hcap
  refine ⟨fun hc => ?_, ?_, fun h => ?_⟩
  · rw [hslots] at hc ht
    have hafter : Compact (some x.endPtr) false (r ++ b) :=
      (Compact.right (a := a ++ [x]) (by simpa using hc)).mono (by simp)
    obtain ⟨rest', hshrunk, hc'⟩ := shrinkFrom_compact hM hpos
      (fun s hs => ht s (by simp [mem_append.1 hs])) t.hdr hn hroom hafter
    have htake : t.slots.take i = a := by rw [hslots, ← hlen, take_left]
    have hresult : (shrinkSlot M t i n).slots = a ++ x.resized n :: rest' := by
      simp only [shrinkSlot, hdrop, hshrunk, htake]
    rw [hresult]
    exact hc.append_inUse (by simp [isIdle, hcap']) hc'.reset
  · rw [hslots, hslots']
    exact sumBlocks_replace ⟨rfl, hmoved.before.tiles⟩
      ⟨x.resized_ptr n, hmoved.after.tiles⟩ (by simp) (by simp)
  · rw [hslots, forall_mem_append, forall_mem_append] at h
    rw [hslots', forall_mem_append, forall_mem_append, forall_mem_cons]
    refine ⟨h.1, ⟨?_, fun s hs => ?_⟩, h.2.2⟩
    · simp [FrameSlot.Small, hcap']
    · exact small_of_isIdle (hmoved.after.idle s hs)

/-- Freeing a shrunk slot keeps all bytes. -/
theorem keepsBytes_freeSlot (hpos : 0 < M) (hx : t.slots[i]? = some x)
    (ht : ∀ s ∈ t.slots, s.SizeOk M) (hsize : x.size < M) : KeepsBytes M t (freeSlot M t i) := by
  obtain ⟨a, r₁, r₂, b, p, q, hslots, -, hrun, hbefore, hafter, hfree⟩ := freeSlot_spec hx hsize.ne
  obtain ⟨⟨q', hrun', -, hall⟩, -, -⟩ := reallocate_spec (M := M) _ hrun.tiles.le hrun.idle
  set r := r₁ ++ { x with status := .reserved } :: r₂ with hr
  have hle : ∀ s ∈ r, s.size ≤ M := by
    intro s hs
    rw [hslots] at ht
    rw [mem_append, mem_cons] at hs
    rcases hs with hs | rfl | hs
    · exact (ht s (by simp [hs])).le
    · exact hsize.le
    · exact (ht s (by simp [hs])).le
  obtain rfl := hall (hrun.tiles.le_mul_length hle)
  have hne : (reallocate M q' p r).1 ≠ [] := by
    rw [← length_pos_iff, hr]
    simp
  rw [hfree]
  refine ⟨fun hc => ?_, ?_, fun h => ?_⟩
  · rw [hslots] at hc
    exact hc.replace (reallocate_compact hpos r (by simp)) hrun' hne (by simp) hbefore hafter
  · have htiles : Tiles (r₁ ++ x :: r₂) p q' := by
      obtain ⟨u, h₁, h₂⟩ := tiles_append.1 hrun.tiles
      exact tiles_append.2 ⟨u, h₁, h₂⟩
    rw [hslots]
    exact sumBlocks_replace htiles hrun'.tiles (by simp) hne
  · rw [hslots, forall_mem_append, forall_mem_append] at h
    rw [forall_mem_append, forall_mem_append]
    exact ⟨h.1, fun s hs => small_of_isIdle (hrun'.idle s hs), h.2.2⟩

end

/-! ### Recording in compressed mode -/

/-- The operations of a recording in compressed mode: captures, compressions and writes. -/
def SlotOp.isCompressedMode : SlotOp → Bool
  | .capture .. | .forceNewBuffer | .compress _ | .compressDone | .startWriting _ | .freeSlot _ =>
    true
  | _ => false

/-- A compression of the next frame to `size` bytes frees at least one sector, and the unused slots
right after the slot of the frame have room for what it frees. -/
def SlotOp.HasRoom (M : ℕ) (b : Buffers) : SlotOp → Prop
  | .compress size => ∀ k ∈ b.compressMq.head?, ∀ s ∈ b.table.slots[k]?,
      paddedSize (cutSize M size) < s.size ∧
        s.size - paddedSize (cutSize M size) ≤ spareAfter M s.endPtr (b.table.slots.drop (k + 1))
  | _ => True

instance (M : ℕ) (b : Buffers) (op : SlotOp) : Decidable (op.HasRoom M b) := by
  cases op <;> (dsimp only [SlotOp.HasRoom]; infer_instance)

/-- Every compression of a run has room. -/
abbrev KeepsRoom (M : ℕ) : Buffers → List SlotOp → Prop :=
  Runs.Meets (fun b op => op.step M b) fun b op => op.HasRoom M b

/-- No byte has been lost so far: the table has room for `n` frames. -/
structure CapacityInv (M : ℕ) (mem : Set ℕ) (n : ℕ) (b : Buffers) : Prop extends b.Inv M mem where
  compact : Compact none false b.table.slots
  capacity : capacity M b.table.slots = n
  small : ∀ s ∈ b.table.slots, s.Small M
  /-- The compression task has shrunk the slot that it is working on. -/
  shrunk : ∀ k ∈ b.compressing, ∀ s ∈ b.table.slots[k]?, s.size < M

section

variable {mem : Set ℕ} {n : ℕ} {b b' : Buffers} {op : SlotOp}

theorem KeepsSlotsInUse.size_eq (h : KeepsSlotsInUse M b op b') {k : ℕ} {s s' : FrameSlot}
    (hs : b.table.slots[k]? = some s) (hbusy : s.isIdle = false)
    (hs' : b'.table.slots[k]? = some s') (hfree : op ≠ .freeSlot k)
    (hrelease : ∀ hdr, op ≠ .releaseSlot k false hdr) (hcompress : ∀ size, op ≠ .compress size) :
    s'.size = s.size := by
  rcases h k s hs hbusy with hop | ⟨hdr, hop⟩ | ⟨s'', hs'', -, -, hsize⟩
  · exact absurd hop hfree
  · exact absurd hop (hrelease hdr)
  · obtain rfl : s'' = s' := some.inj (hs''.symm.trans hs')
    rcases hsize with hsize | ⟨size, hop, -⟩
    · exact hsize
    · exact absurd hop (hcompress size)

theorem CapacityInv.of_keepsBytes (h : CapacityInv M mem n b) (hM : 512 ∣ M) (hpos : 0 < M)
    (hstep : op.step M b = some b') (hkeeps : KeepsBytes M b.table b'.table)
    (hsame : b'.compressing = b.compressing) (hfree : ∀ k ∈ b.compressing, op ≠ .freeSlot k)
    (hrelease : ∀ k hdr, op ≠ .releaseSlot k false hdr)
    (hcompress : ∀ size, op ≠ .compress size) : CapacityInv M mem n b' := by
  obtain ⟨hinv, hin⟩ := op.step_inv hM hpos h.toInv hstep
  refine ⟨hinv, hkeeps.compact h.compact, hkeeps.capacity.trans h.capacity, hkeeps.small h.small,
    fun k hk s' hs' => ?_⟩
  rw [hsame] at hk
  obtain ⟨s, hs, hcap⟩ := h.working k hk
  rw [hin.size_eq hs (by simp [isIdle, hcap]) hs' (hfree k hk)
    (hrelease k) hcompress]
  exact h.shrunk k hk s hs

theorem KeepsBytes.refl (t : SlotTable) : KeepsBytes M t t := ⟨id, rfl, id⟩

section

variable (h : CapacityInv M mem n b)
include h

section

variable (hM : 512 ∣ M) (hpos : 0 < M)

include hM hpos

theorem CapacityInv.capture {frameNumber : ℤ} {hdr : MlvHdr}
    (hstep : (SlotOp.capture frameNumber hdr).step M b = some b') : CapacityInv M mem n b' := by
  have hb' := hstep
  simp only [SlotOp.step] at hb'
  cases hc : chooseNextCaptureSlot b.table.slots b.captureSlot b.forceNewBuffer with
  | none =>
    simp only [hc, some.injEq] at hb'
    subst hb'
    exact h.of_keepsBytes hM hpos hstep (.refl _) rfl (by simp) (by simp) (by simp)
  | some c =>
    obtain ⟨x, hx, -⟩ := chooseNextCaptureSlot_isFree hc
    simp only [hc, some.injEq] at hb'
    subst hb'
    refine h.of_keepsBytes hM hpos hstep ?_ rfl (by simp) (by simp) (by simp)
    exact (keepsBytes_modify hx rfl rfl rfl (by simp [FrameSlot.Small])).setHdr c hdr

theorem CapacityInv.compress {size : ℕ}
    (hroom : (SlotOp.compress size).HasRoom M b)
    (hstep : (SlotOp.compress size).step M b = some b') :
    CapacityInv M mem n b' := by
  have hinv := ((SlotOp.compress size).step_inv hM hpos h.toInv hstep).1
  obtain ⟨k, mq, hnone, hmq, rfl⟩ := SlotOp.step_compress_eq_some hstep
  obtain ⟨table, captureSlot, force, _, _⟩ := b
  subst hnone hmq
  obtain ⟨x, hx, hcap, -⟩ := h.waiting k mem_cons_self
  obtain ⟨hless, hspare⟩ := hroom k rfl x hx
  have hkeeps := keepsBytes_shrinkSlot hM hpos hx h.safe.sizeOk hcap hless.le hspare
  refine ⟨hinv, hkeeps.compact h.compact, hkeeps.capacity.trans h.capacity, hkeeps.small h.small,
    ?_⟩
  rintro j ⟨⟩ s hs
  obtain rfl : x.resized (cutSize M size) = s :=
    some.inj ((shrinkSlot_self hM hpos hx h.safe.sizeOk hless.le).symm.trans hs)
  rw [resized_size hless.le]
  exact hless.trans_le (h.safe.sizeOk x (mem_of_getElem? hx)).le

theorem CapacityInv.compressDone
    (hstep : SlotOp.compressDone.step M b = some b') : CapacityInv M mem n b' := by
  have hinv := (SlotOp.compressDone.step_inv hM hpos h.toInv hstep).1
  simp only [SlotOp.step, map_eq_some_iff] at hstep
  obtain ⟨k, hk, rfl⟩ := hstep
  obtain ⟨x, hx, -⟩ := h.working k hk
  have hkeeps : KeepsBytes M b.table (b.table.modify k fun s => { s with status := .full }) :=
    keepsBytes_modify hx rfl rfl rfl fun _ => h.shrunk k hk x hx
  exact ⟨hinv, hkeeps.compact h.compact, hkeeps.capacity.trans h.capacity, hkeeps.small h.small,
    by simp⟩

theorem CapacityInv.startWriting {i : ℕ}
    (hstep : (SlotOp.startWriting i).step M b = some b') : CapacityInv M mem n b' := by
  have hb' := hstep
  simp only [SlotOp.step] at hb'
  split_ifs at hb' with hfull
  obtain ⟨x, hx, hstatus⟩ := Buffers.exists_of_statusAt hfull
  cases hb'
  refine h.of_keepsBytes hM hpos hstep ?_ rfl (by simp) (by simp) (by simp)
  exact keepsBytes_modify hx rfl rfl rfl fun _ => h.small x (mem_of_getElem? hx) (.inl hstatus)

theorem CapacityInv.freeSlot {i : ℕ}
    (hstep : (SlotOp.freeSlot i).step M b = some b') : CapacityInv M mem n b' := by
  have hb' := hstep
  simp only [SlotOp.step] at hb'
  split_ifs at hb' with hstatus
  cases hb'
  obtain ⟨x, hx, hwritten⟩ : ∃ x, b.table.slots[i]? = some x ∧
      (x.status = .full ∨ x.status = .writing) := by
    rcases hstatus with hstatus | hstatus
    · obtain ⟨x, hx, hst⟩ := Buffers.exists_of_statusAt hstatus
      exact ⟨x, hx, .inl hst⟩
    · obtain ⟨x, hx, hst⟩ := Buffers.exists_of_statusAt hstatus
      exact ⟨x, hx, .inr hst⟩
  have hsmall := h.small x (mem_of_getElem? hx) hwritten
  refine h.of_keepsBytes hM hpos hstep (keepsBytes_freeSlot hpos hx h.safe.sizeOk hsmall) rfl
    (fun k hk heq => ?_) (by simp) (by simp)
  obtain rfl : i = k := by simpa using heq
  obtain ⟨s, hs, hcap⟩ := h.working i hk
  obtain rfl : x = s := some.inj (hx.symm.trans hs)
  simp [hcap] at hwritten

/-- **One operation of a recording in compressed mode** keeps the capacity, unless it is a
compression without room. -/
theorem CapacityInv.step (hmode : op.isCompressedMode = true)
    (hroom : op.HasRoom M b) (hstep : op.step M b = some b') : CapacityInv M mem n b' := by
  cases op with
  | capture => exact h.capture hM hpos hstep
  | forceNewBuffer =>
    obtain rfl := some.inj hstep
    exact h.of_keepsBytes hM hpos hstep (.refl _) rfl (by simp) (by simp) (by simp)
  | compress size => exact h.compress hM hpos hroom hstep
  | compressDone => exact h.compressDone hM hpos hstep
  | startWriting => exact h.startWriting hM hpos hstep
  | freeSlot => exact h.freeSlot hM hpos hstep
  | getFreeSlot | releaseSlot | copy | relabel => simp [SlotOp.isCompressedMode] at hmode

theorem CapacityInv.run {ops : List SlotOp}
    (hmode : ∀ op ∈ ops, op.isCompressedMode = true) (hroom : KeepsRoom M b ops)
    (hrun : b.run M ops = some b') : CapacityInv M mem n b' :=
  Runs.invariant_of_meets (fun _ _ _ h hop hstep => h.step hM hpos hop.2 hop.1 hstep)
    (hroom.and (.of_forall_mem hmode)) hrun h

end

/-- The capacity that is left is known from the slots when none is in use. -/
theorem CapacityInv.validSlotCount (hpos : 0 < M) (hidle : ∀ s ∈ b.table.slots, s.isIdle = true) :
    b.table.validSlotCount = n := by
  rw [h.safe.valid, ← capacity_eq_countValid hpos h.safe.sizeOk hidle h.compact, h.capacity]

end

end

theorem Buffers.start_capacityInv {L : Layout} (hpos : 0 < L.maxFrameSize)
    {shoot srm : List MemChunk} (hsep : Separate (shoot ++ srm)) (hdr : ℕ → MlvHdr) :
    CapacityInv L.maxFrameSize (covered (shoot ++ srm))
      (capacity L.maxFrameSize (setupBuffers L shoot srm hdr).slots)
      (Buffers.start L shoot srm hdr) := by
  have hfresh := (setupBuffers_layoutOk hpos hsep hdr).fresh
  refine ⟨Buffers.start_inv hpos hsep hdr, ?_, rfl, fun s hs => ?_, by simp [start]⟩
  · exact compact_of_empty (fun s hs => (hfresh s hs).2) none false
  · exact small_of_isIdle (hfresh s hs).1

/-- **No buffer capacity is lost** in a recording in compressed mode in which every compression
has room for the bytes that it frees: whenever no slot is in use, `valid_slot_count` is the number
of slots that `setup_buffers` made. -/
theorem run_validSlotCount (L : Layout) (hM : 512 ∣ L.maxFrameSize) (hpos : 0 < L.maxFrameSize)
    (shoot srm : List MemChunk) (hsep : Separate (shoot ++ srm)) (hdr : ℕ → MlvHdr)
    (ops : List SlotOp) (hmode : ∀ op ∈ ops, op.isCompressedMode = true)
    (hroom : KeepsRoom L.maxFrameSize (Buffers.start L shoot srm hdr) ops) (b : Buffers)
    (hrun : (Buffers.start L shoot srm hdr).run L.maxFrameSize ops = some b)
    (hidle : ∀ s ∈ b.table.slots, s.isIdle = true) :
    b.table.validSlotCount = (setupBuffers L shoot srm hdr).validSlotCount := by
  have hstart := Buffers.start_capacityInv hpos hsep hdr
  have hend := hstart.run hM hpos hmode hroom hrun
  have hfresh := (setupBuffers_layoutOk hpos hsep hdr).fresh
  rw [hend.validSlotCount hpos hidle]
  exact (hstart.validSlotCount hpos fun s hs => (hfresh s hs).1).symm

/-- Two frames are captured, compressed and saved one after the other. -/
theorem run_validSlotCount_twoFrames :
    let L : Layout := ⟨4096, true, 5000, 0, 0, fun _ => default⟩
    let chunk : MemChunk := ⟨0x1000, 8300⟩
    let ops : List SlotOp := [.capture 1 default, .compress 1000, .compressDone, .startWriting 0,
      .capture 2 default, .compress 2000, .compressDone, .freeSlot 0, .freeSlot 1]
    ∃ b, (Buffers.start L [chunk] [] fun _ => default).run 4096 ops = some b ∧
      b.table.validSlotCount = (setupBuffers L [chunk] [] fun _ => default).validSlotCount := by
  intro L chunk ops
  have hall : ((Buffers.start L [chunk] [] fun _ => default).run 4096 ops).map
      (·.table.slots.all (·.isIdle)) = some true := by
    decide
  obtain ⟨b, hrun, hidle⟩ := map_eq_some_iff.1 hall
  exact ⟨b, hrun, run_validSlotCount L (by decide) (by decide) [chunk] []
    (pairwise_singleton _ _) _ ops (by decide) (by decide) b hrun (all_eq_true.1 hidle)⟩

/-- The second frame is captured before the first one is compressed: the bytes after the first
frame go to no slot, and of the two slots of the layout one is left when both have been saved. -/
theorem run_loses_slot :
    let L : Layout := ⟨4096, true, 5000, 0, 0, fun _ => default⟩
    let chunk : MemChunk := ⟨0x1000, 8300⟩
    let ops : List SlotOp := [.capture 1 default, .capture 2 default, .compress 1000, .compressDone,
      .compress 1000, .compressDone, .startWriting 0, .startWriting 1, .freeSlot 0, .freeSlot 1]
    ∃ b, (Buffers.start L [chunk] [] fun _ => default).run 4096 ops = some b ∧
      (∀ op ∈ ops, op.isCompressedMode = true) ∧ (∀ s ∈ b.table.slots, s.isIdle = true) ∧
      b.table.validSlotCount = 1 ∧
      (setupBuffers L [chunk] [] fun _ => default).validSlotCount = 2 := by
  intro L chunk ops
  have hall : ((Buffers.start L [chunk] [] fun _ => default).run 4096 ops).map
      (fun b => (b.table.slots.all (·.isIdle), b.table.validSlotCount)) = some (true, 1) := by
    decide
  obtain ⟨b, hrun, hb⟩ := map_eq_some_iff.1 hall
  obtain ⟨hidle, hcount⟩ := Prod.mk.inj hb
  exact ⟨b, hrun, by decide, all_eq_true.1 hidle, hcount, by decide⟩

end MagicLantern.MlvLite

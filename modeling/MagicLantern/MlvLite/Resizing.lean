import MagicLantern.MlvLite.Slots

/-!
# Resizing slots

What `shrink_slot` and `free_slot` do to the table. Both replace a run of unused slots that follow
each other in memory by another run with as many slots: shrinking moves the run after the slot up
to its new end, and freeing cuts the longest run around the slot into full frames, a rest and
empty slots. Slots in use are left where they are.

Source: `src/modules/raw_video/mlv_lite/mlv_lite.c`.
-/

namespace MagicLantern.MlvLite

open List FrameSlot

/-! ### Idle runs -/

theorem FrameSlot.isIdle_iff {s : FrameSlot} :
    s.isIdle = true ↔ s.status = .free ∨ s.status = .reserved := by
  simp [isIdle]

/-- The number of slots that are not reserved. -/
def countValid (l : List FrameSlot) : ℕ := l.countP (·.status != .reserved)

@[simp] theorem countValid_cons (s : FrameSlot) (l : List FrameSlot) :
    countValid (s :: l) = countValid l + if s.status = .reserved then 0 else 1 := by
  by_cases h : s.status = .reserved <;> simp [countValid, h]

@[simp] theorem countValid_append (l l' : List FrameSlot) :
    countValid (l ++ l') = countValid l + countValid l' :=
  countP_append

/-- The sizes that go with the states of a slot. -/
structure FrameSlot.SizeOk (M : ℕ) (s : FrameSlot) : Prop where
  le : s.size ≤ M
  free : s.status = .free → s.size = M
  locked : s.status = .locked → s.size = M
  reserved : s.status = .reserved → s.size < M

/-- A list of unused slots that follow each other in memory from `p` to `q`. -/
structure IdleRun (l : List FrameSlot) (p q : ℕ) : Prop where
  idle : ∀ s ∈ l, s.isIdle = true
  tiles : Tiling.Tiles l p q

theorem idleRun_nil (p : ℕ) : IdleRun [] p p := ⟨by simp, rfl⟩

variable {l w : List FrameSlot} {p q : ℕ}

theorem idleRun_cons {s : FrameSlot} :
    IdleRun (s :: l) p q ↔ s.isIdle = true ∧ s.ptr = p ∧ IdleRun l s.endPtr q := by
  constructor
  · rintro ⟨hidle, hs, hl⟩
    exact ⟨hidle s mem_cons_self, hs, fun t ht => hidle t (mem_cons_of_mem s ht), hl⟩
  · rintro ⟨hidle, hs, hl⟩
    exact ⟨forall_mem_cons.2 ⟨hidle, hl.idle⟩, hs, hl.tiles⟩

theorem idleRun_append {l' : List FrameSlot} :
    IdleRun (l ++ l') p q ↔ ∃ r, IdleRun l p r ∧ IdleRun l' r q := by
  induction l generalizing p with
  | nil =>
    constructor
    · exact fun h => ⟨p, idleRun_nil p, h⟩
    · rintro ⟨r, h, h'⟩
      obtain rfl : p = r := h.tiles
      exact h'
  | cons s l ih => simp only [cons_append, idleRun_cons]; grind

theorem IdleRun.ptr_head (h : IdleRun w p q) {x : FrameSlot} (hx : w.head? = some x) :
    x.ptr = p := by
  cases w with
  | nil => simp at hx
  | cons s w =>
    obtain rfl : s = x := by simpa using hx
    exact (idleRun_cons.1 h).2.1

theorem IdleRun.endPtr_last (h : IdleRun w p q) {x : FrameSlot} (hx : w.getLast? = some x) :
    x.endPtr = q := by
  obtain ⟨w', rfl⟩ := getLast?_eq_some_iff.1 hx
  obtain ⟨r, -, hlast⟩ := idleRun_append.1 h
  exact (idleRun_cons.1 hlast).2.2.tiles

/-! ### Shrinking -/

variable {M e p' : ℕ} {rest a b : List FrameSlot} {hdr : ℕ → MlvHdr}

theorem paddedSize_max (hM : 512 ∣ M) (hpos : 0 < M) : paddedSize (M - vidfHdrSize - 4) = M := by
  simp only [paddedSize, vidfHdrSize]
  omega

/-- The room for more bytes in the unused slots that follow in memory from the address `e` on. -/
def spareAfter (M : ℕ) : ℕ → List FrameSlot → ℕ
  | _, [] => 0
  | e, t :: l => if t.isIdle && t.ptr == e then (M - t.size) + spareAfter M t.endPtr l else 0

/-- The slot after a call of `shrink_slot` for a frame of `n` bytes. -/
def FrameSlot.resized (s : FrameSlot) (n : ℕ) : FrameSlot :=
  if s.size - paddedSize n = 0 then s else s.shrunk n

theorem FrameSlot.resized_ptr (s : FrameSlot) (n : ℕ) : (s.resized n).ptr = s.ptr := by
  rw [resized]
  split_ifs <;> rfl

theorem FrameSlot.resized_status (s : FrameSlot) (n : ℕ) : (s.resized n).status = s.status := by
  rw [resized]
  split_ifs <;> rfl

theorem FrameSlot.resized_size {s : FrameSlot} {n : ℕ} (h : paddedSize n ≤ s.size) :
    (s.resized n).size = paddedSize n := by
  rw [resized]
  split_ifs with hdif
  · omega
  · rfl

theorem FrameSlot.resized_endPtr_le {s : FrameSlot} {n : ℕ} (h : paddedSize n ≤ s.size) :
    (s.resized n).endPtr ≤ s.endPtr := by
  rw [endPtr, endPtr, s.resized_ptr, resized_size h]
  omega

theorem FrameSlot.SizeOk.of_free {s : FrameSlot} (hs : s.status = .free) (hsize : s.size = M) :
    s.SizeOk M :=
  ⟨hsize.le, fun _ => hsize, by simp [hs], by simp [hs]⟩

/-- A run `r` of unused slots has been moved up from the address `p` to `p'`: the slots of `r'` have
sizes that go with their states, and `available` more of them are not reserved. -/
structure MovedUp (M : ℕ) (r r' : List FrameSlot) (p p' q q' available : ℕ) : Prop where
  before : IdleRun r p q
  after : IdleRun r' p' q'
  le : q' ≤ q
  sizeOk : ∀ t ∈ r', t.SizeOk M
  length : r'.length = r.length
  valid : countValid r' = countValid r + available

theorem MovedUp.nil (h : p' ≤ p) : MovedUp M [] [] p p' p p' 0 :=
  ⟨idleRun_nil p, idleRun_nil p', h, by simp, rfl, rfl⟩

theorem MovedUp.cons {t t' : FrameSlot} {r r' : List FrameSlot} {q' available k : ℕ}
    (h : MovedUp M r r' t.endPtr t'.endPtr q q' available) (hp : t.ptr = p) (hp' : t'.ptr = p')
    (ht : t.isIdle = true) (ht' : t'.status = .free) (hsize : t'.size = M)
    (hk : k = if t.status = .reserved then 1 else 0) :
    MovedUp M (t :: r) (t' :: r') p p' q q' (available + k) where
  before := idleRun_cons.2 ⟨ht, hp, h.before⟩
  after := idleRun_cons.2 ⟨by simp [FrameSlot.isIdle, ht'], hp', h.after⟩
  le := h.le
  sizeOk := forall_mem_cons.2 ⟨.of_free ht' hsize, h.sizeOk⟩
  length := by simp [h.length]
  valid := by
    have hfree : ¬ t'.status = .reserved := by simp [ht']
    rw [countValid_cons, countValid_cons, h.valid, hk]
    split_ifs <;> omega

theorem FrameSlot.grown_endPtr {s t : FrameSlot} {n : ℕ} (hptr : t.ptr = s.endPtr) :
    (t.grown (s.size - paddedSize n)).endPtr = t.endPtr := by
  simp only [grown, endPtr] at hptr ⊢
  omega

theorem FrameSlot.grown_ptr {s t : FrameSlot} {n : ℕ} (hptr : t.ptr = s.endPtr)
    (hn : paddedSize n ≤ s.size) :
    (t.grown (s.size - paddedSize n)).ptr = (s.resized n).endPtr := by
  rw [endPtr, s.resized_ptr, resized_size hn]
  simp only [grown, endPtr] at hptr ⊢
  omega

/-- A slot that is still too small for a frame is reserved, as it was. -/
theorem FrameSlot.SizeOk.reserved_of_grown {t : FrameSlot} {dif : ℕ} (h : t.SizeOk M)
    (hidle : t.isIdle = true) (hsmall : (t.grown dif).size < M) :
    (t.grown dif).status = .reserved :=
  (isIdle_iff.1 hidle).resolve_left fun hfree =>
    Nat.not_lt.2 ((h.free hfree).ge.trans (Nat.le_add_right ..)) hsmall

/-- The unused slots right after a shrunk slot are moved up to it, and nothing else changes. No
byte gets lost when they have room for the bytes that are freed. -/
theorem shrinkFrom_spec (hM : 512 ∣ M) (hpos : 0 < M) (rest : List FrameSlot)
    (hrest : ∀ t ∈ rest, t.SizeOk M) (hdr : ℕ → MlvHdr) (s : FrameSlot) (n : ℕ)
    (hn : paddedSize n ≤ s.size) :
    ∃ r r' b q q', rest = r ++ b ∧
      (shrinkFrom M hdr s n rest).slots = s.resized n :: (r' ++ b) ∧
      MovedUp M r r' s.endPtr (s.resized n).endPtr q q' (shrinkFrom M hdr s n rest).available ∧
      (s.size - paddedSize n ≤ spareAfter M s.endPtr rest → q' = q) := by
  -- No slot is moved if no sector is freed, or if no unused slot follows.
  have hstop {s : FrameSlot} {n : ℕ} {rest slots : List FrameSlot} (hn : paddedSize n ≤ s.size)
      (hslots : slots = s.resized n :: rest)
      (hroom : s.size - paddedSize n ≤ spareAfter M s.endPtr rest → s.size - paddedSize n = 0) :
      ∃ r r' b q q', rest = r ++ b ∧ slots = s.resized n :: (r' ++ b) ∧
        MovedUp M r r' s.endPtr (s.resized n).endPtr q q' 0 ∧
        (s.size - paddedSize n ≤ spareAfter M s.endPtr rest → q' = q) := by
    refine ⟨[], [], rest, s.endPtr, _, rfl, hslots, .nil (resized_endPtr_le hn), fun h => ?_⟩
    rw [resized, if_pos (hroom h)]
  fun_induction shrinkFrom M hdr s n rest with
  | case1 hdr s n hdif => exact hstop hn (by rw [resized, if_pos hdif]) fun _ => hdif
  | case2 hdr s n hdif => exact hstop hn (by rw [resized, if_neg hdif]) Nat.le_zero.1
  | case3 hdr s n t rest _ hdif => exact hstop hn (by rw [resized, if_pos hdif]) fun _ => hdif
  | case4 hdr s n t rest dif hdif hdr' hlink hbig r ih =>
    -- The next slot becomes a free one of the full size, and what it has too much goes on.
    obtain ⟨hidle, hptr⟩ : t.isIdle = true ∧ t.ptr = s.endPtr := by simpa using hlink
    obtain ⟨ht, hrest⟩ := forall_mem_cons.1 hrest
    have hpad := paddedSize_max hM hpos
    set t' : FrameSlot := { t.grown dif with status := .free } with ht'
    have hle : paddedSize (M - vidfHdrSize - 4) ≤ t'.size := by
      rw [hpad]
      exact hbig
    obtain ⟨r, r', b, q, q', hr, hslots, hmoved, hroom⟩ := ih hrest hle
    have hend : t'.endPtr = t.endPtr := grown_endPtr (n := n) hptr
    rw [hend] at hmoved hroom
    have htM : (t'.resized (M - vidfHdrSize - 4)).size = M := by
      rw [resized_size hle, hpad]
    have hptr' : (t'.resized (M - vidfHdrSize - 4)).ptr = (s.resized n).endPtr := by
      rw [resized_ptr]
      exact grown_ptr hptr hn
    refine ⟨t :: r, t'.resized (M - vidfHdrSize - 4) :: r', b, q, q', by rw [hr]; rfl, ?_,
      hmoved.cons hptr hptr' hidle (by rw [resized_status]) htM rfl, fun h => ?_⟩
    · rw [resized, if_neg hdif]
      exact congrArg (s.shrunk n :: ·) hslots
    · rw [spareAfter, if_pos hlink] at h
      have hle := ht.le
      have hsize : t'.size = t.size + (s.size - paddedSize n) := rfl
      refine hroom ?_
      rw [hpad]
      omega
  | case5 hdr s n t rest dif hdif hdr' hlink hbig =>
    -- The next slot takes all the bytes and stays too small for a frame.
    obtain ⟨hidle, hptr⟩ : t.isIdle = true ∧ t.ptr = s.endPtr := by simpa using hlink
    refine ⟨[t], [t.grown dif], rest, t.endPtr, t.endPtr, rfl, by rw [resized, if_neg hdif]; rfl,
      ⟨?_, ?_, le_rfl, ?_, rfl, rfl⟩, fun _ => rfl⟩
    · exact idleRun_cons.2 ⟨hidle, hptr, idleRun_nil _⟩
    · exact idleRun_cons.2
        ⟨hidle, grown_ptr hptr hn, by rw [grown_endPtr hptr]; exact idleRun_nil _⟩
    · have hsmall : (t.grown dif).size < M := Nat.lt_of_not_le hbig
      have hres := (hrest t mem_cons_self).reserved_of_grown hidle hsmall
      exact forall_mem_singleton.2 ⟨hsmall.le, by simp [hres], by simp [hres], fun _ => hsmall⟩
  | case6 hdr s n t rest dif hdif hdr' hlink =>
    refine hstop hn (by rw [resized, if_neg hdif]) fun h => ?_
    rw [spareAfter, if_neg hlink] at h
    exact Nat.le_zero.1 h

/-- `shrink_slot` on a slot of the table, as a change of the part of the table from the slot on. -/
theorem shrinkSlot_spec (hM : 512 ∣ M) (hpos : 0 < M) {t : SlotTable} {i n : ℕ} {s : FrameSlot}
    (hs : t.slots[i]? = some s) (ht : ∀ x ∈ t.slots, x.SizeOk M) (hn : paddedSize n ≤ s.size) :
    ∃ (a r r' b : List FrameSlot) (q q' k : ℕ), t.slots = a ++ (s :: r ++ b) ∧ a.length = i ∧
      (shrinkSlot M t i n).slots = a ++ (s.resized n :: r' ++ b) ∧
      (shrinkSlot M t i n).validSlotCount = t.validSlotCount + k ∧
      MovedUp M r r' s.endPtr (s.resized n).endPtr q q' k ∧
      (s.size - paddedSize n ≤ spareAfter M s.endPtr (r ++ b) → q' = q) := by
  obtain ⟨hi, rfl⟩ := List.getElem?_eq_some_iff.1 hs
  have hdrop : t.slots.drop i = t.slots[i] :: t.slots.drop (i + 1) := drop_eq_getElem_cons hi
  obtain ⟨r, r', b, q, q', hsplit, hslots, hmoved, hroom⟩ := shrinkFrom_spec hM hpos
    (t.slots.drop (i + 1)) (fun x hx => ht x (mem_of_mem_drop hx)) t.hdr t.slots[i] n hn
  refine ⟨t.slots.take i, r, r', b, q, q', _, ?_, by simp [hi.le], ?_, ?_, hmoved, hsplit ▸ hroom⟩
  · rw [cons_append, ← hsplit, ← hdrop, take_append_drop]
  · simp only [shrinkSlot, hdrop, hslots, cons_append]
  · simp only [shrinkSlot, hdrop]

/-! ### Freeing -/

theorem linkedBefore_spec (s : FrameSlot) (pre : List FrameSlot) :
    ∃ a r p, pre = a ++ r ∧ linkedBefore s pre.reverse = r.length ∧ IdleRun r p s.ptr ∧
      ∀ x ∈ a.getLast?, ¬ (x.isIdle = true ∧ x.endPtr = p) := by
  induction pre using reverseRecOn generalizing s with
  | nil => exact ⟨[], [], s.ptr, rfl, rfl, idleRun_nil _, by simp⟩
  | append_singleton pre x ih =>
    rw [reverse_append, reverse_singleton, singleton_append, linkedBefore]
    split_ifs with hlink
    · obtain ⟨hidle, hptr⟩ : x.isIdle = true ∧ s.ptr = x.endPtr := by simpa using hlink
      obtain ⟨a, r, p, rfl, hlen, hrun, hbound⟩ := ih x
      refine ⟨a, r ++ [x], p, by simp, by rw [hlen, length_append]; rfl, ?_, hbound⟩
      exact idleRun_append.2 ⟨x.ptr, hrun, idleRun_cons.2 ⟨hidle, rfl, hptr ▸ idleRun_nil _⟩⟩
    · refine ⟨pre ++ [x], [], s.ptr, by simp, rfl, idleRun_nil _, ?_⟩
      simp only [getLast?_append, getLast?_singleton, Option.mem_def, Option.some_or,
        Option.some.injEq, forall_eq']
      rintro ⟨hidle, hend⟩
      exact hlink (by simp [hidle, hend])

theorem linkedAfter_spec (s : FrameSlot) (post : List FrameSlot) :
    ∃ r b q, post = r ++ b ∧ linkedAfter s post = r.length ∧ IdleRun r s.endPtr q ∧
      ∀ x ∈ b.head?, ¬ (x.isIdle = true ∧ x.ptr = q) := by
  fun_induction linkedAfter s post with
  | case1 s => exact ⟨[], [], s.endPtr, rfl, rfl, idleRun_nil _, by simp⟩
  | case2 s x post hlink ih =>
    obtain ⟨hidle, hptr⟩ : x.isIdle = true ∧ x.ptr = s.endPtr := by simpa using hlink
    obtain ⟨r, b, q, rfl, hlen, hrun, hbound⟩ := ih
    exact ⟨x :: r, b, q, rfl, by simp [hlen], idleRun_cons.2 ⟨hidle, hptr, hrun⟩, hbound⟩
  | case3 s x post hlink =>
    exact ⟨[], x :: post, s.endPtr, rfl, rfl, idleRun_nil _, by simpa using hlink⟩

/-- The memory of a run is cut into full frames, a rest and empty slots. -/
theorem reallocate_spec (r : List FrameSlot) (hpq : p ≤ q) (hidle : ∀ s ∈ r, s.isIdle = true) :
    (∃ q', IdleRun (reallocate M q p r).1 p q' ∧ q' ≤ q ∧ (q ≤ p + M * r.length → q' = q)) ∧
      (∀ s ∈ (reallocate M q p r).1, s.SizeOk M) ∧
      (countValid (reallocate M q p r).1 : ℤ) = countValid r + (reallocate M q p r).2 := by
  induction r generalizing p with
  | nil =>
    refine ⟨⟨p, idleRun_nil p, hpq, fun h => hpq.antisymm ?_⟩, by simp [reallocate], rfl⟩
    simpa using h
  | cons s r ih =>
    obtain ⟨hs, hidle⟩ := forall_mem_cons.1 hidle
    by_cases hfits : p + M ≤ q
    · obtain ⟨⟨q', hrun, hle, hall⟩, hsize, hcount⟩ := ih hfits hidle
      simp only [reallocate, if_pos hfits]
      refine ⟨⟨q', idleRun_cons.2 ⟨rfl, rfl, hrun⟩, hle, fun h => hall ?_⟩, ?_, ?_⟩
      · rw [length_cons, Nat.mul_succ] at h
        omega
      · exact forall_mem_cons.2 ⟨.of_free rfl rfl, hsize⟩
      · simp only [countValid_cons, Nat.cast_add, hcount]
        rcases isIdle_iff.1 hs with h | h <;> simp [h] <;> ring
    · obtain ⟨⟨q', hrun, hle, -⟩, hsize, hcount⟩ := ih le_rfl hidle
      simp only [reallocate, if_neg hfits]
      refine ⟨⟨q', idleRun_cons.2 ⟨rfl, rfl, ?_⟩, hle, fun _ => ?_⟩, ?_, ?_⟩
      · have : p + (q - p) = q := by omega
        simpa [FrameSlot.endPtr, this] using hrun
      · exact hle.antisymm hrun.tiles.le
      · have hsmall : q - p < M := by omega
        exact forall_mem_cons.2 ⟨⟨hsmall.le, by simp, by simp, fun _ => hsmall⟩, hsize⟩
      · simp only [countValid_cons, Nat.cast_add, hcount]
        rcases isIdle_iff.1 hs with h | h <;> simp [h]

@[simp] theorem length_reallocate (q p : ℕ) (r : List FrameSlot) :
    (reallocate M q p r).1.length = r.length := by
  induction r generalizing p with
  | nil => rfl
  | cons s r ih =>
    by_cases hfits : p + M ≤ q
    · simp [reallocate, hfits, ih]
    · simp [reallocate, hfits, ih]

theorem freeSlot_of_full {t : SlotTable} {i : ℕ} {s : FrameSlot} (hs : t.slots[i]? = some s)
    (hsize : s.size = M) :
    freeSlot M t i = t.modify i fun s => { s with status := .free } := by
  rw [freeSlot, SlotTable.modify, modify_eq_set_getElem?, hs]
  exact if_pos hsize

/-- Freeing a smaller slot cuts the longest run of unused slots around it into frames again. -/
theorem freeSlot_spec {t : SlotTable} {i : ℕ} {s : FrameSlot} (hs : t.slots[i]? = some s)
    (hsize : s.size ≠ M) :
    ∃ a r₁ r₂ b p q, t.slots = a ++ (r₁ ++ s :: r₂ ++ b) ∧ (a ++ r₁).length = i ∧
      IdleRun (r₁ ++ { s with status := .reserved } :: r₂) p q ∧
      (∀ x ∈ a.getLast?, ¬ (x.isIdle = true ∧ x.endPtr = p)) ∧
      (∀ x ∈ b.head?, ¬ (x.isIdle = true ∧ x.ptr = q)) ∧
      freeSlot M t i =
        { t with
          slots := a ++ ((reallocate M q p (r₁ ++ { s with status := .reserved } :: r₂)).1 ++ b)
          validSlotCount := t.validSlotCount - 1 +
            (reallocate M q p (r₁ ++ { s with status := .reserved } :: r₂)).2 } := by
  obtain ⟨hi, rfl⟩ := List.getElem?_eq_some_iff.1 hs
  obtain ⟨a, r₁, p, hpre, hbefore, hrun₁, hbound₁⟩ :=
    linkedBefore_spec t.slots[i] (t.slots.take i)
  obtain ⟨r₂, b, q, hpost, hafter, hrun₂, hbound₂⟩ :=
    linkedAfter_spec t.slots[i] (t.slots.drop (i + 1))
  have hslots : t.slots = a ++ (r₁ ++ t.slots[i] :: r₂ ++ b) := by
    conv_lhs => rw [← take_append_drop i t.slots, drop_eq_getElem_cons hi, hpre, hpost]
    simp
  have hlen : (a ++ r₁).length = i := by rw [← hpre, length_take_of_le hi.le]
  generalize t.slots[i] = s at *
  have hset : t.slots.set i { s with status := .reserved } =
      a ++ (r₁ ++ { s with status := .reserved } :: r₂ ++ b) := by
    conv_lhs => rw [hslots, ← hlen]
    simp [set_append_right]
  have hrun : IdleRun (r₁ ++ { s with status := .reserved } :: r₂) p q :=
    idleRun_append.2 ⟨s.ptr, hrun₁, idleRun_cons.2 ⟨by simp [FrameSlot.isIdle], rfl, hrun₂⟩⟩
  refine ⟨a, r₁, r₂, b, p, q, hslots, hlen, hrun, hbound₁, hbound₂, ?_⟩
  rw [length_append] at hlen
  have hstart : i - linkedBefore s ((t.slots.set i { s with status := .reserved }).take i).reverse =
      a.length := by
    rw [take_set_of_le le_rfl, hbefore]
    omega
  have hstop : i + linkedAfter s ((t.slots.set i { s with status := .reserved }).drop (i + 1)) =
      a.length + r₁.length + r₂.length := by
    rw [drop_set_of_lt (Nat.lt_succ_self i), hafter, hlen]
  rw [hset] at hstart hstop
  rw [freeSlot, hs]
  simp only [if_neg hsize, hset, hstart, hstop]
  generalize hw : r₁ ++ { s with status := .reserved } :: r₂ = w at *
  have hwlen : w.length = r₁.length + r₂.length + 1 := by
    simp [← hw, Nat.add_assoc]
  have hfirst : ((a ++ (w ++ b))[a.length]?.map FrameSlot.ptr).getD 0 = p := by
    have hne : 0 < w.length := by omega
    rw [getElem?_append_right le_rfl, Nat.sub_self, getElem?_append_left hne,
      ← head?_eq_getElem?, head?_eq_some_head (length_pos_iff.1 hne)]
    exact hrun.ptr_head (head?_eq_some_head _)
  have hlast : ((a ++ (w ++ b))[a.length + r₁.length + r₂.length]?.map FrameSlot.endPtr).getD 0 =
      q := by
    have hne : 0 < w.length := by omega
    have hidx : a.length + r₁.length + r₂.length - a.length = w.length - 1 := by omega
    rw [getElem?_append_right (by omega), hidx, getElem?_append_left (by omega),
      ← getLast?_eq_getElem?, getLast?_eq_some_getLast (length_pos_iff.1 hne)]
    exact hrun.endPtr_last (getLast?_eq_some_getLast _)
  have hcut : a.length + r₁.length + r₂.length + 1 = a.length + w.length := by omega
  rw [hfirst, hlast, hcut, Nat.add_sub_cancel_left, take_left, ← drop_drop, drop_left,
    take_left, drop_left]

/-! ### Slots in use are left alone -/

theorem getElem?_replace {w' : List FrameSlot} (hlen : w'.length = w.length) {k : ℕ}
    (hk : k < a.length ∨ a.length + w.length ≤ k) : (a ++ (w' ++ b))[k]? = (a ++ (w ++ b))[k]? := by
  rcases hk with hk | hk
  · rw [getElem?_append_left hk, getElem?_append_left hk]
  · rw [getElem?_append_right (by omega), getElem?_append_right (by omega),
      getElem?_append_right (by omega), getElem?_append_right (by omega), hlen]

theorem outside_of_not_idle {k : ℕ} {x : FrameSlot} (hw : IdleRun w p q)
    (hx : (a ++ (w ++ b))[k]? = some x) (hidle : x.isIdle = false) :
    k < a.length ∨ a.length + w.length ≤ k := by
  by_contra hk
  rw [not_or, not_lt] at hk
  rw [getElem?_append_right hk.1, getElem?_append_left (by omega)] at hx
  have := hw.idle x (mem_of_getElem? hx)
  simp [hidle] at this

section

variable {t : SlotTable} {i k n : ℕ} {s x : FrameSlot}

section

variable (hM : 512 ∣ M) (hpos : 0 < M) (hs : t.slots[i]? = some s) (ht : ∀ x ∈ t.slots, x.SizeOk M)
  (hn : paddedSize n ≤ s.size)

include hM hpos hs ht hn

theorem shrinkSlot_self : (shrinkSlot M t i n).slots[i]? = some (s.resized n) := by
  obtain ⟨a, r, r', b, q, q', j, -, rfl, hslots', -⟩ := shrinkSlot_spec hM hpos hs ht hn
  simp [hslots']

theorem shrinkSlot_of_ne (hk : k ≠ i) (hx : t.slots[k]? = some x) (hidle : x.isIdle = false) :
    (shrinkSlot M t i n).slots[k]? = some x := by
  obtain ⟨a, r, r', b, q, q', j, hslots, rfl, hslots', -, hmoved, -⟩ :=
    shrinkSlot_spec hM hpos hs ht hn
  have hmove (y : FrameSlot) (w : List FrameSlot) :
      a ++ (y :: w ++ b) = (a ++ [y]) ++ (w ++ b) := by
    simp
  rw [hslots, hmove] at hx
  have hout := outside_of_not_idle hmoved.before hx hidle
  have hlen : (a ++ [s]).length = a.length + 1 := by simp
  rw [hslots', hmove]
  rcases hout with hout | hout
  · have hk' : k < a.length := by omega
    rw [append_assoc, getElem?_append_left hk'] at hx ⊢
    exact hx
  · rw [getElem?_append_right (by simp; omega)] at hx ⊢
    have hlen' : (a ++ [s.resized n]).length = a.length + 1 := by simp
    rw [hlen, getElem?_append_right (by omega)] at hx
    rw [hlen', getElem?_append_right (by rw [hmoved.length]; omega), hmoved.length]
    exact hx

end

theorem freeSlot_of_ne (hk : k ≠ i) (hx : t.slots[k]? = some x) (hidle : x.isIdle = false) :
    (freeSlot M t i).slots[k]? = some x := by
  cases hs : t.slots[i]? with
  | none =>
    rw [freeSlot, hs]
    exact hx
  | some s =>
    by_cases hsize : s.size = M
    · rw [freeSlot_of_full hs hsize, SlotTable.modify_of_ne hk]
      exact hx
    · obtain ⟨a, r₁, r₂, b, p, q, hslots, rfl, hrun, -, -, hfree⟩ := freeSlot_spec hs hsize
      -- The freed slot is part of the run, in its place.
      have hx' : (a ++ (r₁ ++ { s with status := .reserved } :: r₂ ++ b))[k]? = some x := by
        rw [← hx, hslots]
        have hmove (y : FrameSlot) : a ++ (r₁ ++ y :: r₂ ++ b) = (a ++ r₁) ++ y :: (r₂ ++ b) := by
          simp
        rw [hmove, hmove]
        rcases Nat.lt_or_gt_of_ne hk with hlt | hgt
        · rw [getElem?_append_left hlt, getElem?_append_left hlt]
        · rw [getElem?_append_right hgt.le, getElem?_append_right hgt.le,
            getElem?_cons, getElem?_cons, if_neg (by omega), if_neg (by omega)]
      rw [hfree, getElem?_replace (by simp) (outside_of_not_idle hrun hx' hidle)]
      exact hx'

end

end MagicLantern.MlvLite

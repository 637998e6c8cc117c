import MagicLantern.MlvLite.SlotSafety

/-!
# The check word after a compressed frame

When a frame has been compressed, `frame_fake_edmac_check` puts a check word of four bytes after it,
so that the check of uncompressed frames passes. The word goes after `payload_size` bytes of image
data.

This size is written by `shrink_slot` when the slot gets smaller. A frame that needs the whole slot
does not shrink it, and then the size is still that of the last frame in the slot that did; nor does
`free_slot` write it when it cuts the memory into full slots again. So after a small frame the word
for a large one is inside its image data.

When recording has stopped while a frame is compressed, the slot is not shrunk either.

Source: `src/modules/raw_video/mlv_lite/mlv_lite.c`.

## Main results

* `sentinel_inside_iff` — when the word is behind the image.
* `sentinel_in_image`.
-/

namespace MagicLantern.MlvLite

open Tiling

/-! ### Check words -/

/-- The operations on the slots. -/
inductive FrameOp
  | slot (op : SlotOp)
  /-- The compression task has compressed its next frame to `size` bytes, and recording has stopped.
  -/
  | compressIdle (size : ℕ)

/-- One operation. -/
def FrameOp.step (M : ℕ) (b : Buffers) : FrameOp → Option Buffers
  | .slot op => op.step M b
  | .compressIdle _ => SlotOp.copy.step M b

/-- The size of the frame that has been compressed. -/
def FrameOp.compressedSize : FrameOp → Option ℕ
  | .slot (.compress size) => some size
  | .compressIdle size => some size
  | _ => none

/-- The slot is shrunk after a compression. -/
def FrameOp.shrinks : FrameOp → Bool
  | .slot _ => true
  | .compressIdle _ => false

/-- `edmac_size`: the image data in the slot, in whole words. -/
def FrameSlot.edmacSize (s : FrameSlot) : ℕ := (s.payloadSize + 3) / 4 * 4

/-- `after_frame` in `frame_fake_edmac_check`. -/
def FrameSlot.afterFrame (s : FrameSlot) : ℕ := s.ptr + vidfHdrSize + s.edmacSize

/-- The check word is after the `size` bytes of the frame, and in the slot. -/
def FrameSlot.SentinelAfter (s : FrameSlot) (size : ℕ) : Prop :=
  s.ptr + vidfHdrSize + size ≤ s.afterFrame ∧ s.afterFrame + 4 ≤ s.endPtr

instance (s : FrameSlot) (size : ℕ) : Decidable (s.SentinelAfter size) :=
  inferInstanceAs (Decidable (_ ∧ _))

/-- If the operation has compressed a frame, the check word in its slot is where it should be. -/
def FrameOp.SentinelInside (M : ℕ) (b : Buffers) (op : FrameOp) : Prop :=
  ∀ size ∈ op.compressedSize, ∀ b' ∈ op.step M b, ∀ k ∈ b'.compressing,
    ∀ s ∈ b'.table.slots[k]?, s.SentinelAfter size

instance (M : ℕ) (b : Buffers) (op : FrameOp) : Decidable (op.SentinelInside M b) :=
  inferInstanceAs (Decidable (∀ _ ∈ _, _))

/-- The condition on the slot: there is room for the frame and the check word by its `payload_size`.
-/
def FrameSlot.PayloadFits (s : FrameSlot) (size : ℕ) : Prop :=
  size ≤ s.edmacSize ∧ vidfHdrSize + s.edmacSize + 4 ≤ s.size

instance (s : FrameSlot) (size : ℕ) : Decidable (s.PayloadFits size) :=
  inferInstanceAs (Decidable (_ ∧ _))

/-- The condition on an operation: the `payload_size` of the next frame fits, unless the slot is
going to be shrunk. -/
def FrameOp.Fits (b : Buffers) (op : FrameOp) : Prop :=
  ∀ size ∈ op.compressedSize, b.compressing = none → ∀ k ∈ b.compressMq.head?,
    ∀ s ∈ b.table.slots[k]?,
      (op.shrinks = true → paddedSize size = s.size) → s.PayloadFits size

instance (b : Buffers) (op : FrameOp) : Decidable (op.Fits b) :=
  inferInstanceAs (Decidable (∀ _ ∈ _, _))

/-- Frames are compressed to sizes for which there is room in a slot. -/
def FrameOp.SizeOk (M : ℕ) (op : FrameOp) : Prop :=
  ∀ size ∈ op.compressedSize, size ≤ M - vidfHdrSize - 4

instance (M : ℕ) (op : FrameOp) : Decidable (op.SizeOk M) :=
  inferInstanceAs (Decidable (∀ _ ∈ _, _))

/-! ### One operation -/

section

variable {M : ℕ} {mem : Set ℕ} {b b' : Buffers} {s : FrameSlot} {size : ℕ}

theorem FrameSlot.sentinelAfter_iff : s.SentinelAfter size ↔ s.PayloadFits size := by
  rw [SentinelAfter, PayloadFits, afterFrame, endPtr]
  omega

/-- A slot that is shrunk has room for the frame and the check word. -/
theorem FrameSlot.payloadFits_shrunk (s : FrameSlot) (size : ℕ) :
    (s.shrunk size).PayloadFits size := by
  rw [PayloadFits, edmacSize, shrunk]
  simp only [vidfHdrSize, paddedSize]
  omega

/-- The check word after `shrink_slot` for a frame of the given size. -/
theorem FrameSlot.payloadFits_resized (h : paddedSize size ≤ s.size) :
    (s.resized size).PayloadFits size ↔ (paddedSize size = s.size → s.PayloadFits size) := by
  rw [resized]
  split_ifs with hdif
  · have heq : paddedSize size = s.size := by omega
    simp only [heq, forall_const]
  · have hne : paddedSize size ≠ s.size := by omega
    exact iff_of_true (s.payloadFits_shrunk size) fun heq => absurd heq hne

theorem FrameOp.step_eq_none (op : FrameOp) (hsize : size ∈ op.compressedSize)
    (h : b.compressing ≠ none ∨ b.compressMq = []) : op.step M b = none := by
  obtain ⟨table, captureSlot, force, mq, compressing⟩ := b
  have hcompress (n : ℕ) :
      (SlotOp.compress n).step M ⟨table, captureSlot, force, mq, compressing⟩ = none ∧
      SlotOp.copy.step M ⟨table, captureSlot, force, mq, compressing⟩ = none := by
    rcases compressing with _ | k'
    · obtain rfl : mq = [] := h.resolve_left fun hne => hne rfl
      exact ⟨rfl, rfl⟩
    · exact ⟨rfl, rfl⟩
  match op with
  | .slot (.compress n) => exact (hcompress n).1
  | .compressIdle _ => exact (hcompress 0).2

section

variable (op : FrameOp) (hM : 512 ∣ M) (hpos : 0 < M) (h : b.Inv M mem)

include op hM hpos h

theorem FrameOp.step_eq_some {k : ℕ}
    {mq : List ℕ} (hnone : b.compressing = none) (hmq : b.compressMq = k :: mq)
    (hop : size ∈ op.compressedSize) (hsize : size ≤ M - vidfHdrSize - 4) :
    ∃ s b', b.table.slots[k]? = some s ∧ op.step M b = some b' ∧ b'.compressing = some k ∧
      ∃ s', b'.table.slots[k]? = some s' ∧ (s'.PayloadFits size ↔
        ((op.shrinks = true → paddedSize size = s.size) → s.PayloadFits size)) := by
  obtain ⟨table, captureSlot, force, mq', compressing⟩ := b
  obtain rfl : compressing = none := hnone
  obtain rfl : mq' = k :: mq := hmq
  obtain ⟨s, hs, -, hsM⟩ := h.waiting k List.mem_cons_self
  match op, hop with
  | .slot (.compress _), rfl =>
    have hcut : cutSize M size = size := min_eq_left hsize
    have hle : paddedSize (cutSize M size) ≤ s.size := by
      rw [hsM]
      exact paddedSize_cutSize_le hM hpos size
    refine ⟨s, _, hs, rfl, rfl, _, shrinkSlot_self hM hpos hs h.safe.sizeOk hle, ?_⟩
    rw [hcut] at hle ⊢
    rw [FrameSlot.payloadFits_resized hle]
    simp only [FrameOp.shrinks, forall_const]
  | .compressIdle _, rfl =>
    exact ⟨s, _, hs, rfl, rfl, s, hs, by simp [FrameOp.shrinks]⟩

/-- The check word is where it should be if and only if the `payload_size` fits. -/
theorem FrameOp.sentinelInside_iff (hsize : op.SizeOk M) : op.SentinelInside M b ↔ op.Fits b := by
  refine forall₂_congr fun size hop => ?_
  by_cases hbusy : b.compressing ≠ none ∨ b.compressMq = []
  · rw [op.step_eq_none hop hbusy]
    refine iff_of_true (fun b' hb' => by cases hb') fun hnone k hk => ?_
    rw [hbusy.resolve_left fun hne => hne hnone] at hk
    cases hk
  · rw [not_or, not_not] at hbusy
    obtain ⟨hnone, hne⟩ := hbusy
    obtain ⟨k, mq, hmq⟩ := List.exists_cons_of_ne_nil hne
    obtain ⟨s, b', hs, hstep, hk, s', hs', hiff⟩ :=
      op.step_eq_some hM hpos h hnone hmq hop (hsize size hop)
    simp only [hstep, hnone, hmq, hs, hk, hs', Option.mem_some_iff, forall_eq', List.head?_cons,
      forall_const, FrameSlot.sentinelAfter_iff, hiff]

theorem FrameOp.step_inv (hstep : op.step M b = some b') : b'.Inv M mem := by
  cases op with
  | slot op => exact (op.step_inv hM hpos h hstep).1
  | compressIdle size => exact (step_copy h hstep).1

end

end

/-! ### Runs -/

/-- **Check words.** In a run from the layout that `setup_buffers` makes, in which frames are
compressed to sizes for which there is room, each check word is in its slot and after the frame if
and only if the `payload_size` fits each time a frame does not shrink its slot. -/
theorem sentinel_inside_iff (L : Layout) (hM : 512 ∣ L.maxFrameSize) (hpos : 0 < L.maxFrameSize)
    (shoot srm : List MemChunk) (hsep : Separate (shoot ++ srm)) (hdr : ℕ → MlvHdr)
    (ops : List FrameOp) (hsize : ∀ op ∈ ops, op.SizeOk L.maxFrameSize) :
    Runs.Meets (FrameOp.step L.maxFrameSize) (FrameOp.SentinelInside L.maxFrameSize)
        (Buffers.start L shoot srm hdr) ops ↔
      Runs.Meets (FrameOp.step L.maxFrameSize) FrameOp.Fits (Buffers.start L shoot srm hdr) ops :=
  Runs.meets_iff_of_invariant (I := Buffers.Inv L.maxFrameSize (covered (shoot ++ srm)))
    (fun _ op _ h hstep => op.step_inv hM hpos h hstep)
    (fun _ op h hop => op.sentinelInside_iff hM hpos h hop) hsize
    (Buffers.start_inv hpos hsep hdr)

/-- A frame of 1000 bytes, and then one of 2000 bytes in the same slot. -/
theorem sentinel_inside_twoFrames :
    let L : Layout := ⟨4096, true, 5000, 0, 0, fun _ => default⟩
    let chunk : MemChunk := ⟨0x1000, 4200⟩
    Runs.Meets (FrameOp.step 4096) (FrameOp.SentinelInside 4096)
      (Buffers.start L [chunk] [] fun _ => default)
      [.slot (.capture 1 default), .slot (.compress 1000), .slot .compressDone,
        .slot (.startWriting 0), .slot (.freeSlot 0), .slot (.capture 2 default),
        .slot (.compress 2000)] := by
  intro L chunk
  exact (sentinel_inside_iff L (by decide) (by decide) [chunk] [] (List.pairwise_singleton _ _) _ _
    (by decide)).2 (by decide +kernel)

/-- A frame of 1000 bytes, and then one of 4028 bytes, which needs the whole slot: the check word is
put after 1000 bytes of it. -/
theorem sentinel_in_image :
    let L : Layout := ⟨4096, true, 5000, 0, 0, fun _ => default⟩
    let chunk : MemChunk := ⟨0x1000, 4200⟩
    ¬ Runs.Meets (FrameOp.step 4096) (FrameOp.SentinelInside 4096)
      (Buffers.start L [chunk] [] fun _ => default)
      [.slot (.capture 1 default), .slot (.compress 1000), .slot .compressDone,
        .slot (.startWriting 0), .slot (.freeSlot 0), .slot (.capture 2 default),
        .slot (.compress 4028)] := by
  decide +kernel

end MagicLantern.MlvLite

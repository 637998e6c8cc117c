import MagicLantern.Library.Alignment
import MagicLantern.Library.Runs
import MagicLantern.Library.Tiling
import MagicLantern.RawVidx.Worker

/-!
# Headers of video frames

`write_video_frame_header` puts the header of a VIDF block at the start of the free part of a
buffer, pads it so that the image is aligned, and returns the address of the image, if the block
fits. The addresses are computed modulo `2 ^ 32`. An end that wraps around is noticed only if it is
below the start of the block. If the size is so large that the end comes back to the start or behind
it, then the block is taken to fit.

Here the alignment is any power of two, and the padding is part of the header. Of the header
fields, those that are computed are modelled.

Source: `src/modules/raw_video/raw_vidx/mlv_3.c`; `src/src/mem.h`.

## Main results

* `frameHeader_right_iff` — when the block fits.
* `frameHeader_wrap`.
-/

namespace MagicLantern.RawVidx

open Alignment

/-! ### The function -/

/-- A VIDF block in a buffer: where it starts, and the fields of its header. -/
structure VidfBlock where
  start : ℕ
  size : ℕ
  frameNumber : ℕ
  framePadding : ℕ
  deriving DecidableEq

instance : Extent VidfBlock := ⟨VidfBlock.start, VidfBlock.size⟩

/-- `sizeof(mlv_vidf_block)`. -/
abbrev vidfBlockSize : ℕ := 0x20

/-- `write_video_frame_header`: the address of the image and the block, and the frame number for the
next block. -/
def writeVideoFrameHeaderAt (alignment frameNumber imageSize start stop : ℕ) :
    Option (ℕ × VidfBlock) × ℕ :=
  if start = 0 ∨ stop = 0 then (none, frameNumber)
  else
    let imageStart := alignUp ((start + vidfBlockSize) % 2 ^ 32) alignment
    let imageEnd := (imageStart + imageSize) % 2 ^ 32
    if imageStart < start ∨ imageEnd < start then (none, frameNumber)
    else if imageEnd > stop then (none, frameNumber)
    else
      (some (imageStart,
        { start
          size := imageEnd - start
          frameNumber
          framePadding := (imageStart - start + 2 ^ 32 - vidfBlockSize) % 2 ^ 32 }),
        (frameNumber + 1) % 2 ^ 32)

/-- The function that the worker calls is this one, with the alignment of EDMAC. -/
theorem writeVideoFrameHeaderAt_map (session : Session) (imageSize start stop : ℕ) :
    writeVideoFrameHeader session imageSize start stop =
      (writeVideoFrameHeaderAt imageDataAlignment session.frameNumber imageSize start stop).1.map
        fun (p, block) => (p, ⟨block.frameNumber⟩) := by
  simp only [writeVideoFrameHeader, writeVideoFrameHeaderAt]
  split_ifs <;> rfl

/-! ### What it should do -/

section

variable (alignment frameNumber imageSize start stop : ℕ)

/-- Where the image belongs. -/
def imageAddress : ℕ := roundUp (start + vidfBlockSize) alignment

/-- The header, the padding and the image fit before `stop`. -/
def BlockFits : Prop := imageAddress alignment start + imageSize ≤ stop

instance : Decidable (BlockFits alignment imageSize start stop) :=
  inferInstanceAs (Decidable (_ ≤ _))

/-- The function returns an address exactly if the block fits; then the image is aligned, the
padding is less than the alignment, and the size of the block is that of its parts. Otherwise the
frame number is not changed. -/
structure HeaderRight : Prop where
  fits : (writeVideoFrameHeaderAt alignment frameNumber imageSize start stop).1 ≠ none ↔
    BlockFits alignment imageSize start stop
  unchanged : (writeVideoFrameHeaderAt alignment frameNumber imageSize start stop).1 = none →
    (writeVideoFrameHeaderAt alignment frameNumber imageSize start stop).2 = frameNumber
  block : ∀ p b, (writeVideoFrameHeaderAt alignment frameNumber imageSize start stop).1 =
    some (p, b) → alignment ∣ p ∧ b.start = start ∧ p = start + vidfBlockSize + b.framePadding ∧
      b.framePadding < alignment ∧ b.size = vidfBlockSize + b.framePadding + imageSize ∧
      b.frameNumber = frameNumber ∧
      (writeVideoFrameHeaderAt alignment frameNumber imageSize start stop).2 =
        (frameNumber + 1) % 2 ^ 32

/-- The condition: a block that fits does not begin at the null pointer, and the end of the image
does not wrap around to an address between `start` and `stop`. -/
def HeaderGood : Prop :=
  (start = 0 → ¬ BlockFits alignment imageSize start stop) ∧
    ¬ (start ≠ 0 ∧ imageAddress alignment start < 2 ^ 32 ∧
      2 ^ 32 + start ≤ imageAddress alignment start + imageSize ∧
      imageAddress alignment start + imageSize ≤ 2 ^ 32 + stop)

instance : Decidable (HeaderGood alignment imageSize start stop) :=
  inferInstanceAs (Decidable ((start = 0 → ¬ BlockFits alignment imageSize start stop) ∧ ¬ (_ ∧ _)))

end

/-! ### One call -/

section

variable {alignment imageSize start stop : ℕ} (frameNumber : ℕ)

/-- The alignments: powers of two that are 32-bit numbers. -/
structure IsAlignment (alignment : ℕ) : Prop where
  pos : 0 < alignment
  dvd : alignment ∣ 2 ^ 32
  le : alignment ≤ 2 ^ 31

theorem isAlignment_two_pow (k : Fin 32) : IsAlignment (2 ^ k.val) where
  pos := Nat.two_pow_pos _
  dvd := Nat.pow_dvd_pow 2 k.isLt.le
  le := Nat.pow_le_pow_right (by decide) (Nat.le_of_lt_succ k.isLt)

/-- What is computed for the address of the image, unless it is refused. -/
theorem alignUp_eq (ha : IsAlignment alignment) (hstart : start < 2 ^ 32) :
    alignUp ((start + vidfBlockSize) % 2 ^ 32) alignment =
        (if imageAddress alignment start < 2 ^ 32 then imageAddress alignment start else 0) ∨
      (2 ^ 32 ≤ imageAddress alignment start ∧
        alignUp ((start + vidfBlockSize) % 2 ^ 32) alignment < start) := by
  have hle : start + vidfBlockSize ≤ imageAddress alignment start := le_roundUp
  by_cases hwrap : start + vidfBlockSize < 2 ^ 32
  · left
    rw [Nat.mod_eq_of_lt hwrap, alignUp, mod_div_mul_eq_roundUp ha.pos ha.dvd hwrap, imageAddress]
  · have hsize : vidfBlockSize = 32 := rfl
    have hup := roundUp_lt (n := (start + vidfBlockSize) % 2 ^ 32) ha.pos
    have hle := ha.le
    rw [alignUp, mod_div_mul_eq_roundUp ha.pos ha.dvd (by omega)]
    split_ifs <;> omega

theorem imageAddress_eq (alignment start : ℕ) : imageAddress alignment start =
    start + vidfBlockSize + padding (start + vidfBlockSize) alignment := rfl

/-- The block is written exactly if the image address does not wrap around, and the address computed
for the end is between `start` and `stop`. -/
def Accepted (alignment imageSize start stop : ℕ) : Prop :=
  start ≠ 0 ∧ imageAddress alignment start < 2 ^ 32 ∧
    start ≤ (imageAddress alignment start + imageSize) % 2 ^ 32 ∧
    (imageAddress alignment start + imageSize) % 2 ^ 32 ≤ stop

theorem writeVideoFrameHeaderAt_of_accepted (ha : IsAlignment alignment) (hstart : start < 2 ^ 32)
    (h : Accepted alignment imageSize start stop) :
    writeVideoFrameHeaderAt alignment frameNumber imageSize start stop =
      (some (imageAddress alignment start,
        { start
          size := (imageAddress alignment start + imageSize) % 2 ^ 32 - start
          frameNumber
          framePadding := padding (start + vidfBlockSize) alignment }),
        (frameNumber + 1) % 2 ^ 32) := by
  obtain ⟨hnull, himage, hlow, hhigh⟩ := h
  have heq := imageAddress_eq alignment start
  have hup : alignUp ((start + vidfBlockSize) % 2 ^ 32) alignment =
      imageAddress alignment start := by
    rcases alignUp_eq ha hstart with heq | ⟨hge, -⟩
    · rw [heq, if_pos himage]
    · omega
  have hpad : (imageAddress alignment start - start + 2 ^ 32 - vidfBlockSize) % 2 ^ 32 =
      padding (start + vidfBlockSize) alignment := by omega
  rw [writeVideoFrameHeaderAt, if_neg (by omega)]
  simp only [hup, hpad]
  rw [if_neg (by omega), if_neg (by omega)]

theorem writeVideoFrameHeaderAt_of_not_accepted (ha : IsAlignment alignment)
    (hstart : start < 2 ^ 32) (h : ¬ Accepted alignment imageSize start stop) :
    writeVideoFrameHeaderAt alignment frameNumber imageSize start stop = (none, frameNumber) := by
  rw [writeVideoFrameHeaderAt]
  dsimp only
  split_ifs with hnull hback hroom
  · rfl
  · rfl
  · rfl
  · -- The address of the image is not the one that is refused.
    rcases alignUp_eq ha hstart with heq | ⟨-, hlt⟩
    · rw [heq] at hback hroom
      unfold Accepted at h
      split_ifs at hback hroom <;> omega
    · omega

/-- **One call.** -/
theorem headerRight_iff (ha : IsAlignment alignment) (hstart : start < 2 ^ 32)
    (hstop : stop < 2 ^ 32) (hsize : imageSize < 2 ^ 32) :
    HeaderRight alignment frameNumber imageSize start stop ↔
      HeaderGood alignment imageSize start stop := by
  have heq := imageAddress_eq alignment start
  have hgood : (Accepted alignment imageSize start stop ↔
      BlockFits alignment imageSize start stop) ↔ HeaderGood alignment imageSize start stop := by
    unfold Accepted HeaderGood BlockFits
    omega
  rw [← hgood]
  by_cases hacc : Accepted alignment imageSize start stop
  · have hwrite := writeVideoFrameHeaderAt_of_accepted frameNumber ha hstart hacc
    refine ⟨fun h => ⟨fun _ => h.fits.1 (by simp [hwrite]), fun _ => hacc⟩, fun h => ?_⟩
    refine ⟨iff_of_true (by simp [hwrite]) (h.1 hacc), by simp [hwrite], fun p b hpb => ?_⟩
    rw [hwrite] at hpb
    cases hpb
    refine ⟨dvd_roundUp ha.pos, rfl, rfl, padding_lt ha.pos, ?_, rfl, by rw [hwrite]⟩
    have hfits := h.1 hacc
    unfold BlockFits at hfits
    dsimp only
    omega
  · have hwrite := writeVideoFrameHeaderAt_of_not_accepted frameNumber ha hstart hacc
    refine ⟨fun h => iff_of_false hacc fun hfits => h.fits.2 hfits (by rw [hwrite]), fun h => ?_⟩
    exact ⟨iff_of_false (by simp [hwrite]) (h.not.1 hacc),
      fun _ => by rw [hwrite], by simp [hwrite]⟩

end

/-! ### Calls one after the other -/

/-- The free part of a buffer starts at `cur`; these blocks have been written. -/
structure FrameBuffer where
  cur : ℕ
  frameNumber : ℕ
  blocks : List VidfBlock

/-- A call with the end of the last image as start. Nothing changes if there is no room. -/
def FrameBuffer.step (alignment stop : ℕ) (s : FrameBuffer) (imageSize : UInt32) :
    Option FrameBuffer :=
  match writeVideoFrameHeaderAt alignment s.frameNumber imageSize.toNat s.cur stop with
  | (some (p, block), frameNumber) =>
    some ⟨(p + imageSize.toNat) % 2 ^ 32, frameNumber, s.blocks ++ [block]⟩
  | (none, frameNumber) => some { s with frameNumber }

/-- The block is a VIDF block: its padding ends where the image is, which is aligned. -/
structure VidfBlock.WellFormed (alignment : ℕ) (b : VidfBlock) : Prop where
  aligned : alignment ∣ b.start + vidfBlockSize + b.framePadding
  padding_lt : b.framePadding < alignment
  le_size : vidfBlockSize + b.framePadding ≤ b.size

/-- The blocks follow each other from `start` to `cur`, which is not behind the buffer. -/
structure FrameBuffer.Tiled (alignment start stop : ℕ) (s : FrameBuffer) : Prop where
  tiles : Tiling.Tiles s.blocks start s.cur
  le : s.cur ≤ stop
  wellFormed : ∀ b ∈ s.blocks, b.WellFormed alignment

theorem FrameBuffer.Tiled.step {alignment start stop : ℕ} {s t : FrameBuffer} {imageSize : UInt32}
    (ha : IsAlignment alignment) (hstop : stop < 2 ^ 32) (h : s.Tiled alignment start stop)
    (hgood : HeaderGood alignment imageSize.toNat s.cur stop)
    (hstep : s.step alignment stop imageSize = some t) : t.Tiled alignment start stop := by
  have hle := h.le
  have hlt : s.cur < 2 ^ 32 := by omega
  rw [FrameBuffer.step] at hstep
  by_cases hacc : Accepted alignment imageSize.toNat s.cur stop
  · rw [writeVideoFrameHeaderAt_of_accepted _ ha hlt hacc] at hstep
    cases hstep
    obtain ⟨hnull, himage, hlow, hhigh⟩ := hacc
    refine ⟨Tiling.tiles_append.2 ⟨s.cur, h.tiles, rfl, Nat.add_sub_cancel' hlow⟩, hhigh, ?_⟩
    refine List.forall_mem_append.2 ⟨h.wellFormed, List.forall_mem_singleton.2 ⟨?_, ?_, ?_⟩⟩
    · exact dvd_roundUp ha.pos
    · exact padding_lt ha.pos
    · have heq := imageAddress_eq alignment s.cur
      have hsize := imageSize.toNat_lt
      unfold HeaderGood at hgood
      dsimp only
      omega
  · rw [writeVideoFrameHeaderAt_of_not_accepted _ ha hlt hacc] at hstep
    cases hstep
    exact { h with }

/-- **Frame headers.** For all 32-bit numbers and all alignments, `write_video_frame_header` is
right exactly if the condition holds. The blocks that calls one after the other write, when all of
them meet the condition, tile the buffer from its start on. -/
theorem frameHeader_right_iff (k : Fin 32) (stop : UInt32) :
    (∀ frameNumber imageSize start : UInt32,
      HeaderRight (2 ^ k.val) frameNumber.toNat imageSize.toNat start.toNat stop.toNat ↔
        HeaderGood (2 ^ k.val) imageSize.toNat start.toNat stop.toNat) ∧
    ∀ (start frameNumber : UInt32) (imageSizes : List UInt32) (s : FrameBuffer),
      start ≤ stop →
      imageSizes.foldlM (FrameBuffer.step (2 ^ k.val) stop.toNat)
        ⟨start.toNat, frameNumber.toNat, []⟩ = some s →
      Runs.Meets (FrameBuffer.step (2 ^ k.val) stop.toNat)
        (fun s imageSize => HeaderGood (2 ^ k.val) imageSize.toNat s.cur stop.toNat)
        ⟨start.toNat, frameNumber.toNat, []⟩ imageSizes →
      s.Tiled (2 ^ k.val) start.toNat stop.toNat := by
  have ha := isAlignment_two_pow k
  refine ⟨fun frameNumber imageSize start => headerRight_iff _ ha start.toNat_lt stop.toNat_lt
    imageSize.toNat_lt, fun start frameNumber imageSizes s hle hrun hmeets => ?_⟩
  refine Runs.invariant_of_meets (I := FrameBuffer.Tiled (2 ^ k.val) start.toNat stop.toNat)
    (fun _ _ _ h hgood hstep => h.step ha stop.toNat_lt hgood hstep) hmeets hrun ?_
  exact ⟨rfl, hle, by simp⟩

/-- Two images with an alignment of 128 bytes, and one for which there is no room. -/
theorem frameHeader_right_two :
    ∃ s, [100, 200, 4000].foldlM (FrameBuffer.step 128 0x1400) ⟨0x1000, 0, []⟩ = some s ∧
      s.blocks.length = 2 ∧ s.Tiled 128 0x1000 0x1400 := by
  refine ⟨_, rfl, rfl,
    (frameHeader_right_iff 7 0x1400).2 0x1000 0 [100, 200, 4000] _ (by decide) rfl ?_⟩
  decide +kernel

/-- An image of almost 4 GiB: the block is written, with size zero. -/
theorem frameHeader_wrap :
    (writeVideoFrameHeaderAt 128 0 0xFFFFFF80 0x1000 0x2000).1 =
      some (0x1080, ⟨0x1000, 0, 0, 0x60⟩) ∧ ¬ BlockFits 128 0xFFFFFF80 0x1000 0x2000 := by
  decide +kernel

end MagicLantern.RawVidx

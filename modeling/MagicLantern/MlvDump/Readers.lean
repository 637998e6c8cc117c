import Mathlib.Tactic

/-!
# Readers of MLV files

`load_frame` and `load_index` go from block to block by the sizes in the headers. `load_index` ends
when it is at the same position as before; `load_frame` has no such test.

Source: `src/modules/raw_video/mlv_rec/mlv_dump.c`, `src/modules/raw_video/mlv_rec/mlv.h`.

## Main results

* `readers_finish_iff` — when the readers return.
* `loadFrame_zeros` — a block of size 0.
-/

namespace MagicLantern.MlvDump

/-- A loop, with the number of iterations that are left. -/
def loop {σ ρ : Type*} (next : σ → ρ ⊕ σ) : ℕ → σ → Option ρ
  | 0, _ => none
  | fuel + 1, s =>
    match next s with
    | .inl r => some r
    | .inr t => loop next fuel t

/-- `fread` of one element. -/
def fread (file : List UInt8) (pos size : ℕ) : Option (List UInt8) :=
  if size ≠ 0 ∧ pos + size ≤ file.length then some ((file.drop pos).take size) else none

/-- A little-endian number in a header. -/
def field (hdr : List UInt8) (offset size : ℕ) : ℕ :=
  ((hdr.drop offset).take size).foldr (fun b n => b.toNat + 2 ^ 8 * n) 0

/-- `blockType`. -/
def isType (hdr : List UInt8) (name : String) : Bool :=
  (hdr.take 4).map (Char.ofNat ·.toNat) == name.toList

/-- What is read over a header on the stack. -/
def onto (hdr bytes : List UInt8) : List UInt8 := bytes ++ hdr.drop bytes.length

/-- The frame of a `VIDF` block, and what is returned; `blockHdr` is what is on the stack. -/
def loadVidf (file : List UInt8) (pos size : ℕ) (blockHdr : List UInt8) : ℕ × List UInt8 :=
  match fread file pos (min 32 size) with
  | none => (3, [])
  | some bytes =>
    let blockHdr := onto blockHdr bytes
    let frameSize : Int32 := .ofNat (field blockHdr 4 4) - 32 - .ofNat (field blockHdr 28 4)
    match fread file (pos + min 32 size + field blockHdr 28 4) frameSize.toInt64.toUInt64.toNat with
    | none => (4, [])
    | some frame => (0, frame)

/-- An iteration of `load_frame` at a position; `fileHdr` and `blockHdr` are what is on the stack.
-/
def frameStep (file blockHdr : List UInt8) : ℕ × List UInt8 → (ℕ × List UInt8) ⊕ (ℕ × List UInt8)
  | (pos, fileHdr) =>
    match fread file pos 16 with
    | none => .inl (2, [])
    | some buf =>
      let size := field buf 4 4
      if isType buf "MLVI" then
        match fread file pos (min 52 size) with
        | none => .inl (3, [])
        | some bytes =>
          let fileHdr := onto fileHdr bytes
          -- `MLV_VIDEO_CLASS_FLAG_LZMA` and `MLV_VIDEO_CLASS_FLAG_LJ92`
          if field fileHdr 32 2 &&& 0xA0 ≠ 0 then .inl (5, [])
            else .inr (pos + field fileHdr 4 4, fileHdr)
      else if isType buf "VIDF" then .inl (loadVidf file pos size blockHdr)
      else .inr (pos + size, fileHdr)

/-- `load_frame` with the frame that it loads. -/
def loadFrame (file blockHdr fileHdr : List UInt8) (fuel : ℕ) : Option (ℕ × List UInt8) :=
  loop (frameStep file blockHdr) fuel (0, fileHdr)

/-- An iteration of `load_index` at a position, with the block that was read. -/
def indexStep (file : List UInt8) :
    ℕ × Option (List UInt8) → Option (List UInt8) ⊕ (ℕ × Option (List UInt8))
  | (pos, block) =>
    match fread file pos 16 with
    | none => .inl block
    | some buf =>
      let size := field buf 4 4
      if size = 0 then .inl (if isType buf "XREF" then none else block)
      else if isType buf "XREF" then
        match fread file pos size with
        | none => .inl none -- the end of the file
        | some bytes => .inr (pos + size, some bytes)
      else .inr (pos + size, block)

def loadIndex (file : List UInt8) (fuel : ℕ) : Option (Option (List UInt8)) :=
  loop (indexStep file) fuel (0, none)

/-- A block that `load_frame` comes to from the start of the file, by the sizes of the blocks
before. -/
def Reached (file blockHdr fileHdr : List UInt8) : ℕ × List UInt8 → Prop :=
  Relation.ReflTransGen (fun s t => frameStep file blockHdr s = .inr t) (0, fileHdr)

/-- A block that is not a frame has the size 0; of a `MLVI` block this is the size in the header on
the stack, and the frames are not compressed. -/
def ZeroBlock (file : List UInt8) : ℕ × List UInt8 → Prop
  | (pos, fileHdr) => ∃ buf, fread file pos 16 = some buf ∧
    if isType buf "MLVI" then ∃ bytes, fread file pos (min 52 (field buf 4 4)) = some bytes ∧
      field (onto fileHdr bytes) 32 2 &&& 0xA0 = 0 ∧ field (onto fileHdr bytes) 4 4 = 0
    else ¬ isType buf "VIDF" ∧ field buf 4 4 = 0

section

variable {σ ρ : Type*} {next : σ → ρ ⊕ σ} {s t : σ}

/-- A loop whose measure decreases ends. -/
theorem exists_loop {R : σ → Prop} (μ : σ → ℕ) (h : ∀ s t, R s → next s = .inr t → R t ∧ μ t < μ s)
    (hs : R s) : ∃ fuel, (loop next fuel s).isSome := by
  induction hμ : μ s using Nat.strongRecOn generalizing s with
  | ind n ih =>
    cases hnext : next s with
    | inl r => exact ⟨1, by simp [loop, hnext]⟩
    | inr t =>
      obtain ⟨ht, hlt⟩ := h s t hs hnext
      obtain ⟨fuel, hfuel⟩ := ih _ (hμ ▸ hlt) ht rfl
      exact ⟨fuel + 1, by simpa [loop, hnext] using hfuel⟩

/-- A loop that comes to a state that it does not leave does not end. -/
theorem loop_eq_none (hst : Relation.ReflTransGen (fun s t => next s = .inr t) s t)
    (ht : next t = .inr t) (fuel : ℕ) : loop next fuel s = none := by
  induction fuel generalizing s with
  | zero => rfl
  | succ fuel ih =>
    rcases hst.cases_head with rfl | ⟨u, hu, hut⟩
    · simpa [loop, ht] using ih .refl
    · simpa [loop, hu] using ih hut

end

variable {file blockHdr : List UInt8} {pos pos' : ℕ} {hdr hdr' : List UInt8}

theorem lt_of_fread {size : ℕ} {bytes : List UInt8} (h : fread file pos size = some bytes) :
    pos < file.length ∧ bytes.length = size := by
  rw [fread] at h
  split_ifs at h with hsize
  cases h
  rw [List.length_take, List.length_drop]
  omega

/-- What a further iteration reads is on the stack already. -/
theorem frameStep_eq (h : frameStep file blockHdr (pos, hdr) = .inr (pos', hdr')) :
    pos < file.length ∧ pos ≤ pos' ∧ frameStep file blockHdr (pos, hdr') = .inr (pos', hdr') := by
  cases hbuf : fread file pos 16 with
  | none => simp [frameStep, hbuf] at h
  | some buf =>
    have hlt := (lt_of_fread hbuf).1
    simp only [frameStep, hbuf] at h ⊢
    split_ifs at h ⊢ with hmlvi hvidf
    · cases hbytes : fread file pos (min 52 (field buf 4 4)) with
      | none => simp [hbytes] at h
      | some bytes =>
        have honto : onto (onto hdr bytes) bytes = onto hdr bytes := by
          rw [onto, onto, List.drop_left]
        simp only [hbytes] at h ⊢
        split_ifs at h with hclass
        cases h
        rw [honto, if_neg hclass]
        exact ⟨hlt, Nat.le_add_right .., rfl⟩
    · cases h
      exact ⟨hlt, Nat.le_add_right .., rfl⟩

/-- `load_frame` stays at the same position exactly if the block there has the size 0. -/
theorem zeroBlock_iff : ZeroBlock file (pos, hdr) ↔
    ∃ hdr', frameStep file blockHdr (pos, hdr) = .inr (pos, hdr') := by
  cases hbuf : fread file pos 16 with
  | none => simp [ZeroBlock, frameStep, hbuf]
  | some buf =>
    simp only [ZeroBlock, frameStep, hbuf, Option.some.injEq, exists_eq_left']
    split_ifs with hmlvi hvidf
    · cases hbytes : fread file pos (min 52 (field buf 4 4)) with
      | none => simp
      | some bytes =>
        by_cases hclass : field (onto hdr bytes) 32 2 &&& 0xA0 = 0 <;> simp [hclass]
    all_goals
      simp [hvidf]

/-- The positions of `load_index` increase. -/
theorem indexStep_lt {s t : ℕ × Option (List UInt8)} (h : indexStep file s = .inr t) :
    s.1 < file.length ∧ s.1 < t.1 := by
  obtain ⟨pos, block⟩ := s
  cases hbuf : fread file pos 16 with
  | none => simp [indexStep, hbuf] at h
  | some buf =>
    refine ⟨(lt_of_fread hbuf).1, ?_⟩
    simp only [indexStep, hbuf] at h
    split_ifs at h with hsize hxref
    · cases hbytes : fread file pos (field buf 4 4) with
      | none => simp [hbytes] at h
      | some bytes =>
        rw [hbytes] at h
        cases h
        exact Nat.lt_add_of_pos_right (Nat.pos_of_ne_zero hsize)
    · cases h
      exact Nat.lt_add_of_pos_right (Nat.pos_of_ne_zero hsize)

/-- **The readers finish**, `load_frame` if and only if it does not come to a block of size 0. -/
theorem readers_finish_iff (file blockHdr fileHdr : List UInt8) :
    (∃ fuel, (loadIndex file fuel).isSome) ∧
      ((∃ fuel, (loadFrame file blockHdr fileHdr fuel).isSome) ↔
        ∀ s, Reached file blockHdr fileHdr s → ¬ ZeroBlock file s) := by
  refine ⟨?_, ⟨?_, fun h => ?_⟩⟩
  · refine exists_loop (R := fun _ => True) (fun s => file.length - s.1) (fun s t _ hst => ?_)
      trivial
    have := indexStep_lt hst
    exact ⟨trivial, by omega⟩
  · rintro ⟨fuel, hfuel⟩ ⟨pos, hdr⟩ hreached hzero
    obtain ⟨hdr', hstep⟩ := zeroBlock_iff.1 hzero
    rw [loadFrame, loop_eq_none (hreached.tail hstep) (frameStep_eq hstep).2.2] at hfuel
    cases hfuel
  · refine exists_loop (R := Reached file blockHdr fileHdr) (fun s => file.length - s.1)
      (fun s t hs hst => ⟨hs.tail hst, ?_⟩) .refl
    obtain ⟨hlt, hle, -⟩ := frameStep_eq hst
    have : t.1 ≠ s.1 := fun heq => h s hs (zeroBlock_iff.2 ⟨t.2, hst.trans (by rw [← heq])⟩)
    omega

/-- A block of size 0. -/
theorem loadFrame_zeros : ¬ ∃ fuel, (loadFrame (List.replicate 16 0) [] [] fuel).isSome := by
  rintro ⟨fuel, h⟩
  rw [loadFrame, loop_eq_none .refl (by decide)] at h
  cases h

end MagicLantern.MlvDump

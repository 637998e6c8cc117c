import MagicLantern.MlvLite.FrameView

/-!
# The marks of meta slots

A slot that another module has filled is marked (`is_meta`), and the recording task subtracts the
marked slots from the number of frames that it writes. Capturing a frame does not clear the mark:
that a video frame is not marked depends on its slot having been unmarked while it was free.

Source: `src/modules/raw_video/mlv_lite/mlv_lite.c`.
-/

namespace MagicLantern.MlvLite

open SlotTable

/-- The marks of the slots. -/
def marks (l : List FrameSlot) : List Bool := l.map FrameSlot.isMeta

@[simp] theorem marks_append (l l' : List FrameSlot) : marks (l ++ l') = marks l ++ marks l' :=
  List.map_append

@[simp] theorem marks_cons (s : FrameSlot) (l : List FrameSlot) :
    marks (s :: l) = s.isMeta :: marks l := by
  simp [marks]

variable {f : FrameSlot → FrameSlot}

section

variable {M : ℕ} {t t' : SlotTable} {i : ℕ} {s : FrameSlot}

theorem marks_getElem? {l l' : List FrameSlot} (h : marks l' = marks l) {s' : FrameSlot}
    (hs : l'[i]? = some s') : ∃ s, l[i]? = some s ∧ s'.isMeta = s.isMeta := by
  have hget := congrArg (·[i]?) h
  simp only [marks, List.getElem?_map, hs] at hget
  obtain ⟨s, hs, hmark⟩ := Option.map_eq_some_iff.1 hget.symm
  exact ⟨s, hs, hmark.symm⟩

theorem length_of_marks {l l' : List FrameSlot} (h : marks l' = marks l) :
    l'.length = l.length := by
  simpa [marks] using congrArg List.length h

theorem marks_modify (hf : ∀ s, (f s).isMeta = s.isMeta) :
    marks (t.modify i f).slots = marks t.slots := by
  cases hs : t.slots[i]? with
  | none =>
    have hmod : t.slots.modify i f = t.slots := by
      rw [List.modify_eq_set_getElem?, hs]
      rfl
    rw [modify_slots, hmod]
  | some s =>
    obtain ⟨a, b, hslots, -, hmod⟩ := modify_split (f := f) hs
    rw [hmod, hslots]
    simp [hf]

@[simp] theorem marks_reallocate (q p : ℕ) (r : List FrameSlot) :
    marks (reallocate M q p r).1 = marks r := by
  induction r generalizing p with
  | nil => rfl
  | cons s r ih =>
    by_cases hfits : p + M ≤ q
    · simp [reallocate, hfits, ih]
    · simp [reallocate, hfits, ih]

theorem marks_freeSlot (M : ℕ) (t : SlotTable) (i : ℕ) :
    marks (freeSlot M t i).slots = marks t.slots := by
  cases hs : t.slots[i]? with
  | none => rw [freeSlot, hs]
  | some s =>
    by_cases hsize : s.size = M
    · rw [freeSlot_of_full hs hsize]
      exact marks_modify fun _ => rfl
    · obtain ⟨a, r₁, r₂, b, p, q, hslots, -, -, -, -, hfree⟩ := freeSlot_spec hs hsize
      simp only [hfree, hslots, marks_append, marks_reallocate, marks_cons]

theorem marks_shrinkFrom (M : ℕ) (hdr : ℕ → MlvHdr) (s : FrameSlot) (n : ℕ)
    (rest : List FrameSlot) : marks (shrinkFrom M hdr s n rest).slots = marks (s :: rest) := by
  induction rest generalizing hdr s n with
  | nil =>
    rw [shrinkFrom]
    split_ifs <;> rfl
  | cons t rest ih =>
    simp only [shrinkFrom]
    split_ifs <;> simp [ih, FrameSlot.shrunk, FrameSlot.grown]

theorem marks_shrinkSlot (M : ℕ) (t : SlotTable) (i n : ℕ) :
    marks (shrinkSlot M t i n).slots = marks t.slots := by
  rw [shrinkSlot]
  cases hdrop : t.slots.drop i with
  | nil => rfl
  | cons s rest =>
    simp only [marks_append, marks_shrinkFrom]
    rw [← marks_append, ← hdrop, List.take_append_drop]

end

/-! ### Marked slots and their blocks -/

/-- The block of another module, which is not being made any more. -/
def Frame.isBlock (F : Frame) : Bool := decide (F.status ≠ .locked) && !F.isVidf

/-- The marked slots are those with the blocks of other modules. -/
def SlotTable.MarksOk (t : SlotTable) : Prop :=
  ∀ (i : ℕ) (s : FrameSlot), t.slots[i]? = some s → s.isMeta = (t.frame i).any Frame.isBlock

namespace SlotTable.MarksOk

variable {t t' : SlotTable} {i : ℕ} {s : FrameSlot} {F : Option Frame}

theorem congr (h : t.MarksOk) (hmarks : marks t'.slots = marks t.slots)
    (hframe : ∀ i, (t'.frame i).any Frame.isBlock = (t.frame i).any Frame.isBlock) :
    t'.MarksOk := by
  intro i s' hs'
  obtain ⟨s, hs, hmark⟩ := marks_getElem? hmarks hs'
  rw [hmark, h i s hs, hframe]

theorem modify (h : t.MarksOk) (hs : t.slots[i]? = some s)
    (hslots : t'.slots = (t.modify i f).slots) (hframe : t'.frame = Function.update t.frame i F)
    (hmark : (f s).isMeta = F.any Frame.isBlock) :
    t'.MarksOk := by
  intro j x hx
  rw [hslots] at hx
  rw [hframe]
  by_cases hj : j = i
  · subst hj
    rw [modify_self hs, Option.some.injEq] at hx
    rw [Function.update_self, ← hx, hmark]
  · rw [modify_of_ne hj] at hx
    rw [Function.update_of_ne hj, h j x hx]

end SlotTable.MarksOk

end MagicLantern.MlvLite

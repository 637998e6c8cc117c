import Mathlib.Tactic

/-!
# The ledger of a recording

An account of the frames of a recording in terms of what the recording is for. Each slot in use has
an entry: it is locked by another module, it holds a frame that waits, or it is being written. The
frames that have been queued are written, being written or waiting, in this order, and these are the
frames `0, 1, 2, …` of the file without gap or repetition (`Ledger.Ok.fifo`). During pre-recording,
the frames that have been captured since `firstFrame` are held back, each number once.
-/

namespace MagicLantern.MlvLite

open Function List

/-- What a slot in use is used for. -/
inductive Kind
  | locked
  /-- It holds a frame, complete or not, that is not yet being written. -/
  | pending
  | writing
deriving DecidableEq, Repr

/-- The entry of a slot in use. -/
structure Entry where
  kind : Kind
  number : ℤ
  /-- The number in the block, if it is a video frame. -/
  vidf : Option ℤ
deriving DecidableEq, Repr

/-- The account of a recording. -/
structure Ledger where
  /-- The entries of the slots in use. -/
  entry : ℕ → Option Entry
  /-- The groups of slots that are being written. -/
  groups : List (List ℕ)
  /-- The slots that wait to be written. -/
  waiting : List ℕ
  /-- The number of the next frame. -/
  frameCount : ℤ
  /-- The first frame that is held back. -/
  firstFrame : ℤ
  /-- Frames are held back. -/
  preRecording : Bool
  /-- The video frames that have been written. -/
  log : List ℤ

/-- The video frames in a list of slots. -/
def videoFrames (entry : ℕ → Option Entry) (l : List ℕ) : List ℤ :=
  l.filterMap fun i => (entry i).bind Entry.vidf

/-- The first `n` frames of a file. -/
def firstFrames (n : ℕ) : List ℤ := (List.range n).map Nat.cast

namespace Ledger

/-- The slots of the frames that have been queued and not been written. -/
def live (L : Ledger) : List ℕ := L.groups.flatten ++ L.waiting

/-- Frames are held back from `firstFrame` on. -/
def Holding (L : Ledger) : Prop := L.preRecording = true ∧ L.firstFrame ≠ 0

instance (L : Ledger) : Decidable L.Holding := inferInstanceAs (Decidable (_ ∧ _))

/-- The number of the next frame to be queued. -/
def nextQueued (L : Ledger) : ℤ := if L.Holding then L.firstFrame else L.frameCount

/-- The slots that have been queued hold different frames. -/
structure Queued (entry : ℕ → Option Entry) (groups : List (List ℕ)) (waiting : List ℕ) :
    Prop where
  nodup : (groups.flatten ++ waiting).Nodup
  waiting : ∀ i ∈ waiting, ∃ e, entry i = some e ∧ e.kind = .pending
  writing : ∀ i ∈ groups.flatten, ∃ e, entry i = some e ∧ e.kind = .writing

/-- **The account is right.** -/
structure Ok (modules : Bool) (L : Ledger) : Prop where
  queued : Queued L.entry L.groups L.waiting
  /-- A slot in use that is not queued is locked or holds a frame back. -/
  held : ∀ i e, L.entry i = some e → i ∉ L.live →
    e.kind = .locked ∨ (e.kind = .pending ∧ L.Holding ∧ L.firstFrame ≤ e.number)
  /-- Apart from the blocks of other modules there are only frames, with the same number in the
  table and in the block. -/
  video : ∀ i e, L.entry i = some e → e.kind ≠ .locked →
    (e.vidf = some (e.number - 1) ∧ e.number < L.frameCount) ∨ (modules = true ∧ e.vidf = none)
  /-- No number is missing among the frames held back. -/
  exists_held : L.Holding → ∀ n, L.firstFrame ≤ n → n < L.frameCount →
    ∃ i e, L.entry i = some e ∧ i ∉ L.live ∧ e.kind = .pending ∧ e.number = n
  /-- No two frames held back have the same number. -/
  held_inj : ∀ i j e e', L.entry i = some e → L.entry j = some e' → i ∉ L.live → j ∉ L.live →
    e.kind = .pending → e'.kind = .pending → e.number = e'.number → i = j
  /-- The frames that have been queued are the first ones of the file, in order. -/
  fifo : L.log ++ videoFrames L.entry L.live = firstFrames (L.nextQueued - 1).toNat
  first : L.Holding → 1 ≤ L.firstFrame ∧ L.firstFrame ≤ L.frameCount
  fresh : L.preRecording = true → L.firstFrame = 0 → L.frameCount ≤ 1
  mode : modules = true → L.preRecording = false

end Ledger

/-! ### Video frames -/

variable {n : ℤ}

section

variable {entry entry' : ℕ → Option Entry} {l l' : List ℕ} {i : ℕ} {e : Entry}

@[simp] theorem videoFrames_nil : videoFrames entry [] = [] := rfl

@[simp] theorem videoFrames_append :
    videoFrames entry (l ++ l') = videoFrames entry l ++ videoFrames entry l' :=
  filterMap_append

theorem videoFrames_congr (h : ∀ i ∈ l, (entry' i).bind Entry.vidf = (entry i).bind Entry.vidf) :
    videoFrames entry' l = videoFrames entry l :=
  filterMap_congr h

theorem videoFrames_update (h : i ∉ l) (e : Option Entry) :
    videoFrames (update entry i e) l = videoFrames entry l := by
  refine videoFrames_congr fun j hj => ?_
  rw [update_of_ne]
  rintro rfl
  exact h hj

theorem videoFrames_singleton (h : entry i = some e) :
    videoFrames entry [i] = e.vidf.toList := by
  simp [videoFrames, h, filterMap_cons]
  cases e.vidf <;> rfl

theorem mem_videoFrames (hi : i ∈ l) (he : entry i = some e) (hn : e.vidf = some n) :
    n ∈ videoFrames entry l :=
  mem_filterMap.2 ⟨i, hi, by simp [he, hn]⟩

theorem firstFrames_succ (n : ℕ) : firstFrames (n + 1) = firstFrames n ++ [(n : ℤ)] := by
  simp [firstFrames, range_succ]

theorem mem_firstFrames {n : ℕ} {k : ℤ} : k ∈ firstFrames n ↔ 0 ≤ k ∧ k < n := by
  simp only [firstFrames, mem_map, mem_range]
  constructor
  · omega
  · rintro ⟨hk, hkn⟩
    exact ⟨k.toNat, by omega, by omega⟩

end

/-! ### What can happen -/

namespace Ledger

/-- A frame is captured into slot `c`, and queued unless frames are held back. -/
def capture (L : Ledger) (c : ℕ) : Ledger :=
  { L with
    entry := Function.update L.entry c (some ⟨.pending, L.frameCount, some (L.frameCount - 1)⟩)
    waiting := if L.preRecording then L.waiting else L.waiting ++ [c]
    frameCount := L.frameCount + 1 }

/-- Another module takes slot `i`. -/
def lock (L : Ledger) (i : ℕ) (number : ℤ) (vidf : Option ℤ) : Ledger :=
  { L with entry := Function.update L.entry i (some ⟨.locked, number, vidf⟩) }

/-- Another module gives slot `i` back. -/
def unlock (L : Ledger) (i : ℕ) : Ledger := { L with entry := Function.update L.entry i none }

/-- Another module has a block written. -/
def releaseMeta (L : Ledger) (i : ℕ) (number : ℤ) : Ledger :=
  { L with
    entry := Function.update L.entry i (some ⟨.pending, number, none⟩)
    waiting := L.waiting ++ [i] }

/-- Frames are held back from the next one on. -/
def startPreRecording (L : Ledger) : Ledger :=
  { L with preRecording := true, firstFrame := L.frameCount }

/-- The entry of a slot after the oldest frame has been discarded. -/
def discardEntry (firstFrame : ℤ) (e : Entry) : Option Entry :=
  if e.kind = .pending then
    if e.number = firstFrame then none
    else if e.number > firstFrame then some ⟨.pending, e.number - 1, some (e.number - 1 - 1)⟩
    else some e
  else some e

/-- The oldest frame that is held back is discarded, and the later ones get new numbers. -/
def discard (L : Ledger) : Ledger :=
  { L with
    entry := fun i => (L.entry i).bind (discardEntry L.firstFrame)
    frameCount := L.frameCount - 1 }

/-- The frames held back, in the slots `js`, are queued. Then either no more frames are held back,
or they are held back from the next one on. -/
def queueHeld (L : Ledger) (js : List ℕ) (resume : Bool) : Ledger :=
  { L with
    waiting := L.waiting ++ js
    preRecording := !resume
    firstFrame := if resume then L.firstFrame else L.frameCount }

/-- The first slots `l` that wait, before `rest`, are written. -/
def pick (L : Ledger) (l rest : List ℕ) : Ledger :=
  { L with
    entry := fun i => if i ∈ l then (L.entry i).map fun e => { e with kind := .writing }
      else L.entry i
    groups := L.groups ++ [l]
    waiting := rest }

/-- The first group `l`, before `gs`, has been written. -/
def complete (L : Ledger) (l : List ℕ) (gs : List (List ℕ)) : Ledger :=
  { L with
    entry := fun i => if i ∈ l then none else L.entry i
    groups := gs
    log := L.log ++ videoFrames L.entry l }

variable {modules : Bool} {L : Ledger} {c i : ℕ} {groups : List (List ℕ)} {waiting : List ℕ}

theorem capture_of_recording (h : L.preRecording = false) : L.capture c = { L with
    entry := update L.entry c (some ⟨.pending, L.frameCount, some (L.frameCount - 1)⟩)
    waiting := L.waiting ++ [c]
    frameCount := L.frameCount + 1 } := by
  simp [capture, h]

theorem capture_of_preRecording (h : L.preRecording = true) : L.capture c = { L with
    entry := update L.entry c (some ⟨.pending, L.frameCount, some (L.frameCount - 1)⟩)
    frameCount := L.frameCount + 1 } := by
  simp [capture, h]

theorem Queued.congr {entry entry' : ℕ → Option Entry} (h : Queued entry groups waiting)
    (hsame : ∀ i ∈ groups.flatten ++ waiting, entry' i = entry i) :
    Queued entry' groups waiting := by
  refine ⟨h.nodup, fun i hi => ?_, fun i hi => ?_⟩
  · rw [hsame i (mem_append_right _ hi)]
    exact h.waiting i hi
  · rw [hsame i (mem_append_left _ hi)]
    exact h.writing i hi

theorem Queued.append {entry : ℕ → Option Entry} {js : List ℕ} (h : Queued entry groups waiting)
    (hnodup : js.Nodup) (hnew : ∀ i ∈ js, i ∉ groups.flatten ++ waiting)
    (hpending : ∀ i ∈ js, ∃ e, entry i = some e ∧ e.kind = .pending) :
    Queued entry groups (waiting ++ js) := by
  refine ⟨?_, fun i hi => ?_, h.writing⟩
  · rw [← append_assoc]
    exact nodup_append.2 ⟨h.nodup, hnodup, fun a ha b hb hab => hnew b hb (hab ▸ ha)⟩
  · rcases mem_append.1 hi with hi | hi
    · exact h.waiting i hi
    · exact hpending i hi

/-- A slot that is not in use, or is locked, is not queued. -/
theorem Ok.notMem_live (h : L.Ok modules) (hi : ∀ e, L.entry i = some e → e.kind = .locked) :
    i ∉ L.live := by
  intro hmem
  rcases mem_append.1 hmem with hmem | hmem
  · obtain ⟨e, he, hk⟩ := h.queued.writing i hmem
    simp [hi e he] at hk
  · obtain ⟨e, he, hk⟩ := h.queued.waiting i hmem
    simp [hi e he] at hk

theorem Ok.queued_update (h : L.Ok modules) (hi : i ∉ L.live) (e : Option Entry) :
    Queued (update L.entry i e) L.groups L.waiting := by
  refine h.queued.congr fun j hj => update_of_ne ?_ _ _
  rintro rfl
  exact hi hj

/-- During pre-recording there are only video frames. -/
theorem Ok.video_of_preRecording (h : L.Ok modules) (hpre : L.preRecording = true) {e : Entry}
    (he : L.entry i = some e) (hk : e.kind ≠ .locked) :
    e.vidf = some (e.number - 1) ∧ e.number < L.frameCount := by
  refine (h.video i e he hk).resolve_right fun hm => ?_
  simp [h.mode hm.1] at hpre

theorem toNat_pred_add_one (h : 1 ≤ n) : (n - 1).toNat + 1 = (n + 1 - 1).toNat := by
  omega

/-- A frame that is captured while recording is the next one of the file. -/
theorem Ok.capture_recording (h : L.Ok modules) (hc : L.entry c = none) (hcount : 1 ≤ L.frameCount)
    (hpre : L.preRecording = false) : (L.capture c).Ok modules := by
  have hnot : c ∉ L.live := h.notMem_live (by simp [hc])
  have hno : ¬ L.Holding := by simp [Holding, hpre]
  have hno' : ¬ (L.capture c).Holding := by simp [Holding, Ledger.capture, hpre]
  have hlive : (L.capture c).live = L.live ++ [c] := by simp [Ledger.capture, live, hpre]
  have hwaiting : (L.capture c).waiting = L.waiting ++ [c] := by simp [Ledger.capture, hpre]
  have hself : (L.capture c).entry c =
      some ⟨.pending, L.frameCount, some (L.frameCount - 1)⟩ := update_self ..
  have hne {j : ℕ} (hj : j ≠ c) : (L.capture c).entry j = L.entry j := update_of_ne hj ..
  have hheld := h.held
  have hvideo := h.video
  refine ⟨?_, ?_, ?_, fun h => absurd h hno', ?_, ?_, fun h => absurd h hno', ?_, ?_⟩
  · rw [hwaiting]
    refine (h.queued_update hnot _).append (nodup_singleton c)
      (forall_mem_singleton.2 hnot) ?_
    simp
  · grind
  · have hcount' : (L.capture c).frameCount = L.frameCount + 1 := rfl
    grind
  · grind
  · have hnext : L.nextQueued = L.frameCount := if_neg hno
    have hnext' : (L.capture c).nextQueued = L.frameCount + 1 := if_neg hno'
    have hfifo := h.fifo
    have hsame : videoFrames (L.capture c).entry L.live = videoFrames L.entry L.live :=
      videoFrames_update hnot _
    have hnew : ((L.frameCount - 1).toNat : ℤ) = L.frameCount - 1 := by omega
    rw [hnext] at hfifo
    rw [hlive, videoFrames_append, hsame, videoFrames_singleton hself, hnext',
      ← toNat_pred_add_one hcount, firstFrames_succ, ← hfifo, hnew, append_assoc]
    rfl
  · intro hpre'
    simp [Ledger.capture, hpre] at hpre'
  · exact fun _ => hpre

/-- A frame that is captured while frames are held back is held back. -/
theorem Ok.capture_holding (h : L.Ok modules) (hc : L.entry c = none) (hhold : L.Holding) :
    (L.capture c).Ok modules := by
  have hnot : c ∉ L.live := h.notMem_live (by simp [hc])
  have hhold' : (L.capture c).Holding := hhold
  have hwaiting : (L.capture c).waiting = L.waiting := by simp [Ledger.capture, hhold.1]
  have hlive : (L.capture c).live = L.live := by rw [live, hwaiting]; rfl
  have hcount : (L.capture c).frameCount = L.frameCount + 1 := rfl
  have hfirst' : (L.capture c).firstFrame = L.firstFrame := rfl
  have hself : (L.capture c).entry c =
      some ⟨.pending, L.frameCount, some (L.frameCount - 1)⟩ := update_self ..
  have hne {j : ℕ} (hj : j ≠ c) : (L.capture c).entry j = L.entry j := update_of_ne hj ..
  have hfirst := h.first hhold
  have hheld := h.held
  have hvideo := h.video
  refine ⟨?_, ?_, ?_, ?_, ?_, ?_, ?_, ?_, ?_⟩
  · rw [hwaiting]
    exact h.queued_update hnot _
  · grind
  · grind
  · intro _ n hn hn'
    rw [hlive]
    by_cases hlast : n = L.frameCount
    · exact ⟨c, _, hself, hnot, rfl, hlast.symm⟩
    · obtain ⟨i, e, he, hi, hk, hnum⟩ := h.exists_held hhold n hn (by omega)
      exact ⟨i, e, (hne (by grind)).trans he, hi, hk, hnum⟩
  · intro i j e e' he he' hi hj hk hk' hnum
    -- The new frame has a number that no other frame has.
    have hmode := h.mode
    have hpre := hhold.1
    have hinj := h.held_inj i j
    grind
  · have hsame : videoFrames (L.capture c).entry L.live = videoFrames L.entry L.live :=
      videoFrames_update hnot _
    have hnext : (L.capture c).nextQueued = L.nextQueued := by
      rw [nextQueued, nextQueued, if_pos hhold, if_pos hhold']
      rfl
    rw [hlive, hsame, hnext, ← h.fifo]
    rfl
  · exact fun _ => ⟨hfirst.1, by omega⟩
  · exact fun _ h0 => absurd h0 hhold.2
  · exact h.mode

theorem Ok.setUnqueued (h : L.Ok modules) (hi : ∀ e, L.entry i = some e → e.kind = .locked)
    {e : Option Entry} (he : ∀ x ∈ e, x.kind = .locked) :
    ({ L with entry := update L.entry i e } : Ledger).Ok modules := by
  have hnot : i ∉ L.live := h.notMem_live hi
  have hself : update L.entry i e i = e := update_self ..
  have hne {j : ℕ} (hj : j ≠ i) : update L.entry i e j = L.entry j :=
    update_of_ne hj ..
  refine ⟨h.queued_update hnot e, ?_, ?_, ?_, ?_, ?_, h.first, h.fresh, h.mode⟩
  · intro j x hx hj
    by_cases hji : j = i
    · subst hji
      exact .inl (he x (hself.symm.trans hx))
    · exact h.held j x ((hne hji).symm.trans hx) hj
  · intro j x hx hk
    by_cases hji : j = i
    · subst hji
      exact absurd (he x (hself.symm.trans hx)) hk
    · exact h.video j x ((hne hji).symm.trans hx) hk
  · intro hhold n hn hn'
    obtain ⟨j, x, hx, hj, hk, hnum⟩ := h.exists_held hhold n hn hn'
    refine ⟨j, x, (hne ?_).trans hx, hj, hk, hnum⟩
    rintro rfl
    simp [hi x hx] at hk
  · intro j k x x' hx hx' hj hk hx₁ hx₂
    have hji : j ≠ i := by
      rintro rfl
      simp [he x (hself.symm.trans hx)] at hx₁
    have hki : k ≠ i := by
      rintro rfl
      simp [he x' (hself.symm.trans hx')] at hx₂
    exact h.held_inj j k x x' ((hne hji).symm.trans hx) ((hne hki).symm.trans hx') hj hk hx₁ hx₂
  · have hsame : videoFrames (update L.entry i e) L.live = videoFrames L.entry L.live :=
      videoFrames_update hnot e
    exact (congrArg (L.log ++ ·) hsame).trans h.fifo

theorem Ok.lock (h : L.Ok modules) (hi : L.entry i = none) (number : ℤ) (vidf : Option ℤ) :
    (L.lock i number vidf).Ok modules :=
  h.setUnqueued (by simp [hi]) (by simp)

theorem Ok.unlock (h : L.Ok modules) {e : Entry} (hi : L.entry i = some e)
    (hk : e.kind = .locked) : (L.unlock i).Ok modules :=
  h.setUnqueued (by simp [hi, hk]) (by simp)

theorem Ok.releaseMeta (h : L.Ok true) {e : Entry} (hi : L.entry i = some e)
    (hk : e.kind = .locked) (number : ℤ) : (L.releaseMeta i number).Ok true := by
  have hnot : i ∉ L.live := h.notMem_live (by simp [hi, hk])
  have hpre := h.mode rfl
  have hno : ¬ L.Holding := by simp [Holding, hpre]
  have hno' : ¬ (L.releaseMeta i number).Holding := hno
  have hlive : (L.releaseMeta i number).live = L.live ++ [i] := by
    simp [Ledger.releaseMeta, live]
  have hself : (L.releaseMeta i number).entry i = some ⟨.pending, number, none⟩ :=
    update_self ..
  have hne {j : ℕ} (hj : j ≠ i) : (L.releaseMeta i number).entry j = L.entry j :=
    update_of_ne hj ..
  have hcount : (L.releaseMeta i number).frameCount = L.frameCount := rfl
  refine ⟨?_, ?_, ?_, fun h => absurd h hno', ?_, ?_, fun h => absurd h hno', h.fresh, h.mode⟩
  · refine (h.queued_update hnot _).append (nodup_singleton i)
      (forall_mem_singleton.2 hnot) ?_
    simp
  · intro j x hx hj
    have hheld := h.held j x
    grind
  · intro j x hx hk
    have hvideo := h.video j x
    grind
  · intro j k x x' hx hx' hj hk
    have hheld := h.held j x
    grind
  · have hsame : videoFrames (L.releaseMeta i number).entry L.live = videoFrames L.entry L.live :=
      videoFrames_update hnot _
    have hnext : (L.releaseMeta i number).nextQueued = L.nextQueued := rfl
    rw [hlive, videoFrames_append, hsame, videoFrames_singleton hself, hnext, ← h.fifo]
    simp [Ledger.releaseMeta]

theorem Ok.skipFrame (h : L.Ok modules) (hcount : L.frameCount ≤ 0) :
    ({ L with frameCount := L.frameCount + 1 } : Ledger).Ok modules := by
  have hno : ¬ L.Holding := fun hhold => by
    have := h.first hhold
    omega
  refine ⟨h.queued, h.held, fun i e he hk => ?_, fun hhold => absurd hhold hno, h.held_inj, ?_,
    fun hhold => absurd hhold hno, fun _ _ => ?_, h.mode⟩
  · refine (h.video i e he hk).imp_left fun hv => ⟨hv.1, ?_⟩
    simp only
    omega
  · have hnext : L.nextQueued = L.frameCount := if_neg hno
    have hnext' : ({ L with frameCount := L.frameCount + 1 } : Ledger).nextQueued =
        L.frameCount + 1 := if_neg hno
    have hzero : (L.frameCount + 1 - 1).toNat = (L.frameCount - 1).toNat := by omega
    rw [hnext', hzero, ← hnext]
    exact h.fifo
  · simp only
    omega

theorem Ok.startPreRecording (h : L.Ok false) (hno : ¬ L.Holding) (hcount : 1 ≤ L.frameCount) :
    L.startPreRecording.Ok false := by
  have hheld := h.held
  have hhold : L.startPreRecording.Holding := ⟨rfl, by simp [Ledger.startPreRecording]; omega⟩
  refine ⟨h.queued, ?_, h.video, ?_, ?_, ?_, ?_, ?_, by simp⟩
  · intro i e he hi
    have := hheld i e he hi
    grind
  · intro _ n hn hn'
    simp only [Ledger.startPreRecording] at hn hn'
    omega
  · exact h.held_inj
  · have hnext : L.startPreRecording.nextQueued = L.nextQueued := by
      rw [nextQueued, nextQueued, if_pos hhold, if_neg hno]
      rfl
    rw [hnext, ← h.fifo]
    rfl
  · exact fun _ => ⟨hcount, le_rfl⟩
  · exact fun _ h0 => absurd h0 hhold.2

/-- The frames in the queue come before those held back. -/
theorem Ok.number_lt (h : L.Ok modules) (hhold : L.Holding) {e : Entry} (he : L.entry i = some e)
    (hi : i ∈ L.live) : e.number < L.firstFrame := by
  have hkind : e.kind ≠ .locked := fun hk => h.notMem_live (by simp [he, hk]) hi
  obtain ⟨hvidf, -⟩ := h.video_of_preRecording hhold.1 he hkind
  have hmem : e.number - 1 ∈ L.log ++ videoFrames L.entry L.live :=
    mem_append_right _ (mem_videoFrames hi he hvidf)
  rw [h.fifo, nextQueued, if_pos hhold, mem_firstFrames] at hmem
  omega

theorem Ok.discard_entry_of_mem (h : L.Ok modules) (hhold : L.Holding) (hi : i ∈ L.live) :
    L.discard.entry i = L.entry i := by
  cases he : L.entry i with
  | none => simp [Ledger.discard, he]
  | some e =>
    have hlt := h.number_lt hhold he hi
    have h₁ : ¬ e.number = L.firstFrame := by omega
    have h₂ : ¬ e.number > L.firstFrame := by omega
    simp [Ledger.discard, he, discardEntry, h₁, h₂]

theorem Ok.discard_entry_of_notMem (h : L.Ok modules) (hi : i ∉ L.live) {e' : Entry}
    (he' : L.discard.entry i = some e') : (L.entry i = some e' ∧ e'.kind = .locked) ∨
      ∃ e, L.entry i = some e ∧ e.kind = .pending ∧ L.firstFrame < e.number ∧
        e' = ⟨.pending, e.number - 1, some (e.number - 1 - 1)⟩ := by
  obtain ⟨e, he, hdis⟩ := Option.bind_eq_some_iff.1 he'
  rcases h.held i e he hi with hk | ⟨hk, -, hle⟩
  · refine .inl ?_
    rw [discardEntry, if_neg (by simp [hk]), Option.some.injEq] at hdis
    exact hdis ▸ ⟨he, hk⟩
  · refine .inr ⟨e, he, hk, ?_⟩
    rw [discardEntry] at hdis
    split_ifs at hdis with h₁ h₂
    · exact ⟨h₂, (Option.some.inj hdis).symm⟩
    · omega

/-- The oldest frame is discarded and no other. -/
theorem Ok.discard (h : L.Ok modules) (hhold : L.Holding) (hlt : L.firstFrame < L.frameCount) :
    L.discard.Ok modules := by
  have hlive : L.discard.live = L.live := rfl
  have hhold' : L.discard.Holding := hhold
  have hfirst := h.first hhold
  have hmem {i : ℕ} (hi : i ∈ L.live) := h.discard_entry_of_mem hhold hi
  refine ⟨h.queued.congr fun i hi => hmem hi, ?_, ?_, ?_, ?_, ?_, ?_, ?_, h.mode⟩
  · intro i e' he' hi
    rcases h.discard_entry_of_notMem hi he' with ⟨-, hk⟩ | ⟨e, -, -, hnum, rfl⟩
    · exact .inl hk
    · exact .inr ⟨rfl, hhold, by simp only [Ledger.discard]; omega⟩
  · intro i e' he' hk
    by_cases hi : i ∈ L.live
    · rw [hmem hi] at he'
      have hnum := h.number_lt hhold he' hi
      refine (h.video i e' he' hk).imp_left fun hv => ⟨hv.1, ?_⟩
      simp only [Ledger.discard]
      omega
    · rcases h.discard_entry_of_notMem hi he' with ⟨-, hlocked⟩ | ⟨e, he, hpend, -, rfl⟩
      · exact absurd hlocked hk
      · obtain ⟨-, hcount⟩ := h.video_of_preRecording hhold.1 he (by simp [hpend])
        refine .inl ⟨rfl, ?_⟩
        simp only [Ledger.discard]
        omega
  · intro _ n hn hn'
    simp only [Ledger.discard] at hn hn'
    obtain ⟨i, e, he, hi, hk, hnum⟩ := h.exists_held hhold (n + 1) (by omega) (by omega)
    refine ⟨i, ⟨.pending, e.number - 1, some (e.number - 1 - 1)⟩, ?_, hi, rfl, ?_⟩
    · have h₁ : ¬ e.number = L.firstFrame := by omega
      have h₂ : e.number > L.firstFrame := by omega
      simp [Ledger.discard, he, discardEntry, hk, h₁, h₂]
    · simp only
      omega
  · intro i j e e' he he' hi hj hk hk' hnum
    rcases h.discard_entry_of_notMem hi he with ⟨-, hl⟩ | ⟨x, hx, hxk, -, rfl⟩
    · simp [hl] at hk
    rcases h.discard_entry_of_notMem hj he' with ⟨-, hl⟩ | ⟨y, hy, hyk, -, rfl⟩
    · simp [hl] at hk'
    exact h.held_inj i j x y hx hy hi hj hxk hyk (by simpa using hnum)
  · have hsame : videoFrames L.discard.entry L.live = videoFrames L.entry L.live :=
      videoFrames_congr fun i hi => by rw [hmem hi]
    have hnext : L.discard.nextQueued = L.nextQueued := by
      rw [nextQueued, nextQueued, if_pos hhold, if_pos hhold']
      rfl
    rw [hlive, hsame, hnext, ← h.fifo]
    rfl
  · exact fun _ => ⟨hfirst.1, by simp only [Ledger.discard]; omega⟩
  · exact fun _ h0 => absurd h0 hhold.2

/-- Slot `i` holds back frame `n`. -/
def HeldIn (L : Ledger) (i : ℕ) (n : ℤ) : Prop :=
  ∃ e, L.entry i = some e ∧ i ∉ L.live ∧ e.kind = .pending ∧ e.number = n

/-- The numbers of the frames held back. -/
def heldNumbers (L : Ledger) : List ℤ :=
  (List.range (L.frameCount - L.firstFrame).toNat).map fun k : ℕ => L.firstFrame + (k : ℤ)

theorem mem_heldNumbers : n ∈ L.heldNumbers ↔ L.firstFrame ≤ n ∧ n < L.frameCount := by
  simp only [heldNumbers, mem_map, mem_range]
  constructor
  · omega
  · rintro ⟨hn, hn'⟩
    exact ⟨(n - L.firstFrame).toNat, by omega, by omega⟩

theorem nodup_heldNumbers : L.heldNumbers.Nodup := by
  refine Nodup.map (fun a b hab => ?_) nodup_range
  simpa using hab

section

variable {js : List ℕ}

theorem nodup_of_heldIn {l : List ℤ} (hjs : Forall₂ L.HeldIn js l) (hl : l.Nodup) :
    js.Nodup := by
  induction hjs with
  | nil => exact nodup_nil
  | @cons i n js l hi hrest ih =>
    rw [nodup_cons] at hl ⊢
    refine ⟨fun hmem => hl.1 ?_, ih hl.2⟩
    obtain ⟨k, hk, rfl⟩ := getElem_of_mem hmem
    obtain ⟨e, he, -, -, hn⟩ := hi
    obtain ⟨e', he', -, -, hn'⟩ := forall₂_iff_get.1 hrest |>.2 k hk (hrest.length_eq ▸ hk)
    have hee : e = e' := Option.some.inj (he.symm.trans (by simpa using he'))
    have hmem' := getElem_mem (hrest.length_eq ▸ hk)
    rw [← hn, hee, hn']
    exact hmem'

theorem Ok.videoFrames_of_heldIn (h : L.Ok modules) (hpre : L.preRecording = true) {l : List ℤ}
    (hjs : Forall₂ L.HeldIn js l) : videoFrames L.entry js = l.map (· - 1) := by
  induction hjs with
  | nil => rfl
  | @cons i n js l hi hrest ih =>
    obtain ⟨e, he, -, hk, rfl⟩ := hi
    obtain ⟨hv, -⟩ := h.video_of_preRecording hpre he (by simp [hk])
    rw [← singleton_append, videoFrames_append, videoFrames_singleton he, hv, ih]
    rfl

theorem firstFrames_append_heldNumbers (h : 1 ≤ L.firstFrame) (hle : L.firstFrame ≤ L.frameCount) :
    firstFrames (L.firstFrame - 1).toNat ++ L.heldNumbers.map (· - 1) =
      firstFrames (L.frameCount - 1).toNat := by
  have hlen : (L.frameCount - 1).toNat =
      (L.firstFrame - 1).toNat + (L.frameCount - L.firstFrame).toNat := by omega
  rw [firstFrames, firstFrames, heldNumbers, hlen, range_add, map_append, map_map,
    map_map]
  congr 1
  refine map_congr_left fun k _ => ?_
  simp only [comp_apply]
  omega

/-- **Queueing the frames held back**, in the order of their numbers. -/
theorem Ok.queueHeld (h : L.Ok false) (hhold : L.Holding)
    (hjs : Forall₂ L.HeldIn js L.heldNumbers) (resume : Bool) :
    (L.queueHeld js resume).Ok false := by
  have hfirst := h.first hhold
  have hlive : (L.queueHeld js resume).live = L.live ++ js := (append_assoc _ _ _).symm
  have hmem {i : ℕ} (hi : i ∈ js) : ∃ n, L.HeldIn i n := by
    obtain ⟨k, hk, rfl⟩ := getElem_of_mem hi
    exact ⟨_, forall₂_iff_get.1 hjs |>.2 k hk (hjs.length_eq ▸ hk)⟩
  -- All frames held back are queued, so that only locked slots are left.
  have hlocked {i : ℕ} {e : Entry} (he : L.entry i = some e) (hi : i ∉ L.live ++ js) :
      e.kind = .locked := by
    rw [mem_append, not_or] at hi
    refine (h.held i e he hi.1).resolve_right fun hheld => hi.2 ?_
    obtain ⟨hk, -, hle⟩ := hheld
    obtain ⟨-, hlt⟩ := h.video_of_preRecording hhold.1 he (by simp [hk])
    obtain ⟨k, hk', hnum⟩ := getElem_of_mem (mem_heldNumbers.2 ⟨hle, hlt⟩)
    have hk'' : k < js.length := hjs.length_eq ▸ hk'
    obtain ⟨e', he', hj, hkind, hnum'⟩ := forall₂_iff_get.1 hjs |>.2 k hk'' hk'
    have hij := h.held_inj i js[k] e e' he he' hi.1 hj hk hkind
      (hnum.symm.trans hnum'.symm)
    rw [hij]
    exact getElem_mem hk''
  have hnext : (L.queueHeld js resume).nextQueued = L.frameCount := by
    cases resume with
    | true => exact if_neg (by simp [Holding, Ledger.queueHeld])
    | false =>
      refine if_pos ⟨rfl, ?_⟩
      simp only [Ledger.queueHeld, Bool.false_eq_true]
      omega
  refine ⟨?_, ?_, h.video, ?_, ?_, ?_, ?_, ?_, by simp⟩
  · refine h.queued.append (nodup_of_heldIn hjs nodup_heldNumbers) (fun i hi => ?_) fun i hi => ?_
    · obtain ⟨n, e, -, hnot, -⟩ := hmem hi
      exact hnot
    · obtain ⟨n, e, he, -, hk, -⟩ := hmem hi
      exact ⟨e, he, hk⟩
  · intro i e he hi
    rw [hlive] at hi
    exact .inl (hlocked he hi)
  · intro hhold' n hn hn'
    cases resume with
    | true => simp [Holding, Ledger.queueHeld] at hhold'
    | false =>
      simp only [Ledger.queueHeld, Bool.false_eq_true, if_false] at hn hn'
      omega
  · intro i j e e' he he' hi hj hk
    rw [hlive] at hi
    simp [hlocked he hi] at hk
  · have hfifo := h.fifo
    rw [nextQueued, if_pos hhold] at hfifo
    rw [hlive, hnext, ← firstFrames_append_heldNumbers hfirst.1 hfirst.2, ← hfifo,
      ← h.videoFrames_of_heldIn hhold.1 hjs, append_assoc, ← videoFrames_append]
    rfl
  · intro hhold'
    cases resume with
    | true => simp [Holding, Ledger.queueHeld] at hhold'
    | false =>
      simp only [Ledger.queueHeld, Bool.false_eq_true]
      omega
  · intro hpre h0
    cases resume with
    | true => simp [Ledger.queueHeld] at hpre
    | false =>
      simp only [Ledger.queueHeld, Bool.false_eq_true] at h0 ⊢
      omega

end

/-- A group is taken from the front of the queue. -/
theorem Ok.pick (h : L.Ok modules) {l rest : List ℕ} (hw : L.waiting = l ++ rest) :
    (L.pick l rest).Ok modules := by
  have hlive : (L.pick l rest).live = L.live := by
    simp [live, Ledger.pick, hw]
  have hin {i : ℕ} (hi : i ∈ l) : (L.pick l rest).entry i =
      (L.entry i).map fun e => { e with kind := .writing } := if_pos hi
  have hout {i : ℕ} (hi : i ∉ l) : (L.pick l rest).entry i = L.entry i := if_neg hi
  have hmem {i : ℕ} (hi : i ∈ l) : i ∈ L.live := by simp [live, hw, hi]
  have hnodup : (L.groups.flatten ++ (l ++ rest)).Nodup := hw ▸ h.queued.nodup
  obtain ⟨-, hnodup', hdisj⟩ := nodup_append.1 hnodup
  have hdisj' := (nodup_append.1 hnodup').2.2
  have hvidf (i : ℕ) : ((L.pick l rest).entry i).bind Entry.vidf = (L.entry i).bind Entry.vidf := by
    by_cases hi : i ∈ l
    · rw [hin hi]
      cases L.entry i <;> rfl
    · rw [hout hi]
  refine ⟨⟨?_, ?_, ?_⟩, ?_, ?_, ?_, ?_, ?_, h.first, h.fresh, h.mode⟩
  · simpa [Ledger.pick] using hnodup
  · intro i hi
    have hil : i ∉ l := fun hl => hdisj' i hl i hi rfl
    rw [hout hil]
    exact h.queued.waiting i (hw ▸ mem_append_right _ hi)
  · intro i hi
    simp only [Ledger.pick, flatten_append, flatten_singleton] at hi
    rcases mem_append.1 hi with hi | hi
    · rw [hout fun hl => hdisj i hi i (mem_append_left _ hl) rfl]
      exact h.queued.writing i hi
    · obtain ⟨e, he, -⟩ := h.queued.waiting i (hw ▸ mem_append_left _ hi)
      exact ⟨{ e with kind := .writing }, by rw [hin hi, he]; rfl, rfl⟩
  · intro i e he hi
    rw [hlive] at hi
    exact h.held i e ((hout fun hl => hi (hmem hl)).symm.trans he) hi
  · intro i e he hk
    by_cases hi : i ∈ l
    · obtain ⟨x, hx, hxk⟩ := h.queued.waiting i (hw ▸ mem_append_left _ hi)
      rw [hin hi, hx] at he
      cases he
      exact h.video i x hx (by simp [hxk])
    · exact h.video i e ((hout hi).symm.trans he) hk
  · intro hhold n hn hn'
    obtain ⟨i, e, he, hi, hk, hnum⟩ := h.exists_held hhold n hn hn'
    exact ⟨i, e, (hout fun hl => hi (hmem hl)).trans he, hlive ▸ hi, hk, hnum⟩
  · intro i j e e' he he' hi hj
    rw [hlive] at hi hj
    exact h.held_inj i j e e' ((hout fun hl => hi (hmem hl)).symm.trans he)
      ((hout fun hl => hj (hmem hl)).symm.trans he') hi hj
  · rw [hlive, videoFrames_congr fun i _ => hvidf i]
    exact h.fifo

/-- The first group has been written. -/
theorem Ok.complete (h : L.Ok modules) {l : List ℕ} {gs : List (List ℕ)}
    (hg : L.groups = l :: gs) : (L.complete l gs).Ok modules := by
  have hlive : L.live = l ++ (L.complete l gs).live := by simp [live, Ledger.complete, hg]
  have hnodup : (l ++ (L.complete l gs).live).Nodup := hlive ▸ h.queued.nodup
  obtain ⟨-, hnodup', hdisj⟩ := nodup_append.1 hnodup
  have hin {i : ℕ} (hi : i ∈ l) : (L.complete l gs).entry i = none := if_pos hi
  have hout {i : ℕ} (hi : i ∉ l) : (L.complete l gs).entry i = L.entry i := if_neg hi
  have hrest {i : ℕ} (hi : i ∈ (L.complete l gs).live) : (L.complete l gs).entry i = L.entry i :=
    hout fun hl => hdisj i hl i hi rfl
  have hold {i : ℕ} {e : Entry} (he : (L.complete l gs).entry i = some e) : L.entry i = some e := by
    rw [← he, hout]
    intro hl
    simp [hin hl] at he
  have hnot {i : ℕ} {e : Entry} (he : (L.complete l gs).entry i = some e)
      (hi : i ∉ (L.complete l gs).live) : i ∉ L.live := by
    rw [hlive, mem_append, not_or]
    refine ⟨fun hl => ?_, hi⟩
    simp [hin hl] at he
  refine ⟨⟨hnodup', ?_, ?_⟩, ?_, ?_, ?_, ?_, ?_, h.first, h.fresh, h.mode⟩
  · intro i hi
    rw [hrest (mem_append_right _ hi)]
    exact h.queued.waiting i hi
  · intro i hi
    rw [hrest (mem_append_left _ hi)]
    refine h.queued.writing i ?_
    rw [hg]
    exact mem_append_right _ hi
  · exact fun i e he hi => h.held i e (hold he) (hnot he hi)
  · exact fun i e he hk => h.video i e (hold he) hk
  · intro hhold n hn hn'
    obtain ⟨i, e, he, hi, hk, hnum⟩ := h.exists_held hhold n hn hn'
    rw [hlive, mem_append, not_or] at hi
    exact ⟨i, e, (hout hi.1).trans he, hi.2, hk, hnum⟩
  · exact fun i j e e' he he' hi hj =>
      h.held_inj i j e e' (hold he) (hold he') (hnot he hi) (hnot he' hj)
  · have hsame : videoFrames (L.complete l gs).entry (L.complete l gs).live =
        videoFrames L.entry (L.complete l gs).live :=
      videoFrames_congr fun i hi => by rw [hrest hi]
    have hlog : (L.complete l gs).log = L.log ++ videoFrames L.entry l := rfl
    have hfifo := h.fifo
    rw [hlive, videoFrames_append, ← append_assoc] at hfifo
    rw [hsame, hlog, hfifo]
    rfl

end Ledger

end MagicLantern.MlvLite

import MagicLantern.Trace.Ring

/-!
# Every line is delivered

The file, what the task has in hand, and the contents of the ring buffer are together the accepted
lines. This is kept by every step of the task, and by every call that copies its line to the free
part of the buffer and moves the position. From every state the task alone gets all accepted lines
into the file.

## Main results

* `run_delivers_iff` — when every line is delivered.
* `run_overflow`.
-/

namespace MagicLantern.Trace

open List ByteMemory RingQueue

theorem traceBufferSize_eq : traceBufferSize = 524288 := rfl

variable {w : ℕ}

namespace TraceRing

variable {s t : TraceRing} {bytes : List UInt8} {line : TraceLine} {used : ℕ} {op : TraceOp}

/-! ### The contents of the buffer -/

theorem length_content :
    s.content.length =
      (s.writePos + traceBufferSize - s.readPos % traceBufferSize) % traceBufferSize := by
  simp [content, slice]

theorem length_content_lt : s.content.length < traceBufferSize :=
  length_slice_lt (by decide) _

theorem length_content_of_lt (hr : s.readPos < traceBufferSize)
    (hw : s.writePos < traceBufferSize) : s.content.length =
      if s.readPos ≤ s.writePos then s.writePos - s.readPos
      else s.writePos + traceBufferSize - s.readPos := by
  rw [length_content]
  rw [traceBufferSize_eq] at *
  split_ifs <;> omega

theorem content_eq_nil_iff (hr : s.readPos < traceBufferSize) (hw : s.writePos < traceBufferSize) :
    s.content = [] ↔ s.readPos = s.writePos := by
  rw [← length_eq_zero_iff, length_content_of_lt hr hw]
  split_ifs <;> omega

/-- The room in the buffer, also in the middle of a step of the task. -/
theorem available_eq (hr : s.readPos ≤ traceBufferSize) (hw : s.writePos < traceBufferSize) :
    s.available =
      if s.writePos = s.readPos then 2 ^ 32 - 1 else traceBufferSize - s.content.length - 1 := by
  rw [available, length_content]
  rw [traceBufferSize_eq] at *
  split_ifs <;> omega

/-! ### The invariant -/

/-- What is known about the position for reading, and about the data that the task has copied. -/
def PhaseOk (s : TraceRing) : Prop :=
  match s.worker with
  | .fetch => s.readPos < traceBufferSize ∧ s.content ≠ []
  | .copy used =>
    s.readPos < traceBufferSize ∧ 0 < used ∧ used ≤ s.content.length ∧
      s.readPos + used ≤ traceBufferSize
  | .advance used data =>
    s.readPos < traceBufferSize ∧ 0 < used ∧ used ≤ s.content.length ∧
      s.readPos + used ≤ traceBufferSize ∧ data = s.content.take used
  | .wrap _ => s.readPos ≤ traceBufferSize
  | .finished => s.readPos < traceBufferSize ∧ s.content = []
  | _ => s.readPos < traceBufferSize

/-- The invariant. -/
structure Inv (s : TraceRing) : Prop where
  writePos_lt : s.writePos < traceBufferSize
  phase : s.PhaseOk
  delivers : s.Delivers

theorem Inv.readPos_le (h : s.Inv) : s.readPos ≤ traceBufferSize := by
  have hphase := h.phase
  rw [PhaseOk] at hphase
  split at hphase
  · exact hphase.1.le
  · exact hphase.1.le
  · exact hphase.1.le
  · exact hphase
  · exact hphase.1.le
  · exact hphase.le

/-! ### Writing a line -/

/-- The first copy of a line ends at the end of the buffer. -/
theorem Inv.commitSize_eq (h : s.Inv) {len : ℕ} (hlt : len < s.available)
    (hend : s.writePos = s.readPos → s.writePos + len ≤ traceBufferSize) :
    s.commitSize len = min len (traceBufferSize - s.writePos) := by
  have hr := h.readPos_le
  rw [commitSize]
  rw [available] at hlt
  split_ifs at hlt ⊢ <;> omega

theorem writeBytes_wrapped {N : ℕ} (hw : w < N) (hlen : bytes.length < N) (m : ByteMemory) :
    (∀ j (hj : j < bytes.length),
      writeBytes (writeBytes m w (bytes.take (min bytes.length (N - w)))) 0
        (bytes.drop (min bytes.length (N - w))) (advance N w j) = bytes[j]) ∧
    ∀ i, (∀ j < bytes.length, i ≠ advance N w j) →
      writeBytes (writeBytes m w (bytes.take (min bytes.length (N - w)))) 0
        (bytes.drop (min bytes.length (N - w))) i = m i := by
  have htake : (bytes.take (min bytes.length (N - w))).length = min bytes.length (N - w) := by
    rw [length_take]
    omega
  have hdrop : (bytes.drop (min bytes.length (N - w))).length =
      bytes.length - min bytes.length (N - w) := length_drop
  constructor
  · intro j hj
    rcases Nat.lt_or_ge (w + j) N with hlt | hge
    · rw [advance, Nat.mod_eq_of_lt hlt, writeBytes_of_notMem _ (by omega),
        writeBytes_of_mem _ (by omega) (by omega), Nat.add_sub_cancel_left,
        getD_eq_getElem _ _ (by omega), getElem_take]
    · rw [advance, Nat.mod_eq_sub_mod hge, Nat.mod_eq_of_lt (by omega),
        writeBytes_of_mem _ (Nat.zero_le _) (by omega), getD_eq_getElem _ _ (by omega),
        getElem_drop]
      congr 1
      omega
  · intro i hi
    rw [writeBytes_of_notMem, writeBytes_of_notMem]
    · by_contra! hmem
      refine hi (i - w) (by omega) ?_
      rw [advance, Nat.add_sub_cancel' hmem.1, Nat.mod_eq_of_lt (by omega)]
    · by_contra! hmem
      refine hi (i + (N - w)) (by omega) ?_
      rw [advance, show w + (i + (N - w)) = i + N by omega, Nat.add_mod_right,
        Nat.mod_eq_of_lt (by omega)]

/-- The line is behind the contents of the buffer. -/
theorem Inv.content_commit (h : s.Inv) (hlt : line.bytes.length < s.available)
    (hend : s.writePos = s.readPos → s.writePos + line.bytes.length ≤ traceBufferSize) :
    (s.commit line).content = s.content ++ line.bytes := by
  have hw := h.writePos_lt
  have hle := line.length_le
  have hroom : s.content.length + line.bytes.length < traceBufferSize := by
    have hlen := length_content_lt (s := s)
    have hlt' := hlt
    rw [available_eq h.readPos_le hw] at hlt'
    split_ifs at hlt' with heq
    · have hzero : s.content.length = 0 := by
        rw [length_content, ← heq, Nat.mod_eq_of_lt hw, Nat.add_sub_cancel_left, Nat.mod_self]
      rw [traceMaxLineLength] at hle
      rw [traceBufferSize_eq]
      omega
    · omega
  have hlen : line.bytes.length < traceBufferSize := by omega
  obtain ⟨hnew, hold⟩ := writeBytes_wrapped hw hlen s.buffer
  have hpush := slice_pushBlock (Nat.mod_lt s.readPos traceBufferSize_pos) hw hroom
    hnew hold
  simp only [commit, if_neg (Nat.not_lt.2 hlt.le), copyLine, if_pos hlt,
    h.commitSize_eq hlt hend]
  exact hpush

theorem acceptedBytes_concat {l : List TraceLine} :
    ((l ++ [line]).map TraceLine.bytes).flatten =
    (l.map TraceLine.bytes).flatten ++ line.bytes := by
  simp

/-- The copies of a line are inside of the buffer. -/
theorem Inv.copies_commit (h : s.Inv) (hlt : line.bytes.length < s.available)
    (hend : s.writePos = s.readPos → s.writePos + line.bytes.length ≤ traceBufferSize)
    (hlive : s.live = true) :
    ∀ c ∈ (s.commit line).copies, c.live = true ∧ c.start + c.length ≤ traceBufferSize := by
  have hw := h.writePos_lt
  have hle := line.length_le
  intro c hc
  simp only [commit, if_neg (Nat.not_lt.2 hlt.le), copyLine, h.commitSize_eq hlt hend] at hc
  rw [traceMaxLineLength] at hle
  rcases mem_append.1 hc with hc | hc
  · exact h.delivers.2 c hc
  · rcases mem_cons.1 hc with rfl | hc
    · refine ⟨hlive, ?_⟩
      dsimp only
      omega
    · split_ifs at hc
      · obtain rfl := mem_singleton.1 hc
        refine ⟨hlive, ?_⟩
        rw [traceBufferSize_eq] at *
        dsimp only
        omega
      · cases hc

theorem PhaseOk.append (h : s.PhaseOk) (hlive : s.live = true) (hworker : t.worker = s.worker)
    (hread : t.readPos = s.readPos) (hcontent : t.content = s.content ++ bytes) : t.PhaseOk := by
  rw [PhaseOk] at h ⊢
  rw [hworker, hread, hcontent]
  split at h
  · exact ⟨h.1, append_ne_nil_of_left_ne_nil h.2 _⟩
  · rw [length_append]
    exact ⟨h.1, h.2.1, Nat.le_add_right_of_le h.2.2.1, h.2.2.2⟩
  · rw [length_append, take_append_of_le_length h.2.2.1]
    exact ⟨h.1, h.2.1, Nat.le_add_right_of_le h.2.2.1, h.2.2.2⟩
  · exact h
  · next heq => simp [live, heq] at hlive
  · exact h

theorem commit_of_lt (hlt : line.bytes.length < s.available) :
    s.commit line = { s.copyLine line.bytes with
      writePos := (s.writePos + line.bytes.length) % traceBufferSize
      call := .ending
      accepted := s.accepted ++ [line] } := by
  simp only [TraceRing.commit, if_neg (Nat.not_lt.2 hlt.le), if_pos hlt]

theorem Inv.commit (h : s.Inv) (hlive : s.live = true) (hne : line.bytes.length ≠ s.available)
    (hend : s.writePos = s.readPos → s.writePos + line.bytes.length ≤ traceBufferSize) :
    (s.commit line).Inv := by
  rcases Nat.lt_or_ge s.available line.bytes.length with hgt | hle
  · rw [TraceRing.commit, if_pos hgt]
    exact ⟨h.writePos_lt, h.phase, h.delivers⟩
  · have hlt := Nat.lt_of_le_of_ne hle hne
    have hcontent := h.content_commit hlt hend
    have heq := commit_of_lt hlt
    refine ⟨?_, h.phase.append hlive ?_ ?_ hcontent, ?_, h.copies_commit hlt hend hlive⟩
    · rw [heq]
      exact Nat.mod_lt _ (by decide)
    · rw [heq]
      rfl
    · rw [heq]
      rfl
    · have hunwritten : (s.commit line).unwritten = s.unwritten := by
        rw [heq]
        rfl
      have hfile : (s.commit line).file = s.file := by
        rw [heq]
        rfl
      have haccepted : (s.commit line).acceptedBytes = s.acceptedBytes ++ line.bytes := by
        rw [heq]
        exact acceptedBytes_concat
      rw [hunwritten, hfile, haccepted, hcontent, ← h.delivers.1, append_assoc (s.file ++ _)]

/-! ### The task -/

section Task

variable (hr : s.readPos < traceBufferSize)
include hr

theorem fetch_spec (hw : s.writePos < traceBufferSize) (hne : s.content ≠ [])
    (hused : used = if s.writePos > s.readPos then s.writePos - s.readPos else
      traceBufferSize - s.readPos) :
    0 < used ∧ used ≤ s.content.length ∧ s.readPos + used ≤ traceBufferSize := by
  rw [Ne, content_eq_nil_iff hr hw] at hne
  rw [length_content_of_lt hr hw, hused]
  split_ifs <;> omega

theorem content_eq_slice : s.content = slice traceBufferSize s.buffer s.readPos s.writePos := by
  rw [content, Nat.mod_eq_of_lt hr]

theorem readBytes_eq_take (hle : used ≤ s.content.length)
    (hfits : s.readPos + used ≤ traceBufferSize) :
    readBytes s.buffer s.readPos used = s.content.take used := by
  rw [content_eq_slice hr] at hle ⊢
  exact (take_slice hle hfits).symm

theorem content_advance (hw : s.writePos < traceBufferSize) (hle : used ≤ s.content.length) :
    slice traceBufferSize s.buffer ((s.readPos + used) % traceBufferSize) s.writePos =
      s.content.drop used := by
  rw [content_eq_slice hr] at hle ⊢
  exact slice_drop hr hw hle

end Task

theorem Inv.worker (h : s.Inv) {written : ℕ} (hs : s.workerStep written = some t) :
    t.Inv ∧ t.accepted = s.accepted := by
  obtain ⟨hw, hphase, hstream, hcopies⟩ := h
  rw [workerStep] at hs
  rw [PhaseOk] at hphase
  rw [unwritten] at hstream
  generalize hworker : s.worker = phase at hs hphase hstream
  cases phase with
  | check =>
    dsimp only at hs
    split at hs
    · cases hs
      exact ⟨⟨hw, hphase, hstream, hcopies⟩, rfl⟩
    · next hstop =>
      cases hs
      have hempty : s.content = [] :=
        (content_eq_nil_iff hphase hw).2 (not_not.1 (not_or.1 hstop).2)
      exact ⟨⟨hw, ⟨hphase, hempty⟩, hstream, hcopies⟩, rfl⟩
  | test =>
    cases hs
    by_cases hne : s.readPos ≠ s.writePos
    · rw [if_pos hne]
      exact ⟨⟨hw, ⟨hphase, mt (content_eq_nil_iff hphase hw).1 hne⟩, hstream, hcopies⟩, rfl⟩
    · rw [if_neg hne]
      exact ⟨⟨hw, hphase, hstream, hcopies⟩, rfl⟩
  | fetch =>
    cases hs
    exact ⟨⟨hw, ⟨hphase.1, fetch_spec hphase.1 hw hphase.2 rfl⟩, hstream, hcopies⟩, rfl⟩
  | copy used =>
    cases hs
    obtain ⟨hr, hpos, hle, hfits⟩ := hphase
    refine ⟨⟨hw, ⟨hr, hpos, hle, hfits, readBytes_eq_take hr hle hfits⟩, hstream, fun c hc => ?_⟩,
      rfl⟩
    rcases mem_append.1 hc with hc | hc
    · exact hcopies c hc
    · obtain rfl := mem_singleton.1 hc
      exact ⟨by simp [live, hworker], hfits⟩
  | advance used data =>
    cases hs
    obtain ⟨hr, -, hle, hfits, rfl⟩ := hphase
    refine ⟨⟨hw, hfits, ?_, hcopies⟩, rfl⟩
    change s.file ++ s.content.take used ++ slice traceBufferSize s.buffer
      ((s.readPos + used) % traceBufferSize) s.writePos = s.acceptedBytes
    rw [content_advance hr hw hle, append_assoc]
    simpa using hstream
  | wrap data =>
    cases hs
    refine ⟨⟨hw, Nat.mod_lt _ (by decide), ?_, hcopies⟩, rfl⟩
    change s.file ++ data ++ slice traceBufferSize s.buffer
      (s.readPos % traceBufferSize % traceBufferSize) s.writePos = s.acceptedBytes
    rw [Nat.mod_mod]
    exact hstream
  | write data =>
    dsimp only at hs
    split_ifs at hs with hnil hwritten
    · cases hs
      rw [hnil] at hstream
      exact ⟨⟨hw, hphase, hstream, hcopies⟩, rfl⟩
    · cases hs
      refine ⟨⟨hw, hphase, ?_, hcopies⟩, rfl⟩
      change s.file ++ data.take written ++ data.drop written ++ s.content = s.acceptedBytes
      rw [append_assoc s.file, take_append_drop]
      exact hstream
  | wait =>
    cases hs
    exact ⟨⟨hw, hphase, hstream, hcopies⟩, rfl⟩
  | finished =>
    cases hs

/-! ### Everything is written -/

/-- How far the task is from having written everything. -/
def rank (s : TraceRing) : ℕ :=
  16 * (2 * s.content.length + s.unwritten.length) +
    match s.worker with
    | .wrap _ => 9
    | .write _ => 8
    | .wait => 7
    | .check => 6
    | .test => 5
    | .fetch => 4
    | .copy _ => 3
    | .advance _ _ => 2
    | .finished => 0

theorem Inv.progress (h : s.Inv) (hmore : s.unwritten ≠ [] ∨ s.content ≠ []) :
    ∃ written t, s.workerStep written = some t ∧ t.rank < s.rank := by
  obtain ⟨hw, hphase, -⟩ := h
  rw [PhaseOk] at hphase
  rw [unwritten] at hmore
  simp only [workerStep]
  cases hworker : s.worker with
  | check =>
    simp only [hworker] at hphase hmore
    have hne := mt (content_eq_nil_iff hphase hw).2 (hmore.resolve_left (by simp))
    refine ⟨0, _, if_pos (Or.inr hne), ?_⟩
    simp [rank, content, hworker]
  | test =>
    simp only [hworker] at hphase hmore
    have hne := mt (content_eq_nil_iff hphase hw).2 (hmore.resolve_left (by simp))
    refine ⟨0, _, rfl, ?_⟩
    simp [rank, content, hworker, hne]
  | fetch | copy =>
    refine ⟨0, _, rfl, ?_⟩
    simp [rank, content, hworker]
  | advance used data =>
    simp only [hworker] at hphase
    obtain ⟨hr, hpos, hle, -, rfl⟩ := hphase
    have hrest := congrArg length (content_advance hr hw hle)
    refine ⟨0, _, rfl, ?_⟩
    simp only [rank, content, unwritten, hworker, length_take, length_drop, length_nil]
      at hle hrest ⊢
    omega
  | wrap data =>
    simp [rank, content, hworker]
  | write data =>
    by_cases hnil : data = []
    · refine ⟨0, _, if_pos hnil, ?_⟩
      simp [rank, content, hworker, hnil]
    · have hpos : 0 < data.length := length_pos_iff.2 hnil
      refine ⟨data.length, _, (if_neg hnil).trans (if_pos ⟨hpos, le_rfl⟩), ?_⟩
      simp only [rank, content, unwritten, hworker, drop_length, length_nil]
      omega
  | wait =>
    simp [rank, content, hworker]
  | finished =>
    simp only [hworker] at hphase hmore
    exact absurd hphase.2 (hmore.resolve_left (by simp))

/-- The task alone gets all accepted lines into the file. -/
theorem Inv.flush (h : s.Inv) :
    ∃ (ws : List ℕ) (t : TraceRing), s.run (ws.map TraceOp.worker) = some t ∧
      t.accepted = s.accepted ∧ t.file = s.acceptedBytes := by
  induction hn : s.rank using Nat.strong_induction_on generalizing s with
  | _ n ih =>
    by_cases hmore : s.unwritten ≠ [] ∨ s.content ≠ []
    · obtain ⟨written, t, hstep, hlt⟩ := h.progress hmore
      obtain ⟨ht, haccepted⟩ := h.worker hstep
      obtain ⟨ws, u, hrun, haccepted', hfile⟩ := ih t.rank (hn ▸ hlt) ht rfl
      refine ⟨written :: ws, u, ?_, haccepted'.trans haccepted, ?_⟩
      · exact (congrArg (· >>= _) hstep).trans hrun
      · rw [hfile, acceptedBytes, acceptedBytes, haccepted]
    · push Not at hmore
      refine ⟨[], s, rfl, rfl, ?_⟩
      have hstream := h.delivers.1
      rwa [hmore.1, hmore.2, append_nil, append_nil] at hstream

/-! ### Other steps -/

/-- A line that is accepted without effect. -/
theorem not_delivers_of_length (h : s.Delivers) (hfile : t.file = s.file)
    (hunwritten : t.unwritten = s.unwritten) (hcontent : t.content.length = s.content.length)
    (haccepted : t.accepted = s.accepted ++ [line]) : ¬ t.Delivers := by
  rintro ⟨hstream, -⟩
  have hbytes : t.acceptedBytes = s.acceptedBytes ++ line.bytes := by
    rw [acceptedBytes, haccepted]
    exact acceptedBytes_concat
  rw [hbytes, ← h.1, hfile, hunwritten] at hstream
  have hlen := congrArg length hstream
  have hpos : 0 < line.bytes.length := length_pos_iff.2 line.ne_nil
  simp only [length_append] at hlen
  omega

/-- A call while the task is not running. -/
theorem not_delivers_vwriteBegin (h : s.Inv) (hbad : s.taskState ≠ .running) :
    ¬ (s.vwriteBegin line).Delivers := by
  rw [vwriteBegin, if_neg hbad]
  exact not_delivers_of_length h.delivers rfl rfl rfl rfl

/-- A line that is copied to a freed buffer, that fits exactly, or that is copied over the end of
the buffer. -/
theorem not_delivers_commit (h : s.Inv) (hbad : ¬ (s.live = true ∧ line.bytes.length ≠ s.available ∧
      (s.writePos = s.readPos → s.writePos + line.bytes.length ≤ traceBufferSize))) :
    ¬ (s.commit line).Delivers := by
  have hle := line.length_le
  have hw := h.writePos_lt
  rw [traceMaxLineLength] at hle
  by_cases heq : line.bytes.length = s.available
  · have hcommit : s.commit line = { s.copyLine line.bytes with
        call := .ending, accepted := s.accepted ++ [line] } := by
      simp only [TraceRing.commit, heq, Nat.lt_irrefl]
      rfl
    rw [hcommit]
    refine not_delivers_of_length h.delivers rfl rfl ?_ rfl
    rw [length_content, length_content]
    rfl
  · -- one of the copies is not right
    have hempty : s.writePos = s.readPos → s.available = 2 ^ 32 - 1 := fun hpos => by
      rw [available_eq h.readPos_le hw, if_pos hpos]
    have hpos : s.writePos = s.readPos := by
      by_contra hpos
      refine hbad ⟨?_, heq, fun hpos' => absurd hpos' hpos⟩
      by_contra hdead
      have hphase := h.phase
      have hworker : s.worker = .finished := by simpa [live] using hdead
      rw [PhaseOk, hworker] at hphase
      exact hpos ((content_eq_nil_iff hphase.1 hw).1 hphase.2).symm
    have hfits : ¬ line.bytes.length > s.available := by
      omega
    have hsize : s.commitSize line.bytes.length = line.bytes.length := by
      rw [commitSize, if_neg (by omega)]
      omega
    rintro ⟨-, hcopies⟩
    have hmem : (⟨s.writePos, line.bytes.length, s.live⟩ : Copy) ∈ (s.commit line).copies := by
      simp [TraceRing.commit, if_neg hfits, copyLine, hsize]
    obtain ⟨hlive, hinside⟩ := hcopies _ hmem
    exact hbad ⟨hlive, heq, fun _ => hinside⟩

theorem Inv.step (h : s.Inv) (hgood : op.Good s) (hs : op.step s = some t) : t.Inv := by
  cases op with
  | vwriteBegin line =>
    rw [TraceOp.step] at hs
    split at hs
    · cases hs
      rw [vwriteBegin, if_pos (show s.taskState = .running from hgood)]
      exact ⟨h.writePos_lt, h.phase, h.delivers⟩
    · cases hs
  | commit =>
    rw [TraceOp.step] at hs
    split at hs
    · next line hcall =>
      cases hs
      simp only [TraceOp.Good, hcall] at hgood
      exact h.commit hgood.1 hgood.2.1 hgood.2.2
    · cases hs
  | vwriteEnd =>
    rw [TraceOp.step] at hs
    split at hs
    · cases hs
      exact ⟨h.writePos_lt, h.phase, h.delivers⟩
    · cases hs
  | mlShutdown =>
    cases hs
    exact ⟨h.writePos_lt, h.phase, h.delivers⟩
  | worker written => exact (h.worker hs).1

theorem not_delivers_step (h : s.Inv) (hbad : ¬ op.Good s) (hs : op.step s = some t) :
    ¬ t.Delivers := by
  cases op with
  | vwriteBegin line =>
    rw [TraceOp.step] at hs
    split at hs
    · cases hs
      exact not_delivers_vwriteBegin h hbad
    · cases hs
  | commit =>
    rw [TraceOp.step] at hs
    split at hs
    · next line hcall =>
      cases hs
      simp only [TraceOp.Good, hcall] at hbad
      exact not_delivers_commit h hbad
    · cases hs
  | vwriteEnd | mlShutdown | worker => exact absurd trivial hbad

theorem Inv.init (buffer : ByteMemory) : (TraceRing.init buffer).Inv := by
  have hpos := traceBufferSize_pos
  have hempty : (TraceRing.init buffer).content = [] := (content_eq_nil_iff hpos hpos).2 rfl
  refine ⟨hpos, hpos, ?_, fun c hc => absurd hc not_mem_nil⟩
  rw [hempty]
  rfl

end TraceRing

/-- **Every line is delivered**, in the order of the calls, and all copies are inside of the buffer,
exactly if in every step the task is running when a call begins, and a line that is copied does not
fit exactly, does not go over the end of the empty buffer, and does not come after the buffer has
been freed. Then the task gets all accepted lines into the file. -/
theorem run_delivers_iff (buffer : ByteMemory) (ops : List TraceOp) (s : TraceRing)
    (hrun : (TraceRing.init buffer).run ops = some s) :
    (Runs.Always TraceOp.step TraceRing.Delivers (.init buffer) ops ↔
      Runs.Meets TraceOp.step (fun s op => op.Good s) (.init buffer) ops) ∧
    (Runs.Meets TraceOp.step (fun s op => op.Good s) (.init buffer) ops →
      ∃ (ws : List ℕ) (t : TraceRing), s.run (ws.map TraceOp.worker) = some t ∧
        t.accepted = s.accepted ∧ t.file = s.acceptedBytes) := by
  refine ⟨Runs.always_iff_meets (J := TraceRing.Inv) (fun _ h => h.delivers)
    (fun _ _ _ h hgood hs => h.step hgood hs)
    (fun _ _ _ h hbad hs => TraceRing.not_delivers_step h hbad hs) hrun (.init buffer),
    fun hmeets => ?_⟩
  exact (Runs.invariant_of_meets (fun _ _ _ h hgood hs => TraceRing.Inv.step h hgood hs) hmeets hrun
    (TraceRing.Inv.init buffer)).flush

/-! ### Runs -/

/-- A line of some bytes, at most 256. -/
def lineOf (n : ℕ) (hpos : 0 < n) (hle : n ≤ 256) : TraceLine where
  bytes := List.replicate n 120
  ne_nil := by simpa using Nat.ne_of_gt hpos
  length_le := by simpa [traceMaxLineLength] using Nat.le_succ_of_le hle

theorem length_lineOf (n : ℕ) (hpos : 0 < n) (hle : n ≤ 256) :
    (lineOf n hpos hle).bytes.length = n :=
  length_replicate

/-- All steps of a call. -/
def callOps (line : TraceLine) : List TraceOp :=
  [.vwriteBegin line, .commit, .vwriteEnd]

/-- A line is written while the task sleeps, and then it is delivered. -/
theorem run_delivers_oneLine :
    let ops := callOps (lineOf 3 (by decide) (by decide)) ++
      [.worker 0, .worker 0, .worker 0, .worker 0, .worker 0, .worker 0, .worker 3]
    ∃ s, (TraceRing.init fun _ => 0).run ops = some s ∧
      (Runs.Always TraceOp.step TraceRing.Delivers (.init fun _ => 0) ops ↔
        Runs.Meets TraceOp.step (fun s op => op.Good s) (.init fun _ => 0) ops) ∧
      (Runs.Meets TraceOp.step (fun s op => op.Good s) (.init fun _ => 0) ops →
        ∃ (ws : List ℕ) (t : TraceRing), s.run (ws.map TraceOp.worker) = some t ∧
          t.accepted = s.accepted ∧ t.file = s.acceptedBytes) :=
  ⟨_, rfl, run_delivers_iff _ _ _ rfl⟩

namespace TraceRing

variable {s t u : TraceRing}

/-- There is no call, and the task is at the beginning of its loop; `r` and `w` are the positions.
-/
structure Resting (r w : ℕ) (s : TraceRing) : Prop where
  taskState : s.taskState = .running
  readPos : s.readPos = r
  writePos : s.writePos = w
  curEntries : s.curEntries ≤ w
  mlShutdown : s.mlShutdown = false
  worker : s.worker = .check
  call : s.call = .idle

theorem run_append {as bs : List TraceOp} (hs : s.run as = some t) (ht : t.run bs = some u) :
    s.run (as ++ bs) = some u := by
  rw [TraceRing.run] at *
  rw [foldlM_append, hs]
  exact ht

theorem Resting.call_run (h : Resting 0 w s) (line : TraceLine)
    (hlt : w + line.bytes.length + 1 < traceBufferSize) :
    ∃ t, s.run (callOps line) = some t ∧ Resting 0 (w + line.bytes.length) t := by
  have hbegin : s.vwriteBegin line = { s with call := .building line } := by
    rw [vwriteBegin, if_pos h.taskState]
  have hroom : line.bytes.length < ({ s with call := .building line } : TraceRing).available := by
    rw [available]
    simp only [h.readPos, h.writePos]
    rw [traceBufferSize_eq] at *
    split_ifs <;> omega
  have hentries : ¬ s.curEntries + 1 ≥ maxEntries := by
    have := h.curEntries
    rw [maxEntries]
    rw [traceBufferSize_eq] at hlt
    omega
  refine ⟨(({ s with call := .building line } : TraceRing).commit line).vwriteEnd, ?_, ?_⟩
  · rw [TraceRing.run, callOps, foldlM_cons, TraceOp.step, h.call]
    simp only [hbegin, Option.bind_eq_bind, Option.bind_some, foldlM_cons,
      TraceOp.step, commit_of_lt hroom]
    rfl
  · rw [commit_of_lt hroom]
    refine ⟨(if_neg hentries).trans h.taskState, h.readPos, ?_, ?_, h.mlShutdown, h.worker, rfl⟩
    · simp only [h.writePos]
      exact Nat.mod_eq_of_lt (by omega)
    · have hpos : 0 < line.bytes.length := length_pos_iff.2 line.ne_nil
      exact Nat.add_le_add h.curEntries hpos

theorem Resting.calls_run (h : Resting 0 w s) (line : TraceLine) (n : ℕ)
    (hlt : w + n * line.bytes.length + 1 < traceBufferSize) :
    ∃ t, s.run (replicate n (callOps line)).flatten = some t ∧
      Resting 0 (w + n * line.bytes.length) t := by
  induction n generalizing w s with
  | zero => exact ⟨s, rfl, by simpa using h⟩
  | succ n ih =>
    rw [Nat.succ_mul] at hlt
    obtain ⟨t, hs, ht⟩ := h.call_run line (by omega)
    obtain ⟨u, ht', hu⟩ := ih ht (by omega)
    refine ⟨u, ?_, ?_⟩
    · exact run_append hs ht'
    · rwa [Nat.succ_mul, Nat.add_comm (n * _), ← Nat.add_assoc]

/-- The task writes everything and comes back to the beginning of its loop. -/
theorem Resting.flush_run (h : Resting 0 w s) (hpos : 0 < w) (hlt : w < traceBufferSize) :
    ∃ t, s.run ([0, 0, 0, 0, 0, 0, w, 0].map TraceOp.worker) = some t ∧ Resting w w t := by
  obtain ⟨hstate, hread, hwrite, hentries, hshutdown, hworker, hcall⟩ := h
  have hmod : w % traceBufferSize = w := Nat.mod_eq_of_lt hlt
  have hne : readBytes s.buffer 0 w ≠ [] := by
    rw [Ne, ← length_eq_zero_iff, length_readBytes]
    omega
  have hne' : (0 : ℕ) ≠ w := by omega
  refine ⟨{ s with
    readPos := w
    file := s.file ++ readBytes s.buffer 0 w
    copies := s.copies ++ [⟨0, w, true⟩] }, ?_, hstate, rfl, hwrite, hentries, hshutdown, hworker,
      hcall⟩
  simp [TraceRing.run, TraceOp.step, workerStep, hread, hwrite, hshutdown, hworker, hmod, hne,
    hne', hpos, live]

/-- If the buffer is empty, then a line is copied in one piece. -/
theorem Resting.empty_run (h : Resting w w s) (line : TraceLine) :
    ∃ t, s.run [.vwriteBegin line, .commit] = some t ∧
      (⟨w, line.bytes.length, true⟩ : Copy) ∈ t.copies := by
  have hbegin : s.vwriteBegin line = { s with call := .building line } := by
    rw [vwriteBegin, if_pos h.taskState]
  have hfree : ({ s with call := .building line } : TraceRing).available = 2 ^ 32 - 1 := by
    rw [available]
    simp only [h.readPos, h.writePos]
    rw [if_neg (lt_irrefl w)]
    omega
  have hle := line.length_le
  rw [traceMaxLineLength] at hle
  refine ⟨({ s with call := .building line } : TraceRing).commit line, ?_, ?_⟩
  · rw [TraceRing.run, foldlM_cons, TraceOp.step, h.call]
    simp only [hbegin, Option.bind_eq_bind, foldlM_cons]
    rfl
  · have hsize : ({ s with call := .building line } : TraceRing).commitSize line.bytes.length =
        line.bytes.length := by
      rw [commitSize]
      simp only [h.readPos, h.writePos]
      rw [if_neg (lt_irrefl w)]
      omega
    rw [commit_of_lt (by rw [hfree]; omega)]
    refine mem_append_right _ (mem_cons.2 (.inl ?_))
    rw [hsize]
    simp [live, h.writePos, h.worker]

end TraceRing

/-- 2047 lines of 256 bytes and one of 100 bytes, then the task writes all of them, and then there
is another line of 256 bytes. -/
def overflowOps : List TraceOp :=
  (List.replicate 2047 (callOps (lineOf 256 (by decide) (by decide)))).flatten ++
    (callOps (lineOf 100 (by decide) (by decide)) ++
      ([0, 0, 0, 0, 0, 0, 524132, 0].map TraceOp.worker ++
        [.vwriteBegin (lineOf 256 (by decide) (by decide)), .commit]))

/-- The last line is copied over the end of the buffer. -/
theorem run_overflow :
    ∃ s, (TraceRing.init fun _ => 0).run overflowOps = some s ∧
      (⟨524132, 256, true⟩ : Copy) ∈ s.copies ∧ traceBufferSize < 524132 + 256 ∧ ¬ s.Delivers := by
  have hinit : TraceRing.Resting 0 0 (TraceRing.init fun _ => 0) :=
    ⟨rfl, rfl, rfl, le_rfl, rfl, rfl, rfl⟩
  obtain ⟨s, hs, hrest⟩ := hinit.calls_run (lineOf 256 (by decide) (by decide)) 2047 (by
    rw [length_lineOf]
    decide)
  rw [length_lineOf] at hrest
  obtain ⟨t, ht, hrest⟩ := hrest.call_run (lineOf 100 (by decide) (by decide)) (by
    rw [length_lineOf]
    decide)
  rw [length_lineOf] at hrest
  obtain ⟨u, hu, hrest⟩ := hrest.flush_run (by decide) (by decide)
  obtain ⟨v, hv, hcopy⟩ := hrest.empty_run (lineOf 256 (by decide) (by decide))
  rw [length_lineOf] at hcopy
  have hover : traceBufferSize < 524132 + 256 := by decide
  exact ⟨v, TraceRing.run_append hs (TraceRing.run_append ht (TraceRing.run_append hu hv)), hcopy,
    hover, fun hdelivers => hover.not_ge (hdelivers.2 _ hcopy).2⟩

end MagicLantern.Trace

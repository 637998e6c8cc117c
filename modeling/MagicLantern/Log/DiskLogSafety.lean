import MagicLantern.Log.DiskLog

/-!
# What the disk log keeps

The accepted blocks are one stream of bytes. `buf_next` and `buf_written` are ends of this stream in
the ring buffer (`RingQueue.endPos`), and so is the local variable `next` of the task, which is an
end between them. From this it follows that blocks are copied behind the bytes that are not yet in
the file, and that the task writes these bytes in order.

When the task has closed the file, the file has what had been accepted when the task read `buf_next`
last. The flag of `stop_log` is tested before the task waits. A block that is accepted after the
task has read `buf_next` is lost if the flag is set before the test.

Source: `src/src/log.c`, `src/src/log.h`.

## Main results

* `run_complete_iff` — when the file has all blocks.
* `run_block_lost`.
-/

namespace MagicLantern.Log

open List RingQueue

namespace LogState

variable {s t : LogState} {buf : ℕ → UInt8} {size len done dst : ℕ} {data pre src rest : List UInt8}
  {snd : Sender} {b : UInt8} {op : LogOp}

/-! ### The invariant -/

/-- The bytes of the current block that have been copied. -/
def copied (s : LogState) : List UInt8 :=
  match s.sender with
  | none => []
  | some snd =>
    match snd.phase with
    | .copy _ src rest _ => snd.data.take (snd.data.length - (src ++ rest).length)
    | .advance _ => snd.data
    | _ => []

/-- A block is being copied to a buffer of `size` bytes, behind a stream of `len` bytes of which
`done` have been released: `pre` has been copied, and `src` and `rest` are to be copied. -/
structure CopyOk (size len done : ℕ) (data pre : List UInt8) (dst : ℕ) (src rest : List UInt8)
    (next : ℕ) : Prop where
  data_eq : data = pre ++ (src ++ rest)
  room : len + data.length < done + size
  dst_mod : dst % size = (len + pre.length) % size
  fits : dst + src.length ≤ size
  wrap : rest ≠ [] → dst + src.length = size
  next_eq : next = endPos size (len + data.length)

/-- The call has changed nothing. -/
def Unchanged (s : LogState) (snd : Sender) : Prop :=
  s.buf = snd.bufBefore ∧ s.bufNext = snd.nextBefore ∧ snd.woke = false

/-- What is known at each step of a call. -/
def SenderOk (s : LogState) (snd : Sender) : Prop :=
  match snd.phase with
  | .check => s.accepted = s.returned ∧ s.Unchanged snd
  | .copy dst src rest next =>
    s.accepted = s.returned ∧
      ∃ pre, CopyOk s.bufSize s.stream.length s.done snd.data pre dst src rest next
  | .advance next =>
    s.accepted = s.returned ∧ s.stream.length + snd.data.length < s.done + s.bufSize ∧
      next = endPos s.bufSize (s.stream.length + snd.data.length)
  | .wake => s.accepted = s.returned ++ [snd.data]
  | .give ret =>
    (ret = 0 ∧ s.accepted = s.returned ++ [snd.data]) ∨
      (ret = -3 ∧ s.accepted = s.returned ∧ s.Unchanged snd)

/-- What is known at each step of the task. -/
def TaskOk (s : LogState) : Prop :=
  match s.task with
  | .test | .wait | .fetch => s.file.length = s.seen ∧ s.done = s.seen
  | .write pos stop next again =>
    pos ≤ stop ∧ stop ≤ s.bufSize ∧ pos % s.bufSize = s.file.length % s.bufSize ∧
      s.file.length + (stop - pos) + (if again then next else 0) = s.seen ∧
      next = endPos s.bufSize s.seen ∧ (again = true → stop = s.bufSize)
  | .lock next => s.file.length = s.seen ∧ next = endPos s.bufSize s.seen
  | .update next =>
    s.file.length = s.seen ∧ next = endPos s.bufSize s.seen ∧ s.logMemSem = false ∧ s.sender = none
  | .unlock =>
    s.file.length = s.seen ∧ s.done = s.seen ∧ s.logMemSem = false ∧ s.sender = none
  | .close | .closed => s.file.length = s.seen

/-- The invariant of the log. -/
structure Inv (buf : ℕ → UInt8) (s : LogState) : Prop where
  pos : 0 < s.bufSize
  written : s.bufWritten = endPos s.bufSize s.done
  next : s.bufNext = endPos s.bufSize s.stream.length
  done_le : s.done ≤ s.file.length
  file_le : s.file.length ≤ s.seen
  seen_le : s.seen ≤ s.stream.length
  room : s.stream.length < s.done + s.bufSize
  file_eq : s.file = s.stream.take s.file.length
  holds : Holds s.bufSize s.buf (s.file.length % s.bufSize)
    (s.stream.drop s.file.length ++ s.copied)
  outside : ∀ i, s.bufSize ≤ i → s.buf i = buf i
  task : s.TaskOk
  sender : ∀ snd, s.sender = some snd → s.logMemSem = false ∧ s.SenderOk snd
  resting : s.sender = none → s.accepted = s.returned
  idle : s.stop = .idle → s.beforeStop = none
  blocks : ∀ blocks ∈ s.beforeStop, blocks <+: s.accepted

theorem Inv.returned_isPrefix (h : s.Inv buf) : s.returned <+: s.accepted := by
  cases hsender : s.sender with
  | none => rw [h.resting hsender]
  | some snd =>
    have hsnd := (h.sender snd hsender).2
    unfold SenderOk at hsnd
    split at hsnd
    · rw [hsnd.1]
    · rw [hsnd.1]
    · rw [hsnd.1]
    · exact ⟨_, hsnd.symm⟩
    · rcases hsnd with ⟨-, hsnd⟩ | ⟨-, hsnd, -⟩
      · exact ⟨_, hsnd.symm⟩
      · rw [hsnd]

theorem Inv.sender_eq_none (h : s.Inv buf) (hsem : s.logMemSem = true) : s.sender = none := by
  cases hsender : s.sender with
  | none => rfl
  | some snd => simp [(h.sender snd hsender).1] at hsem

theorem CopyOk.take_eq {next : ℕ} (h : CopyOk size len done data pre dst src rest next) :
    data.take (data.length - (src ++ rest).length) = pre := by
  rw [h.data_eq, length_append, Nat.add_sub_cancel, take_left]

theorem copied_of_copy {next : ℕ} (hsender : s.sender = some snd)
    (hphase : snd.phase = .copy dst src rest next)
    (h : CopyOk size len done snd.data pre dst src rest next) : s.copied = pre := by
  rw [copied, hsender]
  simp only [hphase]
  exact h.take_eq

theorem copied_of_advance {next : ℕ} (hsender : s.sender = some snd)
    (hphase : snd.phase = .advance next) : s.copied = snd.data := by
  rw [copied, hsender]
  simp only [hphase]

/-! ### Steps of `send_log_data` -/

/-- While a call has the semaphore, or nobody has it, the task is not where it has it. -/
theorem TaskOk.of_call (h : s.TaskOk) (hcall : s.logMemSem = true ∨ s.sender ≠ none)
    (htask : t.task = s.task) (hfile : t.file = s.file) (hseen : t.seen = s.seen)
    (hdone : t.done = s.done) (hsize : t.bufSize = s.bufSize) : t.TaskOk := by
  unfold TaskOk at h ⊢
  rw [htask, hfile, hseen, hdone, hsize]
  split at h
  · exact h
  · exact h
  · exact h
  · exact h
  · exact h
  · simp [h.2.2.1, h.2.2.2] at hcall
  · simp [h.2.2.1, h.2.2.2] at hcall
  · exact h
  · exact h

/-- **Where a block is copied.** There is not enough space, or the block fits behind the stream. -/
theorem Inv.place (h : s.Inv buf) (data : List UInt8) :
    s.place data = .give (-3) ∨ ∃ src rest next, s.place data = .copy s.bufNext src rest next ∧
      CopyOk s.bufSize s.stream.length s.done data [] s.bufNext src rest next := by
  have hcompare := endPos_compare h.pos (h.done_le.trans (h.file_le.trans h.seen_le)) h.room
  rw [← h.written, ← h.next] at hcompare
  have hnextLe : s.bufNext ≤ s.bufSize := h.next ▸ endPos_le h.pos _
  have hwrittenLe : s.bufWritten ≤ s.bufSize := h.written ▸ endPos_le h.pos _
  have hmod : s.bufNext % s.bufSize = (s.stream.length + ([] : List UInt8).length) % s.bufSize := by
    rw [h.next, endPos_mod]
    rfl
  have hadd (hle : data.length ≤ s.bufSize) : endPos s.bufSize (s.stream.length + data.length) =
      if s.bufNext + data.length ≤ s.bufSize then s.bufNext + data.length
      else s.bufNext + data.length - s.bufSize := by
    rw [endPos_add h.pos hle, ← h.next]
  unfold LogState.place
  simp only
  split_ifs with hge havail hunwrap hremaining havail
  · exact .inl rfl
  · refine .inr ⟨data, [], _, rfl, by simp, by omega, hmod, by omega, by simp, ?_⟩
    rw [hadd (by omega), if_pos (by omega)]
  · refine .inr ⟨_, _, _, rfl, by simp, by omega, hmod, ?_, fun _ => ?_, ?_⟩
    · rw [length_take]
      omega
    · rw [length_take]
      omega
    · rw [hadd (by omega), if_neg (by omega)]
      omega
  · refine .inr ⟨_, _, _, rfl, by simp, by omega, hmod, ?_, fun _ => ?_, ?_⟩
    · rw [length_take]
      omega
    · rw [length_take]
      omega
    · rw [hadd (by omega), if_pos (by omega)]
      omega
  · exact .inl rfl
  · refine .inr ⟨data, [], _, rfl, by simp, by omega, hmod, by omega, by simp, ?_⟩
    rw [hadd (by omega), if_pos (by omega)]

/-- The next byte goes behind the stream and the bytes copied before. -/
theorem CopyOk.dst_eq {next : ℕ}
    (h : CopyOk s.bufSize s.stream.length s.done data pre dst (b :: src) rest next)
    (hinv : s.Inv buf) :
    dst = advance s.bufSize (s.file.length % s.bufSize)
      (s.stream.drop s.file.length ++ pre).length := by
  have hfits := h.fits
  have hlen : s.file.length ≤ s.stream.length := hinv.file_le.trans hinv.seen_le
  rw [length_cons] at hfits
  rw [advance, Nat.mod_add_mod, length_append, length_drop, ← Nat.add_assoc,
    Nat.add_sub_cancel' hlen, ← h.dst_mod, Nat.mod_eq_of_lt (by omega)]

theorem CopyOk.length_lt {next : ℕ}
    (h : CopyOk s.bufSize s.stream.length s.done data pre dst (b :: src) rest next)
    (hinv : s.Inv buf) : (s.stream.drop s.file.length ++ pre).length < s.bufSize := by
  have hroom := h.room
  have hdone := hinv.done_le
  have hfile := hinv.file_le.trans hinv.seen_le
  have hlen := congrArg length h.data_eq
  simp only [length_append] at hlen
  rw [length_append, length_drop]
  omega

theorem CopyOk.next {next : ℕ} (h : CopyOk size len done data pre dst (b :: src) rest next) :
    CopyOk size len done data (pre ++ [b]) (dst + 1) src rest next where
  __ := h
  data_eq := by simpa using h.data_eq
  dst_mod := by
    rw [length_append]
    exact Nat.ModEq.add_right 1 h.dst_mod
  fits := by
    have hfits := h.fits
    rw [length_cons] at hfits
    omega
  wrap hrest := by
    have hwrap := h.wrap hrest
    rw [length_cons] at hwrap
    omega

/-- The part before the end of the buffer has been copied. -/
theorem CopyOk.again {next : ℕ} (h : CopyOk size len done data pre dst [] rest next)
    (hrest : rest ≠ []) (hle : done ≤ len) :
    CopyOk size len done data pre 0 rest [] next where
  __ := h
  data_eq := by simpa using h.data_eq
  dst_mod := by
    have hwrap : dst = size := h.wrap hrest
    rw [Nat.zero_mod, ← h.dst_mod, hwrap, Nat.mod_self]
  fits := by
    have hroom := h.room
    have hlen := congrArg length h.data_eq
    simp only [length_append, length_nil] at hlen
    omega
  wrap hnil := absurd rfl hnil

theorem Inv.send (h : s.Inv buf) (ht : s.sendEnter data = .ok t) : t.Inv buf := by
  unfold sendEnter at ht
  split_ifs at ht with hsize hsem
  obtain rfl := Except.ok.inj ht
  have hsem : s.logMemSem = true := by simpa using hsem
  have hnone := h.sender_eq_none hsem
  have hcopied : s.copied = [] := by rw [copied, hnone]
  refine { h with
    holds := ?_
    task := h.task.of_call (.inl hsem) rfl rfl rfl rfl rfl
    sender := ?_
    resting := fun hsender => by simp at hsender }
  · have hholds := h.holds
    rw [hcopied] at hholds
    exact hholds
  · rintro snd hsnd
    cases hsnd
    exact ⟨rfl, h.resting hnone, rfl, rfl, rfl⟩

section

variable (h : s.Inv buf) (hsender : s.sender = some snd)

include h hsender

theorem Inv.sendCopy {next : ℕ} (hphase : snd.phase = .copy dst (b :: src) rest next) :
    Inv buf { s with
      buf := Function.update s.buf dst b
      sender := some { snd with phase := .copy (dst + 1) src rest next } } := by
  obtain ⟨hsem, hok⟩ := h.sender snd hsender
  unfold SenderOk at hok
  rw [hphase] at hok
  obtain ⟨hreturned, pre, hcopy⟩ := hok
  have hholds := h.holds
  rw [copied_of_copy hsender hphase hcopy] at hholds
  have hcopy' : CopyOk s.bufSize s.stream.length s.done snd.data (pre ++ [b]) (dst + 1) src rest
      next := hcopy.next
  refine { h with
    holds := ?_
    outside := fun i hi => ?_
    task := h.task.of_call (.inr (by simp [hsender])) rfl rfl rfl rfl rfl
    sender := ?_
    resting := fun hnone => by simp at hnone }
  · have hpush := hholds.push (Nat.mod_lt _ h.pos) (hcopy.length_lt h) b
    rw [← hcopy.dst_eq h, append_assoc] at hpush
    change Holds s.bufSize _ _ (s.stream.drop s.file.length ++
      snd.data.take (snd.data.length - (src ++ rest).length))
    rw [hcopy'.take_eq]
    exact hpush
  · have hfits := hcopy.fits
    rw [length_cons] at hfits
    exact (Function.update_of_ne (by change s.bufSize ≤ i at hi; omega) _ _).trans (h.outside i hi)
  · rintro snd' hsnd'
    cases hsnd'
    exact ⟨hsem, hreturned, pre ++ [b], hcopy'⟩

theorem Inv.sendPhase {snd' : Sender} {diskSem : Bool} {copied' : List UInt8}
    (hcopied : s.copied = copied') (hcopied' : { s with sender := some snd' }.copied = copied')
    (hok : SenderOk { s with logDiskSem := diskSem, sender := some snd' } snd') :
    Inv buf { s with logDiskSem := diskSem, sender := some snd' } := by
  refine { h with
    holds := ?_
    task := h.task.of_call (.inr (by simp [hsender])) rfl rfl rfl rfl rfl
    sender := ?_
    resting := fun hnone => by simp at hnone }
  · have hholds := h.holds
    rw [hcopied, ← hcopied'] at hholds
    exact hholds
  · rintro snd'' hsnd''
    cases hsnd''
    exact ⟨(h.sender snd hsender).1, hok⟩

theorem Inv.sendAdvance {next : ℕ} (hphase : snd.phase = .advance next) :
    Inv buf { s with
      bufNext := next
      accepted := s.accepted ++ [snd.data]
      sender := some { snd with phase := .wake } } := by
  obtain ⟨hsem, hok⟩ := h.sender snd hsender
  unfold SenderOk at hok
  rw [hphase] at hok
  obtain ⟨hreturned, hroom, hnext⟩ := hok
  have hlen : s.file.length ≤ s.stream.length := h.file_le.trans h.seen_le
  have hstream : (s.accepted ++ [snd.data]).flatten = s.stream ++ snd.data := by simp [stream]
  have hlength : (s.accepted ++ [snd.data]).flatten.length =
      s.stream.length + snd.data.length := by
    rw [hstream, length_append]
  exact {
    h with
    next := by
      change next = endPos s.bufSize (s.accepted ++ [snd.data]).flatten.length
      rw [hlength, hnext]
    seen_le := by
      change s.seen ≤ (s.accepted ++ [snd.data]).flatten.length
      have := h.seen_le
      omega
    room := by
      change (s.accepted ++ [snd.data]).flatten.length < s.done + s.bufSize
      omega
    file_eq := by
      change s.file = (s.accepted ++ [snd.data]).flatten.take s.file.length
      rw [hstream, take_append_of_le_length hlen]
      exact h.file_eq
    holds := by
      have hholds := h.holds
      rw [copied_of_advance hsender hphase] at hholds
      change Holds s.bufSize s.buf _ ((s.accepted ++ [snd.data]).flatten.drop s.file.length ++ [])
      rwa [hstream, drop_append_of_le_length hlen, append_nil]
    task := h.task.of_call (.inr (by simp [hsender])) rfl rfl rfl rfl rfl
    sender := by
      rintro snd' hsnd'
      cases hsnd'
      exact ⟨hsem, congrArg (· ++ [snd.data]) hreturned⟩
    resting := fun hnone => by simp at hnone
    blocks := fun blocks hblocks => (h.blocks blocks hblocks).trans (prefix_append _ _) }

theorem Inv.sendGive {ret : ℤ} (hphase : snd.phase = .give ret) :
    Inv buf { s with
      logMemSem := true
      sender := none
      returned := if ret = 0 then s.returned ++ [snd.data] else s.returned } := by
  have hok := (h.sender snd hsender).2
  unfold SenderOk at hok
  rw [hphase] at hok
  have hcopied : s.copied = [] := by
    rw [copied, hsender]
    simp only [hphase]
  refine { h with
    holds := ?_
    task := h.task.of_call (.inr (by simp [hsender])) rfl rfl rfl rfl rfl
    sender := fun snd' hsnd' => by simp at hsnd'
    resting := fun _ => ?_ }
  · have hholds := h.holds
    rw [hcopied] at hholds
    exact hholds
  · rcases hok with ⟨rfl, hok⟩ | ⟨rfl, hok, -⟩
    · exact hok
    · exact hok

theorem Inv.sendStep : (s.sendStep snd).Inv buf := by
  have hok := (h.sender snd hsender).2
  unfold SenderOk at hok
  unfold LogState.sendStep
  split
  next hphase =>
    rw [hphase] at hok
    have hcopied : s.copied = [] := by
      rw [copied, hsender]
      simp only [hphase]
    rcases h.place snd.data with hplace | ⟨src, rest, next, hplace, hcopy⟩
    · rw [hplace]
      exact h.sendPhase hsender hcopied rfl (.inr ⟨rfl, hok⟩)
    · rw [hplace]
      exact h.sendPhase hsender hcopied hcopy.take_eq ⟨hok.1, [], hcopy⟩
  next hphase => exact h.sendCopy hsender hphase
  next hphase =>
    rw [hphase] at hok
    obtain ⟨hreturned, pre, hcopy⟩ := hok
    have hdata : snd.data = pre := by simpa using hcopy.data_eq
    exact h.sendPhase hsender (copied_of_copy hsender hphase hcopy) hdata
      ⟨hreturned, hcopy.room, hcopy.next_eq⟩
  next dst rest next hne hphase =>
    rw [hphase] at hok
    obtain ⟨hreturned, pre, hcopy⟩ := hok
    have hcopy' := hcopy.again (by simpa using hne) (h.done_le.trans (h.file_le.trans h.seen_le))
    exact h.sendPhase hsender (copied_of_copy hsender hphase hcopy) hcopy'.take_eq
      ⟨hreturned, pre, hcopy'⟩
  next hphase => exact h.sendAdvance hsender hphase
  next hphase =>
    rw [hphase] at hok
    have hcopied : s.copied = [] := by
      rw [copied, hsender]
      simp only [hphase]
    split_ifs
    all_goals exact h.sendPhase hsender hcopied rfl (.inl ⟨rfl, hok⟩)
  next hphase => exact h.sendGive hsender hphase

end

/-! ### Steps of the task -/

theorem Inv.fetch (h : s.Inv buf) (htask : s.task = .fetch) :
    Inv buf { s with
      seen := s.stream.length
      task :=
        if s.bufNext = s.bufWritten then .test
        else if s.bufNext > s.bufWritten then .write s.bufWritten s.bufNext s.bufNext false
        else .write s.bufWritten s.bufSize s.bufNext true } := by
  have hok := h.task
  unfold TaskOk at hok
  rw [htask] at hok
  obtain ⟨hfile, hdone⟩ := hok
  have hcompare := endPos_compare h.pos (h.done_le.trans (h.file_le.trans h.seen_le)) h.room
  rw [← h.written, ← h.next] at hcompare
  have hnextLe : s.bufNext ≤ s.bufSize := h.next ▸ endPos_le h.pos _
  have hwrittenLe : s.bufWritten ≤ s.bufSize := h.written ▸ endPos_le h.pos _
  have hmod : s.bufWritten % s.bufSize = s.file.length % s.bufSize := by
    rw [h.written, endPos_mod, hdone, hfile]
  refine { h with file_le := h.file_le.trans h.seen_le, seen_le := le_rfl, task := ?_ }
  split_ifs with heq hgt
  · change s.file.length = s.stream.length ∧ s.done = s.stream.length
    omega
  · change _ ∧ _ ∧ _ ∧ s.file.length + (s.bufNext - s.bufWritten) + 0 = s.stream.length ∧ _ ∧ _
    exact ⟨hgt.le, hnextLe, hmod, by omega, h.next, by simp⟩
  · change _ ∧ _ ∧ _ ∧
      s.file.length + (s.bufSize - s.bufWritten) + s.bufNext = s.stream.length ∧ _ ∧ _
    exact ⟨hwrittenLe, le_rfl, hmod, by omega, h.next, fun _ => rfl⟩

/-- The task writes the next byte of the stream. -/
theorem Inv.writeByte (h : s.Inv buf) {pos stop next : ℕ} {again : Bool}
    (htask : s.task = .write pos stop next again) (hlt : pos < stop) :
    Inv buf { s with
      file := s.file ++ [s.buf pos]
      task := .write (pos + 1) stop next again } := by
  have hok := h.task
  unfold TaskOk at hok
  rw [htask] at hok
  obtain ⟨-, hstop, hmod, hseen, hnext, hagain⟩ := hok
  have hpos : pos = s.file.length % s.bufSize := by
    rw [← hmod, Nat.mod_eq_of_lt (by omega)]
  have hfile : s.file.length < s.seen := by omega
  have hstream : s.file.length < s.stream.length := hfile.trans_le h.seen_le
  have hholds := h.holds
  rw [drop_eq_getElem_cons hstream, cons_append, holds_cons, ← hpos] at hholds
  have hlength : (s.file ++ [s.buf pos]).length = s.file.length + 1 := length_append
  have hstep : advance s.bufSize pos 1 = (s.file.length + 1) % s.bufSize := by
    rw [advance, hpos, Nat.mod_add_mod]
  exact {
    h with
    done_le := by
      change s.done ≤ (s.file ++ [s.buf pos]).length
      have := h.done_le
      omega
    file_le := by
      change (s.file ++ [s.buf pos]).length ≤ s.seen
      omega
    file_eq := by
      change s.file ++ [s.buf pos] = s.stream.take (s.file ++ [s.buf pos]).length
      rw [hlength, take_succ_eq_append_getElem hstream, ← h.file_eq, hholds.1]
    holds := by
      rw [hlength, ← hstep]
      exact hholds.2
    task := by
      change pos + 1 ≤ stop ∧ stop ≤ s.bufSize ∧
        (pos + 1) % s.bufSize = (s.file ++ [s.buf pos]).length % s.bufSize ∧
        (s.file ++ [s.buf pos]).length + (stop - (pos + 1)) + (if again then next else 0) = s.seen ∧
        next = endPos s.bufSize s.seen ∧ (again = true → stop = s.bufSize)
      refine ⟨hlt, hstop, ?_, by omega, hnext, hagain⟩
      rw [hlength]
      exact Nat.ModEq.add_right 1 hmod }

theorem Inv.taskStep (h : s.Inv buf) (ht : s.taskStep = some t) : t.Inv buf := by
  have hok := h.task
  unfold TaskOk at hok
  unfold LogState.taskStep at ht
  generalize htask : s.task = task at hok ht
  cases task with
  | test =>
    cases ht
    refine { h with task := ?_ }
    unfold TaskOk
    split_ifs
    · exact hok.1
    · exact hok
  | wait =>
    dsimp only at ht
    split_ifs at ht
    cases ht
    exact { h with task := hok }
  | fetch =>
    cases ht
    exact h.fetch htask
  | write pos stop next again =>
    dsimp only at ht
    split_ifs at ht with hlt hagain
    · cases ht
      exact h.writeByte htask hlt
    · cases ht
      obtain ⟨hle, -, hmod, hseen, hnext, hstop⟩ := hok
      -- The first part ends at the end of the buffer, and the second one begins at its start.
      have hpos : pos = s.bufSize := by
        have := hstop hagain
        omega
      rw [hpos, Nat.mod_self] at hmod
      rw [if_pos hagain] at hseen
      refine { h with task := ⟨Nat.zero_le _, hnext ▸ endPos_le h.pos _, ?_, ?_, hnext, by simp⟩ }
      · exact hmod
      · change s.file.length + (next - 0) + 0 = s.seen
        omega
    · cases ht
      obtain ⟨hle, -, -, hseen, hnext, -⟩ := hok
      rw [if_neg hagain] at hseen
      exact { h with task := ⟨by change s.file.length = s.seen; omega, hnext⟩ }
  | lock next =>
    dsimp only at ht
    split_ifs at ht with hsem
    cases ht
    have hnone := h.sender_eq_none hsem
    exact { h with
      task := ⟨hok.1, hok.2, rfl, hnone⟩
      sender := fun snd hsnd => ⟨rfl, (h.sender snd hsnd).2⟩ }
  | update next =>
    cases ht
    obtain ⟨hfile, hnext, hsem, hnone⟩ := hok
    have hroom := h.room
    have hdone := h.done_le
    exact { h with
      written := hnext
      done_le := hfile.ge
      room := by
        change s.stream.length < s.seen + s.bufSize
        omega
      task := ⟨hfile, rfl, hsem, hnone⟩
      sender := fun snd hsnd => by simp [hnone] at hsnd }
  | unlock =>
    cases ht
    obtain ⟨hfile, hdone, -, hnone⟩ := hok
    exact { h with
      task := ⟨hfile, hdone⟩
      sender := fun snd hsnd => by simp [hnone] at hsnd }
  | close =>
    cases ht
    exact { h with task := hok }
  | closed => cases ht

/-! ### Runs -/

theorem Inv.step (h : s.Inv buf) (ht : op.step s = some t) : t.Inv buf := by
  cases op with
  | send data =>
    simp only [LogOp.step] at ht
    split at ht
    · cases ht
      exact h
    · next hsend =>
      cases ht
      exact h.send hsend
  | sendStep =>
    obtain ⟨snd, hsender, rfl⟩ := Option.map_eq_some_iff.1 ht
    exact h.sendStep hsender
  | task => exact h.taskStep ht
  | stopFlag =>
    simp only [LogOp.step] at ht
    split_ifs at ht
    cases ht
    refine { h with idle := fun hidle => by simp at hidle, blocks := ?_ }
    rintro blocks hblocks
    cases hblocks
    exact h.returned_isPrefix
  | stopGive =>
    simp only [LogOp.step] at ht
    split_ifs at ht
    cases ht
    exact { h with idle := fun hidle => by simp at hidle }

theorem Inv.init (hs : initLog buf size = some s) : s.Inv buf := by
  unfold initLog at hs
  split_ifs at hs with hsize
  cases hs
  have hpos : 0 < size := lt_of_lt_of_le (by decide) hsize
  exact {
    pos := hpos
    written := rfl
    next := rfl
    done_le := le_rfl
    file_le := le_rfl
    seen_le := le_rfl
    room := by
      change 0 < 0 + size
      omega
    file_eq := rfl
    holds := trivial
    outside := fun _ _ => rfl
    task := ⟨rfl, rfl⟩
    sender := fun snd hsnd => by simp at hsnd
    resting := fun _ => rfl
    idle := fun _ => rfl
    blocks := fun blocks hblocks => by simp at hblocks }

theorem Inv.safe (h : s.Inv buf) : s.Safe buf where
  file_order := h.file_eq ▸ take_prefix _ _
  unwritten := ((holds_append (Nat.mod_lt _ h.pos)).1 h.holds).1
  copies := by
    intro snd dst b src rest next hsender hphase
    have hok := (h.sender snd hsender).2
    unfold SenderOk at hok
    rw [hphase] at hok
    obtain ⟨-, pre, hcopy⟩ := hok
    refine ⟨?_, fun t hle hlt heq => ?_⟩
    · have hfits := hcopy.fits
      rw [length_cons] at hfits
      omega
    · -- Byte `t` of the stream is one of the entries before the one that is written.
      have hlength := hcopy.length_lt h
      have hpos : advance s.bufSize (s.file.length % s.bufSize) (t - s.file.length) =
          t % s.bufSize := by
        rw [advance, Nat.mod_add_mod, Nat.add_sub_cancel' hle]
      rw [hcopy.dst_eq h, ← hpos] at heq
      rw [length_append, length_drop] at heq hlength
      have hinj := advance_inj hlength (by omega) heq
      omega
  reads := by
    intro pos stop next again htask hlt
    have hok := h.task
    unfold TaskOk at hok
    rw [htask] at hok
    exact hlt.trans_le hok.2.1
  outside := h.outside
  refused := by
    intro snd ret hsender hphase hneg
    have hok := (h.sender snd hsender).2
    unfold SenderOk at hok
    rw [hphase] at hok
    rcases hok with ⟨rfl, -⟩ | ⟨-, -, hunchanged⟩
    · exact absurd hneg (lt_irrefl 0)
    · exact hunchanged

/-! ### Stopping -/

/-- After `stop_log` was called, the task will read `buf_next`, or has read it late enough. -/
def InTime (s : LogState) : Prop :=
  ∀ blocks ∈ s.beforeStop, s.task = .wait ∨ s.task = .fetch ∨ blocks.flatten.length ≤ s.seen

/-- `stop_log` was called, and the task will not read `buf_next` again. -/
def Late (s : LogState) : Prop :=
  s.stopLogging = true ∧
    ∃ blocks ∈ s.beforeStop, s.task ≠ .wait ∧ s.task ≠ .fetch ∧ s.seen < blocks.flatten.length

theorem sendStep_task (snd : Sender) : (s.sendStep snd).task = s.task ∧
    (s.sendStep snd).seen = s.seen ∧ (s.sendStep snd).beforeStop = s.beforeStop ∧
    (s.sendStep snd).stopLogging = s.stopLogging := by
  unfold LogState.sendStep
  split
  case h_6 => split_ifs <;> exact ⟨rfl, rfl, rfl, rfl⟩
  all_goals exact ⟨rfl, rfl, rfl, rfl⟩

theorem sendEnter_task (ht : s.sendEnter data = .ok t) : t.task = s.task ∧
    t.seen = s.seen ∧ t.beforeStop = s.beforeStop ∧ t.stopLogging = s.stopLogging := by
  unfold sendEnter at ht
  split_ifs at ht
  obtain rfl := Except.ok.inj ht
  exact ⟨rfl, rfl, rfl, rfl⟩

/-- What a step of the task means for the last time it reads `buf_next`. -/
theorem taskStep_cases (ht : s.taskStep = some t) :
    t.beforeStop = s.beforeStop ∧ t.stopLogging = s.stopLogging ∧
      ((s.task = .wait ∧ t.task = .fetch ∧ t.seen = s.seen) ∨
        (s.task = .fetch ∧ t.seen = s.stream.length) ∨
        (s.task = .test ∧ s.stopLogging = false ∧ t.task = .wait ∧ t.seen = s.seen) ∨
        (s.task ≠ .wait ∧ s.task ≠ .fetch ∧ t.task ≠ .wait ∧ t.task ≠ .fetch ∧
          t.seen = s.seen)) := by
  unfold LogState.taskStep at ht
  cases htask : s.task with
  | test =>
    rw [htask] at ht
    cases ht
    cases s.stopLogging <;> simp
  | fetch | update | unlock | close =>
    rw [htask] at ht
    cases ht
    simp
  | wait | write | lock =>
    simp only [htask] at ht
    split_ifs at ht
    all_goals
      cases ht
      simp
  | closed =>
    rw [htask] at ht
    cases ht

theorem step_cases (ht : op.step s = some t) :
    op = .stopFlag ∨ (op = .task ∧ s.taskStep = some t) ∨
      (t.task = s.task ∧ t.seen = s.seen ∧ t.beforeStop = s.beforeStop ∧
        t.stopLogging = s.stopLogging) := by
  cases op with
  | send data =>
    simp only [LogOp.step] at ht
    split at ht
    · cases ht
      exact .inr (.inr ⟨rfl, rfl, rfl, rfl⟩)
    · next hsend =>
      cases ht
      exact .inr (.inr (sendEnter_task hsend))
  | sendStep =>
    obtain ⟨snd, -, rfl⟩ := Option.map_eq_some_iff.1 ht
    exact .inr (.inr (sendStep_task snd))
  | task => exact .inr (.inl ⟨rfl, ht⟩)
  | stopFlag => exact .inl rfl
  | stopGive =>
    simp only [LogOp.step] at ht
    split_ifs at ht
    cases ht
    exact .inr (.inr ⟨rfl, rfl, rfl, rfl⟩)

theorem InTime.step (h : s.InTime) (hinv : s.Inv buf) (hgood : op.StopsInTime s)
    (ht : op.step s = some t) : t.InTime := by
  rcases step_cases ht with rfl | ⟨rfl, htask⟩ | ⟨htask, hseen, hbefore, -⟩
  · simp only [LogOp.step] at ht
    split_ifs at ht
    cases ht
    intro blocks hblocks
    cases hblocks
    exact hgood
  · obtain ⟨hbefore, -, hcases⟩ := taskStep_cases htask
    intro blocks hblocks
    rw [hbefore] at hblocks
    have hblocksLe : blocks.flatten.length ≤ s.stream.length :=
      ((hinv.blocks blocks hblocks).flatten).length_le
    rcases hcases with ⟨-, hfetch, -⟩ | ⟨-, hseen⟩ | ⟨-, -, hwait, -⟩ | ⟨hwait, hfetch, -, -, hseen⟩
    · exact .inr (.inl hfetch)
    · exact .inr (.inr (hseen ▸ hblocksLe))
    · exact .inl hwait
    · rcases h blocks hblocks with hold | hold | hold
      · exact absurd hold hwait
      · exact absurd hold hfetch
      · exact .inr (.inr (hseen ▸ hold))
  · intro blocks hblocks
    rw [hbefore] at hblocks
    rw [htask, hseen]
    exact h blocks hblocks

theorem Late.step (h : s.Late) (hinv : s.Inv buf) (ht : op.step s = some t) : t.Late := by
  obtain ⟨hstop, blocks, hblocks, hwait, hfetch, hlt⟩ := h
  rcases step_cases ht with rfl | ⟨rfl, htask⟩ | ⟨htask, hseen, hbefore, hstopLogging⟩
  · simp only [LogOp.step] at ht
    split_ifs at ht with hidle
    simp [hinv.idle hidle] at hblocks
  · obtain ⟨hbefore, hstopLogging, hcases⟩ := taskStep_cases htask
    rcases hcases with ⟨hold, -, -⟩ | ⟨hold, -⟩ | ⟨-, hold, -, -⟩ | ⟨-, -, hwait', hfetch', hseen⟩
    · exact absurd hold hwait
    · exact absurd hold hfetch
    · simp [hstop] at hold
    · exact ⟨hstopLogging ▸ hstop, blocks, hbefore ▸ hblocks, hwait', hfetch', hseen ▸ hlt⟩
  · exact ⟨hstopLogging ▸ hstop, blocks, hbefore ▸ hblocks, htask ▸ hwait, htask ▸ hfetch,
      hseen ▸ hlt⟩

theorem late_of_not_stopsInTime (hbad : ¬ op.StopsInTime s) (ht : op.step s = some t) : t.Late := by
  cases op with
  | stopFlag =>
    simp only [LogOp.step] at ht
    split_ifs at ht
    cases ht
    simp only [LogOp.StopsInTime, not_or, not_le] at hbad
    exact ⟨rfl, s.returned, rfl, hbad⟩
  | _ => exact absurd trivial hbad

section

variable (h : s.Inv buf) (hclosed : s.task = .closed)

include h hclosed

/-- A closed file has what had been accepted when the task read `buf_next` last. -/
theorem Inv.isPrefix_file_iff {blocks : List (List UInt8)} (hblocks : blocks ∈ s.beforeStop) :
    blocks.flatten <+: s.file ↔ blocks.flatten.length ≤ s.seen := by
  have hfile : s.file.length = s.seen := by
    have hok := h.task
    unfold TaskOk at hok
    rwa [hclosed] at hok
  refine ⟨fun hle => hfile ▸ hle.length_le, fun hle => ?_⟩
  exact prefix_of_prefix_length_le (h.blocks blocks hblocks).flatten h.safe.file_order
    (hfile ▸ hle)

theorem Inv.complete (hintime : s.InTime) :
    s.Complete := by
  intro blocks hblocks
  rw [h.isPrefix_file_iff hclosed hblocks]
  simpa [hclosed] using hintime blocks hblocks

theorem Inv.not_complete (hlate : s.Late) :
    ¬ s.Complete := by
  obtain ⟨-, blocks, hblocks, -, -, hlt⟩ := hlate
  intro hcomplete
  exact hlt.not_ge ((h.isPrefix_file_iff hclosed hblocks).1 (hcomplete blocks hblocks))

end

end LogState

/-! ### The log -/

/-- **The disk log.** At all times the file has the accepted blocks in order, what is not yet in the
file is in the buffer, and refused calls change nothing. When the file has been closed, all blocks
that were accepted before `stop_log` are in it, if and only if `stop_log` was called in time. -/
theorem run_complete_iff (buf : ℕ → UInt8) (size : ℕ) (s₀ s : LogState) (ops : List LogOp)
    (hinit : initLog buf size = some s₀) (hrun : ops.foldlM LogOp.step s₀ = some s) :
    s.Safe buf ∧ (s.task = .closed →
      (s.Complete ↔ Runs.Meets LogOp.step LogOp.StopsInTime s₀ ops)) := by
  have hinv₀ := LogState.Inv.init hinit
  have hbefore : s₀.beforeStop = none := by
    unfold initLog at hinit
    split_ifs at hinit
    cases hinit
    rfl
  have hintime₀ : s₀.InTime := fun blocks hblocks => by simp [hbefore] at hblocks
  obtain ⟨hgood, hbad⟩ := Runs.invariant_or
    (I := fun s => s.Inv buf ∧ s.InTime) (B := fun s => s.Inv buf ∧ s.Late)
    (fun _ _ _ h hP ht => ⟨h.1.step ht, h.2.step h.1 hP ht⟩)
    (fun _ _ _ h hP ht => ⟨h.1.step ht, LogState.late_of_not_stopsInTime hP ht⟩)
    (fun _ _ _ h ht => ⟨h.1.step ht, h.2.step h.1 ht⟩) hrun ⟨hinv₀, hintime₀⟩
  have hinv : s.Inv buf := Runs.invariant (fun _ _ _ h ht => h.step ht) hrun hinv₀
  refine ⟨hinv.safe, fun hclosed => ⟨fun hcomplete => ?_, fun hmeets => ?_⟩⟩
  · by_contra hmeets
    exact hinv.not_complete hclosed (hbad hmeets).2 hcomplete
  · exact hinv.complete hclosed (hgood hmeets).2

/-- The task waits, a block is accepted, and then `stop_log` is called. -/
def oneBlockOps : List LogOp :=
  .task :: .send [1] :: (List.replicate 6 .sendStep ++ [.stopFlag, .stopGive] ++
    List.replicate 9 .task)

/-- The block is in the file. -/
theorem run_complete_oneBlock :
    ∃ s₀ s, initLog (fun _ => 0) 0x10000 = some s₀ ∧ oneBlockOps.foldlM LogOp.step s₀ = some s ∧
      s.task = .closed ∧ s.file = [1] ∧ s.Complete := by
  refine ⟨_, _, rfl, rfl, rfl, rfl, ?_⟩
  exact ((run_complete_iff (fun _ => 0) 0x10000 _ _ oneBlockOps rfl rfl).2 rfl).2
    (by decide +kernel)

/-- The task was created, but does not yet wait when a block is accepted and `stop_log` is called:
the file is closed without the block. -/
theorem run_block_lost :
    ∃ s₀ s, initLog (fun _ => 0) 0x10000 = some s₀ ∧
      (LogOp.send [1] :: (List.replicate 6 .sendStep ++
        [.stopFlag, .stopGive, .task, .task])).foldlM LogOp.step s₀ = some s ∧
      s.task = .closed ∧ s.beforeStop = some [[1]] ∧ s.file = [] ∧ ¬ s.Complete :=
  ⟨_, _, rfl, rfl, rfl, rfl, rfl, by decide +kernel⟩

end MagicLantern.Log

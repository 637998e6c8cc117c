import MagicLantern.Trace.Lifecycle

/-!
# Files and buffers of a trace context

As long as all steps meet the condition `LifeOp.Good`, at most one call of `trace_start` and at most
one task work on a context, and what they do next tells what they own: whether the file is open,
whether the buffer is allocated, and whether the context is marked as used.

## Main results

* `run_safe` — files are closed and buffers are freed once.
* `run_violations`.
-/

namespace MagicLantern.Trace

open List Option

/-! ### What is owned -/

/-- The file is open. -/
def StartPhase.hasFile : StartPhase → Bool
  | .allocBuffer | .allocFailed | .poll _ | .timedOut | .closeFile => true
  | _ => false

/-- The buffer is allocated. -/
def StartPhase.hasBuffer : StartPhase → Bool
  | .poll _ | .timedOut | .closeFile | .freeBuffer => true
  | _ => false

/-- The context is marked as used. -/
def StartPhase.inUse : StartPhase → Bool
  | .closeFile | .freeBuffer | .clearHandle | .clearBuffer => false
  | _ => true

/-- There can be a task. -/
def StartPhase.WithTask : StartPhase → Prop
  | .createFile | .allocBuffer | .poll _ => True
  | _ => False

/-- The file is open. -/
def TaskPhase.hasFile : TaskPhase → Bool
  | .check _ | .test _ | .take _ | .write _ _ _ | .wait _ | .closeFile _ => true
  | _ => false

/-- The buffer is allocated. -/
def TaskPhase.hasBuffer : TaskPhase → Bool
  | .freeBuffer _ => true
  | phase => phase.hasFile

/-- The task has not set its state yet. -/
def TaskPhase.Unbegun : TaskPhase → Prop
  | .allocWriteBuf | .setRunning _ => True
  | _ => False

/-- The task is in its loop and has nothing to write. -/
def TaskPhase.Idle : TaskPhase → Prop
  | .check _ | .test _ | .wait _ => True
  | _ => False

/-- The task is in its loop; it never has more to write than the buffer holds. -/
def TaskPhase.InLoop : TaskPhase → Prop
  | .write _ _ used => used ≤ traceBufferSize
  | phase => phase.Looping

/-- The file of the context is open. The call of `trace_start`, if there is one, decides. -/
def ownsFile : Option StartPhase → Option TaskPhase → Bool
  | some start, _ => start.hasFile
  | none, some task => task.hasFile
  | none, none => false

/-- The buffer of the context is allocated. -/
def ownsBuffer : Option StartPhase → Option TaskPhase → Bool
  | some start, _ => start.hasBuffer
  | none, some task => task.hasBuffer
  | none, none => false

/-- The context is marked as used. -/
def inUse : Option StartPhase → Option TaskPhase → Bool
  | some start, _ => start.inUse
  | none, task => task.isSome

/-- What a pointer of the context refers to. -/
def held (owned : Bool) (pointer : Option ℕ) : List ℕ :=
  if owned then pointer.toList else []

namespace TraceEntry

variable {e t : TraceEntry} {start : Option StartPhase} {task : Option TaskPhase}
  {phase : TaskPhase} {ok : Bool} {answers : Answers} {g i : ℕ} {stop : StopPhase}

/-- Which call and which task can be there together. The task has nothing to write as long as
`trace_start` has not returned. -/
def Fits (e : TraceEntry) : Option StartPhase → Option TaskPhase → Prop
  | none, none => True
  | some start, none => start = .initFields ∨ e.taskState = .dead ∧ e.readPos = e.writePos
  | some start, some task => start.WithTask ∧ e.readPos = e.writePos ∧
    (task.Unbegun ∧ e.taskState = .dead ∨ task.Idle ∧ e.taskState = .running)
  | none, some task => task.InLoop ∨ task.Leaving

/-- The call of `trace_start` and the task that work on a context, and what they own. -/
structure Core (e : TraceEntry) (start : Option StartPhase) (task : Option TaskPhase) : Prop where
  starts : e.starts = start.toList
  tasks : e.tasks = task.toList
  fits : e.Fits start task
  used : e.used = inUse start task
  files : e.files.Balanced (held (ownsFile start task) e.fileHandle)
  buffers : e.buffers.Balanced
    (held (ownsBuffer start task) e.buffer ++ (task.bind TaskPhase.writeBuf).toList)
  readPos_lt : e.readPos < traceBufferSize
  writePos_lt : e.writePos < traceBufferSize
  overlapped : e.overlapped = false

/-! ### `trace_start` -/

theorem Core.handOut (h : e.Core none none) : e.handOut.Core (some .initFields) none where
  __ := h
  starts := by simp [TraceEntry.handOut, h.starts]
  fits := .inl rfl
  used := rfl
  overlapped := by simp [TraceEntry.handOut, h.overlapped, h.tasks]

theorem Core.starts_set {phase : StartPhase} (h : e.Core (some phase) task) (next : StartPhase) :
    e.starts.set 0 next = (some next).toList := by
  rw [h.starts]
  rfl

theorem Core.starts_eraseIdx {phase : StartPhase} (h : e.Core (some phase) task) :
    e.starts.eraseIdx 0 = (none : Option StartPhase).toList := by
  rw [h.starts]
  rfl

theorem Core.tasks_set (h : e.Core start (some phase)) (next : TaskPhase) :
    e.tasks.set 0 next = (some next).toList := by
  rw [h.tasks]
  rfl

/-- A step of `trace_start` without a task. -/
theorem Core.startNext_alone {phase : StartPhase} (h : e.Core (some phase) none) (ok : Bool) :
    ∃ start task, (e.startNext 0 ok phase).Core start task := by
  have hset := h.starts_set
  have herase := h.starts_eraseIdx
  have htasks := h.tasks
  have hfits := h.fits
  have hfiles := h.files
  have hbuffers := h.buffers
  have hnext (next : StartPhase) (hne : phase ≠ .initFields) : e.Fits (some next) none :=
    .inr (hfits.resolve_left hne)
  cases phase with
  | initFields =>
    have hpos := traceBufferSize_pos
    exact ⟨some .createTask, none,
      { h with starts := hset _, fits := .inr ⟨rfl, rfl⟩, readPos_lt := hpos, writePos_lt := hpos }⟩
  | createTask =>
    cases ok with
    | false =>
      exact ⟨some .createFile, none, { h with starts := hset _, fits := hnext _ nofun }⟩
    | true =>
      obtain ⟨hdead, hpos⟩ := hfits.resolve_left nofun
      exact ⟨some .createFile, some .allocWriteBuf,
        { h with
          starts := hset _
          tasks := congrArg (· ++ [TaskPhase.allocWriteBuf]) htasks
          fits := ⟨trivial, hpos, .inl ⟨trivial, hdead⟩⟩ }⟩
  | createFile =>
    cases ok with
    | false =>
      exact ⟨some .fileFailed, none, { h with starts := hset _, fits := hnext _ nofun }⟩
    | true =>
      exact ⟨some .allocBuffer, none,
        { h with starts := hset _, fits := hnext _ nofun, files := hfiles.create }⟩
  | allocBuffer =>
    cases ok with
    | false =>
      exact ⟨some .allocFailed, none, { h with starts := hset _, fits := hnext _ nofun }⟩
    | true =>
      exact ⟨some (.poll 0), none,
        { h with starts := hset _, fits := hnext _ nofun, buffers := hbuffers.create }⟩
  | allocFailed =>
    exact ⟨some .allocUnused, none,
      { h with starts := hset _, fits := hnext _ nofun, files := hfiles.release_last }⟩
  | fileFailed | allocUnused =>
    exact ⟨none, none, { h with starts := herase, fits := trivial, used := rfl }⟩
  | poll loops =>
    rw [startNext, if_neg (not_not.2 (hfits.resolve_left nofun).1)]
    split_ifs
    · exact ⟨some (.poll (loops + 1)), none, { h with starts := hset _, fits := hnext _ nofun }⟩
    · exact ⟨some .timedOut, none, { h with starts := hset _, fits := hnext _ nofun }⟩
  | timedOut =>
    exact ⟨some .closeFile, none, { h with starts := hset _, fits := hnext _ nofun, used := rfl }⟩
  | closeFile =>
    exact ⟨some .freeBuffer, none,
      { h with starts := hset _, fits := hnext _ nofun, files := hfiles.release_last }⟩
  | freeBuffer =>
    exact ⟨some .clearHandle, none,
      { h with starts := hset _, fits := hnext _ nofun, buffers := hbuffers.release }⟩
  | clearHandle =>
    exact ⟨some .clearBuffer, none, { h with starts := hset _, fits := hnext _ nofun }⟩
  | clearBuffer =>
    exact ⟨none, none, { h with starts := herase, fits := trivial }⟩

/-- A step of `trace_start` that meets the condition. With a task, there is no clean-up. -/
theorem Core.startNext {phase : StartPhase} (h : e.Core (some phase) task)
    (hgood : (EntryOp.start 0 ok).Good e) :
    ∃ start task, (e.startNext 0 ok phase).Core start task := by
  cases task with
  | none => exact h.startNext_alone ok
  | some task =>
    have hset := h.starts_set
    have herase := h.starts_eraseIdx
    have hstarts := h.starts
    have htasks := h.tasks
    have hfiles := h.files
    have hbuffers := h.buffers
    obtain ⟨hwith, hpos, hfits⟩ := h.fits
    have hne : e.tasks ≠ [] := by simp [htasks]
    simp only [EntryOp.Good, hstarts, toList_some] at hgood
    cases phase with
    | createFile =>
      obtain rfl := hgood.resolve_right hne
      exact ⟨some .allocBuffer, some task,
        { h with starts := hset _, fits := ⟨trivial, hpos, hfits⟩, files := hfiles.create }⟩
    | allocBuffer =>
      obtain rfl := hgood.resolve_right hne
      exact ⟨some (.poll 0), some task,
        { h with starts := hset _, fits := ⟨trivial, hpos, hfits⟩, buffers := hbuffers.create }⟩
    | poll loops =>
      rw [TraceEntry.startNext]
      rcases hfits with ⟨hunbegun, hdead⟩ | ⟨hidle, hrunning⟩
      · have hloops : loops + 1 < 250 :=
          hgood.resolve_right (not_or.2 ⟨not_not.2 hdead, hne⟩)
        rw [if_neg (not_not.2 hdead), if_pos hloops]
        exact ⟨some (.poll (loops + 1)), some task,
          { h with starts := hset _, fits := ⟨trivial, hpos, .inl ⟨hunbegun, hdead⟩⟩ }⟩
      · rw [if_pos (by simp [hrunning])]
        cases task <;>
          first
          | exact hidle.elim
          | exact ⟨none, _, { h with starts := herase, fits := .inl trivial }⟩
    | _ => exact hwith.elim

/-! ### `trace_task` -/

theorem Core.taskNext_starting {call : StartPhase} (h : e.Core (some call) (some phase))
    (hgood : (EntryOp.task 0 answers).Good e) :
    ∃ task, (e.taskNext 0 answers phase).Core (some call) task := by
  have hset := h.tasks_set
  have hstarts := h.starts
  have htasks := h.tasks
  have hbuffers := h.buffers
  obtain ⟨hwith, hpos, hfits⟩ := h.fits
  rcases hfits with ⟨hunbegun, hdead⟩ | ⟨hidle, hrunning⟩
  · cases phase with
    | allocWriteBuf =>
      rw [TraceEntry.taskNext]
      split_ifs
      · refine ⟨_,
        { h with tasks := hset _, fits := ⟨hwith, hpos, .inl ⟨trivial, hdead⟩⟩, buffers := ?_ }⟩
        have hcreate := hbuffers.create
        change e.buffers.create.Balanced (e.buffers.created :: (held call.hasBuffer e.buffer ++ []))
          at hcreate
        rw [append_nil] at hcreate
        exact hcreate.perm (perm_append_singleton _ _)
      · exact ⟨_, { h with tasks := hset _, fits := ⟨hwith, hpos, .inl ⟨trivial, hdead⟩⟩ }⟩
    | setRunning writeBuf =>
      exact ⟨some (.check writeBuf),
        { h with tasks := hset _, fits := ⟨hwith, hpos, .inr ⟨trivial, rfl⟩⟩ }⟩
    | _ => exact hunbegun.elim
  · cases phase with
    | check writeBuf =>
      have hne : e.starts ≠ [] := by simp [hstarts]
      simp only [EntryOp.Good, htasks, toList_some] at hgood
      rw [TraceEntry.taskNext, if_pos (.inl hrunning), hgood.resolve_right hne]
      exact ⟨some (.test writeBuf),
        { h with tasks := hset _, fits := ⟨hwith, hpos, .inr ⟨trivial, hrunning⟩⟩ }⟩
    | test writeBuf =>
      rw [TraceEntry.taskNext, if_neg (not_not.2 hpos)]
      exact ⟨some (.wait writeBuf),
        { h with tasks := hset _, fits := ⟨hwith, hpos, .inr ⟨trivial, hrunning⟩⟩ }⟩
    | wait writeBuf =>
      exact ⟨some (.check writeBuf),
        { h with tasks := hset _, fits := ⟨hwith, hpos, .inr ⟨trivial, hrunning⟩⟩ }⟩
    | _ => exact hidle.elim

theorem pending_le (hwrite : e.writePos < traceBufferSize) : e.pending ≤ traceBufferSize := by
  rw [pending]
  split_ifs <;> omega

/-- A step of the task after `trace_start` has returned. -/
theorem Core.taskNext_alone (h : e.Core none (some phase))
    (hgood : (EntryOp.task 0 answers).Good e) :
    ∃ task, (e.taskNext 0 answers phase).Core none task := by
  have hset := h.tasks_set
  have htasks := h.tasks
  have hfits := h.fits
  have hfiles := h.files
  have hbuffers := h.buffers
  have hwrite := h.writePos_lt
  cases phase with
  | check writeBuf =>
    rw [TraceEntry.taskNext]
    split_ifs
    all_goals
      exact ⟨_,
        { h with tasks := hset _, fits := by first | exact .inl trivial | exact .inr trivial }⟩
  | test writeBuf =>
    rw [TraceEntry.taskNext]
    split_ifs
    all_goals
      exact ⟨_, { h with tasks := hset _, fits := .inl trivial }⟩
  | take writeBuf =>
    exact ⟨_,
      { h with
        tasks := hset _
        fits := .inl (pending_le hwrite)
        readPos_lt := Nat.mod_lt _ traceBufferSize_pos }⟩
  | write writeBuf total used =>
    simp only [EntryOp.Good, htasks, toList_some] at hgood
    rw [TraceEntry.taskNext, if_pos (Nat.pos_of_ne_zero hgood)]
    split_ifs
    · exact ⟨_, { h with tasks := hset _, fits := hfits.imp_right False.elim }⟩
    · exact ⟨_, { h with tasks := hset _, fits := .inl trivial }⟩
  | wait writeBuf =>
    exact ⟨_, { h with tasks := hset _, fits := .inl trivial }⟩
  | closeFile writeBuf =>
    exact ⟨some (.freeBuffer writeBuf),
      { h with tasks := hset _, fits := .inr trivial, files := hfiles.release_last }⟩
  | freeBuffer writeBuf =>
    exact ⟨some (.freeWriteBuf writeBuf),
      { h with tasks := hset _, fits := .inr trivial, buffers := hbuffers.release }⟩
  | freeWriteBuf writeBuf =>
    exact ⟨some .clearHandle,
      { h with tasks := hset _, fits := .inr trivial, buffers := hbuffers.release_last }⟩
  | clearHandle | clearBuffer | setDead =>
    exact ⟨_, { h with tasks := hset _, fits := .inr trivial }⟩
  | setUnused =>
    exact ⟨none,
      { h with tasks := congrArg (eraseIdx · 0) htasks, fits := trivial, used := rfl }⟩
  | _ => exact (hfits.elim id id : False).elim

/-! ### `trace_stop` -/

/-- The task has been told to end: it will leave its loop, if it has not done so. -/
def Stopping (e : TraceEntry) : Prop :=
  e.starts = [] ∧ ∀ phase ∈ e.tasks, phase.Leaving ∨ e.taskState = .shutdown

/-- The task of the given generation has been told to end. -/
def Ended (e : TraceEntry) (g : ℕ) : Prop :=
  g ≤ e.generation ∧ (g = e.generation → e.Stopping)

/-- What a call of `trace_stop` knows; it does not come to the clean-up. -/
def StopFits (e : TraceEntry) : StopPhase → Prop
  | .shutdown _ => True
  | .poll g _ => e.Ended g
  | _ => False

/-- What all calls of `trace_stop` know, also those that have returned. -/
def StopsFit (e : TraceEntry) : Prop :=
  (∀ stop ∈ e.stops, e.StopFits stop) ∧ ∀ g ∈ e.stopped, e.Ended g

theorem Ended.mono (h : e.Ended g) (hle : e.generation ≤ t.generation)
    (hstopping : t.generation = e.generation → e.Stopping → t.Stopping) : t.Ended g := by
  refine ⟨h.1.trans hle, fun heq => ?_⟩
  have hg : g = e.generation := le_antisymm h.1 (heq ▸ hle)
  exact hstopping (heq.symm.trans hg) (h.2 hg)

theorem StopFits.mono (h : e.StopFits stop) (hle : e.generation ≤ t.generation)
    (hstopping : t.generation = e.generation → e.Stopping → t.Stopping) : t.StopFits stop := by
  cases stop with
  | shutdown wait => trivial
  | poll g loops => exact Ended.mono h hle hstopping
  | _ => exact h.elim

theorem StopsFit.mono (h : e.StopsFit) (hstops : t.stops = e.stops)
    (hstopped : t.stopped = e.stopped) (hle : e.generation ≤ t.generation)
    (hstopping : t.generation = e.generation → e.Stopping →
      t.Stopping) : t.StopsFit :=
  ⟨fun stop hstop => (h.1 stop (hstops ▸ hstop)).mono hle hstopping,
    fun g hg => (h.2 g (hstopped ▸ hg)).mono hle hstopping⟩

/-- The invariant of a context. -/
def Inv (e : TraceEntry) : Prop :=
  (∃ start task, e.Core start task) ∧ e.StopsFit

/-! ### Steps -/

theorem eq_of_toList_getElem? {α : Type*} {o : Option α} {a : α} (h : o.toList[i]? = some a) :
    i = 0 ∧ o = some a := by
  cases o with
  | none => simp at h
  | some b =>
    cases i with
    | zero => exact ⟨rfl, h⟩
    | succ i => simp at h

theorem startNext_stops (ok : Bool) (phase : StartPhase) :
    (e.startNext 0 ok phase).stops = e.stops ∧ (e.startNext 0 ok phase).stopped = e.stopped ∧
      (e.startNext 0 ok phase).generation = e.generation := by
  cases phase <;> cases ok <;> simp only [startNext] <;> (try split_ifs) <;> exact ⟨rfl, rfl, rfl⟩

theorem taskNext_stops (answers : Answers) (phase : TaskPhase) :
    (e.taskNext 0 answers phase).stops = e.stops ∧ (e.taskNext 0 answers phase).stopped =
      e.stopped ∧ (e.taskNext 0 answers phase).starts = e.starts ∧
      (e.taskNext 0 answers phase).generation = e.generation := by
  cases phase <;> simp only [taskNext] <;> (try split_ifs) <;> exact ⟨rfl, rfl, rfl, rfl⟩

theorem Inv.startStep (h : e.Inv) (hgood : (EntryOp.start i ok).Good e)
    (hs : e.startStep i ok = some t) : t.Inv := by
  obtain ⟨⟨start, task, hcore⟩, hstops⟩ := h
  obtain ⟨phase, hphase, rfl⟩ := map_eq_some_iff.1 hs
  rw [hcore.starts] at hphase
  obtain ⟨rfl, rfl⟩ := eq_of_toList_getElem? hphase
  obtain ⟨heq, heq', hgeneration⟩ := startNext_stops (e := e) ok phase
  refine ⟨hcore.startNext hgood, hstops.mono heq heq' hgeneration.ge fun _ hstopping => ?_⟩
  exact absurd (hcore.starts.symm.trans hstopping.1) (by simp)

/-- A task that has been told to end goes on to its end. -/
theorem Stopping.taskNext (h : e.Stopping) (hcore : e.Core none (some phase)) (answers : Answers) :
    (e.taskNext 0 answers phase).Stopping := by
  have htasks : e.tasks = [phase] := hcore.tasks
  refine ⟨(taskNext_stops answers phase).2.2.1.trans h.1, ?_⟩
  have hphase := h.2 phase (by simp [htasks])
  have hfits : phase.InLoop ∨ phase.Leaving := hcore.fits
  cases phase <;> simp only [TraceEntry.taskNext] <;> (try split_ifs) <;>
    simp_all [setTask, endTask, TaskPhase.Leaving, TaskPhase.InLoop, TaskPhase.Looping]

theorem Inv.taskStep (h : e.Inv) (hgood : (EntryOp.task i answers).Good e)
    (hs : e.taskStep i answers = some t) : t.Inv := by
  obtain ⟨⟨start, task, hcore⟩, hstops⟩ := h
  obtain ⟨phase, hphase, rfl⟩ := map_eq_some_iff.1 hs
  rw [hcore.tasks] at hphase
  obtain ⟨rfl, rfl⟩ := eq_of_toList_getElem? hphase
  obtain ⟨heq, heq', -, hgeneration⟩ := taskNext_stops (e := e) answers phase
  cases start with
  | none =>
    obtain ⟨task, htask⟩ := hcore.taskNext_alone hgood
    exact ⟨⟨none, task, htask⟩, hstops.mono heq heq' hgeneration.ge fun _ hstopping =>
      hstopping.taskNext hcore answers⟩
  | some call =>
    obtain ⟨task, htask⟩ := hcore.taskNext_starting hgood
    refine ⟨⟨some call, task, htask⟩, hstops.mono heq heq' hgeneration.ge fun _ hstopping => ?_⟩
    exact absurd (hcore.starts.symm.trans hstopping.1) (by simp)

theorem Core.start_eq_none (h : e.Core start task) (hstarts : e.starts = []) : start = none := by
  rw [h.starts] at hstarts
  exact toList_eq_nil_iff.1 hstarts

theorem Inv.handOut (h : e.Inv) (hused : e.used = false) (hstarts : e.starts = []) :
    e.handOut.Inv := by
  obtain ⟨⟨start, task, hcore⟩, hstops⟩ := h
  obtain rfl := hcore.start_eq_none hstarts
  have htask : task = none := by
    rw [hcore.used] at hused
    exact not_isSome_iff_eq_none.1 (Bool.not_eq_true _ ▸ hused)
  subst htask
  refine ⟨⟨_, _, hcore.handOut⟩, hstops.mono rfl rfl (Nat.le_succ _) fun heq => ?_⟩
  exact absurd heq (Nat.succ_ne_self _)

theorem Inv.stopBegin (h : e.Inv) (wait : Bool) : (e.stopBegin wait).Inv := by
  obtain ⟨⟨start, task, hcore⟩, hstops⟩ := h
  rw [TraceEntry.stopBegin]
  split_ifs
  · refine ⟨⟨start, task, { hcore with }⟩, fun stop hstop => ?_, hstops.2⟩
    rcases mem_append.1 hstop with hstop | hstop
    · exact hstops.1 stop hstop
    · obtain rfl := mem_singleton.1 hstop
      trivial
  · exact ⟨⟨start, task, hcore⟩, hstops⟩

theorem Core.set_taskState (h : e.Core none (some phase)) (state : TaskState) :
    { e with taskState := state }.Core none (some phase) :=
  { h with }

/-- The calls of `trace_stop` do not matter for the rest. -/
theorem Core.set_stops (h : e.Core start task) (stops : List StopPhase) (stopped : List ℕ) :
    { e with stops, stopped }.Core start task :=
  { h with }

theorem StopsFit.setStop (h : e.StopsFit) (hstop : e.StopFits stop) :
    (e.setStop i stop).StopsFit := by
  refine ⟨fun stop' hmem => ?_, h.2⟩
  rcases mem_or_eq_of_mem_set hmem with hmem | rfl
  · exact h.1 stop' hmem
  · exact hstop

theorem StopsFit.endStop (h : e.StopsFit) (hg : e.Ended g) : (e.endStop i g).StopsFit := by
  refine ⟨fun stop hmem => h.1 stop (mem_of_mem_eraseIdx hmem), fun g' hmem => ?_⟩
  rcases mem_cons.1 hmem with rfl | hmem
  · exact hg
  · exact h.2 g' hmem

theorem Inv.stopStep (h : e.Inv) (hgood : (EntryOp.stop i).Good e) (hs : e.stopStep i = some t) :
    t.Inv := by
  obtain ⟨⟨start, task, hcore⟩, hstops⟩ := h
  obtain ⟨stop, hstop, rfl⟩ := map_eq_some_iff.1 hs
  have hfits := hstops.1 stop (mem_of_getElem? hstop)
  simp only [EntryOp.Good, hstop] at hgood
  cases stop with
  | shutdown wait =>
    obtain ⟨hstarts, phase, hphase, -⟩ := hgood
    obtain rfl := hcore.start_eq_none hstarts
    rw [hcore.tasks, mem_toList] at hphase
    obtain rfl := hphase
    have hstopping : ({ e with taskState := .shutdown } : TraceEntry).Stopping :=
      ⟨hstarts, fun _ _ => .inr rfl⟩
    have hstops' : ({ e with taskState := .shutdown } : TraceEntry).StopsFit :=
      hstops.mono rfl rfl le_rfl fun _ _ => hstopping
    have hended : ({ e with taskState := .shutdown } : TraceEntry).Ended e.generation :=
      ⟨le_rfl, fun _ => hstopping⟩
    have hcore' := hcore.set_taskState .shutdown
    rw [stopNext]
    split_ifs
    · exact ⟨⟨_, _, hcore'.set_stops _ _⟩, hstops'.setStop hended⟩
    · exact ⟨⟨_, _, hcore'.set_stops _ _⟩, hstops'.endStop hended⟩
  | poll g loops =>
    rw [stopNext]
    by_cases hdead : e.taskState = .dead
    · rw [if_pos hdead]
      exact ⟨⟨start, task, hcore.set_stops _ _⟩, hstops.endStop hfits⟩
    · rw [if_neg hdead, if_pos (hgood.resolve_right hdead)]
      exact ⟨⟨start, task, hcore.set_stops _ _⟩, hstops.setStop hfits⟩
  | _ => exact hfits.elim

theorem Inv.vwrite (h : e.Inv) {writePos : ℕ} {shutdown : Bool}
    (hgood : (EntryOp.vwrite writePos shutdown).Good e) : (e.vwrite writePos shutdown).Inv := by
  obtain ⟨⟨start, task, hcore⟩, hstops⟩ := h
  obtain rfl := hcore.start_eq_none hgood
  rw [TraceEntry.vwrite]
  by_cases hif : e.used = true ∧ e.taskState = .running
  · rw [if_pos hif]
    obtain ⟨hused, hrunning⟩ := hif
    cases task with
    | none => exact absurd (hcore.used.symm.trans hused) (by decide)
    | some phase =>
      refine ⟨⟨none, some phase, { hcore with writePos_lt := Nat.mod_lt _ traceBufferSize_pos }⟩,
        hstops.mono rfl rfl le_rfl fun _ hstopping => ⟨hgood, fun phase hphase => ?_⟩⟩
      exact .inl ((hstopping.2 phase hphase).resolve_right (by simp [hrunning]))
  · rw [if_neg hif]
    exact ⟨⟨none, task, hcore⟩, hstops⟩

theorem Inv.step (h : e.Inv) {op : EntryOp} (hgood : op.Good e) (hs : op.step e = some t) :
    t.Inv := by
  cases op with
  | start i ok => exact h.startStep hgood hs
  | task i answers => exact h.taskStep hgood hs
  | stopBegin wait =>
    cases hs
    exact h.stopBegin wait
  | stop i => exact h.stopStep hgood hs
  | vwrite writePos shutdown =>
    cases hs
    exact h.vwrite hgood

theorem Inv.init : TraceEntry.init.Inv := by
  have hpos := traceBufferSize_pos
  exact ⟨⟨none, none, rfl, rfl, trivial, rfl, Perm.refl _, Perm.refl _, hpos, hpos, rfl⟩,
    nofun, nofun⟩

/-! ### The end of the task -/

theorem Reusable.of_unused (h : e.used = false) : e.Reusable :=
  ⟨[], e, nofun, rfl, h⟩

/-- What the system answers if nothing fails. -/
def noFailure (written : ℕ) : Answers := ⟨true, false, written⟩

theorem Reusable.of_taskNext (htasks : e.tasks = [phase]) (written : ℕ)
    (h : (e.taskNext 0 (noFailure written) phase).Reusable) : e.Reusable := by
  obtain ⟨rest, t, hshutdown, hrun, ht⟩ := h
  refine ⟨noFailure written :: rest, t, forall_mem_cons.2 ⟨rfl, hshutdown⟩, ?_, ht⟩
  rw [TraceEntry.run, map_cons, foldlM_cons, EntryOp.step, taskStep, htasks]
  exact hrun

theorem tasks_setTask (htasks : e.tasks = [phase]) (next : TaskPhase) :
    (e.setTask 0 next).tasks = [next] := by
  rw [setTask, htasks]
  rfl

/-- A task that has left its loop comes to its end. -/
theorem Reusable.of_leaving (hphase : phase.Leaving) (htasks : e.tasks = [phase]) : e.Reusable := by
  have hunused {e : TraceEntry} (h : e.tasks = [.setUnused]) : e.Reusable :=
    .of_taskNext h 0 (.of_unused rfl)
  have hdead {e : TraceEntry} (h : e.tasks = [.setDead]) : e.Reusable :=
    .of_taskNext h 0 (hunused (tasks_setTask h _))
  have hbuffer {e : TraceEntry} (h : e.tasks = [.clearBuffer]) : e.Reusable :=
    .of_taskNext h 0 (hdead (tasks_setTask h _))
  have hhandle {e : TraceEntry} (h : e.tasks = [.clearHandle]) : e.Reusable :=
    .of_taskNext h 0 (hbuffer (tasks_setTask h _))
  have hwriteBuf {e : TraceEntry} {writeBuf : Option ℕ} (h : e.tasks = [.freeWriteBuf writeBuf]) :
      e.Reusable :=
    .of_taskNext h 0 (hhandle (tasks_setTask h _))
  have hfree {e : TraceEntry} {writeBuf : Option ℕ} (h : e.tasks = [.freeBuffer writeBuf]) :
      e.Reusable :=
    .of_taskNext h 0 (hwriteBuf (tasks_setTask h _))
  cases phase with
  | closeFile writeBuf => exact .of_taskNext htasks 0 (hfree (tasks_setTask htasks _))
  | freeBuffer writeBuf => exact hfree htasks
  | freeWriteBuf writeBuf => exact hwriteBuf htasks
  | clearHandle => exact hhandle htasks
  | clearBuffer => exact hbuffer htasks
  | setDead => exact hdead htasks
  | setUnused => exact hunused htasks
  | _ => exact hphase.elim

section Loop

variable {writeBuf : Option ℕ}

theorem Reusable.of_write {total used : ℕ} (htasks : e.tasks = [.write writeBuf total used])
    (hle : used ≤ traceBufferSize) (h : (e.setTask 0 (.check writeBuf)).Reusable) : e.Reusable := by
  have hdone {e : TraceEntry} {total : ℕ} (htasks : e.tasks = [.write writeBuf total used])
      (hle : ¬ total < used) (h : (e.setTask 0 (.check writeBuf)).Reusable) : e.Reusable := by
    refine .of_taskNext htasks 0 ?_
    rw [taskNext, if_neg hle]
    exact h
  by_cases hlt : total < used
  · refine .of_taskNext htasks (used - total) ?_
    have hmod : (total + (used - total)) % 2 ^ 32 = used := by
      rw [Nat.add_sub_cancel' hlt.le]
      have : traceBufferSize < 2 ^ 32 := by decide
      exact Nat.mod_eq_of_lt (by omega)
    rw [taskNext, if_pos hlt, noFailure, if_pos (Nat.sub_pos_of_lt hlt), hmod]
    refine hdone (tasks_setTask htasks _) (lt_irrefl _) ?_
    rw [setTask, setTask, set_set]
    exact h
  · exact hdone htasks hlt h

/-- The next position for reading. -/
def nextReadPos (e : TraceEntry) : ℕ :=
  (e.readPos + e.pending) % traceBufferSize

theorem Reusable.of_take (htasks : e.tasks = [.take writeBuf])
    (hwrite : e.writePos < traceBufferSize)
    (h : ({ e with readPos := e.nextReadPos }.setTask 0 (.check writeBuf)).Reusable) :
    e.Reusable := by
  refine .of_taskNext htasks 0 (.of_write (tasks_setTask htasks _) (pending_le hwrite) ?_)
  rw [taskNext, setTask, setTask, set_set]
  exact h

theorem Reusable.of_check_empty (htasks : e.tasks = [.check writeBuf])
    (hstate : e.taskState = .shutdown) (hpos : e.readPos = e.writePos) : e.Reusable := by
  refine .of_taskNext htasks 0 ?_
  rw [taskNext, if_neg (by simp [hstate, hpos])]
  exact .of_leaving (show TaskPhase.Leaving (.closeFile writeBuf) from trivial)
    (tasks_setTask htasks _)

theorem Reusable.of_check_round (htasks : e.tasks = [.check writeBuf])
    (hpos : e.readPos ≠ e.writePos) (hwrite : e.writePos < traceBufferSize)
    (h : ({ e with readPos := e.nextReadPos }.setTask 0 (.check writeBuf)).Reusable) :
    e.Reusable := by
  have htest : (e.setTask 0 (.test writeBuf)).Reusable := by
    refine .of_taskNext (tasks_setTask htasks _) 0 ?_
    rw [taskNext, if_pos (by exact hpos)]
    refine .of_take (tasks_setTask (tasks_setTask htasks _) _) hwrite ?_
    rw [setTask, setTask, setTask, set_set, set_set]
    exact h
  refine .of_taskNext htasks 0 ?_
  rw [taskNext, if_pos (.inr hpos)]
  exact htest

/-- A task that has been told to end writes what is left, in at most two pieces. -/
theorem Reusable.of_check (htasks : e.tasks = [.check writeBuf]) (hstate : e.taskState = .shutdown)
    (hread : e.readPos < traceBufferSize) (hwrite : e.writePos < traceBufferSize) : e.Reusable := by
  have hforward {e : TraceEntry} (htasks : e.tasks = [.check writeBuf])
      (hstate : e.taskState = .shutdown) (hwrite : e.writePos < traceBufferSize)
      (hlt : e.readPos < e.writePos) : e.Reusable := by
    refine .of_check_round htasks hlt.ne hwrite (.of_check_empty (tasks_setTask htasks _) hstate ?_)
    change e.nextReadPos = e.writePos
    rw [nextReadPos, pending, if_pos hlt, Nat.add_sub_cancel' hlt.le, Nat.mod_eq_of_lt hwrite]
  rcases lt_trichotomy e.readPos e.writePos with hlt | heq | hgt
  · exact hforward htasks hstate hwrite hlt
  · exact .of_check_empty htasks hstate heq
  · have hzero : e.nextReadPos = 0 := by
      rw [nextReadPos, pending, if_neg hgt.not_gt, Nat.add_sub_cancel' hread.le, Nat.mod_self]
    refine .of_check_round htasks hgt.ne' hwrite ?_
    rcases Nat.eq_zero_or_pos e.writePos with hw | hw
    · exact .of_check_empty (tasks_setTask htasks _) hstate (hzero.trans hw.symm)
    · exact hforward (tasks_setTask htasks _) hstate hwrite (hzero.trans_lt hw)

theorem Reusable.of_inLoop (hphase : phase.InLoop) (htasks : e.tasks = [phase])
    (hstate : e.taskState = .shutdown) (hread : e.readPos < traceBufferSize)
    (hwrite : e.writePos < traceBufferSize) : e.Reusable := by
  have hcheck {e : TraceEntry} (writeBuf : Option ℕ) (htasks : e.tasks = [phase])
      (hstate : e.taskState = .shutdown) (hread : e.readPos < traceBufferSize)
      (hwrite : e.writePos < traceBufferSize) : (e.setTask 0 (.check writeBuf)).Reusable :=
    .of_check (tasks_setTask htasks _) hstate hread hwrite
  have hnext : e.nextReadPos < traceBufferSize := Nat.mod_lt _ traceBufferSize_pos
  cases phase with
  | check writeBuf => exact .of_check htasks hstate hread hwrite
  | test writeBuf =>
    refine .of_taskNext htasks 0 ?_
    rw [taskNext]
    split_ifs
    · refine .of_take (tasks_setTask htasks _) hwrite ?_
      rw [setTask, setTask, set_set]
      exact hcheck (e := { e with readPos := e.nextReadPos }) writeBuf htasks hstate hnext hwrite
    · refine .of_taskNext (tasks_setTask htasks _) 0 ?_
      rw [taskNext, setTask, setTask, set_set]
      exact hcheck writeBuf htasks hstate hread hwrite
  | take writeBuf =>
    exact .of_take htasks hwrite
      (hcheck (e := { e with readPos := e.nextReadPos }) writeBuf htasks hstate hnext hwrite)
  | write writeBuf total used =>
    exact .of_write htasks hphase (hcheck writeBuf htasks hstate hread hwrite)
  | wait writeBuf =>
    exact .of_taskNext htasks 0 (hcheck writeBuf htasks hstate hread hwrite)
  | _ => exact hphase.elim

end Loop

/-- A context whose task has been told to end can be reused. -/
theorem Core.reusable (h : e.Core start task) (hstopping : e.Stopping) : e.Reusable := by
  obtain rfl := h.start_eq_none hstopping.1
  cases task with
  | none => exact .of_unused h.used
  | some phase =>
    rcases hstopping.2 phase (by simp [h.tasks]) with hleaving | hstate
    · exact .of_leaving hleaving h.tasks
    · rcases h.fits with hloop | hleaving
      · exact .of_inLoop hloop h.tasks hstate h.readPos_lt h.writePos_lt
      · exact .of_leaving hleaving h.tasks

/-! ### The property -/

theorem mem_held {owned : Bool} {pointer : Option ℕ} {n : ℕ} :
    n ∈ held owned pointer ↔ owned = true ∧ pointer = some n := by
  cases owned <;> simp [held]

theorem Core.busy (h : e.Core start task)
    (howns : ownsFile start task = true ∨ ownsBuffer start task = true) : e.Busy := by
  cases start with
  | some call => exact .inr (by simp [h.starts])
  | none =>
    cases task with
    | some phase => exact .inl h.used
    | none => exact absurd howns (by decide)

theorem Inv.safe (h : e.Inv) : e.Safe := by
  obtain ⟨⟨start, task, hcore⟩, hstops⟩ := h
  refine ⟨fun n hn => ?_, fun n => hcore.files.lt_created, fun n hn => ?_,
    fun n => hcore.buffers.lt_created, hcore.overlapped, fun g hg heq => ?_⟩
  · refine (hcore.files.count_released hn).imp_right fun ⟨hcount, hmem⟩ => ?_
    obtain ⟨howns, hfile⟩ := mem_held.1 hmem
    exact ⟨hcount, hfile, hcore.busy (.inl howns)⟩
  · refine (hcore.buffers.count_released hn).imp_right fun ⟨hcount, hmem⟩ => ⟨hcount, ?_⟩
    rcases mem_append.1 hmem with hmem | hmem
    · obtain ⟨howns, hbuffer⟩ := mem_held.1 hmem
      exact .inl ⟨hbuffer, hcore.busy (.inr howns)⟩
    · obtain ⟨phase, rfl, hphase⟩ := bind_eq_some_iff.1 (mem_toList.1 hmem)
      exact .inr ⟨phase, by simp [hcore.tasks], hphase.symm⟩
  · exact hcore.reusable ((hstops.2 g hg).2 heq)

end TraceEntry

/-! ### Runs -/

theorem LifeOp.inv_step {s t : TraceContexts} {op : LifeOp} (h : ∀ context, (s context).Inv)
    (hgood : op.Good s) (hs : op.step s = some t) : ∀ context, (t context).Inv := by
  have hupdate (context : Fin traceMaxContext) {e : TraceEntry} (he : e.Inv) :
      ∀ context', (Function.update s context e context').Inv :=
    (Function.forall_update_iff s fun _ e => e.Inv).2 ⟨he, fun context' _ => h context'⟩
  cases op with
  | startBegin =>
    rw [LifeOp.step] at hs
    split at hs
    · next context hfree =>
      cases hs
      have hused : (s context).used = false := by simpa using find?_some hfree
      exact hupdate context ((h context).handOut hused (hgood context hfree))
    · cases hs
      exact h
  | on context op =>
    obtain ⟨e, he, rfl⟩ := map_eq_some_iff.1 hs
    exact hupdate context ((h context).step hgood he)

/-- **The life cycle of the contexts.** In every run whose steps all meet the condition, every file
is closed exactly once, every buffer is freed exactly once, no context is handed out while its task
is running, and each context can be reused after `trace_stop` has returned. -/
theorem run_safe (ops : List LifeOp) (hmeets : Runs.Meets LifeOp.step LifeOp.Good .init ops) :
    Runs.Always LifeOp.step (fun s => ∀ context, (s context).Safe) .init ops :=
  hmeets.always (J := fun s => ∀ context, (s context).Inv) (fun _ h context => (h context).safe)
    (fun _ _ _ h hgood hs => LifeOp.inv_step h hgood hs) fun _ => TraceEntry.Inv.init

/-- `trace_start` up to the creation of the file, which succeeds or not. -/
def startOps (file : Bool) : List LifeOp :=
  .startBegin :: [true, true, file, true].map fun ok => .on 0 (.start 0 ok)

/-- The task begins, and `trace_start` returns. -/
def beginOps : List LifeOp :=
  [.on 0 (.task 0 ⟨true, false, 0⟩), .on 0 (.task 0 ⟨true, false, 0⟩), .on 0 (.start 0 true)]

/-- A trace is started and stopped without failures. -/
theorem run_safe_startStop :
    let ops := startOps true ++ beginOps ++ [.on 0 (.stopBegin true), .on 0 (.stop 0)] ++
      List.replicate 8 (.on 0 (.task 0 ⟨true, false, 0⟩)) ++ [.on 0 (.stop 0)]
    Runs.Meets LifeOp.step LifeOp.Good .init ops ∧
      Runs.Always LifeOp.step (fun s => ∀ context, (s context).Safe) .init ops :=
  ⟨by decide +kernel, run_safe _ (by decide +kernel)⟩

/-- The condition cannot be dropped. If the file cannot be created, then the context is handed out
again while the first task is running. After a write error, `trace_stop` waits for a task that does
not exist any more, and closes the file a second time. If the task is late, `trace_stop` marks the
context as unused although the task is running. -/
theorem run_violations :
    (∃ s, TraceContexts.init.run (startOps false ++ [.startBegin]) = some s ∧
      (s 0).overlapped = true) ∧
    (∃ s, TraceContexts.init.run (startOps true ++ beginOps ++ [.on 0 (.vwrite 10 false)] ++
        List.replicate 8 (.on 0 (.task 0 ⟨true, false, 0⟩)) ++ [.on 0 (.stopBegin true)] ++
        List.replicate 502 (.on 0 (.stop 0))) = some s ∧
      (s 0).files.released = [0, 0]) ∧
    ∃ s, TraceContexts.init.run (startOps true ++ beginOps ++ [.on 0 (.stopBegin true)] ++
        List.replicate 506 (.on 0 (.stop 0)) ++ [.startBegin]) = some s ∧
      (s 0).overlapped = true := by
  decide +kernel

end MagicLantern.Trace

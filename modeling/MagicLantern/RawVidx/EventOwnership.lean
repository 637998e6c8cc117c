import MagicLantern.RawVidx.Events

/-!
# Who has an event record

Each event record should at all times be `EMPTY`, in the hands of one call, in the queue, once, or
in the hands of the worker. This holds in all states of a run exactly if no call gives up a record
without posting it. The vsync callback does so with the first frame of each recording: it gets a
record before it knows that there is nothing to post. A task that gets a record for a stop command
in the last try does so as well. A full queue is the third case.

## Main results

* `run_owned_iff` — when each record has one holder.
* `run_firstFrame_lost`.
-/

namespace MagicLantern.RawVidx

/-- Who can have a record. -/
inductive Holder
  /-- Nobody: the record is `EMPTY`. -/
  | nobody
  /-- A call that has not finished. -/
  | call (p : Producer)
  | queue
  | worker
  deriving DecidableEq

namespace RawVid

/-- The record is with this holder. -/
@[simp] def Holds (s : RawVid) (i : EventId) : Holder → Prop
  | .nobody => (s.events i).type = .empty
  | .call p => (s.calls p).event? = some i
  | .queue => i ∈ s.queue
  | .worker => s.received = some i

/-- Each record is with one holder, and in the queue once if it is there. -/
structure Owned (s : RawVid) : Prop where
  holder : ∀ i, ∃! h, s.Holds i h
  nodup : s.queue.Nodup

end RawVid

/-- How often a call has tried again. -/
def Call.tries : Call → ℕ
  | .idle => 0
  | .getting tries => tries
  | .holding _ tries => tries

/-- A call ends with a record that it has not posted. -/
def Op.Loses (s : RawVid) : Op → Prop
  | .vsyncPost => s.count ≤ 1 ∨ s.Full
  | .keyPost => s.Full
  | .stopGet task sem =>
      (s.calls (.stop task)).tries = maxTries ∧ sem = true ∧ s.findEmpty ≠ none
  | .stopPost task => s.Full ∧ maxTries ≤ (s.calls (.stop task)).tries
  | _ => False

instance (s : RawVid) : DecidablePred (Op.Loses s) := fun op => by
  cases op <;> dsimp only [Op.Loses] <;> infer_instance

variable {s s' t : RawVid} {x : Holder} {sem : Bool}

/-! ### Handing over a record -/

/-- The only holder of a record. -/
theorem RawVid.Owned.eq_of_holds (h : s.Owned) {i : EventId} {y : Holder} (hx : s.Holds i x)
    (hy : s.Holds i y) : x = y :=
  (h.holder i).unique hx hy

/-- A record goes from one holder to another. -/
theorem RawVid.Owned.transfer (h : s.Owned) {i : EventId} {old : Holder} (new : Holder)
    (hold : s.Holds i old) (hother : ∀ j ≠ i, ∀ x, s'.Holds j x ↔ s.Holds j x)
    (hnew : s'.Holds i new) (hi : ∀ x ≠ new, s'.Holds i x → x ≠ old ∧ s.Holds i x)
    (hnodup : s'.queue.Nodup) :
    s'.Owned where
  holder j := by
    by_cases hj : j = i
    · subst hj
      refine ⟨new, hnew, fun x hx => ?_⟩
      by_contra hne
      obtain ⟨hold', hx'⟩ := hi x hne hx
      exact hold' (h.eq_of_holds hx' hold)
    · obtain ⟨x, hx, huniq⟩ := h.holder j
      exact ⟨x, (hother j hj x).2 hx, fun y hy => huniq y ((hother j hj y).1 hy)⟩
  nodup := hnodup

theorem RawVid.not_owned_of_forall {i : EventId} (hi : ∀ x, ¬ s.Holds i x) : ¬ s.Owned := by
  intro h
  obtain ⟨x, hx, -⟩ := h.holder i
  exact hi x hx

theorem RawVid.Owned.congr (h : s.Owned)
    (hevents : ∀ i, (s'.events i).type = .empty ↔ (s.events i).type = .empty)
    (hcalls : ∀ p, (s'.calls p).event? = (s.calls p).event?) (hqueue : s'.queue = s.queue)
    (hreceived : s'.received = s.received) : s'.Owned where
  holder i := by
    have hholds : ∀ x, s'.Holds i x ↔ s.Holds i x := by
      intro x
      cases x with
      | nobody => simp [hevents]
      | call p => simp [hcalls]
      | queue => simp [hqueue]
      | worker => simp [hreceived]
    obtain ⟨x, hx, huniq⟩ := h.holder i
    exact ⟨x, (hholds x).2 hx, fun y hy => huniq y ((hholds y).1 hy)⟩
  nodup := by
    rw [hqueue]
    exact h.nodup

theorem RawVid.Owned.setCall (h : s.Owned) {p : Producer} {call : Call}
    (hp : (s.calls p).event? = none) (hcall : call.event? = none) : (s.setCall p call).Owned := by
  refine h.congr (fun _ => Iff.rfl) (fun q => ?_) rfl rfl
  by_cases hq : q = p
  · subst hq
    simp [hp, hcall]
  · simp [hq]

/-! ### Getting a record -/

theorem RawVid.findEmpty_type {i : EventId} (h : s.findEmpty = some i) :
    (s.events i).type = .empty := by
  rw [RawVid.findEmpty] at h
  split_ifs at h with hnext
  · cases h
    exact hnext
  · simpa using List.find?_some h

theorem RawVid.Owned.getEmptyEvent_none (h : s.Owned) (ht : s.getEmptyEvent sem = (t, none)) :
    t.Owned ∧ t.calls = s.calls := by
  unfold RawVid.getEmptyEvent at ht
  cases sem with
  | false =>
    obtain ⟨rfl, -⟩ := Prod.mk.inj ht
    exact ⟨h.congr (fun _ => Iff.rfl) (fun _ => rfl) rfl rfl, rfl⟩
  | true =>
    cases hfind : s.findEmpty with
    | none =>
      simp only [hfind, if_true] at ht
      obtain ⟨rfl, -⟩ := ht
      exact ⟨h.congr (fun _ => Iff.rfl) (fun _ => rfl) rfl rfl, rfl⟩
    | some i => simp [hfind] at ht

/-- With a record: it was `EMPTY`, and is prepared by the call. -/
theorem RawVid.getEmptyEvent_some {i : EventId} (ht : s.getEmptyEvent sem = (t, some i)) :
    sem = true ∧ s.findEmpty = some i ∧
      t = { s with lastIndex := s.nextIndex }.setEvent i ⟨.preparing, none, 0, 0, 0⟩ := by
  unfold RawVid.getEmptyEvent at ht
  cases sem with
  | false => simp at ht
  | true =>
    cases hfind : s.findEmpty with
    | none => simp [hfind] at ht
    | some j =>
      simp only [hfind, if_true, Prod.mk.injEq, Option.some.injEq] at ht
      obtain ⟨rfl, rfl⟩ := ht
      exact ⟨rfl, rfl, rfl⟩

theorem RawVid.Owned.take (h : s.Owned) {p : Producer} {i : EventId}
    (ht : s.getEmptyEvent sem = (t, some i)) (hp : (s.calls p).event? = none) (tries : ℕ) :
    (t.setCall p (.holding i tries)).Owned := by
  obtain ⟨-, hfind, rfl⟩ := RawVid.getEmptyEvent_some ht
  have hempty : s.Holds i .nobody := RawVid.findEmpty_type hfind
  refine h.transfer (.call p) hempty (fun j hj x => ?_) ?_ (fun x hne hx => ?_) h.nodup
  · cases x with
    | nobody => simp [hj]
    | call q =>
      by_cases hq : q = p
      · subst hq
        simp [hp, Ne.symm hj]
      · simp [hq]
    | queue => rfl
    | worker => rfl
  · simp
  · cases x with
    | nobody => simp at hx
    | call q =>
      have hq : q ≠ p := fun hq => hne (hq ▸ rfl)
      exact ⟨by simp, by simpa [hq] using hx⟩
    | queue => exact ⟨by simp, hx⟩
    | worker => exact ⟨by simp, hx⟩

/-! ### Posting a record -/

/-- A call has finished; before that it had the record `i`, which is not `EMPTY` now. -/
structure Ends (s s' : RawVid) (p : Producer) (i : EventId) : Prop where
  held : (s.calls p).event? = some i
  calls : s'.calls = Function.update s.calls p .idle
  type : (s'.events i).type ≠ .empty
  types : ∀ j ≠ i, (s'.events j).type = (s.events j).type
  received : s'.received = s.received

variable {p : Producer} {i : EventId} {task : ℕ}

theorem Ends.of_setEvent {event : Event} (hheld : (s.calls p).event? = some i)
    (htype : event.type ≠ .empty) (hevents : s'.events = (s.setEvent i event).events)
    (hcalls : s'.calls = (s.setCall p .idle).calls) (hreceived : s'.received = s.received) :
    Ends s s' p i where
  held := hheld
  calls := hcalls
  type := by simpa [hevents] using htype
  types j hj := by simp [hevents, hj]
  received := hreceived

section

variable (h : Ends s s' p i)
include h

/-- The other records stay where they are, if they are not put into the queue. -/
theorem Ends.holds_iff {j : EventId} (hj : j ≠ i) (hqueue : j ∈ s'.queue ↔ j ∈ s.queue)
    (x : Holder) : s'.Holds j x ↔ s.Holds j x := by
  cases x with
  | nobody => simp [h.types j hj]
  | call q =>
    by_cases hq : q = p
    · subst hq
      simp [h.calls, h.held, Ne.symm hj]
    · simp [h.calls, hq]
  | queue => exact hqueue
  | worker => simp [h.received]

/-- The record itself can be nowhere but in the queue. -/
theorem Ends.eq_queue_of_holds (howned : s.Owned) (hx : s'.Holds i x) : x = .queue := by
  have hcall : s.Holds i (.call p) := h.held
  cases x with
  | nobody => exact absurd hx h.type
  | call q =>
    by_cases hq : q = p
    · subst hq
      simp [h.calls] at hx
    · have hx' : s.Holds i (.call q) := by simpa [h.calls, hq] using hx
      cases howned.eq_of_holds hcall hx'
      exact absurd rfl hq
  | queue => rfl
  | worker =>
    have hx' : s.Holds i .worker := by simpa [h.received] using hx
    cases howned.eq_of_holds hcall hx'

theorem Ends.not_mem_queue (howned : s.Owned) : i ∉ s.queue := by
  intro hmem
  have hcall : s.Holds i (.call p) := h.held
  cases howned.eq_of_holds hcall (show s.Holds i .queue from hmem)

/-- A record that is posted is in the queue. -/
theorem Ends.owned (howned : s.Owned) (hqueue : s'.queue = s.queue ++ [i]) : s'.Owned := by
  have hcall : s.Holds i (.call p) := h.held
  refine howned.transfer .queue hcall (fun j hj => ?_) ?_ (fun x hne hx => ?_) ?_
  · exact h.holds_iff hj (by simp [hqueue, hj])
  · simp [hqueue]
  · exact absurd (h.eq_queue_of_holds howned hx) hne
  · rw [hqueue, List.perm_append_comm.nodup_iff]
    exact List.nodup_cons.2 ⟨h.not_mem_queue howned, howned.nodup⟩

/-- A record that is not posted is nowhere. -/
theorem Ends.not_owned (howned : s.Owned) (hqueue : s'.queue = s.queue) : ¬ s'.Owned := by
  refine RawVid.not_owned_of_forall (i := i) fun x hx => ?_
  obtain rfl := h.eq_queue_of_holds howned hx
  have hmem : i ∈ s.queue := by simpa [hqueue] using hx
  exact h.not_mem_queue howned hmem

end

/-! ### The steps -/

section

variable (h : s.Owned)
include h

theorem owned_vsyncBegin {rawInfo : Bool} {alloc : Fin 2 → Option ℕ}
    (hs : s.vsyncBegin rawInfo alloc = some s') : s'.Owned := by
  unfold RawVid.vsyncBegin at hs
  by_cases hidle : s.calls .vsync = .idle
  case neg => simp [hidle] at hs
  have hp : (s.calls .vsync).event? = none := by simp [hidle]
  split_ifs at hs
  · cases hs
    exact h
  · cases hs
    exact h.congr (fun _ => Iff.rfl) (fun _ => rfl) rfl rfl
  · cases hs
    exact h
  · cases hs
    unfold RawVid.vsyncSetup
    split
    · exact (h.setCall hp (Call.event?_getting 0)).congr (fun _ => Iff.rfl) (fun _ => rfl) rfl rfl
    all_goals exact h.congr (fun _ => Iff.rfl) (fun _ => rfl) rfl rfl
  · cases hs
    exact (h.setCall hp (Call.event?_getting 0)).congr (fun _ => Iff.rfl) (fun _ => rfl) rfl rfl

theorem owned_vsyncGet (hs : s.vsyncGet sem = some s') : s'.Owned := by
  unfold RawVid.vsyncGet at hs
  split at hs
  case h_2 => simp at hs
  case h_1 tries hcall =>
    split at hs
    case h_1 t ht =>
      cases hs
      obtain ⟨hown, hcalls⟩ := h.getEmptyEvent_none ht
      have hspawn : t.spawnStop.Owned := hown.congr (fun _ => Iff.rfl) (fun _ => rfl) rfl rfl
      exact hspawn.setCall (by simp [RawVid.spawnStop, hcalls, hcall]) rfl
    case h_2 t i ht =>
      cases hs
      exact h.take ht (by simp [hcall]) 0

theorem owned_vsyncPost (hs : s.vsyncPost = some s') : s'.Owned ↔ ¬ Op.vsyncPost.Loses s := by
  unfold RawVid.vsyncPost at hs
  split at hs
  case h_2 => simp at hs
  case h_1 i tries hcall =>
    have hheld : (s.calls .vsync).event? = some i := by simp [hcall]
    have htype : (RawVid.imageEvent s.frame).type ≠ .empty := by simp [RawVid.imageEvent]
    split_ifs at hs with hcount hfull
    · cases hs
      exact iff_of_false (Ends.not_owned (.of_setEvent hheld htype rfl rfl rfl) h rfl)
        (not_not.2 (.inr hfull))
    · cases hs
      refine iff_of_true (Ends.owned (.of_setEvent hheld htype rfl rfl rfl) h rfl)
        (not_or.2 ⟨?_, hfull⟩)
      exact Nat.not_le.2 hcount
    · cases hs
      exact iff_of_false (Ends.not_owned (.of_setEvent hheld htype rfl rfl rfl) h rfl)
        (not_not.2 (.inl (Nat.not_lt.1 hcount)))

theorem owned_keyBegin (hs : s.keyBegin = some s') : s'.Owned := by
  unfold RawVid.keyBegin at hs
  split_ifs at hs with hidle
  split at hs
  · cases hs
    exact h.congr (fun _ => Iff.rfl) (fun _ => rfl) rfl rfl
  · cases hs
    exact h.setCall (by simp [hidle]) rfl
  · cases hs
    exact h

theorem owned_keyGet (hs : s.keyGet sem = some s') : s'.Owned := by
  unfold RawVid.keyGet at hs
  split at hs
  case h_2 => simp at hs
  case h_1 tries hcall =>
    split at hs
    case h_1 t ht =>
      cases hs
      obtain ⟨hown, hcalls⟩ := h.getEmptyEvent_none ht
      exact hown.setCall (by simp [hcalls, hcall]) rfl
    case h_2 t i ht =>
      cases hs
      exact h.take ht (by simp [hcall]) 0

theorem owned_keyPost (hs : s.keyPost = some s') : s'.Owned ↔ ¬ Op.keyPost.Loses s := by
  unfold RawVid.keyPost at hs
  split at hs
  case h_2 => simp at hs
  case h_1 i tries hcall =>
    have hheld : (s.calls .key).event? = some i := by simp [hcall]
    split_ifs at hs with hfull
    · cases hs
      exact iff_of_false (Ends.not_owned (.of_setEvent hheld (by simp) rfl rfl rfl) h rfl)
        (not_not.2 hfull)
    · cases hs
      exact iff_of_true (Ends.owned (.of_setEvent hheld (by simp) rfl rfl rfl) h rfl) hfull

theorem owned_stopBegin (hs : s.stopBegin task = some s') : s'.Owned := by
  rw [RawVid.stopBegin] at hs
  split_ifs at hs with hidle
  cases hs
  exact (h.setCall (p := .stop task) (by simp [hidle.1]) (Call.event?_getting 0)).congr
    (fun _ => Iff.rfl) (fun _ => rfl) rfl rfl

theorem owned_stopGet (hs : s.stopGet task sem = some s') :
    s'.Owned ↔ ¬ (Op.stopGet task sem).Loses s := by
  unfold RawVid.stopGet at hs
  split at hs
  case h_2 => simp at hs
  case h_1 tries hcall =>
    split at hs
    case h_1 t ht =>
      obtain ⟨hown, hcalls⟩ := h.getEmptyEvent_none ht
      have hgood : ¬ (Op.stopGet task sem).Loses s := by
        rintro ⟨-, rfl, hfind⟩
        obtain ⟨i, hi⟩ := Option.ne_none_iff_exists'.1 hfind
        simp [RawVid.getEmptyEvent, hi] at ht
      refine iff_of_true ?_ hgood
      split_ifs at hs
      all_goals
        cases hs
        exact hown.setCall (by simp [hcalls, hcall]) rfl
    case h_2 t i ht =>
      obtain ⟨hsem, hfind, hT⟩ := RawVid.getEmptyEvent_some ht
      have htake := h.take (p := .stop task) ht (by simp [hcall]) 0
      split_ifs at hs with htries
      · cases hs
        -- The call ends with the record it has just taken.
        have hends : Ends (t.setCall (.stop task) (.holding i 0)) (t.setCall (.stop task) .idle)
            (.stop task) i :=
          ⟨by simp, by simp,
            by simp [hT], fun _ _ => rfl, rfl⟩
        refine iff_of_false (hends.not_owned htake rfl) (not_not.2 ⟨?_, hsem, by simp [hfind]⟩)
        rw [hcall]
        exact htries
      · cases hs
        refine iff_of_true htake fun hloses => htries ?_
        simpa [hcall, Call.tries] using hloses.1

theorem owned_stopPost (hs : s.stopPost task = some s') : s'.Owned ↔
    ¬ (Op.stopPost task).Loses s := by
  unfold RawVid.stopPost at hs
  split at hs
  case h_2 => simp at hs
  case h_1 i tries hcall =>
    have hheld : (s.calls (.stop task)).event? = some i := by simp [hcall]
    have hloses : (Op.stopPost task).Loses s ↔ s.Full ∧ ¬ tries < maxTries := by
      simp [Op.Loses, hcall, Call.tries]
    split_ifs at hs with hfull htries
    · cases hs
      refine iff_of_true ?_ fun hl => (hloses.1 hl).2 htries
      have hnotempty : (s.events i).type ≠ .empty := fun hempty => by
        cases h.eq_of_holds (show s.Holds i .nobody from hempty)
          (show s.Holds i (.call (.stop task)) from hheld)
      refine h.congr (fun j => ?_) (fun q => ?_) rfl rfl
      · by_cases hj : j = i
        · subst hj
          simp [hnotempty]
        · simp [hj]
      · by_cases hq : q = .stop task
        · subst hq
          simp [hheld]
        · simp [hq]
    · cases hs
      exact iff_of_false (Ends.not_owned (.of_setEvent hheld (by simp) rfl rfl rfl) h rfl)
        (not_not.2 (hloses.2 ⟨hfull, htries⟩))
    · cases hs
      exact iff_of_true (Ends.owned (.of_setEvent hheld (by simp) rfl rfl rfl) h rfl)
        fun hl => hfull (hloses.1 hl).1

theorem owned_workerReceive (hs : s.workerReceive = some s') : s'.Owned := by
  unfold RawVid.workerReceive at hs
  split at hs
  case h_2 => simp at hs
  case h_1 i queue hreceived hqueue =>
    cases hs
    obtain ⟨hi, hnodup⟩ := List.nodup_cons.1 (hqueue ▸ h.nodup)
    have hmem : s.Holds i .queue := by simp [hqueue]
    refine h.transfer .worker hmem (fun j hj x => ?_) rfl (fun x hne hx => ?_) hnodup
    · cases x with
      | nobody => rfl
      | call p => rfl
      | queue => simp [hqueue, hj]
      | worker => simp [hreceived, Ne.symm hj]
    · cases x with
      | nobody => exact ⟨by simp, hx⟩
      | call p => exact ⟨by simp, hx⟩
      | queue => exact absurd hx hi
      | worker => exact absurd rfl hne

theorem owned_workerHandle {answers : Worker.Answers} (hs : s.workerHandle answers = some s') :
    s'.Owned := by
  unfold RawVid.workerHandle at hs
  split at hs
  case h_2 => simp at hs
  case h_1 i hreceived =>
    cases hs
    have hworker : s.Holds i .worker := hreceived
    refine h.transfer .nobody hworker (fun j hj x => ?_) ?_ (fun x hne hx => ?_) h.nodup
    · cases x with
      | nobody => simp [hj]
      | call p => rfl
      | queue => rfl
      | worker => simp [hreceived, Ne.symm hj]
    · simp
    · cases x with
      | nobody => exact absurd rfl hne
      | call p => exact ⟨by simp, hx⟩
      | queue => exact ⟨by simp, hx⟩
      | worker => simp at hx

theorem owned_writeStep {next : Option Worker} (hs : s.writeStep next = some s') : s'.Owned := by
  obtain ⟨worker, -, rfl⟩ := Option.map_eq_some_iff.1 hs
  exact h.congr (fun _ => Iff.rfl) (fun _ => rfl) rfl rfl

/-- After a step each record has one holder, unless the step loses one. -/
theorem owned_step {op : Op} (hs : op.step s = some s') : s'.Owned ↔ ¬ op.Loses s := by
  cases op with
  | vsyncBegin rawInfo alloc => exact iff_of_true (owned_vsyncBegin h hs) id
  | vsyncGet sem => exact iff_of_true (owned_vsyncGet h hs) id
  | vsyncPost => exact owned_vsyncPost h hs
  | keyBegin => exact iff_of_true (owned_keyBegin h hs) id
  | keyGet sem => exact iff_of_true (owned_keyGet h hs) id
  | keyPost => exact owned_keyPost h hs
  | stopBegin task => exact iff_of_true (owned_stopBegin h hs) id
  | stopGet task sem => exact owned_stopGet h hs
  | stopPost task => exact owned_stopPost h hs
  | workerReceive => exact iff_of_true (owned_workerReceive h hs) id
  | workerHandle answers => exact iff_of_true (owned_workerHandle h hs) id
  | edmacDone =>
    cases hs
    exact iff_of_true (h.congr (fun _ => Iff.rfl) (fun _ => rfl) rfl rfl) id
  | writeBegin | writeEnd => exact iff_of_true (owned_writeStep h hs) id

end

/-! ### Runs -/

theorem owned_init : RawVid.init.Owned where
  holder i := by
    refine ⟨.nobody, rfl, fun x hx => ?_⟩
    cases x <;> simp [RawVid.init] at hx ⊢
  nodup := List.nodup_nil

/-- **Event records.** In all states of a run each record has one holder exactly if no step loses
a record. In such a run all records are `EMPTY` when there is no call, the queue is empty and the
worker waits. -/
theorem run_owned_iff (ops : List Op) (s : RawVid) (hrun : RawVid.init.run ops = some s) :
    (Runs.Always Op.step RawVid.Owned .init ops ↔
      Runs.Meets Op.step (fun s op => ¬ op.Loses s) .init ops) ∧
    (Runs.Always Op.step RawVid.Owned .init ops → (∀ p, s.calls p = .idle) → s.queue = [] →
      s.received = none → ∀ i, (s.events i).type = .empty) := by
  constructor
  · exact Runs.always_iff_meets (J := RawVid.Owned) (fun _ h => h)
      (fun s op s' h hgood hs => (owned_step h hs).2 hgood)
      (fun s op s' h hbad hs hown => hbad ((owned_step h hs).1 hown)) hrun owned_init
  · intro halways hcalls hqueue hreceived i
    obtain ⟨x, hx, -⟩ := (halways.last hrun).holder i
    cases x with
    | nobody => exact hx
    | call p => simp [hcalls] at hx
    | queue => simp [hqueue] at hx
    | worker => simp [hreceived] at hx

/-- Memory for the crop buffers and a file. -/
def ready : Worker.Answers := ⟨fun _ => (some 0x8000000, some 0xA000000), true, by decide⟩

/-- A recording is started by the key. -/
def startRecording : List Op :=
  [.keyBegin, .keyGet true, .keyPost, .workerReceive, .workerHandle ready]

/-- A recording is stopped by the key, and the worker handles the stop command. -/
def stopRecording : List Op :=
  [.keyBegin, .stopBegin 0, .stopGet 0 true, .stopPost 0, .workerReceive, .workerHandle ready]

/-- A recording is started: all records are `EMPTY` after that. -/
theorem run_owned_start :
    ∃ s, RawVid.init.run startRecording = some s ∧ s.worker.recordingState = .active ∧
      ∀ i, (s.events i).type = .empty := by
  refine ⟨_, rfl, rfl, ?_⟩
  obtain ⟨hiff, hempty⟩ := run_owned_iff startRecording _ rfl
  refine hempty (hiff.2 (by decide +kernel)) (fun p => ?_) rfl rfl
  cases p <;> rfl

/-- The first vsync of a recording: when it is over a record is lost. -/
theorem run_firstFrame_lost :
    ∃ s, RawVid.init.run (startRecording ++
        [.vsyncBegin true (fun _ => some 0xC000000), .vsyncGet true, .vsyncPost]) = some s ∧
      (∀ p, s.calls p = .idle) ∧ s.queue = [] ∧ s.received = none ∧
      ∃ i, (s.events i).type = .imageData := by
  refine ⟨_, rfl, fun p => ?_, rfl, rfl, 2, rfl⟩
  cases p <;> rfl

end MagicLantern.RawVidx

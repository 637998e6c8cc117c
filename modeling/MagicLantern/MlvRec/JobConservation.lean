import MagicLantern.MlvRec.Jobs

/-!
# No job record is lost

Every record should at all times be in one queue or in the hands of one task. This is so in a run
exactly as long as no step drops a record. A writer drops each handle job it receives: it keeps the
file handle, and the record is not put back into the alloc queue, as it is after a write job and a
close job. So each new file costs a record.

## Main results

* `run_eachInOnePlace_iff` — when all records are kept.
* `run_handleJob_dropped`.
-/

namespace MagicLantern.MlvRec

open Custody

/-- The queue has no room. -/
def State.Full (s : State) (p : Place) : Prop :=
  queueSize p ≤ (s.box p).length

instance (s : State) (p : Place) : Decidable (s.Full p) :=
  inferInstanceAs (Decidable (_ ≤ _))

/-- The step drops a record: it posts to a full queue or empties one with records in it, or a writer
receives a handle job, or aborts with a record in hand. -/
@[simp] def Drops (cfg : Config) (s : State) : Op → Prop
  | .enqueue => ∃ w, s.dispatcher = .enqueue w ∧ s.Full (.writerQueue w)
  | .process _ => ∃ j ∈ (s.box .dispatcher).head?, s.Full (returnQueue (s.job j))
  | .postAbort => ∃ w, s.dispatcher = .postAbort w ∧ s.Full (.writerQueue w)
  | .flush => s.box (.writerQueue 0) ≠ [] ∨ s.box (.writerQueue 1) ≠ [] ∨ s.box .mgr ≠ []
  | .writerBegin w => ∃ j ∈ (s.box (.writer w)).head?, (s.job j).jobType ≠ .write ∨
      (s.job j).blockLen ≠ 0 ∧ chunkCheck cfg (s.writers w) (s.job j).blockSize ≠ .fits ∧
        s.box .alloc = []
  | .writerPost w _ =>
      (s.writers w).phase = .ending ∧ s.Full .alloc ∨
      (s.writers w).phase = .closing ∧ (s.Full .mgr ∨ (s.writers w).nextFileHandle = none) ∨
      (s.writers w).phase = .preparing ∧ s.Full .mgr
  | .writerWrite _ written => written = false ∨ s.Full .mgr
  | .start .. | .receive _ | .fill _ | .finish | .cleanup _ | .abort | .writerReceive _ => False

instance (cfg : Config) (s : State) : DecidablePred (Drops cfg s) := fun op => by
  cases op <;> dsimp only [Drops] <;> infer_instance

variable {cfg : Config} {s s' : State} {w : Writer}

/-! ### The steps of a writer -/

theorem writerReceive_accounts (h : writerReceive s w = some s') : Accounts False s.box s'.box := by
  rw [writerReceive] at h
  split_ifs at h
  cases h
  exact accounts_take

theorem writerTake_accounts (phase : WriterPhase) (hw : s.box (.writer w) ≠ []) :
    Accounts (s.box .alloc = []) s.box (writerTake s w phase).box := by
  rw [writerTake]
  split_ifs with h
  · exact accounts_clear.congr (iff_of_true hw h)
  · exact accounts_take.congr (iff_of_false id h)

theorem writerBegin_accounts (h : writerBegin cfg s w = some s') :
    Accounts (Drops cfg s (.writerBegin w)) s.box s'.box := by
  unfold writerBegin at h
  split at h
  case h_2 => simp at h
  case h_1 j l hphase hj =>
    have hw : s.box (.writer w) ≠ [] := by simp [hj]
    split at h
    case h_1 htype =>
      have htake (phase : WriterPhase) : Accounts (s.box .alloc = []) s.box
          (writerTake (s.decJobCount w) w phase).box :=
        writerTake_accounts (s := s.decJobCount w) phase hw
      split_ifs at h with hlen
      · cases h
        exact (Accounts.of_total_eq rfl).congr (by simp [hj, htype, hlen])
      · split at h
        case h_1 hcheck =>
          cases h
          exact (Accounts.of_total_eq rfl).congr (by simp [hj, htype, hcheck])
        case h_2 hcheck =>
          cases h
          exact (htake _).congr (by simp [hj, htype, hlen, hcheck])
        case h_3 hcheck =>
          cases h
          exact (htake _).congr (by simp [hj, htype, hlen, hcheck])
    case h_2 htype =>
      cases h
      exact (accounts_lose hw).congr (by simp [hj, htype])
    case h_3 htype =>
      cases h
      exact accounts_clear.congr (iff_of_true hw (by simp [hj, htype]))

theorem writerPost_accounts {size : UInt32} (h : writerPost s w size = some s') :
    Accounts (Drops cfg s (.writerPost w size)) s.box s'.box := by
  unfold writerPost at h
  dsimp only at h
  split at h
  case h_4 => simp at h
  case h_1 j l hphase hj =>
    cases h
    exact (accounts_offer (by simp [hj])).congr (by simp [hphase, State.Full])
  case h_2 c j l hphase hj =>
    have hoffer : Accounts (s.Full .mgr) s.box (offer s.box queueSize (.writer w) .mgr) :=
      accounts_offer (by simp [hj])
    split at h
    case h_1 hnext =>
      -- The close job is posted, then the writer aborts with the write job in hand.
      cases h
      refine (hoffer.trans accounts_clear).congr (iff_of_true (Or.inr ?_) ?_)
      · rw [offer_src _ _ (by simp), hj]
        simp
      · simp [hphase, hnext]
    case h_2 f hnext =>
      cases h
      exact hoffer.congr (by simp [hphase, hnext])
  case h_3 p j l hphase hj =>
    cases h
    exact (accounts_offer (by simp [hj])).congr (by simp [hphase, State.Full])

theorem writerWrite_accounts {written : Bool} (h : writerWrite s w written = some s') :
    Accounts (Drops cfg s (.writerWrite w written)) s.box s'.box := by
  unfold writerWrite at h
  split at h
  case h_2 => simp at h
  case h_1 j l hphase hj =>
    have hw : s.box (.writer w) ≠ [] := by simp [hj]
    split_ifs at h with hwritten
    · cases h
      exact (accounts_offer hw).congr (by simp [hwritten, State.Full])
    · cases h
      exact accounts_clear.congr (iff_of_true hw (by simp [hwritten]))

/-! ### The steps of the dispatcher -/

theorem start_accounts {cardSpanning : Bool} {handle : Writer → ℕ} {size : Writer → UInt32}
    (h : start s cardSpanning handle size = some s') : Accounts False s.box s'.box := by
  rw [start] at h
  split_ifs at h
  cases h
  exact .of_total_eq rfl

theorem receive_accounts {timeout : Bool} (h : receive s timeout = some s') :
    Accounts False s.box s'.box := by
  rw [receive] at h
  split_ifs at h
  · cases h
    exact .of_total_eq rfl
  · cases h
    exact accounts_take

theorem fill_accounts {found : Option (ℕ × UInt32)} (h : fill s found = some s') :
    Accounts False s.box s'.box := by
  unfold fill at h
  split at h
  case h_2 => simp at h
  case h_1 w hphase =>
    split_ifs at h
    · split at h
      case h_1 | h_2 =>
        cases h
        exact .of_total_eq rfl
      case h_3 =>
        cases h
        exact accounts_take
    · cases h
      exact .of_total_eq rfl

theorem enqueue_accounts (h : enqueue s = some s') :
    Accounts (Drops cfg s .enqueue) s.box s'.box := by
  unfold enqueue at h
  split at h
  case h_2 => simp at h
  case h_1 w j l hphase hj =>
    cases h
    exact (accounts_offer (by simp [hj])).congr (by simp [hphase, State.Full])

theorem process_accounts {file : Option ℕ} (h : process s file = some s') :
    Accounts (Drops cfg s (.process file)) s.box s'.box := by
  unfold process at h
  split at h
  case h_3 => simp at h
  case h_1 hphase hj =>
    cases h
    exact (Accounts.of_total_eq rfl).congr (by simp [hj])
  case h_2 j l hphase hj =>
    cases h
    exact (accounts_offer (by simp [hj])).congr (by simp [hj, State.Full])

theorem finish_accounts (h : finish s = some s') : Accounts False s.box s'.box := by
  rw [finish] at h
  split_ifs at h
  cases h
  exact .of_total_eq rfl

theorem cleanup_accounts {shutdown : Bool} (h : cleanup s shutdown = some s') :
    Accounts False s.box s'.box := by
  rw [cleanup] at h
  split_ifs at h
  cases h
  exact .of_total_eq rfl

theorem abort_accounts (h : abort s = some s') : Accounts False s.box s'.box := by
  unfold abort at h
  split at h
  case h_2 => simp at h
  case h_1 =>
    cases h
    exact accounts_take

theorem postAbort_accounts (h : postAbort s = some s') :
    Accounts (Drops cfg s .postAbort) s.box s'.box := by
  unfold postAbort at h
  split at h
  case h_2 => simp at h
  case h_1 w j l hphase hj =>
    cases h
    exact (accounts_offer (by simp [hj])).congr (by simp [hphase, State.Full])

theorem flush_accounts (h : flush s = some s') : Accounts (Drops cfg s .flush) s.box s'.box := by
  rw [flush] at h
  split_ifs at h
  cases h
  refine ((accounts_clear.trans accounts_clear).trans accounts_clear).congr ?_
  simp [or_assoc]

/-- A step keeps all records, unless it drops one. -/
theorem step_accounts {op : Op} (h : op.step cfg s = some s') :
    Accounts (Drops cfg s op) s.box s'.box := by
  cases op with
  | start cardSpanning handle size => exact start_accounts h
  | receive timeout => exact receive_accounts h
  | fill found => exact fill_accounts h
  | enqueue => exact enqueue_accounts h
  | process file => exact process_accounts h
  | finish => exact finish_accounts h
  | cleanup shutdown => exact cleanup_accounts h
  | abort => exact abort_accounts h
  | postAbort => exact postAbort_accounts h
  | flush => exact flush_accounts h
  | writerReceive w => exact writerReceive_accounts h
  | writerBegin w => exact writerBegin_accounts h
  | writerPost w size => exact writerPost_accounts h
  | writerWrite w written => exact writerWrite_accounts h

/-! ### Runs -/

/-- Each record is in one queue or in the hands of one task, once. -/
def State.EachInOnePlace (records : List ℕ) (s : State) : Prop :=
  ∀ j ∈ records, ∃ p, (s.box p).count j = 1 ∧ ∀ q ≠ p, j ∉ s.box q

theorem State.total_init (records : List ℕ) :
    total (State.init records).box = (records : Multiset ℕ) := by
  rw [total_eq_of_forall_ne (i := Place.alloc)]
  · rfl
  · intro p hp
    simp [State.init, hp]

/-- **Job records.** In every run from the creation of the records, each record is in one place if
and only if no step has dropped one; then, whenever the alloc queue is the only place with records,
it has all of them. -/
theorem run_eachInOnePlace_iff (cfg : Config) (records : List ℕ) (hnodup : records.Nodup)
    (ops : List Op) (s : State) (hrun : (State.init records).run cfg ops = some s) :
    (s.EachInOnePlace records ↔
      Runs.Meets (Op.step cfg) (fun s op => ¬ Drops cfg s op) (State.init records) ops) ∧
    (s.EachInOnePlace records → (∀ p ≠ .alloc, s.box p = []) → (s.box .alloc).Perm records) := by
  have hstep : ∀ s op s', Op.step cfg s op = some s' → Accounts (Drops cfg s op) s.box s'.box :=
    fun _ _ _ h => step_accounts h
  have hacc := accounts_run hstep hrun
  have hiff : s.EachInOnePlace records ↔
      Runs.Meets (Op.step cfg) (fun s op => ¬ Drops cfg s op) (State.init records) ops := by
    constructor
    · intro hplace
      by_contra hdrops
      have hfewer := hacc.fewer hdrops
      have hle := length_le_card_total hnodup fun j hj => by
        obtain ⟨p, hp, -⟩ := hplace j hj
        exact ⟨p, List.one_le_count_iff.1 hp.ge⟩
      rw [State.total_init, Multiset.coe_card] at hfewer
      omega
    · intro hmeets j hj
      have htotal := (hacc.kept (not_not.2 hmeets)).trans (State.total_init records)
      exact exists_place_of_total_eq hnodup htotal hj
  refine ⟨hiff, fun hplace hempty => ?_⟩
  have htotal := (hacc.kept (not_not.2 (hiff.1 hplace))).trans (State.total_init records)
  rw [total_eq_of_forall_ne hempty] at htotal
  exact Multiset.coe_eq_coe.1 htotal

/-- The limit of 4 GiB. -/
def fourGiB : Config := ⟨0xFFFFFFFF, false⟩

/-- A block is written. -/
def writeBlock : List Op :=
  [.receive true, .fill (some (8, 0x1000000)), .enqueue, .fill none, .process none,
    .writerReceive 0, .writerBegin 0, .writerWrite 0 true,
    .receive false, .fill none, .fill none, .process none]

/-- A recording of one block. -/
theorem run_eachInOnePlace_oneBlock :
    ∃ s, (State.init (List.range 50)).run fourGiB
        (.start false (fun _ => 0) (fun _ => 0x200) :: writeBlock) = some s ∧
      s.EachInOnePlace (List.range 50) ∧ (s.box .alloc).Perm (List.range 50) := by
  obtain ⟨s, hrun, hempty⟩ : ∃ s, (State.init (List.range 50)).run fourGiB
      (.start false (fun _ => 0) (fun _ => 0x200) :: writeBlock) = some s ∧
      ∀ p ≠ .alloc, s.box p = [] := by
    decide +kernel
  obtain ⟨hiff, hperm⟩ := run_eachInOnePlace_iff fourGiB (List.range 50) List.nodup_range _ s hrun
  have hplace := hiff.2 (by decide +kernel)
  exact ⟨s, hrun, hplace, hperm hplace hempty⟩

/-- A block is written near the limit: the writer asks for the next file, and the dispatcher sends
it the handle. When both tasks wait again, and all other queues are empty, the alloc queue has one
record less than at the start. -/
theorem run_handleJob_dropped :
    ∃ s, (State.init (List.range 50)).run fourGiB
        [.start false (fun _ => 0) (fun _ => 0xF8000000),
          .receive true, .fill (some (8, 0x1000000)), .enqueue, .fill none, .process none,
          .writerReceive 0, .writerBegin 0, .writerPost 0 0, .writerWrite 0 true,
          .receive false, .fill none, .fill none, .process (some 1),
          .receive false, .fill none, .fill none, .process none,
          .writerReceive 0, .writerBegin 0] = some s ∧
      s.dispatcher = .receive ∧ (s.writers 0).phase = .waiting ∧ (∀ p ≠ .alloc, s.box p = []) ∧
      (s.box .alloc).length = 49 := by
  decide +kernel

end MagicLantern.MlvRec

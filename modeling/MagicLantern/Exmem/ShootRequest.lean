import MagicLantern.Library.Runs
import Mathlib.Order.Basic

/-!
# Requests for shoot memory

A task that needs shoot memory makes a record `suite_info`, posts a request with it, and waits for
a semaphore for some time. The resource manager calls `allocCBR` with the record and a memory suite,
at any time. The callback stores the suite in the record and gives the semaphore, or, if the record
says that the task has given up, frees both. All requests share one semaphore.

The task decides that it has waited long enough, and tells the callback so, in two steps. If the
callback reads the record between them, or has read it before and has not given the semaphore yet,
neither side frees anything. Moreover the semaphore is given for a request that is over, so that the
next call takes it at once, without a suite, and frees a record that its callback has not seen yet.
So all suites and records are accounted for exactly if this does not happen, and if there is a suite
for each request that is still waited for.

Source: `src/src/exmem.c`: `allocCBR`, `shoot_malloc_suite_int`, `_shoot_malloc_suite_contig`.

## Main results

* `run_settled_iff` — when all suites and records are accounted for.
* `run_late_callback`.
-/

namespace MagicLantern.Exmem

open Function Option

/-- A memory suite, `none` for `NULL`. -/
abbrev Suite := Option ℕ

/-- Where a call is. -/
inductive Call
  /-- There is no such call. -/
  | new
  /-- In `take_semaphore`. -/
  | waiting
  /-- `take_semaphore` has timed out. -/
  | expired
  /-- The semaphore has been taken. -/
  | taken
  /-- `suite_info->ret` has been read. -/
  | read (ret : Suite)
  /-- The call has returned. -/
  | over (ret : Suite)
  deriving DecidableEq

/-- Where the callback of a request is. -/
inductive Callback
  /-- There is no request. -/
  | absent
  /-- It has not been called. -/
  | pending
  /-- `timed_out` was not set. -/
  | checked (suite : Suite)
  /-- `suite_info->ret` has been set. -/
  | stored (suite : Suite)
  /-- The semaphore has been given. -/
  | delivered (suite : Suite)
  /-- `timed_out` was set: suite and record have been freed. -/
  | dropped (suite : Suite)
  deriving DecidableEq

/-- A request: the fields of `suite_info` that change, and what has happened so far. -/
structure Request where
  call : Call
  callback : Callback
  ret : Suite
  timedOut : Bool
  /-- How often `suite_info` has been freed. -/
  infoFrees : ℕ
  /-- How often the suite has been freed. -/
  suiteFrees : ℕ
  deriving DecidableEq

/-- What must not happen. -/
inductive Fault
  /-- A record is used after it was freed. -/
  | useAfterFree (id : ℕ)
  /-- `hSuite->size` is read without a suite. -/
  | nullSuite (id : ℕ)

/-- All requests. The calls are made one after the other, under `mem_sem`. -/
structure ShootMem where
  requests : ℕ → Request
  next : ℕ
  /-- The request of the call that has `mem_sem`. -/
  current : Option ℕ
  allocSem : ℕ
  faults : List Fault

/-- A step of the call, or of the callback of a request. -/
inductive ShootOp
  | post
  | take
  | timeout
  | mark
  | read
  | finish
  | check (id : ℕ) (suite : Suite)
  | store (id : ℕ)
  | give (id : ℕ)

namespace ShootMem

variable (s : ShootMem)

/-- A request goes on. -/
def set (id : ℕ) (r : Request) : ShootMem :=
  { s with requests := Function.update s.requests id r }

@[simp] theorem requests_set_self (id : ℕ) (r : Request) : (s.set id r).requests id = r :=
  update_self ..

/-- The record of a request is used. -/
def access (id : ℕ) : ShootMem :=
  if (s.requests id).infoFrees = 0 then s
  else { s with faults := .useAfterFree id :: s.faults }

/-! ### The call -/

/-- The record is made and the request is posted. -/
def post : Option ShootMem :=
  match s.current with
  | none => some { s.set s.next ⟨.waiting, .pending, none, false, 0, 0⟩ with
      next := s.next + 1
      current := some s.next }
  | some _ => none

/-- `take_semaphore` succeeds. -/
def take (id : ℕ) : Option ShootMem :=
  if (s.requests id).call = .waiting ∧ s.allocSem ≠ 0 then
    some { s.set id { s.requests id with call := .taken } with allocSem := s.allocSem - 1 }
  else none

/-- `take_semaphore` times out. -/
def timeout (id : ℕ) : Option ShootMem :=
  if (s.requests id).call = .waiting ∧ s.allocSem = 0 then
    some (s.set id { s.requests id with call := .expired })
  else none

/-- `suite_info->timed_out = 1`, and `NULL` is returned. -/
def mark (id : ℕ) : Option ShootMem :=
  if (s.requests id).call = .expired then
    some { (s.access id).set id { s.requests id with call := .over none, timedOut := true } with
      current := none }
  else none

/-- `hSuite = suite_info->ret`. -/
def read (id : ℕ) : Option ShootMem :=
  if (s.requests id).call = .taken then
    some ((s.access id).set id { s.requests id with call := .read (s.requests id).ret })
  else none

/-- The record is freed, the size of the suite is checked, and the suite is returned. -/
def finish (id : ℕ) : Option ShootMem :=
  match (s.requests id).call with
  | .read ret =>
    some { s.set id { s.requests id with
        call := .over ret
        infoFrees := (s.requests id).infoFrees + 1 } with
      current := none
      faults := if ret = none then .nullSuite id :: s.faults else s.faults }
  | _ => none

/-! ### The callback -/

/-- `allocCBR` is called and reads `timed_out`. -/
def check (id : ℕ) (suite : Suite) : Option ShootMem :=
  if (s.requests id).callback = .pending then
    if (s.requests id).timedOut then
      some ((s.access id).set id { s.requests id with
        callback := .dropped suite
        infoFrees := (s.requests id).infoFrees + 1
        suiteFrees := if suite = none then (s.requests id).suiteFrees
          else (s.requests id).suiteFrees + 1 })
    else some ((s.access id).set id { s.requests id with callback := .checked suite })
  else none

/-- `suite_info->ret = hSuite`. -/
def store (id : ℕ) : Option ShootMem :=
  match (s.requests id).callback with
  | .checked suite =>
    some ((s.access id).set id { s.requests id with callback := .stored suite, ret := suite })
  | _ => none

/-- `give_semaphore`. -/
def give (id : ℕ) : Option ShootMem :=
  match (s.requests id).callback with
  | .stored suite =>
    some { (s.access id).set id { s.requests id with callback := .delivered suite } with
      allocSem := s.allocSem + 1 }
  | _ => none

end ShootMem

/-! ### Runs -/

/-- `none` where the call or the callback is not at that step. -/
def ShootOp.step (s : ShootMem) : ShootOp → Option ShootMem
  | .post => s.post
  | .take => s.current.bind s.take
  | .timeout => s.current.bind s.timeout
  | .mark => s.current.bind s.mark
  | .read => s.current.bind s.read
  | .finish => s.current.bind s.finish
  | .check id suite => s.check id suite
  | .store id => s.store id
  | .give id => s.give id

/-- There has been no request. -/
def ShootMem.init : ShootMem where
  requests := fun _ => ⟨.new, .absent, none, false, 0, 0⟩
  next := 0
  current := none
  allocSem := 0
  faults := []

/-- The state after the given steps. -/
def ShootMem.run (s : ShootMem) (ops : List ShootOp) : Option ShootMem :=
  ops.foldlM ShootOp.step s

/-- The suite of a request whose callback has returned. -/
def Request.suite? (r : Request) : Option Suite :=
  match r.callback with
  | .delivered suite => some suite
  | .dropped suite => some suite
  | _ => none

/-- What the call of a request has returned. -/
def Request.result? (r : Request) : Option Suite :=
  match r.call with
  | .over ret => some ret
  | _ => none

/-- Suite and record of a request are accounted for. -/
structure Request.Settled (r : Request) : Prop where
  /-- The suite is returned, or freed once. -/
  suite : ∀ n, r.suite? = some (some n) → ∀ ret, r.result? = some ret →
    ret = some n ∧ r.suiteFrees = 0 ∨ ret = none ∧ r.suiteFrees = 1
  /-- No other suite is returned. -/
  result : ∀ n, r.result? = some (some n) → r.suite? = some (some n)
  /-- The record is freed. -/
  info : r.suite?.isSome → r.result?.isSome → r.infoFrees = 1
  infoFrees_le : r.infoFrees ≤ 1
  suiteFrees_le : r.suiteFrees ≤ 1

/-- All suites and records are accounted for, and no wrong one has been used. -/
structure ShootMem.Sound (s : ShootMem) : Prop where
  settled : ∀ id, (s.requests id).Settled
  faults : s.faults = []

/-- There is no call or callback in progress. -/
def ShootMem.Quiet (s : ShootMem) : Prop :=
  ∀ id, ((s.requests id).call = .new ∨ (s.requests id).result?.isSome) ∧
    ((s.requests id).callback = .absent ∨ (s.requests id).callback = .pending ∨
      (s.requests id).suite?.isSome)

/-- The call times out before the callback has begun, and the callback begins before the call has
timed out, with a suite, or after `timed_out` has been set. -/
def ShootOp.Good (s : ShootMem) : ShootOp → Prop
  | .timeout => ∀ id ∈ s.current, (s.requests id).callback = .pending
  | .check id suite =>
      (s.requests id).call ≠ .expired ∧ (suite ≠ none ∨ (s.requests id).timedOut = true)
  | _ => True

instance (s : ShootMem) : DecidablePred (ShootOp.Good s) := fun op => by
  cases op <;> dsimp only [ShootOp.Good] <;> infer_instance

/-! ### The life of a request -/

/-- The states of a request for which everything goes well. -/
inductive Life
  | new
  | pending
  | checked (n : ℕ)
  | stored (n : ℕ)
  | delivered (n : ℕ)
  | taken (n : ℕ)
  | read (n : ℕ)
  | returned (n : ℕ)
  | expired
  | late
  | dropped (suite : Suite)

namespace Life

/-- The request in that state. -/
@[simp] def request : Life → Request
  | .new => ⟨.new, .absent, none, false, 0, 0⟩
  | .pending => ⟨.waiting, .pending, none, false, 0, 0⟩
  | .checked n => ⟨.waiting, .checked (some n), none, false, 0, 0⟩
  | .stored n => ⟨.waiting, .stored (some n), some n, false, 0, 0⟩
  | .delivered n => ⟨.waiting, .delivered (some n), some n, false, 0, 0⟩
  | .taken n => ⟨.taken, .delivered (some n), some n, false, 0, 0⟩
  | .read n => ⟨.read (some n), .delivered (some n), some n, false, 0, 0⟩
  | .returned n => ⟨.over (some n), .delivered (some n), some n, false, 1, 0⟩
  | .expired => ⟨.expired, .pending, none, false, 0, 0⟩
  | .late => ⟨.over none, .pending, none, true, 0, 0⟩
  | .dropped suite => ⟨.over none, .dropped suite, none, true, 1, if suite = none then 0 else 1⟩

/-- The call is in progress. -/
@[simp] def Active : Life → Prop
  | .new | .returned _ | .late | .dropped _ => False
  | _ => True

/-- The semaphore is there for the call. -/
@[simp] def tokens : Life → ℕ
  | .delivered _ => 1
  | _ => 0

theorem tokens_of_not_active {l : Life} (h : ¬ l.Active) : l.tokens = 0 := by
  cases l with
  | delivered n => exact absurd trivial h
  | _ => rfl

theorem settled (l : Life) : l.request.Settled := by
  cases l with
  | dropped suite =>
    refine ⟨?_, ?_, ?_, ?_, ?_⟩
    · rintro n hn ret hret
      obtain rfl : suite = some n := some.inj hn
      exact .inr ⟨(some.inj hret).symm, by simp⟩
    · rintro n hn
      exact absurd (some.inj hn) (by simp)
    · exact fun _ _ => rfl
    · exact Nat.le_refl 1
    · dsimp only [request]
      split_ifs <;> decide
  | _ => constructor <;> simp [Request.suite?, Request.result?]

end Life

/-- Each request is in one of these states; at most one call is in progress, and the semaphore has
been given if its suite was delivered. -/
structure ShootMem.Inv (s : ShootMem) (life : ℕ → Life) : Prop where
  request : ∀ id, s.requests id = (life id).request
  active : ∀ id, (life id).Active → s.current = some id
  next : ∀ id, s.next ≤ id → life id = .new
  allocSem : s.allocSem = s.current.elim 0 fun id => (life id).tokens
  faults : s.faults = []

variable {s s' : ShootMem} {life : ℕ → Life} {id : ℕ} {suite : Suite} {op : ShootOp}
  {r r' : Request}

namespace ShootMem.Inv

section

variable (h : s.Inv life)
include h

theorem access_eq_self (hfrees : (life id).request.infoFrees = 0) : s.access id = s := by
  rw [← h.request] at hfrees
  exact if_pos hfrees

/-- One request goes on, with its call or with its callback, and the others stay as they are. -/
theorem advance {l₀ : Life} (hl : life id = l₀) (l : Life) (hne : l₀ ≠ .new)
    (hactive : l.Active → l₀.Active) (hrequests : s'.requests = update s.requests id l.request)
    (hnext : s'.next = s.next)
    (hcurrent : s'.current = s.current ∨ s.current = some id ∧ s'.current = none ∧ ¬ l.Active)
    (hsem : s'.allocSem + l₀.tokens = s.allocSem + l.tokens) (hfaults : s'.faults = []) :
    ∃ life', s'.Inv life' := by
  subst hl
  refine ⟨update life id l, fun j => ?_, fun j hj => ?_, fun j hj => ?_, ?_, hfaults⟩
  · rcases eq_or_ne j id with rfl | hj
    · simp [hrequests]
    · simp [hrequests, hj, h.request]
  · have hold : s.current = some j := by
      rcases eq_or_ne j id with rfl | hne
      · rw [update_self] at hj
        exact h.active j (hactive hj)
      · rw [update_of_ne hne] at hj
        exact h.active j hj
    rcases hcurrent with hc | ⟨hid, -, hno⟩
    · rw [hc, hold]
    · obtain rfl := some.inj (hid.symm.trans hold)
      rw [update_self] at hj
      exact absurd hj hno
  · have hnew := h.next j (hnext ▸ hj)
    rcases eq_or_ne j id with rfl | hj
    · exact absurd hnew hne
    · rw [update_of_ne hj, hnew]
  · have hold := h.allocSem
    -- a request that is not the current one has no semaphore, before and after
    have hout (hid : s.current ≠ some id) : (life id).tokens = 0 ∧ l.tokens = 0 := by
      have hno := mt (h.active id) hid
      exact ⟨Life.tokens_of_not_active hno, Life.tokens_of_not_active (mt hactive hno)⟩
    rcases hcurrent with hc | ⟨hid, hc, hno⟩
    · rw [hc]
      cases hid : s.current with
      | none =>
        have := hout (by simp [hid])
        simp only [hid, elim_none] at hold ⊢
        omega
      | some j =>
        simp only [hid, elim_some] at hold ⊢
        rcases eq_or_ne j id with rfl | hj
        · rw [update_self]
          omega
        · have := hout (by simp [hid, hj])
          rw [update_of_ne hj]
          omega
    · have := Life.tokens_of_not_active hno
      simp only [hid, hc, elim_some, elim_none] at hold ⊢
      omega

theorem post (hs : s.post = some s') : s'.Inv (update life s.next .pending) := by
  unfold ShootMem.post at hs
  split at hs
  · rename_i hnone
    cases hs
    refine ⟨fun j => ?_, fun j hj => ?_, fun j hj => ?_, ?_, h.faults⟩
    · rcases eq_or_ne j s.next with rfl | hj
      · simp [set]
      · simp [set, hj, h.request]
    · rcases eq_or_ne j s.next with rfl | hne
      · rfl
      · rw [update_of_ne hne] at hj
        exact absurd (h.active j hj) (by simp [hnone])
    · have hj : s.next + 1 ≤ j := hj
      rw [update_of_ne (by omega), h.next j (by omega)]
    · have hsem := h.allocSem
      rw [hnone] at hsem
      simpa [set] using hsem
  · cases hs

theorem take (hid : s.current = some id) (hs : s.take id = some s') :
    ∃ life', s'.Inv life' := by
  rw [ShootMem.take] at hs
  split_ifs at hs with hcond
  cases hs
  have hsem := h.allocSem
  simp only [hid, elim_some] at hsem
  rw [hsem] at hcond
  cases hl : life id with
  | delivered n =>
    refine h.advance hl (.taken n) nofun (fun _ => trivial) ?_ rfl (.inl rfl) ?_ h.faults
    · simp [set, h.request, hl]
    · simp [hsem, hl]
  | _ => simp [hl] at hcond

theorem timeout (hid : s.current = some id) (hgood : ShootOp.timeout.Good s)
    (hs : s.timeout id = some s') : ∃ life', s'.Inv life' := by
  rw [ShootMem.timeout] at hs
  split_ifs at hs with hcond
  cases hs
  have hpending := hgood id hid
  rw [h.request] at hcond hpending
  cases hl : life id with
  | pending =>
    refine h.advance hl .expired nofun (fun _ => trivial) ?_ rfl (.inl rfl) rfl h.faults
    simp [set, h.request, hl]
  | _ => simp [hl] at hcond hpending

theorem mark (hid : s.current = some id) (hs : s.mark id = some s') :
    ∃ life', s'.Inv life' := by
  rw [ShootMem.mark] at hs
  split_ifs at hs with hcond
  cases hs
  rw [h.request] at hcond
  cases hl : life id with
  | expired =>
    rw [h.access_eq_self (by simp [hl])]
    refine h.advance hl .late nofun False.elim ?_ rfl (.inr ⟨hid, rfl, not_false⟩) rfl h.faults
    simp [set, h.request, hl]
  | _ => simp [hl] at hcond

theorem read (hs : s.read id = some s') : ∃ life', s'.Inv life' := by
  rw [ShootMem.read] at hs
  split_ifs at hs with hcond
  cases hs
  rw [h.request] at hcond
  cases hl : life id with
  | taken n =>
    rw [h.access_eq_self (by simp [hl])]
    refine h.advance hl (.read n) nofun (fun _ => trivial) ?_ rfl (.inl rfl) rfl h.faults
    simp [set, h.request, hl]
  | _ => simp [hl] at hcond

theorem finish (hid : s.current = some id) (hs : s.finish id = some s') :
    ∃ life', s'.Inv life' := by
  unfold ShootMem.finish at hs
  split at hs
  · rename_i ret hcall
    cases hs
    rw [h.request] at hcall
    cases hl : life id with
    | read n =>
      obtain rfl : some n = ret := by simpa [hl] using hcall
      refine h.advance hl (.returned n) nofun False.elim ?_ rfl (.inr ⟨hid, rfl, not_false⟩) rfl ?_
      · simp [set, h.request, hl]
      · simpa using h.faults
    | _ => simp [hl] at hcall
  · cases hs

theorem check (hgood : (ShootOp.check id suite).Good s) (hs : s.check id suite = some s') :
    ∃ life', s'.Inv life' := by
  obtain ⟨hexpired, hsuite⟩ := hgood
  unfold ShootMem.check at hs
  split at hs
  next hcallback =>
    split at hs
    next htimed =>
      cases hs
      rw [h.request] at hcallback htimed
      cases hl : life id with
      | late =>
        rw [h.access_eq_self (by simp [hl])]
        refine h.advance hl (.dropped suite) nofun False.elim ?_ rfl (.inl rfl) rfl h.faults
        simp [set, h.request, hl]
      | _ => simp [hl] at hcallback htimed
    next htimed =>
      cases hs
      obtain ⟨n, rfl⟩ := ne_none_iff_exists'.1 (hsuite.resolve_right htimed)
      rw [h.request] at hcallback htimed hexpired
      cases hl : life id with
      | pending =>
        rw [h.access_eq_self (by simp [hl])]
        refine h.advance hl (.checked n) nofun (fun _ => trivial) ?_ rfl (.inl rfl) rfl h.faults
        simp [set, h.request, hl]
      | _ => simp [hl] at hcallback htimed hexpired
  next => cases hs

theorem store (hs : s.store id = some s') : ∃ life', s'.Inv life' := by
  unfold ShootMem.store at hs
  split at hs
  · rename_i suite hcallback
    cases hs
    rw [h.request] at hcallback
    cases hl : life id with
    | checked n =>
      obtain rfl : some n = suite := by simpa [hl] using hcallback
      rw [h.access_eq_self (by simp [hl])]
      refine h.advance hl (.stored n) nofun (fun _ => trivial) ?_ rfl (.inl rfl) rfl h.faults
      simp [set, h.request, hl]
    | _ => simp [hl] at hcallback
  · cases hs

theorem give (hs : s.give id = some s') : ∃ life', s'.Inv life' := by
  unfold ShootMem.give at hs
  split at hs
  · rename_i suite hcallback
    cases hs
    rw [h.request] at hcallback
    cases hl : life id with
    | stored n =>
      obtain rfl : some n = suite := by simpa [hl] using hcallback
      rw [h.access_eq_self (by simp [hl])]
      refine h.advance hl (.delivered n) nofun (fun _ => trivial) ?_ rfl (.inl rfl) rfl h.faults
      simp [set, h.request, hl]
    | _ => simp [hl] at hcallback
  · cases hs

/-- **The life of a request.** A good step takes one request from one of its states to another. -/
theorem step (hgood : op.Good s) (hs : op.step s = some s') : ∃ life', s'.Inv life' := by
  cases op with
  | post => exact ⟨_, h.post hs⟩
  | take =>
    obtain ⟨id, hid, hs⟩ := bind_eq_some_iff.1 hs
    exact h.take hid hs
  | timeout =>
    obtain ⟨id, hid, hs⟩ := bind_eq_some_iff.1 hs
    exact h.timeout hid hgood hs
  | mark =>
    obtain ⟨id, hid, hs⟩ := bind_eq_some_iff.1 hs
    exact h.mark hid hs
  | read =>
    obtain ⟨id, -, hs⟩ := bind_eq_some_iff.1 hs
    exact h.read hs
  | finish =>
    obtain ⟨id, hid, hs⟩ := bind_eq_some_iff.1 hs
    exact h.finish hid hs
  | check id suite => exact h.check hgood hs
  | store id => exact h.store hs
  | give id => exact h.give hs

theorem sound : s.Sound where
  settled id := by
    rw [h.request]
    exact (life id).settled
  faults := h.faults

end

end ShootMem.Inv

theorem ShootMem.inv_init : ShootMem.init.Inv fun _ => .new where
  request _ := rfl
  active _ h := h.elim
  next _ _ := rfl
  allocSem := rfl
  faults := rfl

/-! ### Requests that are lost -/

/-- The suite with which the callback has begun, when `timed_out` was not set. -/
def Callback.inTime? : Callback → Option Suite
  | .checked suite | .stored suite | .delivered suite => some suite
  | _ => none

/-- The call has given up, and the callback has not noticed. -/
structure Request.Leaked (r : Request) : Prop where
  callback : r.callback.inTime?.isSome
  call : r.call = .expired ∨ r.call = .over none
  infoFrees : r.infoFrees = 0

/-- The call waits for `NULL`. -/
structure Request.Empty (r : Request) : Prop where
  callback : r.callback.inTime? = some none
  call : r.call = .waiting ∨ r.call = .taken ∨ r.call = .read none
  ret : r.ret = none
  infoFrees : r.infoFrees = 0

/-- Something has gone wrong, or will have when the calls and callbacks are over. -/
def ShootMem.Doomed (s : ShootMem) : Prop :=
  s.faults ≠ [] ∨ ∃ id < s.next, (s.requests id).Leaked ∨ (s.requests id).Empty

/-- What a step can do with a request. -/
inductive Request.Step (r : Request) : Request → Prop
  | take (h : r.call = .waiting) : Step r { r with call := .taken }
  | timeout (h : r.call = .waiting) : Step r { r with call := .expired }
  | mark (h : r.call = .expired) : Step r { r with call := .over none, timedOut := true }
  | read (h : r.call = .taken) : Step r { r with call := .read r.ret }
  | finish {n : ℕ} (h : r.call = .read (some n)) :
      Step r { r with call := .over (some n), infoFrees := r.infoFrees + 1 }
  | drop {suite : Suite} {frees : ℕ} (h : r.callback = .pending) :
      Step r { r with
        callback := .dropped suite
        infoFrees := r.infoFrees + 1
        suiteFrees := frees }
  | check {suite : Suite} (h : r.callback = .pending) :
      Step r { r with callback := .checked suite }
  | store {suite : Suite} (h : r.callback = .checked suite) :
      Step r { r with callback := .stored suite, ret := suite }
  | give {suite : Suite} (h : r.callback = .stored suite) :
      Step r { r with callback := .delivered suite }

theorem Request.Step.leaked (h : r.Leaked) (hs : r.Step r') : r'.Leaked := by
  obtain ⟨hcallback, hcall, hfrees⟩ := h
  cases hs with
  | take h | timeout h | read h | finish h => simp [h] at hcall
  | mark h => exact ⟨hcallback, .inr rfl, hfrees⟩
  | drop h | check h => simp [h, Callback.inTime?] at hcallback
  | store h | give h => exact ⟨rfl, hcall, hfrees⟩

theorem Request.Step.empty (h : r.Empty) (hs : r.Step r') : r'.Leaked ∨ r'.Empty := by
  obtain ⟨hcallback, hcall, hret, hfrees⟩ := h
  cases hs with
  | take h => exact .inr ⟨hcallback, .inr (.inl rfl), hret, hfrees⟩
  | timeout h => exact .inl ⟨by simp [hcallback], .inl rfl, hfrees⟩
  | mark h => simp [h] at hcall
  | read h => exact .inr ⟨hcallback, .inr (.inr (by simp [hret])), hret, hfrees⟩
  | finish h => simp [h] at hcall
  | drop h | check h => simp [h, Callback.inTime?] at hcallback
  | store h | give h =>
    simp only [h, Callback.inTime?, some.injEq] at hcallback
    subst hcallback
    exact .inr ⟨rfl, hcall, by first | rfl | exact hret, hfrees⟩

namespace ShootMem

theorem requests_access : (s.access id).requests = s.requests := by
  rw [access]
  split_ifs <;> rfl

theorem next_access : (s.access id).next = s.next := by
  rw [access]
  split_ifs <;> rfl

theorem faults_access : s.faults <:+ (s.access id).faults := by
  rw [access]
  split_ifs
  · exact List.suffix_rfl
  · exact List.suffix_cons _ _

/-- Only the given request goes on, by a step. -/
structure Goes (s s' : ShootMem) (id : ℕ) : Prop where
  step : s'.faults ≠ [] ∨ (s.requests id).Step (s'.requests id)
  others : ∀ j ≠ id, s'.requests j = s.requests j
  next : s'.next = s.next
  faults : s.faults <:+ s'.faults

theorem Goes.of_set (hrequests : s'.requests = update s.requests id r)
    (hstep : s'.faults ≠ [] ∨ (s.requests id).Step r) (hnext : s'.next = s.next)
    (hfaults : s.faults <:+ s'.faults) : s.Goes s' id where
  step := by rwa [hrequests, update_self]
  others j hj := by rw [hrequests, update_of_ne hj]
  next := hnext
  faults := hfaults

theorem Goes.of_access (hstep : (s.requests id).Step r) (hrequests : s'.requests = update
      (s.access id).requests id r) (hnext : s'.next = (s.access id).next)
    (hfaults : s'.faults = (s.access id).faults) : s.Goes s' id := by
  refine .of_set ?_ (.inr hstep) ?_ ?_
  · rw [hrequests, requests_access]
  · rw [hnext, next_access]
  · rw [hfaults]
    exact faults_access

theorem goes_take (hs : s.take id = some s') : s.Goes s' id := by
  rw [take] at hs
  split_ifs at hs with h
  cases hs
  exact .of_set rfl (.inr (.take h.1)) rfl List.suffix_rfl

theorem goes_timeout (hs : s.timeout id = some s') : s.Goes s' id := by
  rw [timeout] at hs
  split_ifs at hs with h
  cases hs
  exact .of_set rfl (.inr (.timeout h.1)) rfl List.suffix_rfl

theorem goes_mark (hs : s.mark id = some s') : s.Goes s' id := by
  rw [mark] at hs
  split_ifs at hs with h
  cases hs
  exact .of_access (.mark h) rfl rfl rfl

theorem goes_read (hs : s.read id = some s') : s.Goes s' id := by
  rw [read] at hs
  split_ifs at hs with h
  cases hs
  exact .of_access (.read h) rfl rfl rfl

theorem goes_finish (hs : s.finish id = some s') : s.Goes s' id := by
  unfold finish at hs
  split at hs
  · rename_i ret hcall
    cases hs
    cases ret with
    | none => exact .of_set rfl (.inl (by simp)) rfl (List.suffix_cons _ _)
    | some n => exact .of_set rfl (.inr (.finish hcall)) rfl List.suffix_rfl
  · cases hs

theorem goes_check (hs : s.check id suite = some s') : s.Goes s' id := by
  unfold check at hs
  split at hs
  next hcallback =>
    split at hs
    · cases hs
      exact .of_access (.drop hcallback) rfl rfl rfl
    · cases hs
      exact .of_access (.check hcallback) rfl rfl rfl
  next => cases hs

theorem goes_store (hs : s.store id = some s') : s.Goes s' id := by
  unfold store at hs
  split at hs
  next hcallback =>
    cases hs
    exact .of_access (.store hcallback) rfl rfl rfl
  next => cases hs

theorem goes_give (hs : s.give id = some s') : s.Goes s' id := by
  unfold give at hs
  split at hs
  next hcallback =>
    cases hs
    exact .of_access (.give hcallback) rfl rfl rfl
  next => cases hs

/-- Each step but the posting of a request goes on with a request. -/
theorem step_cases (hs : op.step s = some s') :
    (op = .post ∧ s.post = some s') ∨ ∃ id, s.Goes s' id := by
  cases op with
  | post => exact .inl ⟨rfl, hs⟩
  | take =>
    obtain ⟨id, -, hs⟩ := bind_eq_some_iff.1 hs
    exact .inr ⟨id, goes_take hs⟩
  | timeout =>
    obtain ⟨id, -, hs⟩ := bind_eq_some_iff.1 hs
    exact .inr ⟨id, goes_timeout hs⟩
  | mark =>
    obtain ⟨id, -, hs⟩ := bind_eq_some_iff.1 hs
    exact .inr ⟨id, goes_mark hs⟩
  | read =>
    obtain ⟨id, -, hs⟩ := bind_eq_some_iff.1 hs
    exact .inr ⟨id, goes_read hs⟩
  | finish =>
    obtain ⟨id, -, hs⟩ := bind_eq_some_iff.1 hs
    exact .inr ⟨id, goes_finish hs⟩
  | check id suite => exact .inr ⟨id, goes_check hs⟩
  | store id => exact .inr ⟨id, goes_store hs⟩
  | give id => exact .inr ⟨id, goes_give hs⟩

theorem post_doomed (h : s.Doomed) (hs : s.post = some s') : s'.Doomed := by
  unfold post at hs
  split at hs
  next =>
    cases hs
    rcases h with hfaults | ⟨id, hid, hlost⟩
    · exact .inl hfaults
    · refine .inr ⟨id, Nat.lt_succ_of_lt hid, ?_⟩
      simpa [set, Nat.ne_of_lt hid] using hlost
  next => cases hs

theorem Goes.doomed (h : s.Doomed) (hs : s.Goes s' id) : s'.Doomed := by
  rcases h with hfaults | ⟨j, hj, hlost⟩
  · refine .inl fun hnil => hfaults ?_
    rw [← List.suffix_nil, ← hnil]
    exact hs.faults
  · rcases eq_or_ne j id with rfl | hne
    · rcases hs.step with hfaults | hstep
      · exact .inl hfaults
      · refine .inr ⟨j, hs.next ▸ hj, ?_⟩
        rcases hlost with hleaked | hempty
        · exact .inl (hstep.leaked hleaked)
        · exact hstep.empty hempty
    · refine .inr ⟨j, hs.next ▸ hj, ?_⟩
      rwa [hs.others j hne]

theorem doomed_step (h : s.Doomed) (hs : op.step s = some s') : s'.Doomed := by
  rcases step_cases hs with ⟨rfl, hs⟩ | ⟨id, hgoes⟩
  · exact post_doomed h hs
  · exact hgoes.doomed h

/-- When all calls and callbacks are over, a request that is lost is not accounted for. -/
theorem Doomed.not_sound (h : s.Doomed) (hquiet : s.Quiet) : ¬ s.Sound := by
  intro hsound
  rcases h with hfaults | ⟨id, -, hleaked | hempty⟩
  · exact hfaults hsound.faults
  · obtain ⟨hcall, hcallback⟩ := hquiet id
    have hresult : (s.requests id).result?.isSome := by
      refine hcall.resolve_left fun hnew => ?_
      rcases hleaked.call with h | h <;> simp [h] at hnew
    have hsuite : (s.requests id).suite?.isSome := by
      have hin := hleaked.callback
      rcases hcallback with h | h | h
      · simp [h, Callback.inTime?] at hin
      · simp [h, Callback.inTime?] at hin
      · exact h
    have hinfo := (hsound.settled id).info hsuite hresult
    rw [hleaked.infoFrees] at hinfo
    exact absurd hinfo (by decide)
  · have hcall := (hquiet id).1
    rcases hempty.call with h | h | h <;> simp [h, Request.result?] at hcall

end ShootMem

theorem ShootMem.Inv.doomed_of_not_good (h : s.Inv life) (hbad : ¬ op.Good s)
    (hs : op.step s = some s') : s'.Doomed := by
  have hlt (id : ℕ) (hne : life id ≠ .new) : id < s.next :=
    Nat.lt_of_not_le fun hle => hne (h.next id hle)
  cases op with
  | timeout =>
    obtain ⟨id, hid, hs⟩ := bind_eq_some_iff.1 hs
    have hpending : (s.requests id).callback ≠ .pending := by
      intro hpending
      refine hbad fun j hj => ?_
      obtain rfl := some.inj (hid.symm.trans hj)
      exact hpending
    rw [ShootMem.timeout] at hs
    split_ifs at hs with hcond
    cases hs
    rw [h.request] at hcond hpending
    refine .inr ⟨id, hlt id ?_, .inl ?_⟩
    · intro hnew
      simp [hnew] at hcond
    · rw [ShootMem.requests_set_self, h.request]
      cases hl : life id with
      | checked n | stored n | delivered n => exact ⟨rfl, .inl rfl, rfl⟩
      | _ => simp [hl] at hcond hpending
  | check id suite =>
    change s.check id suite = some s' at hs
    unfold ShootMem.check at hs
    split at hs
    next hcallback =>
      split at hs
      next htimed =>
        refine absurd ⟨?_, .inr htimed⟩ hbad
        rw [h.request] at htimed ⊢
        cases hl : life id with
        | expired => simp [hl] at htimed
        | _ => simp
      next htimed =>
        cases hs
        rw [h.request] at hcallback htimed
        refine .inr ⟨id, ?_, ?_⟩
        · refine ShootMem.next_access.symm ▸ hlt id fun hnew => ?_
          simp [hnew] at hcallback
        · rw [ShootMem.requests_set_self, h.request]
          cases hl : life id with
          | pending =>
            obtain rfl : suite = none := by
              by_contra hne
              exact hbad ⟨by simp [h.request, hl], .inl hne⟩
            exact .inr ⟨rfl, .inl rfl, rfl, rfl⟩
          | expired => exact .inl ⟨rfl, .inl rfl, rfl⟩
          | _ => simp [hl] at hcallback htimed
    next => cases hs
  | _ => exact absurd trivial hbad

/-- **Requests for shoot memory.** In all states of a run in which each step is good, all suites and
records are accounted for. When all calls and callbacks of a run are over, this holds only
if each step was good. -/
theorem run_settled_iff (ops : List ShootOp) (s : ShootMem)
    (hrun : ShootMem.init.run ops = some s) :
    (Runs.Meets ShootOp.step (fun s op => op.Good s) .init ops → s.Sound) ∧
    (s.Quiet → (s.Sound ↔ Runs.Meets ShootOp.step (fun s op => op.Good s) .init ops)) := by
  obtain ⟨hinv, hdoomed⟩ := Runs.invariant_or (I := fun s : ShootMem => ∃ life, s.Inv life)
    (B := ShootMem.Doomed) (P := fun s op => op.Good s)
    (fun s op s' ⟨life, h⟩ hgood hs => h.step hgood hs)
    (fun s op s' ⟨life, h⟩ hbad hs => h.doomed_of_not_good hbad hs)
    (fun s op s' h hs => ShootMem.doomed_step h hs) hrun ⟨_, ShootMem.inv_init⟩
  have hsound (hmeets : Runs.Meets ShootOp.step (fun s op => op.Good s) .init ops) : s.Sound := by
    obtain ⟨life, h⟩ := hinv hmeets
    exact h.sound
  refine ⟨hsound, fun hquiet => ⟨fun h => ?_, hsound⟩⟩
  by_contra hmeets
  exact (hdoomed hmeets).not_sound hquiet h

/-- A request that is served, and one that is given up before it is served. -/
theorem run_settled_twoRequests :
    ∃ s, ShootMem.init.run [.post, .check 0 (some 7), .store 0, .give 0, .take, .read, .finish,
        .post, .timeout, .mark, .check 1 (some 8)] = some s ∧ s.Sound := by
  refine ⟨_, rfl, (run_settled_iff [.post, .check 0 (some 7), .store 0, .give 0, .take, .read,
    .finish, .post, .timeout, .mark, .check 1 (some 8)] _ rfl).1 ?_⟩
  decide +kernel

/-- The callback comes between the two steps of the call: neither the suite nor the record is freed.
The next call returns at once, though it has no suite, and frees a record that is still in use. -/
theorem run_late_callback :
    ∃ s, ShootMem.init.run [.post, .timeout, .check 0 (some 7), .mark, .store 0, .give 0] = some s ∧
      s.Quiet ∧ s.requests 0 = ⟨.over none, .delivered (some 7), some 7, true, 0, 0⟩ ∧
      ∃ t, s.run [.post, .take, .read, .finish, .check 1 (some 8)] = some t ∧
        t.faults = [.useAfterFree 1, .nullSuite 1] := by
  refine ⟨_, rfl, fun id => ?_, rfl, _, rfl, rfl⟩
  cases id with
  | zero => exact ⟨.inr rfl, .inr (.inr rfl)⟩
  | succ id => exact ⟨.inl rfl, .inl rfl⟩

end MagicLantern.Exmem

import MagicLantern.Cbr.Lists
import Mathlib.Data.Fintype.Card

/-!
# The order of the callbacks

The callbacks of an event are called by decreasing priority, and in the order of their registration
for the same priority, up to the first one that returns `ML_CBR_STOP`. This holds for at most 255
events; then there is always a record for an event, and otherwise a registration is lost. Only the
first entry of a callback is removed.

## Main results

* `run_notify` — who is called, and in which order.
* `mlUnregisterCbr_iff`, `mlUnregisterCbr_repeated`.
* `run_reaches_iff`, `run_lost` — when a callback is lost.
-/

namespace MagicLantern.Cbr

open Function List Option LinkedList StableOrder

/-- The callbacks up to the first one that stops. -/
def upToStop (stops : CbrFunc → Bool) : List CbrFunc → List CbrFunc
  | [] => []
  | cbr :: l => if stops cbr then [cbr] else cbr :: upToStop stops l

namespace Registry

variable {s : Registry} {idx : ℕ → List ℕ} {p : Option ℕ}
  {l : List ℕ} {fuel : ℕ}

/-! ### Notifying -/

theorem notifyLoop_seg {stops : CbrFunc → Bool} (hseg : Seg s.next p l none)
    (hbusy : ∀ i ∈ l, (s.nodes i).cbr ≠ none) (hfuel : (l.filterMap s.call).length ≤ fuel) :
    s.notifyLoop stops fuel p = some (upToStop stops ((l.filterMap s.call).map Prod.fst)) := by
  induction l generalizing p fuel with
  | nil =>
    obtain rfl := hseg
    cases fuel <;> rfl
  | cons i l ih =>
    obtain ⟨rfl, hseg⟩ := hseg
    obtain ⟨hi, hbusy⟩ := forall_mem_cons.1 hbusy
    obtain ⟨cbr, hcbr⟩ := ne_none_iff_exists'.1 hi
    have hcall : s.call i = some (cbr, (s.nodes i).priority) := by rw [call, hcbr]; rfl
    rw [filterMap_cons_some hcall] at hfuel ⊢
    obtain ⟨fuel, rfl⟩ := Nat.exists_eq_succ_of_ne_zero (Nat.ne_of_gt (Nat.zero_lt_of_lt hfuel))
    rw [notifyLoop, hcbr]
    simp only [map_cons, upToStop]
    split_ifs
    · rfl
    · rw [ih hseg hbusy (Nat.le_of_succ_le_succ hfuel)]
      rfl

theorem Inv.mlNotifyCbr (h : s.Inv idx) (e : EventName) (stops : CbrFunc → Bool)
    (hfuel : (s.registered e).length ≤ fuel) :
    s.mlNotifyCbr fuel e stops = some (upToStop stops ((s.registered e).map Prod.fst)) := by
  rw [Registry.mlNotifyCbr]
  cases hfind : s.findRecord e with
  | none =>
    rw [h.registered_eq_nil (h.findRecord_eq_none.1 hfind)]
    rfl
  | some r =>
    have hr := h.findRecord_eq_some.1 hfind
    rw [h.registered_eq hr] at hfuel ⊢
    exact notifyLoop_seg (h.seg r e hr) (fun i hi => (h.busy r i hi).1) hfuel

end Registry

/-! ### Calls -/

/-- What a call does to what is registered. -/
def CbrOp.Effect (s t : Registry) : CbrOp → Prop
  | .register e cbr prio mallocRecord mallocNode => ∃ result : ℤ,
    (result = 0 ↔ (s.HasRecord e ∨ mallocRecord = true) ∧ s.HasNode mallocNode) ∧
    (s.HasRecord e → t.recordArenas = s.recordArenas) ∧
    (∀ r e', (t.records r).name = some e' → e' = e ∨ (s.records r).name = some e') ∧
    t.live = (if result = 0 then Function.update s.live e (s.live e ++ [(cbr, prio)]) else s.live) ∧
    t.registered = if result = 0 ∧ s.HasRecord e then
      Function.update s.registered e (insertBehind Prod.snd (cbr, prio) (s.registered e))
    else s.registered
  | .unregister e cbr => (∀ r, (t.records r).name = (s.records r).name) ∧
    t.live = Function.update s.live e ((s.live e).filter (·.1 ≠ cbr)) ∧
    t.registered = Function.update s.registered e ((s.registered e).eraseP (·.1 = cbr))

namespace Registry

variable {addr : ℕ → ℕ} {events : Finset EventName} {s t : Registry} {idx : ℕ → List ℕ}
  {e : EventName} {ops : List CbrOp} {op : CbrOp}

theorem Inv.step (h : s.Inv idx) {op : CbrOp} (hshort : op.event.Short) :
    ∃ t idx', op.step s = some t ∧ t.Inv idx' ∧ op.Effect s t := by
  cases op with
  | register e cbr prio mallocRecord mallocNode =>
    obtain ⟨t, result, idx', ht, hinv, hlive, harenas, hname, hzero, hreg⟩ :=
      h.mlRegisterCbr (e := e) hshort cbr prio mallocRecord mallocNode
    simp only [CbrOp.step, ht, map_some]
    by_cases hresult : result = 0
    · refine ⟨_, idx', rfl, ?_, result, hzero, ?_⟩
      · rw [if_pos hresult]
        exact { hinv with }
      · rw [if_pos hresult, if_pos hresult]
        exact ⟨harenas, hname, by rw [hlive], hreg⟩
    · refine ⟨_, idx', rfl, ?_, result, hzero, ?_⟩
      · rw [if_neg hresult]
        exact hinv
      · rw [if_neg hresult, if_neg hresult]
        exact ⟨harenas, hname, hlive, hreg⟩
  | unregister e cbr =>
    obtain ⟨t, result, idx', ht, hinv, hkeeps, hreg⟩ := h.mlUnregisterCbr e cbr
    simp only [CbrOp.step, ht, map_some]
    exact ⟨_, idx', rfl, { hinv with }, hkeeps.name, by rw [hkeeps.live], hreg⟩

theorem Inv.exists_run (h : s.Inv idx) (hshort : ∀ op ∈ ops, op.event.Short) :
    ∃ t idx', s.run ops = some t ∧ t.Inv idx' := by
  obtain ⟨t, ht, idx', hinv⟩ := Runs.exists_of_meets (I := fun s : Registry => ∃ idx, s.Inv idx)
    (fun s op ⟨_, h⟩ hop => by
      obtain ⟨t, idx', hstep, ht, -⟩ := h.step hop
      exact ⟨t, hstep, idx', ht⟩) (Runs.Meets.of_forall_mem hshort) ⟨idx, h⟩
  exact ⟨t, idx', ht, hinv⟩

/-- The invariant, for some lists. -/
def Good (s : Registry) : Prop := ∃ idx, s.Inv idx

theorem Good.step (h : s.Good) (hshort : op.event.Short) (ht : op.step s = some t) :
    t.Good ∧ op.Effect s t := by
  obtain ⟨idx, h⟩ := h
  obtain ⟨t', idx', hstep, ht', heffect⟩ := h.step hshort
  obtain rfl := some.inj (ht.symm.trans hstep)
  exact ⟨⟨idx', ht'⟩, heffect⟩

theorem meets_short (hshort : ∀ op ∈ ops, op.event.Short) (s : Registry) :
    Runs.Meets CbrOp.step (fun _ op => op.event.Short) s ops :=
  Runs.Meets.of_forall_mem hshort

theorem Good.run (hshort : ∀ op ∈ ops, op.event.Short)
    (hrun : (Registry.init addr).run ops = some s) : s.Good :=
  Runs.invariant_of_meets (fun _ _ _ h hop ht => (h.step hop ht).1) (meets_short hshort _) hrun
    ⟨_, Inv.init addr⟩

/-! ### The order -/

/-- What holds for at most 255 events, when no callback is registered twice. -/
structure Ordered (events : Finset EventName) (s : Registry) : Prop where
  good : s.Good
  name_mem : ∀ r e, (s.records r).name = some e → e ∈ events
  order : ∀ e, OrderOf Prod.snd (s.registered e) (s.live e) ∧ ((s.live e).map Prod.fst).Nodup

theorem eraseP_eq_filter_iff {α : Type} {p : α → Bool} {l : List α} :
    l.eraseP p = l.filter (fun x => !p x) ↔ l.countP p ≤ 1 := by
  induction l with
  | nil => simp
  | cons a l ih =>
    by_cases h : p a
    · rw [eraseP_cons_of_pos h, filter_cons_of_neg (by simpa), countP_cons_of_pos h, eq_comm]
      simp [countP_eq_zero]
    · rw [eraseP_cons_of_neg h, filter_cons_of_pos (by simp [h]), countP_cons_of_neg h,
        cons_inj_right, ih]

theorem Ordered.hasRecord (h : s.Ordered events) (hcard : (insert e events).card ≤ poolSize) :
    s.HasRecord e := by
  obtain ⟨idx, hinv⟩ := h.good
  by_contra hno
  obtain ⟨hfind, hfree⟩ := not_or.1 hno
  rw [not_not] at hfind hfree
  have hnamed (r : ℕ) (hr : r < poolSize) : ∃ e', (s.records r).name = some e' := by
    refine ne_none_iff_exists'.1 fun hname => ?_
    have hlt : r < s.numRecords := hr.trans_le (Nat.le_mul_of_pos_right poolSize hinv.arenas)
    have := find?_eq_none.1 hfree r (mem_range.2 hlt)
    simp [hname] at this
  have : Nonempty EventName := ⟨e⟩
  choose! name hname using hnamed
  have hmaps (r : ℕ) (hr : r ∈ Finset.range poolSize) : name r ∈ (insert e events).erase e := by
    rw [Finset.mem_range] at hr
    refine Finset.mem_erase.2
      ⟨fun heq => ?_, Finset.mem_insert_of_mem (h.name_mem r _ (hname r hr))⟩
    exact hinv.findRecord_eq_none.1 hfind r (heq ▸ hname r hr)
  have hlt : ((insert e events).erase e).card < (Finset.range poolSize).card := by
    rw [Finset.card_erase_of_mem (Finset.mem_insert_self e _), Finset.card_range]
    have := Finset.card_pos.2 ⟨e, Finset.mem_insert_self e events⟩
    omega
  obtain ⟨r, hr, r', hr', hne, heq⟩ := Finset.exists_ne_map_eq_of_card_lt_of_maps_to hlt hmaps
  rw [Finset.mem_range] at hr hr'
  exact hne (hinv.name_inj r r' _ (hname r hr) (heq ▸ hname r' hr'))

theorem Ordered.step (h : s.Ordered events) (hcard : events.card ≤ poolSize)
    (hop : op.event ∈ events) (hshort : op.event.Short) (honce : op.Once s)
    (ht : op.step s = some t) : t.Ordered events := by
  obtain ⟨hgood, heffect⟩ := h.good.step hshort ht
  cases op with
  | register e cbr prio mallocRecord mallocNode =>
    obtain ⟨result, -, -, hname, hlive, hreg⟩ := heffect
    have he : e ∈ events := hop
    have hhas : s.HasRecord e := h.hasRecord (by rwa [Finset.insert_eq_of_mem he])
    have hmem (r : ℕ) (e' : EventName) (hr : (t.records r).name = some e') : e' ∈ events := by
      rcases hname r e' hr with rfl | hr
      · exact hop
      · exact h.name_mem r e' hr
    simp only [hhas, and_true] at hreg
    refine ⟨hgood, hmem, fun e' => ?_⟩
    rw [hlive, hreg]
    split_ifs
    · rcases eq_or_ne e' e with rfl | hne
      · rw [update_self, update_self, map_append]
        refine ⟨(h.order e').1.insert,
          nodup_append.2 ⟨(h.order e').2, by simp, fun x hx y hy => ?_⟩⟩
        obtain ⟨z, hz, rfl⟩ := mem_map.1 hx
        obtain rfl : y = cbr := by simpa using hy
        exact honce z hz
      · rw [update_of_ne hne, update_of_ne hne]
        exact h.order e'
    · exact h.order e'
  | unregister e cbr =>
    obtain ⟨hname, hlive, hreg⟩ := heffect
    obtain ⟨horder, honce⟩ := h.order e
    -- there is at most one entry to be removed
    have hcount : (s.registered e).countP (·.1 = cbr) ≤ 1 := by
      have hle := nodup_iff_count_le_one.1 honce cbr
      rw [count, countP_map] at hle
      rw [horder.perm.countP_eq]
      exact (countP_congr (by simp)).trans_le hle
    rw [eraseP_eq_filter_iff.2 hcount] at hreg
    refine ⟨hgood, fun r e' hr => h.name_mem r e' (hname r ▸ hr), fun e' => ?_⟩
    rw [hlive, hreg]
    rcases eq_or_ne e' e with rfl | hne
    · rw [update_self, update_self]
      refine ⟨?_, honce.sublist (filter_sublist.map _)⟩
      simpa using horder.filter fun x => !decide (x.1 = cbr)
    · rw [update_of_ne hne, update_of_ne hne]
      exact h.order e'

end Registry

/-- For every sequence of calls for at most 255 events, with names of at most 15 characters, in
which no callback is registered twice for an event: the calls end, and a notification calls the
registered callbacks by decreasing priority, and in the order of their registration for the same
priority, up to the first one that stops it. With memory the next callback can be registered. -/
theorem run_notify (addr : ℕ → ℕ) (ops : List CbrOp) (hshort : ∀ op ∈ ops, op.event.Short)
    (hevents : (ops.map CbrOp.event).toFinset.card ≤ poolSize)
    (honce : Runs.Meets CbrOp.step (fun s op => op.Once s) (.init addr) ops) :
    ∃ s, (Registry.init addr).run ops = some s ∧
      (∀ e, ∃ called, OrderOf Prod.snd called (s.live e) ∧
        ∀ stops fuel, (s.live e).length ≤ fuel →
          s.mlNotifyCbr fuel e stops = some (upToStop stops (called.map Prod.fst))) ∧
      ∀ e cbr prio, e.Short → (insert e (ops.map CbrOp.event).toFinset).card ≤ poolSize →
        (s.mlRegisterCbr e cbr prio true true).map Prod.snd = some 0 := by
  set events := (ops.map CbrOp.event).toFinset
  obtain ⟨s, -, hrun, -⟩ := (Registry.Inv.init addr).exists_run hshort
  have hmeets := (honce.and (Registry.meets_short hshort _)).and (Runs.Meets.of_forall_mem
    (C := fun op => op.event ∈ events) fun op hop => mem_toFinset.2 (mem_map_of_mem hop))
  have h : s.Ordered events := Runs.invariant_of_meets
    (fun _ _ _ h hop ht => h.step hevents hop.2 hop.1.2 hop.1.1 ht) hmeets hrun
    ⟨⟨_, Registry.Inv.init addr⟩, fun _ _ h => absurd h (by simp [Registry.init]), fun e =>
      ⟨?_, .nil⟩⟩
  · obtain ⟨idx, hinv⟩ := h.good
    refine ⟨s, hrun, fun e => ⟨_, (h.order e).1, fun stops fuel hfuel => ?_⟩,
      fun e cbr prio he _ => ?_⟩
    · exact hinv.mlNotifyCbr e stops ((h.order e).1.perm.length_eq.trans_le hfuel)
    · obtain ⟨t, result, -, ht, -, -, -, -, hzero, -⟩ := hinv.mlRegisterCbr he cbr prio true true
      rw [ht, map_some, hzero.2 ⟨.inr rfl, .inr rfl⟩]
  · rw [(Registry.Inv.init addr).registered_eq_nil (by simp [Registry.init])]
    exact OrderOf.nil

/-- An arena of nodes. -/
def exampleAddr (i : ℕ) : ℕ := 0x10004 + 12 * i

/-- An event with a name of one character. -/
def exampleEvent : EventName := ⟨['x'], by decide, by decide, by decide⟩

/-- Three callbacks, one of which is unregistered and its node used again. -/
theorem run_notify_threeCallbacks :
    let e := exampleEvent
    let ops : List CbrOp := [.register e 1 5 true true, .register e 2 7 true true, .unregister e 2,
      .register e 3 5 true true, .register e 4 9 true true]
    ∃ s, (Registry.init exampleAddr).run ops = some s ∧
      (∀ e, ∃ called, OrderOf Prod.snd called (s.live e) ∧
        ∀ stops fuel, (s.live e).length ≤ fuel →
          s.mlNotifyCbr fuel e stops = some (upToStop stops (called.map Prod.fst))) ∧
      ∀ e cbr prio, e.Short → (insert e (ops.map CbrOp.event).toFinset).card ≤ poolSize →
        (s.mlRegisterCbr e cbr prio true true).map Prod.snd = some 0 :=
  run_notify exampleAddr _ (by decide) (by decide) (by decide +kernel)

/-! ### What is not removed, and what is lost -/

/-- **A callback is removed from the list of an event**, and everything else is left as it is,
exactly if it has at most one entry there: the loop ends after the first one. -/
theorem mlUnregisterCbr_iff {addr : ℕ → ℕ} {ops : List CbrOp} {s t : Registry} {e : EventName}
    {cbr : CbrFunc} (hshort : ∀ op ∈ ops, op.event.Short)
    (hrun : (Registry.init addr).run ops = some s) (ht : s.mlUnregisterCbr e cbr = some (t, 0)) :
    t.registered = Function.update s.registered e ((s.registered e).filter (·.1 ≠ cbr)) ↔
      (s.registered e).countP (·.1 = cbr) ≤ 1 := by
  obtain ⟨idx, hinv⟩ := Registry.Good.run hshort hrun
  obtain ⟨t', result, -, ht', -, -, hreg⟩ := hinv.mlUnregisterCbr e cbr
  obtain ⟨rfl, -⟩ := Prod.mk.inj (some.inj (ht.symm.trans ht'))
  rw [hreg, (update_injective s.registered e).eq_iff, ← Registry.eraseP_eq_filter_iff]
  simp only [decide_not, ne_eq]

/-- One of two callbacks is removed. -/
theorem mlUnregisterCbr_two :
    let e := exampleEvent
    ∃ s t, (Registry.init exampleAddr).run [.register e 1 5 true true, .register e 2 7 true true] =
        some s ∧
      s.mlUnregisterCbr e 1 = some (t, 0) ∧
      (t.registered = Function.update s.registered e ((s.registered e).filter (·.1 ≠ 1)) ↔
        (s.registered e).countP (·.1 = 1) ≤ 1) := by
  intro e
  have h : (((Registry.init exampleAddr).run
      [.register e 1 5 true true, .register e 2 7 true true]).bind
      (·.mlUnregisterCbr e 1)).map Prod.snd = some 0 := by decide +kernel
  obtain ⟨⟨t, result⟩, hbind, rfl⟩ := map_eq_some_iff.1 h
  obtain ⟨s, hs, ht⟩ := bind_eq_some_iff.1 hbind
  exact ⟨s, t, hs, ht, mlUnregisterCbr_iff (by decide) hs ht⟩

/-- A callback that is registered twice is still there after it has been unregistered. -/
theorem mlUnregisterCbr_repeated :
    let e := exampleEvent
    (((Registry.init exampleAddr).run
      [.register e 1 5 true true, .register e 1 5 true true]).bind
      (·.mlUnregisterCbr e 1)).map (fun x => (x.1.registered e, x.2)) = some ([(1, 5)], 0) := by
  decide +kernel

/-- A registration finds a record for its event, or there is no memory. -/
def CbrOp.FindsRecord (s : Registry) : CbrOp → Prop
  | .register event _ _ mallocRecord mallocNode =>
    s.HasRecord event ∨ mallocRecord = false ∨ ¬ s.HasNode mallocNode
  | .unregister _ _ => True

instance (s : Registry) : ∀ op, Decidable (CbrOp.FindsRecord s op)
  | .register .. => inferInstanceAs (Decidable (_ ∨ _))
  | .unregister _ _ => .isTrue trivial

/-- A notification reaches every callback that has been registered and not unregistered since then,
up to the first one that stops it. -/
def Registry.Reaches (s : Registry) : Prop :=
  ∀ e, ∀ x ∈ s.live e, ∃ called, x.1 ∈ called ∧ ∀ stops fuel, called.length ≤ fuel →
    s.mlNotifyCbr fuel e stops = some (upToStop stops called)

/-- Nothing is lost. -/
structure Registry.Complete (s : Registry) : Prop where
  good : s.Good
  mem : ∀ e, ∀ x ∈ s.live e, x ∈ s.registered e

namespace Registry

variable {s t : Registry} {idx : ℕ → List ℕ} {op : CbrOp}

theorem Complete.reaches (h : s.Complete) : s.Reaches := by
  intro e x hx
  obtain ⟨idx, hinv⟩ := h.good
  refine ⟨_, mem_map_of_mem (h.mem e x hx), fun stops fuel hfuel => hinv.mlNotifyCbr e stops ?_⟩
  simpa using hfuel

theorem Complete.step (h : s.Complete) (hshort : op.event.Short) (hop : op.FindsRecord s)
    (ht : op.step s = some t) : t.Complete := by
  obtain ⟨hgood, heffect⟩ := h.good.step hshort ht
  refine ⟨hgood, fun e' x hx => ?_⟩
  cases op with
  | register e cbr prio mallocRecord mallocNode =>
    obtain ⟨result, hzero, -, -, hlive, hreg⟩ := heffect
    by_cases hresult : result = 0
    · have hhas : s.HasRecord e := by
        obtain ⟨hrecord, hnode⟩ := hzero.1 hresult
        rcases hop with hhas | rfl | hno
        · exact hhas
        · exact hrecord.resolve_right (by simp)
        · exact absurd hnode hno
      rw [if_pos ⟨hresult, hhas⟩] at hreg
      rw [hlive, if_pos hresult] at hx
      rw [hreg]
      rcases eq_or_ne e' e with rfl | hne
      · rw [update_self] at hx ⊢
        rw [perm_insertBehind.mem_iff, mem_cons]
        rw [mem_append, mem_singleton] at hx
        exact hx.symm.imp_right (h.mem e' x)
      · rw [update_of_ne hne] at hx ⊢
        exact h.mem e' x hx
    · rw [hlive, if_neg hresult] at hx
      rw [hreg, if_neg fun h => hresult h.1]
      exact h.mem e' x hx
  | unregister e cbr =>
    obtain ⟨-, hlive, hreg⟩ := heffect
    rw [hreg]
    rw [hlive] at hx
    rcases eq_or_ne e' e with rfl | hne
    · rw [update_self] at hx ⊢
      obtain ⟨hx, hne⟩ := mem_filter.1 hx
      exact (mem_eraseP_of_neg (by simpa using hne)).2 (h.mem e' x hx)
    · rw [update_of_ne hne] at hx ⊢
      exact h.mem e' x hx

theorem upToStop_never (l : List CbrFunc) : upToStop (fun _ => false) l = l := by
  induction l with
  | nil => rfl
  | cons cbr l ih => rw [upToStop, if_neg (by simp), ih]

theorem Inv.registered_ne_nil {e : EventName} {x : CbrFunc × ℕ} (h : s.Inv idx)
    (hreaches : s.Reaches) (hx : x ∈ s.live e) : s.registered e ≠ [] := by
  intro hnil
  obtain ⟨called, hmem, hcalled⟩ := hreaches e x hx
  have heq := hcalled (fun _ => false) called.length (Nat.le_refl _)
  rw [h.mlNotifyCbr e _ (by simp [hnil]), hnil, upToStop_never, upToStop_never] at heq
  rw [← some.inj heq] at hmem
  exact absurd hmem (by simp)

theorem Complete.not_reaches (h : s.Complete) (hshort : op.event.Short) (hop : ¬ op.FindsRecord s)
    (ht : op.step s = some t) : ¬ t.Reaches := by
  obtain ⟨⟨idx', ht'⟩, heffect⟩ := h.good.step hshort ht
  obtain ⟨idx, hs⟩ := h.good
  cases op with
  | register e cbr prio mallocRecord mallocNode =>
    obtain ⟨hno, hmemory⟩ := not_or.1 hop
    obtain ⟨hrecord, hnode⟩ := not_or.1 hmemory
    obtain ⟨result, hzero, -, -, hlive, hreg⟩ := heffect
    rw [if_pos (hzero.2 ⟨.inr (by simpa using hrecord), not_not.1 hnode⟩)] at hlive
    rw [if_neg fun h => hno h.2] at hreg
    intro hreaches
    refine ht'.registered_ne_nil (e := e) (x := (cbr, prio)) hreaches (by simp [hlive]) ?_
    rw [hreg]
    exact hs.registered_eq_nil (hs.findRecord_eq_none.1 (not_not.1 (not_or.1 hno).1))
  | unregister e cbr => exact absurd trivial hop

theorem always_reaches_iff {addr : ℕ → ℕ} {ops : List CbrOp} (hshort : ∀ op ∈ ops, op.event.Short)
    (hrun : (Registry.init addr).run ops = some s) :
    Runs.Always CbrOp.step Reaches (.init addr) ops ↔
      Runs.Meets CbrOp.step (fun s op => op.FindsRecord s) (.init addr) ops :=
  Runs.always_iff_meets_of_meets (J := Complete) (fun _ h => h.reaches)
    (fun _ _ _ h hshort hop ht => h.step hshort hop ht)
    (fun _ _ _ h hshort hop ht => h.not_reaches hshort hop ht) (meets_short hshort _) hrun
    ⟨⟨_, Inv.init addr⟩, fun _ _ h => absurd h not_mem_nil⟩

/-- What is registered for some events is live, and without another arena there are records for
them. -/
theorem Good.registers {es : List EventName} (hes : ∀ e ∈ es, e.Short) (h : s.Good)
    (hrun : s.run (es.map fun e => .register e 1 0 true true) = some t) :
    (∀ e, e ∈ es ∨ (1, 0) ∈ s.live e → (1, 0) ∈ t.live e) ∧
      (Runs.Meets CbrOp.step (fun s op => op.FindsRecord s) s
          (es.map fun e => .register e 1 0 true true) → t.recordArenas = s.recordArenas) := by
  induction es generalizing s with
  | nil =>
    cases hrun
    exact ⟨fun e he => he.resolve_left not_mem_nil, fun _ => rfl⟩
  | cons e es ih =>
    obtain ⟨he, hes⟩ := forall_mem_cons.1 hes
    obtain ⟨u, hu, hrun⟩ := Runs.foldlM_cons_eq_some hrun
    obtain ⟨hgood, result, hzero, harenas, -, hlive, -⟩ :=
      h.step (show (CbrOp.register e 1 0 true true).event.Short from he) hu
    rw [if_pos (hzero.2 ⟨.inr rfl, .inr rfl⟩)] at hlive
    obtain ⟨hmem, hmeets⟩ := ih hes hgood hrun
    refine ⟨fun e' he' => hmem e' ?_, fun hall => ?_⟩
    · rw [hlive]
      by_cases heq : e' = e
      · subst heq
        simp
      · simpa [heq, update_of_ne heq] using he'
    · refine (hmeets (hall.2 u hu)).trans (harenas (hall.1.resolve_right ?_))
      rintro (hfalse | hno)
      · cases hfalse
      · exact hno (.inr rfl)

end Registry

/-- **No registration is lost**, in all states of a run for events with names of at most 15
characters, exactly if each registration finds a record for its event, or fails. -/
theorem run_reaches_iff (addr : ℕ → ℕ) (ops : List CbrOp) (hshort : ∀ op ∈ ops, op.event.Short) :
    (∃ s, (Registry.init addr).run ops = some s) ∧
    (Runs.Always CbrOp.step Registry.Reaches (.init addr) ops ↔
      Runs.Meets CbrOp.step (fun s op => op.FindsRecord s) (.init addr) ops) := by
  obtain ⟨s, -, hrun, -⟩ := (Registry.Inv.init addr).exists_run hshort
  exact ⟨⟨s, hrun⟩, Registry.always_reaches_iff hshort hrun⟩

/-- Two callbacks of an event. -/
theorem run_reaches_twoCallbacks : Runs.Always CbrOp.step Registry.Reaches (.init exampleAddr)
    [.register exampleEvent 1 5 true true, .register exampleEvent 2 7 true true] :=
  (run_reaches_iff exampleAddr _ (by decide)).2.2 (by decide +kernel)

/-- An event with a name of two letters. -/
def eventName (i : Fin 256) : EventName :=
  ⟨[Char.ofNat (65 + i / 16), Char.ofNat (65 + i % 16)], by simp, by revert i; decide +kernel,
    by simp⟩

theorem eventName_inj : Injective eventName := by
  have hchar (k : Fin 16) : (Char.ofNat (65 + k)).toNat = 65 + k := by
    revert k
    decide
  intro i j h
  have hchars := EventName.mk.inj h
  simp only [cons.injEq, and_true] at hchars
  have hdiv := congrArg Char.toNat hchars.1
  have hmod := congrArg Char.toNat hchars.2
  rw [hchar ⟨i / 16, by omega⟩, hchar ⟨j / 16, by omega⟩] at hdiv
  rw [hchar ⟨i % 16, by omega⟩, hchar ⟨j % 16, by omega⟩] at hmod
  simp only at hdiv hmod
  omega

/-- With 256 events a registration is lost. And so is the registration for an event with a name of
16 characters, unless the low byte of the node's address is zero. -/
theorem run_lost :
    (¬ Runs.Always CbrOp.step Registry.Reaches (.init exampleAddr)
      (((finRange 256).map eventName).map fun e => .register e 1 0 true true)) ∧
    let e : EventName := ⟨replicate 16 'x', by decide, by decide, by decide⟩
    ∃ s, (Registry.init exampleAddr).run [.register e 1 0 true true] = some s ∧
      s.live e = [(1, 0)] ∧ s.mlNotifyCbr 1 e (fun _ => false) = some [] := by
  refine ⟨fun hall => ?_, by decide +kernel⟩
  have hes : ∀ e ∈ (finRange 256).map eventName, e.Short := by
    intro e he
    obtain ⟨i, -, rfl⟩ := mem_map.1 he
    exact show 2 ≤ 15 by decide
  have hshort : ∀ op ∈ ((finRange 256).map eventName).map fun e => CbrOp.register e 1 0 true true,
      op.event.Short := by
    intro op hop
    obtain ⟨e, he, rfl⟩ := mem_map.1 hop
    exact hes e he
  obtain ⟨s, idx, hrun, hinv⟩ := (Registry.Inv.init exampleAddr).exists_run hshort
  have hmeets := (Registry.always_reaches_iff hshort hrun).1 hall
  obtain ⟨hlive, harenas⟩ := Registry.Good.registers hes ⟨_, Registry.Inv.init exampleAddr⟩ hrun
  have hnum : s.numRecords = poolSize := by
    rw [Registry.numRecords, harenas hmeets]
    rfl
  have hrecord (i : Fin 256) :
      ∃ r ∈ Finset.range poolSize, (s.records r).name = some (eventName i) := by
    have hmem : eventName i ∈ (finRange 256).map eventName := mem_map_of_mem (mem_finRange i)
    have hne := hinv.registered_ne_nil (hall.last hrun) (hlive _ (.inl hmem))
    obtain ⟨r, hr⟩ := not_forall_not.1 fun hno => hne (hinv.registered_eq_nil hno)
    exact ⟨r, Finset.mem_range.2 (hnum ▸ hinv.name_lt r _ hr), hr⟩
  choose r hr hname using hrecord
  obtain ⟨i, -, j, -, hne, heq⟩ := Finset.exists_ne_map_eq_of_card_lt_of_maps_to
    (show (Finset.range poolSize).card < (Finset.univ : Finset (Fin 256)).card by simp [poolSize])
    fun i _ => hr i
  exact hne (eventName_inj (some.inj ((hname i).symm.trans (heq ▸ hname j))))

end MagicLantern.Cbr

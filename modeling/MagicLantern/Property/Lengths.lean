import MagicLantern.Library.Runs
import Mathlib.Data.List.Find

/-!
# The lengths of properties

A change of a property with a wrong length can damage the camera for good. So `prop_request_change`
compares the length with the one with which the camera has delivered the property. This length is
kept in the record of the first handler for the property, in 16 bits. A record that is given to
another property keeps its old length, however. So only lengths that the camera has delivered are
used exactly if no property is given such a record as its first one, and no length is kept that has
lost its upper bits.

Source: `src/src/property.c`.

## Main results

* `run_safe_iff` — when no other length is used.
* `run_inherited_length`.
-/

namespace MagicLantern.Property

open List

/-- What depends on the camera. -/
structure PropConfig where
  /-- The properties of the handlers in the section `_prop_handlers`. -/
  internal : List UInt32
  /-- `prop_handler_deny`. -/
  denied : UInt32 → Bool
  /-- The properties that can be changed: not those that `prop_request_change` returns early for,
  and those of `prop_write_allow`. -/
  allowed : UInt32 → Bool

/-- `struct prop_handler`. -/
structure PropHandler where
  property : UInt32
  /-- `property_length`. -/
  length : UInt16

/-- `PROP_BATTERY_REPORT`. -/
def propBatteryReport : UInt32 := 0x8003001D

/-- The length of `property_handlers`. -/
def maxHandlers : ℕ := 256

/-- The variables of `property.c`, and the messages from and to the camera. -/
structure Properties where
  /-- `property_handlers`. -/
  handlers : ℕ → PropHandler
  /-- `actual_num_handlers`. -/
  numHandlers : ℕ
  /-- The properties that the camera has delivered, with their lengths. -/
  delivered : List (UInt32 × UInt32)
  /-- The changes that were requested, with their lengths. -/
  requested : List (UInt32 × UInt32)

namespace Properties

variable (s : Properties)

/-- The first handler for a property. -/
def firstHandler (property : UInt32) : Option ℕ :=
  (List.range s.numHandlers).find? fun entry => (s.handlers entry).property = property

/-- `prop_get_prop_len`. -/
def propGetPropLen (property : UInt32) : UInt32 :=
  match s.firstHandler property with
  | some entry => (s.handlers entry).length.toUInt32
  | none => 0

/-- `global_property_handler`: the lower bits of the length are kept if there is no length yet. -/
def globalPropertyHandler (property len : UInt32) : Properties :=
  { s with
    handlers := fun entry =>
      if entry < s.numHandlers ∧ (s.handlers entry).property = property ∧
          (s.handlers entry).length = 0 then
        { s.handlers entry with length := len.toUInt16 }
      else s.handlers entry
    delivered := (property, len) :: s.delivered }

/-- `prop_add_handler`. The length of the record is not changed. There is no check for the length of
the array; `none` stands for a write behind it. -/
def propAddHandler (cfg : PropConfig) (property : UInt32) : Option Properties :=
  if cfg.denied property then some s
  else if s.numHandlers < maxHandlers then
    some { s with
      handlers := Function.update s.handlers s.numHandlers
        { s.handlers s.numHandlers with property }
      numHandlers := s.numHandlers + 1 }
  else none

/-- `prop_reset_registration`. -/
def propResetRegistration (cfg : PropConfig) : Option Properties :=
  cfg.internal.foldlM (propAddHandler · cfg ·) { s with numHandlers := 0 }

/-- `prop_request_change`: the length with which the request is sent to the camera. -/
def propRequestChange (cfg : PropConfig) (property len : UInt32) : Option UInt32 :=
  if cfg.allowed property then
    let correctLen := s.propGetPropLen property
    let len := if len = 0 then correctLen else len
    if len = 0 then none
    else if property = propBatteryReport ∧ len = 1 then some len
    else if correctLen ≠ len then none
    else some len
  else none

/-- Before the first call. -/
def init : Properties where
  handlers := fun _ => ⟨0, 0⟩
  numHandlers := 0
  delivered := []
  requested := []

end Properties

/-- A call, or an event from the camera. -/
inductive PropOp
  | reset
  | addHandler (property : UInt32)
  | event (property len : UInt32)
  | request (property len : UInt32)

/-- A step. -/
def PropOp.step (cfg : PropConfig) (s : Properties) : PropOp → Option Properties
  | .reset => s.propResetRegistration cfg
  | .addHandler property => s.propAddHandler cfg property
  | .event property len => some (s.globalPropertyHandler property len)
  | .request property len =>
    match s.propRequestChange cfg property len with
    | some len => some { s with requested := (property, len) :: s.requested }
    | none => some s

/-- The state after the given steps. -/
def Properties.run (cfg : PropConfig) (s : Properties) (ops : List PropOp) : Option Properties :=
  ops.foldlM (PropOp.step cfg) s

namespace Properties

/-- The camera has delivered the property with that length, or the battery level is polled. -/
def Known (s : Properties) (property len : UInt32) : Prop :=
  (property, len) ∈ s.delivered ∨ property = propBatteryReport ∧ len = 1

/-- All requests that can be made are sent with a known length. -/
def Safe (cfg : PropConfig) (s : Properties) : Prop :=
  ∀ property len sent, s.propRequestChange cfg property len = some sent → s.Known property sent

/-- The record that is given to the property has a length that is not known for it, and it is the
first record of the property. -/
def Inherits (cfg : PropConfig) (s : Properties) (property : UInt32) : Prop :=
  cfg.denied property = false ∧ cfg.allowed property = true ∧ s.firstHandler property = none ∧
    (s.handlers s.numHandlers).length.toUInt32 ≠ 0 ∧
    ¬ s.Known property (s.handlers s.numHandlers).length.toUInt32

/-- The length that is kept for the property has lost its upper bits, and the camera has not
delivered what is left. -/
def Truncates (cfg : PropConfig) (s : Properties) (property len : UInt32) : Prop :=
  cfg.allowed property = true ∧ s.firstHandler property ≠ none ∧ s.propGetPropLen property = 0 ∧
    len.toUInt16.toUInt32 ≠ 0 ∧ len.toUInt16.toUInt32 ≠ len ∧
      ¬ s.Known property len.toUInt16.toUInt32

instance (s : Properties) (property len : UInt32) : Decidable (s.Known property len) :=
  inferInstanceAs (Decidable (_ ∨ _))

instance (cfg : PropConfig) (s : Properties) (property : UInt32) :
    Decidable (s.Inherits cfg property) :=
  inferInstanceAs (Decidable (_ ∧ _))

instance (cfg : PropConfig) (s : Properties) (property len : UInt32) :
    Decidable (s.Truncates cfg property len) :=
  inferInstanceAs (Decidable (_ ∧ _))

end Properties

/-- No property inherits a length, and none is cut. -/
def PropOp.Good (cfg : PropConfig) (s : Properties) : PropOp → Prop
  | .reset => Runs.Meets (Properties.propAddHandler · cfg ·)
      (fun s property => ¬ s.Inherits cfg property) { s with numHandlers := 0 } cfg.internal
  | .addHandler property => ¬ s.Inherits cfg property
  | .event property len => ¬ s.Truncates cfg property len
  | .request _ _ => True

instance (cfg : PropConfig) (s : Properties) : DecidablePred (PropOp.Good cfg s) := fun op => by
  cases op <;> dsimp only [PropOp.Good] <;> infer_instance

variable {cfg : PropConfig} {s s' : Properties}

/-! ### The check -/

/-- The length of each property is known, if there is one. -/
def Properties.Inv (cfg : PropConfig) (s : Properties) : Prop :=
  ∀ property, cfg.allowed property = true → s.propGetPropLen property ≠ 0 →
    s.Known property (s.propGetPropLen property)

namespace Properties

variable {property len : UInt32} {op : PropOp}

theorem propRequestChange_cases {sent : UInt32}
    (h : s.propRequestChange cfg property len = some sent) :
    cfg.allowed property = true ∧ sent ≠ 0 ∧
      (property = propBatteryReport ∧ sent = 1 ∨ sent = s.propGetPropLen property) := by
  unfold propRequestChange at h
  split at h
  next hallowed =>
    dsimp only at h
    generalize (if len = 0 then s.propGetPropLen property else len) = used at h
    split_ifs at h with hzero hbattery hcorrect
    · cases h
      exact ⟨hallowed, hzero, .inl hbattery⟩
    · cases h
      exact ⟨hallowed, hzero, .inr (not_not.1 hcorrect).symm⟩
  next => cases h

/-- Only the length that is kept is used, and it is used if the caller asks for it. -/
theorem safe_iff_inv : s.Safe cfg ↔ s.Inv cfg := by
  constructor
  · intro h property hallowed hne
    refine h property 0 _ ?_
    simp [propRequestChange, hallowed, hne]
  · intro h property len sent hsent
    obtain ⟨hallowed, hne, hbattery | rfl⟩ := propRequestChange_cases hsent
    · exact .inr hbattery
    · exact h property hallowed hne

/-! ### Adding a handler -/

theorem propGetPropLen_of_none (h : s.firstHandler property = none) :
    s.propGetPropLen property = 0 := by
  rw [propGetPropLen, h]

theorem firstHandler_of_add {q : UInt32} {t : Properties} (hnum : t.numHandlers = s.numHandlers + 1)
    (hhandlers : t.handlers =
      Function.update s.handlers s.numHandlers { s.handlers s.numHandlers with
      property }) :
    t.firstHandler q =
      (s.firstHandler q).or (if property = q then some s.numHandlers else none) := by
  have hold : (range s.numHandlers).find? (fun entry => (t.handlers entry).property = q) =
      s.firstHandler q := by
    refine find?_congr fun entry hentry => ?_
    rw [hhandlers, Function.update_of_ne (Nat.ne_of_lt (mem_range.1 hentry))]
  rw [firstHandler, hnum, range_succ, find?_append, hold, hhandlers]
  simp

theorem known_congr (hdelivered : s'.delivered = s.delivered) :
    s'.Known property len ↔ s.Known property len := by
  rw [Known, Known, hdelivered]

/-- The length of a property after a handler was added for another one, or for the same one. -/
theorem propAddHandler_cases (h : s.propAddHandler cfg property = some s') :
    (cfg.denied property = true ∧ s' = s) ∨
    (cfg.denied property = false ∧ s'.delivered = s.delivered ∧
      ∀ q, s'.propGetPropLen q =
        if s.firstHandler q = none ∧ property = q then (s.handlers s.numHandlers).length.toUInt32
        else s.propGetPropLen q) := by
  unfold propAddHandler at h
  split at h
  next hdenied =>
    cases h
    exact .inl ⟨hdenied, rfl⟩
  next hdenied =>
    split at h
    next =>
      cases h
      refine .inr ⟨by simpa using hdenied, rfl, fun q => ?_⟩
      rw [propGetPropLen, firstHandler_of_add rfl rfl]
      cases hfirst : s.firstHandler q with
      | none =>
        by_cases hq : property = q
        · simp [hq]
        · simp [hq, propGetPropLen, hfirst]
      | some entry =>
        have hlt : entry < s.numHandlers := mem_range.1 (mem_of_find?_eq_some hfirst)
        simp [propGetPropLen, hfirst, Nat.ne_of_lt hlt]
    next => cases h

theorem Inv.addHandler (h : s.Inv cfg) (hgood : ¬ s.Inherits cfg property)
    (hs : s.propAddHandler cfg property = some s') : s'.Inv cfg := by
  rcases propAddHandler_cases hs with ⟨-, rfl⟩ | ⟨hdenied, hdelivered, hlen⟩
  · exact h
  · intro q hallowed hne
    rw [known_congr hdelivered]
    rw [hlen] at hne ⊢
    split_ifs at hne ⊢ with hnew
    · obtain ⟨hfirst, rfl⟩ := hnew
      by_contra hunknown
      exact hgood ⟨hdenied, hallowed, hfirst, hne, hunknown⟩
    · exact h q hallowed hne

/-- The length of a property is not known. -/
def Unsafe (cfg : PropConfig) (s : Properties) : Prop :=
  ∃ property, cfg.allowed property = true ∧ s.propGetPropLen property ≠ 0 ∧
    ¬ s.Known property (s.propGetPropLen property)

theorem Unsafe.not_inv (h : s.Unsafe cfg) : ¬ s.Inv cfg := by
  obtain ⟨property, hallowed, hne, hunknown⟩ := h
  exact fun hinv => hunknown (hinv property hallowed hne)

theorem unsafe_of_inherits (hbad : s.Inherits cfg property)
    (hs : s.propAddHandler cfg property = some s') : s'.Unsafe cfg := by
  obtain ⟨hdenied, hallowed, hfirst, hne, hunknown⟩ := hbad
  rcases propAddHandler_cases hs with ⟨hdenied', -⟩ | ⟨-, hdelivered, hlen⟩
  · simp [hdenied] at hdenied'
  · refine ⟨property, hallowed, ?_⟩
    rw [known_congr hdelivered, hlen, if_pos ⟨hfirst, rfl⟩]
    exact ⟨hne, hunknown⟩

theorem Unsafe.addHandler (h : s.Unsafe cfg) (hs : s.propAddHandler cfg property = some s') :
    s'.Unsafe cfg := by
  rcases propAddHandler_cases hs with ⟨-, rfl⟩ | ⟨-, hdelivered, hlen⟩
  · exact h
  · obtain ⟨q, hallowed, hne, hunknown⟩ := h
    refine ⟨q, hallowed, ?_⟩
    rw [known_congr hdelivered, hlen, if_neg fun hnew => hne (propGetPropLen_of_none hnew.1)]
    exact ⟨hne, hunknown⟩

/-! ### The other steps -/

theorem reset_cases (hs : s.propResetRegistration cfg = some s') :
    (PropOp.reset.Good cfg s → s'.Inv cfg) ∧ (¬ PropOp.reset.Good cfg s → s'.Unsafe cfg) := by
  refine Runs.invariant_or (fun _ _ _ h hgood hs => Inv.addHandler h hgood hs)
    (fun _ _ _ _ hbad hs => unsafe_of_inherits (not_not.1 hbad) hs)
    (fun _ _ _ h hs => Unsafe.addHandler h hs) hs ?_
  intro property _ hne
  exact absurd (propGetPropLen_of_none rfl) hne

theorem propGetPropLen_event (property len q : UInt32) :
    (s.globalPropertyHandler property len).propGetPropLen q =
      if s.firstHandler q ≠ none ∧ property = q ∧ s.propGetPropLen q = 0 then len.toUInt16.toUInt32
      else s.propGetPropLen q := by
  have hproperty (entry : ℕ) : ((s.globalPropertyHandler property len).handlers entry).property =
      (s.handlers entry).property := by
    simp only [globalPropertyHandler]
    split_ifs <;> rfl
  have hfirst : (s.globalPropertyHandler property len).firstHandler q = s.firstHandler q :=
    find?_congr fun entry _ => by rw [hproperty]
  rw [propGetPropLen, propGetPropLen, hfirst]
  cases hq : s.firstHandler q with
  | none => simp
  | some entry =>
    have hlt : entry < s.numHandlers := mem_range.1 (mem_of_find?_eq_some hq)
    have hsame : (s.handlers entry).property = q := by simpa using find?_some hq
    have hzero : (s.handlers entry).length.toUInt32 = 0 ↔ (s.handlers entry).length = 0 :=
      UInt16.toUInt32_inj (b := 0)
    simp only [globalPropertyHandler, hlt, hsame, hzero, eq_comm (a := q), true_and, ne_eq,
      reduceCtorEq, not_false_eq_true]
    split_ifs <;> rfl

theorem Inv.event (h : s.Inv cfg) (hgood : ¬ s.Truncates cfg property len) :
    (s.globalPropertyHandler property len).Inv cfg := by
  intro q hallowed hne
  rw [propGetPropLen_event] at hne ⊢
  split_ifs at hne ⊢ with hnew
  · obtain ⟨hfirst, rfl, hzero⟩ := hnew
    by_cases hlen : len.toUInt16.toUInt32 = len
    · exact .inl (by simp [globalPropertyHandler, hlen])
    · have hknown : s.Known property len.toUInt16.toUInt32 := by
        by_contra hunknown
        exact hgood ⟨hallowed, hfirst, hzero, hne, hlen, hunknown⟩
      exact hknown.imp (mem_cons_of_mem _) id
  · exact (h q hallowed hne).imp (mem_cons_of_mem _) id

theorem unsafe_of_truncates (hbad : s.Truncates cfg property len) :
    (s.globalPropertyHandler property len).Unsafe cfg := by
  obtain ⟨hallowed, hfirst, hzero, hne, hlen, hunknown⟩ := hbad
  refine ⟨property, hallowed, ?_⟩
  rw [propGetPropLen_event, if_pos ⟨hfirst, rfl, hzero⟩]
  refine ⟨hne, fun hknown => hunknown (hknown.imp_left fun hmem => ?_)⟩
  exact (mem_cons.1 hmem).resolve_left fun heq => hlen (congrArg Prod.snd heq)

theorem Inv.request (h : s.Inv cfg) (hs : (PropOp.request property len).step cfg s = some s') :
    s'.Inv cfg := by
  simp only [PropOp.step] at hs
  split at hs <;> obtain rfl := Option.some.inj hs <;> exact h

theorem inv_step (h : s.Inv cfg) (hgood : op.Good cfg s) (hs : op.step cfg s = some s') :
    s'.Inv cfg := by
  cases op with
  | reset => exact (reset_cases hs).1 hgood
  | addHandler property => exact h.addHandler hgood hs
  | event property len =>
    cases hs
    exact h.event hgood
  | request property len => exact h.request hs

theorem not_inv_step (hbad : ¬ op.Good cfg s) (hs : op.step cfg s = some s') : ¬ s'.Inv cfg := by
  cases op with
  | reset => exact ((reset_cases hs).2 hbad).not_inv
  | addHandler property => exact (unsafe_of_inherits (not_not.1 hbad) hs).not_inv
  | event property len =>
    cases hs
    exact (unsafe_of_truncates (not_not.1 hbad)).not_inv
  | request => exact absurd trivial hbad

theorem inv_init : init.Inv cfg :=
  fun _ _ hne => absurd (propGetPropLen_of_none rfl) hne

/-- What the camera has delivered and what was requested is not forgotten. -/
theorem step_delivered (hs : op.step cfg s = some s') :
    (∀ x ∈ s.delivered, x ∈ s'.delivered) ∧
      (s'.requested = s.requested ∨
        ∃ property len sent, s.propRequestChange cfg property len = some sent ∧
          s'.requested = (property, sent) :: s.requested) := by
  have hadd {t t' : Properties} {property : UInt32} (h : t.propAddHandler cfg property = some t') :
      t'.delivered = t.delivered ∧ t'.requested = t.requested := by
    unfold propAddHandler at h
    split_ifs at h <;> obtain rfl := Option.some.inj h <;> exact ⟨rfl, rfl⟩
  cases op with
  | reset =>
    have hsame := Runs.invariant
      (I := fun t : Properties => t.delivered = s.delivered ∧ t.requested = s.requested)
      (fun t _ _ h hs => ⟨(hadd hs).1.trans h.1, (hadd hs).2.trans h.2⟩) hs ⟨rfl, rfl⟩
    exact ⟨fun x hx => hsame.1.symm ▸ hx, .inl hsame.2⟩
  | addHandler property =>
    obtain ⟨hdelivered, hrequested⟩ := hadd hs
    exact ⟨fun x hx => hdelivered.symm ▸ hx, .inl hrequested⟩
  | event property len =>
    cases hs
    exact ⟨fun x hx => mem_cons_of_mem _ hx, .inl rfl⟩
  | request property len =>
    simp only [PropOp.step] at hs
    split at hs
    · next sent hsent =>
      cases hs
      exact ⟨fun _ => id, .inr ⟨property, len, sent, hsent, rfl⟩⟩
    · cases hs
      exact ⟨fun _ => id, .inl rfl⟩

/-- All requests that were sent had a known length. -/
def SentKnown (s : Properties) : Prop :=
  ∀ x ∈ s.requested, s.Known x.1 x.2

theorem SentKnown.step (h : s.SentKnown) (hinv : s.Inv cfg) (hs : op.step cfg s = some s') :
    s'.SentKnown := by
  obtain ⟨hdelivered, hrequested⟩ := step_delivered hs
  have hknown {property len : UInt32} (h : s.Known property len) : s'.Known property len :=
    h.imp (hdelivered _) id
  intro x hx
  rcases hrequested with hsame | ⟨property, len, sent, hsent, hcons⟩
  · exact hknown (h x (hsame ▸ hx))
  · rw [hcons] at hx
    rcases mem_cons.1 hx with rfl | hx
    · exact hknown (safe_iff_inv.2 hinv property len sent hsent)
    · exact hknown (h x hx)

end Properties

/-- **The lengths of properties.** All requests that can be made in a run are sent with a length
that the camera has delivered exactly if no property inherits a length and no length is cut. Then
this holds for all requests that were made. -/
theorem run_safe_iff (cfg : PropConfig) (ops : List PropOp) (s : Properties)
    (hrun : Properties.init.run cfg ops = some s) :
    (Runs.Always (PropOp.step cfg) (Properties.Safe cfg) .init ops ↔
      Runs.Meets (PropOp.step cfg) (fun s op => op.Good cfg s) .init ops) ∧
    (Runs.Meets (PropOp.step cfg) (fun s op => op.Good cfg s) .init ops →
      ∀ x ∈ s.requested, s.Known x.1 x.2) := by
  refine ⟨Runs.always_iff_meets (J := Properties.Inv cfg) (fun s => Properties.safe_iff_inv.2)
    (fun _ _ _ h hgood hs => Properties.inv_step h hgood hs)
    (fun _ _ _ _ hbad hs hsafe =>
      Properties.not_inv_step hbad hs (Properties.safe_iff_inv.1 hsafe))
    hrun Properties.inv_init, fun hmeets => ?_⟩
  have hinv := Runs.invariant_of_meets (I := fun s => s.Inv cfg ∧ s.SentKnown)
    (fun _ _ _ h hgood hs => ⟨Properties.inv_step h.1 hgood hs, h.2.step h.1 hs⟩) hmeets hrun
    ⟨Properties.inv_init, by simp [Properties.SentKnown, Properties.init]⟩
  exact hinv.2

/-- A camera with one handler of its own, and without restrictions. -/
def oneHandler : PropConfig :=
  ⟨[0x80000000], fun _ => false, fun _ => true⟩

/-- A property is delivered with length 4 and changed. -/
theorem run_safe_oneEvent :
    ∃ s, Properties.init.run oneHandler [.reset, .addHandler 0x80000001, .event 0x80000001 4,
        .request 0x80000001 0] = some s ∧ s.requested = [(0x80000001, 4)] ∧
      ∀ x ∈ s.requested, s.Known x.1 x.2 := by
  refine ⟨_, rfl, rfl, (run_safe_iff oneHandler [.reset, .addHandler 0x80000001,
    .event 0x80000001 4, .request 0x80000001 0] _ rfl).2 ?_⟩
  decide

/-- After the registration has been reset, another property gets the record. A change of it is
requested with length 4, though the camera has not delivered it. The same happens to a property that
the camera has delivered with length `0x10004` only. -/
theorem run_inherited_length :
    (∃ s, Properties.init.run oneHandler [.reset, .addHandler 0x80000001, .event 0x80000001 4,
        .reset, .addHandler 0x80000002, .request 0x80000002 0] = some s ∧
      s.requested = [(0x80000002, 4)] ∧ s.delivered = [(0x80000001, 4)]) ∧
    ∃ s, Properties.init.run oneHandler [.reset, .addHandler 0x80000001,
        .event 0x80000001 0x10004, .request 0x80000001 0] = some s ∧
      s.requested = [(0x80000001, 4)] ∧ s.delivered = [(0x80000001, 0x10004)] :=
  ⟨⟨_, rfl, rfl, rfl⟩, ⟨_, rfl, rfl, rfl⟩⟩

end MagicLantern.Property

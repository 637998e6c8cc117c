import Mathlib.Data.Option.Basic
import Mathlib.Data.List.Basic

/-!
# Runs of a partial step function

A step function `step : σ → α → Option σ` says what an operation does in a state, and is `none`
where the operation is not enabled. A run is a list of operations, `as.foldlM step s`. This file has
the rule by which a property of states that one step keeps is a property of all states of a run,
also for runs whose steps meet a condition on the operation and the state before it.

## Main definitions

* `Meets`, `Always` — conditions on the steps and on the states of a run.

## Main results

* `invariant_of_meets`, `Meets.always`, `always_iff_meets`.
-/

namespace Runs

variable {σ α : Type*} {step : σ → α → Option σ} {P Q : σ → α → Prop} {I J : σ → Prop} {s s' : σ}
  {as : List α} {C : α → Prop}

theorem foldlM_cons_eq_some {a : α} (h : (a :: as).foldlM step s = some s') :
    ∃ t, step s a = some t ∧ as.foldlM step t = some s' := by
  exact Option.bind_eq_some_iff.1 h

/-- In the run from `s` every operation meets the condition `P` in the state before it. -/
def Meets (step : σ → α → Option σ) (P : σ → α → Prop) : σ → List α → Prop
  | _, [] => True
  | s, a :: as => P s a ∧ ∀ s' ∈ step s a, Meets step P s' as

instance decidableMeets [∀ s a, Decidable (P s a)] : ∀ s as, Decidable (Meets step P s as)
  | _, [] => isTrue trivial
  | s, a :: as =>
    have (s' : σ) : Decidable (Meets step P s' as) := decidableMeets s' as
    inferInstanceAs (Decidable (P s a ∧ ∀ s' ∈ step s a, Meets step P s' as))

/-- What a run leads to can be evaluated. -/
instance decidableExistsSome {o : Option σ} [DecidablePred I] : Decidable (∃ s, o = some s ∧ I s) :=
  inferInstanceAs (Decidable (∃ s, s ∈ o ∧ I s))

theorem Meets.of_forall (h : ∀ s a, P s a) : Meets step P s as := by
  induction as generalizing s with
  | nil => trivial
  | cons a as ih => exact ⟨h s a, fun _ _ => ih⟩

theorem Meets.of_forall_mem (h : ∀ a ∈ as, C a) : Meets step (fun _ a => C a) s as := by
  induction as generalizing s with
  | nil => trivial
  | cons a as ih =>
    obtain ⟨ha, has⟩ := List.forall_mem_cons.1 h
    exact ⟨ha, fun _ _ => ih has⟩

theorem Meets.and (hP : Meets step P s as) (hQ : Meets step Q s as) :
    Meets step (fun s a => P s a ∧ Q s a) s as := by
  induction as generalizing s with
  | nil => trivial
  | cons a as ih => exact ⟨⟨hP.1, hQ.1⟩, fun s' hs' => ih (hP.2 s' hs') (hQ.2 s' hs')⟩

/-- A part of the state is changed by steps of its own. -/
theorem Meets.map {τ : Type*} {f : σ → τ} {step' : τ → α → Option τ} {P' : τ → α → Prop}
    (hstep : ∀ s a, step' (f s) a = (step s a).map f) (hP : ∀ s a, P s a → P' (f s) a)
    (h : Meets step P s as) : Meets step' P' (f s) as := by
  induction as generalizing s with
  | nil => trivial
  | cons a as ih =>
    refine ⟨hP s a h.1, fun t ht => ?_⟩
    rw [hstep] at ht
    obtain ⟨s', hs', rfl⟩ := Option.map_eq_some_iff.1 ht
    exact ih (h.2 s' hs')

/-- **The invariant rule**, for runs whose steps meet a condition. -/
theorem invariant_of_meets (hstep : ∀ s a s', I s → P s a → step s a = some s' → I s')
    (hmeets : Meets step P s as) (hrun : as.foldlM step s = some s') (h : I s) : I s' := by
  induction as generalizing s with
  | nil =>
    cases hrun
    exact h
  | cons a as ih =>
    obtain ⟨t, ht, hrun⟩ := foldlM_cons_eq_some hrun
    exact ih (hmeets.2 t ht) hrun (hstep s a t h hmeets.1 ht)

/-- **The invariant rule** for steps that are always possible. -/
theorem exists_of_meets (hstep : ∀ s a, I s → P s a → ∃ s', step s a = some s' ∧ I s')
    (hmeets : Meets step P s as) (h : I s) : ∃ s', as.foldlM step s = some s' ∧ I s' := by
  induction as generalizing s with
  | nil => exact ⟨s, rfl, h⟩
  | cons a as ih =>
    obtain ⟨t, ht, hI⟩ := hstep s a h hmeets.1
    obtain ⟨u, hu, hI⟩ := ih (hmeets.2 t ht) hI
    exact ⟨u, by rw [List.foldlM_cons, ht]; exact hu, hI⟩

/-- **The invariant rule.** -/
theorem invariant (hstep : ∀ s a s', I s → step s a = some s' → I s')
    (hrun : as.foldlM step s = some s') (h : I s) : I s' :=
  invariant_of_meets (P := fun _ _ => True) (fun s a s' hs _ => hstep s a s' hs)
    (Meets.of_forall fun _ _ => trivial) hrun h

/-- Two conditions that are equivalent under an invariant. -/
theorem meets_iff_of_invariant (hstep : ∀ s a s', I s → step s a = some s' → I s')
    (hiff : ∀ s a, I s → C a → (P s a ↔ Q s a)) (hC : ∀ a ∈ as, C a) (h : I s) :
    Meets step P s as ↔ Meets step Q s as := by
  induction as generalizing s with
  | nil => exact Iff.rfl
  | cons a as ih =>
    obtain ⟨ha, has⟩ := List.forall_mem_cons.1 hC
    exact and_congr (hiff s a h ha) (forall₂_congr fun t ht => ih has (hstep s a t h ht))

/-- Steps that meet a condition keep the invariant `I`; any other step leads from `I` to `B`, which
no step leaves any more. So the last state of a run tells whether all steps have met the condition.
-/
theorem invariant_or {B : σ → Prop} (hgood : ∀ s a s', I s → P s a → step s a = some s' → I s')
    (hbad : ∀ s a s', I s → ¬ P s a → step s a = some s' → B s')
    (hstable : ∀ s a s', B s → step s a = some s' → B s')
    (hrun : as.foldlM step s = some s') (h : I s) :
    (Meets step P s as → I s') ∧ (¬ Meets step P s as → B s') := by
  refine ⟨fun hmeets => invariant_of_meets hgood hmeets hrun h, fun hmeets => ?_⟩
  induction as generalizing s with
  | nil => exact absurd trivial hmeets
  | cons a as ih =>
    obtain ⟨t, ht, hrun⟩ := foldlM_cons_eq_some hrun
    by_cases hP : P s a
    · refine ih hrun (hgood s a t h hP ht) fun hrest => hmeets ⟨hP, fun t' ht' => ?_⟩
      obtain rfl := Option.some.inj (ht.symm.trans ht')
      exact hrest
    · exact invariant hstable hrun (hbad s a t h hP ht)

/-- In the run from `s` every state, the first and the last one included, has the property `I`. -/
def Always (step : σ → α → Option σ) (I : σ → Prop) : σ → List α → Prop
  | s, [] => I s
  | s, a :: as => I s ∧ ∀ s' ∈ step s a, Always step I s' as

theorem Always.last (h : Always step I s as) (hrun : as.foldlM step s = some s') : I s' := by
  induction as generalizing s with
  | nil =>
    cases hrun
    exact h
  | cons a as ih =>
    obtain ⟨t, ht, hrun⟩ := foldlM_cons_eq_some hrun
    exact ih (h.2 t ht) hrun

/-- **The invariant rule** for all states of a run. -/
theorem Meets.always (hJI : ∀ s, J s → I s)
    (hgood : ∀ s a s', J s → P s a → step s a = some s' → J s')
    (hmeets : Meets step P s as) (h : J s) : Always step I s as := by
  induction as generalizing s with
  | nil => exact hJI s h
  | cons a as ih =>
    exact ⟨hJI s h, fun t ht => ih (hmeets.2 t ht) (hgood s a t h hmeets.1 ht)⟩

/-- The next rule, if all steps of a run also meet a condition `Q`. -/
theorem always_iff_meets_of_meets (hJI : ∀ s, J s → I s)
    (hgood : ∀ s a s', J s → Q s a → P s a → step s a = some s' → J s')
    (hbad : ∀ s a s', J s → Q s a → ¬ P s a → step s a = some s' → ¬ I s')
    (hQ : Meets step Q s as) (hrun : as.foldlM step s = some s') (h : J s) :
    Always step I s as ↔ Meets step P s as := by
  refine ⟨fun halways => ?_, fun hmeets =>
    (hQ.and hmeets).always hJI (fun s a s' hs hPQ => hgood s a s' hs hPQ.1 hPQ.2) h⟩
  induction as generalizing s with
  | nil => trivial
  | cons a as ih =>
    obtain ⟨t, ht, hrun⟩ := foldlM_cons_eq_some hrun
    have halways := halways.2 t ht
    have hIt : I t := by
      cases as with
      | nil => exact halways
      | cons b bs => exact halways.1
    have hP : P s a := by
      by_contra hP
      exact hbad s a t h hQ.1 hP ht hIt
    refine ⟨hP, fun t' ht' => ?_⟩
    obtain rfl := Option.some.inj (ht.symm.trans ht')
    exact ih (hQ.2 t ht) hrun (hgood s a t h hQ.1 hP ht) halways

/-- Suppose an invariant `J` implies a property `I`, is kept by the steps that meet a condition, and
after any other step `I` does not hold. Then `I` holds in all states of a run exactly if each step
meets the condition. -/
theorem always_iff_meets (hJI : ∀ s, J s → I s)
    (hgood : ∀ s a s', J s → P s a → step s a = some s' → J s')
    (hbad : ∀ s a s', J s → ¬ P s a → step s a = some s' → ¬ I s')
    (hrun : as.foldlM step s = some s') (h : J s) : Always step I s as ↔ Meets step P s as :=
  always_iff_meets_of_meets (Q := fun _ _ => True) hJI (fun s a s' hs _ => hgood s a s' hs)
    (fun s a s' hs _ => hbad s a s' hs) (.of_forall fun _ _ => trivial) hrun h

end Runs

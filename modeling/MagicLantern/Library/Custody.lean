import MagicLantern.Library.Runs
import Mathlib.Algebra.BigOperators.Group.Finset.Piecewise
import Mathlib.Algebra.Order.BigOperators.Group.Multiset
import Mathlib.Data.Fintype.Basic
import Mathlib.Tactic.Abel

/-!
# Tokens that move between places

A finite number of places (queues, and the hands of tasks) each hold a list of tokens. Tokens only
move: the first token of one place is put in front of another (`take`, a task receives from a queue)
or at its end (`post`, a task posts to a queue), or it is lost (`lose`, `clear`). A queue has
a capacity, and a post to a full queue loses the token (`offer`).
-/

namespace Custody

open Finset Multiset

variable {ι α : Type*} [DecidableEq ι] (box : ι → List α) (cap : ι → ℕ) (src dst : ι) {i : ι}

/-- The first token of `src` is lost. -/
def lose : ι → List α :=
  Function.update box src (box src).tail

/-- The first token of `src` goes in front of `dst`. -/
def take : ι → List α :=
  Function.update (lose box src) dst ((box src).take 1 ++ lose box src dst)

/-- The first token of `src` goes to the end of `dst`. -/
def post : ι → List α :=
  Function.update (lose box src) dst (lose box src dst ++ (box src).take 1)

/-- The first token of `src` goes to the end of `dst`, and is lost if `dst` is full. -/
def offer : ι → List α :=
  if (box dst).length < cap dst then post box src dst else lose box src

/-- All tokens of `src` are lost. -/
def clear : ι → List α :=
  Function.update box src []

@[simp] theorem clear_of_ne (h : i ≠ src) : clear box src i = box i := by
  simp [clear, h]

variable {src dst} in
theorem offer_src (h : src ≠ dst) : offer box cap src dst src = (box src).tail := by
  rw [offer]
  split_ifs
  · simp [post, lose, h]
  · simp [lose]

section Total

variable [Fintype ι]

/-- All tokens, wherever they are. -/
def total : Multiset α :=
  ∑ i, (box i : Multiset α)

theorem total_update (l : List α) :
    total (Function.update box src l) + (box src : Multiset α) = total box + (l : Multiset α) := by
  have hl : ∀ i, ((Function.update box src l i : List α) : Multiset α) =
      Function.update (fun i => (box i : Multiset α)) src (l : Multiset α) i := by
    intro i
    rcases eq_or_ne i src with rfl | hi
    · simp
    · simp [hi]
  simp only [total, hl, sum_update_of_mem (mem_univ src)]
  rw [← add_sum_erase _ _ (mem_univ src), sdiff_singleton_eq_erase]
  abel

theorem total_lose : total (lose box src) + ((box src).take 1 : Multiset α) = total box := by
  have hsplit : (box src : Multiset α) =
      ((box src).take 1 : List α) + ((box src).tail : List α) := by
    cases box src <;> simp
  have h := total_update box src (box src).tail
  rw [hsplit, ← add_assoc] at h
  exact add_right_cancel h

theorem total_take : total (take box src dst) = total box := by
  have h := total_update (lose box src) dst ((box src).take 1 ++ lose box src dst)
  rw [← coe_add, ← add_assoc, add_right_cancel_iff] at h
  exact h.trans (total_lose box src)

theorem total_post : total (post box src dst) = total box := by
  have h := total_update (lose box src) dst (lose box src dst ++ (box src).take 1)
  rw [← coe_add, add_comm (lose box src dst : Multiset α), ← add_assoc,
    add_right_cancel_iff] at h
  exact h.trans (total_lose box src)

theorem total_clear : total (clear box src) + (box src : Multiset α) = total box := by
  have h := total_update box src []
  rwa [coe_nil, add_zero] at h

variable {box src}

/-! ### Accounts -/

/-- All tokens of `box` are in `box'`, unless the condition `lost` holds; then there are fewer. -/
structure Accounts (lost : Prop) (box box' : ι → List α) : Prop where
  kept : ¬ lost → total box' = total box
  fewer : lost → (total box').card < (total box).card

variable {box' box'' : ι → List α} {p q : Prop} {cap dst} {a : α} {l : List α}

omit [DecidableEq ι] in
theorem Accounts.of_total_eq (h : total box' = total box) : Accounts False box box' :=
  ⟨fun _ => h, False.elim⟩

omit [DecidableEq ι] in
theorem Accounts.congr (h : Accounts p box box') (hpq : p ↔ q) : Accounts q box box' := by
  rwa [← propext hpq]

omit [DecidableEq ι] in
theorem Accounts.card_le (h : Accounts p box box') : (total box').card ≤ (total box).card := by
  by_cases hp : p
  · exact (h.fewer hp).le
  · rw [h.kept hp]

omit [DecidableEq ι] in
theorem Accounts.trans (h : Accounts p box box') (h' : Accounts q box' box'') :
    Accounts (p ∨ q) box box'' where
  kept hpq := by
    obtain ⟨hp, hq⟩ := not_or.1 hpq
    rw [h'.kept hq, h.kept hp]
  fewer hpq := by
    rcases hpq with hp | hq
    · exact h'.card_le.trans_lt (h.fewer hp)
    · exact (h'.fewer hq).trans_le h.card_le

/-- Receiving a token keeps all tokens. -/
theorem accounts_take : Accounts False box (take box src dst) :=
  .of_total_eq (total_take box src dst)

theorem accounts_lose (h : box src ≠ []) : Accounts True box (lose box src) where
  kept := fun h => absurd trivial h
  fewer _ := by
    have hcard := congrArg Multiset.card (total_lose box src)
    have : 0 < (box src).length := List.length_pos_iff.2 h
    simp only [card_add, coe_card, List.length_take] at hcard
    omega

/-- Posting a token loses it if the queue is full. -/
theorem accounts_offer (h : box src ≠ []) :
    Accounts (cap dst ≤ (box dst).length) box (offer box cap src dst) := by
  by_cases hfull : cap dst ≤ (box dst).length
  · rw [offer, if_neg hfull.not_gt]
    exact (accounts_lose h).congr (iff_of_true trivial hfull)
  · rw [offer, if_pos (not_le.1 hfull)]
    exact (Accounts.of_total_eq (total_post box src dst)).congr (iff_of_false id hfull)

theorem accounts_clear : Accounts (box src ≠ []) box (clear box src) where
  kept h := by
    have := total_clear box src
    rwa [not_not.1 h, coe_nil, add_zero] at this
  fewer h := by
    have hcard := congrArg Multiset.card (total_clear box src)
    have : 0 < (box src).length := List.length_pos_iff.2 h
    simp only [card_add, coe_card] at hcard
    omega

omit [DecidableEq ι] in
/-- **The accounts of a run.** All tokens are kept if no step loses one, and not otherwise. -/
theorem accounts_run {σ β : Type*} {step : σ → β → Option σ} {held : σ → ι → List α}
    {lost : σ → β → Prop}
    (hstep : ∀ s b s', step s b = some s' → Accounts (lost s b) (held s) (held s')) {s s' : σ}
    {bs : List β} (hrun : bs.foldlM step s = some s') :
    Accounts (¬ Runs.Meets step (fun s b => ¬ lost s b) s bs) (held s) (held s') := by
  induction bs generalizing s with
  | nil =>
    cases hrun
    exact (Accounts.of_total_eq rfl).congr (by simp [Runs.Meets])
  | cons b bs ih =>
    obtain ⟨t, ht, hrun⟩ := Runs.foldlM_cons_eq_some hrun
    refine ((hstep s b t ht).trans (ih hrun)).congr ?_
    simp only [Runs.Meets, ht, Option.mem_some_iff, forall_eq', not_and_or, not_not]

/-! ### Where a token is -/

omit [DecidableEq ι] in
theorem mem_total : a ∈ total box ↔ ∃ i, a ∈ box i := by
  simp [total, mem_sum]

omit [DecidableEq ι] in
/-- All tokens are in one place if the others are empty. -/
theorem total_eq_of_forall_ne (h : ∀ j ≠ i, box j = []) : total box = (box i : Multiset α) :=
  sum_eq_single i (fun j _ hj => by rw [h j hj, coe_nil])
    fun hi => absurd (mem_univ i) hi

/-- If there are the tokens of a list without repetitions, each of them is in one place, once. -/
theorem exists_place_of_total_eq [DecidableEq α] (hl : l.Nodup) (h : total box = (l : Multiset α))
    (ha : a ∈ l) : ∃ i, (box i).count a = 1 ∧ ∀ j ≠ i, a ∉ box j := by
  have hcount : ∑ i, (box i).count a = 1 := by
    have := congrArg (Multiset.count a) h
    rw [total, count_sum', coe_count, List.count_eq_one_of_mem hl ha] at this
    simpa using this
  obtain ⟨i, hi⟩ : ∃ i, a ∈ box i := by
    rw [← mem_total, h]
    exact ha
  have hpos : 0 < (box i).count a := List.count_pos_iff.2 hi
  rw [← add_sum_erase _ _ (mem_univ i)] at hcount
  have hrest : ∑ j ∈ Finset.univ.erase i, (box j).count a = 0 := by omega
  refine ⟨i, by omega, fun j hj hmem => ?_⟩
  have hzero := sum_eq_zero_iff.1 hrest j (mem_erase.2 ⟨hj, mem_univ j⟩)
  exact List.count_eq_zero.1 hzero hmem

omit [DecidableEq ι] in
/-- If each token of a list without repetitions is somewhere, there are at least that many. -/
theorem length_le_card_total (hl : l.Nodup) (h : ∀ a ∈ l, ∃ i, a ∈ box i) :
    l.length ≤ (total box).card := by
  have hle : (l : Multiset α) ≤ total box := by
    rw [le_iff_subset (coe_nodup.2 hl)]
    intro a ha
    exact mem_total.2 (h a (mem_coe.1 ha))
  simpa using card_le_card hle

end Total

end Custody

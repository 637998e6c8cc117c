import Mathlib.Data.List.Sort
import Mathlib.Tactic

/-!
# The threshold of the usage counters

`menu_usage_counters_update_threshold` counts the entries of the chosen menus, collects their
counters, sorts the first `num` places of the array, the largest counter first, and takes the last
of them as the threshold. That there are `num` counters is not checked.

Source: `src/src/menu.c`.

## Main results

* `ThresholdRequest.updateThreshold_iff` — when the threshold is right.
* `ThresholdRequest.updateThreshold_of_one`.
-/

namespace MagicLantern.Menus

open List

variable {F : Type*} [LinearOrder F]

/-- One comparison. Only counters that have been collected can be read. -/
def compareSwap (i : ℕ) (counters : List F) (j : ℕ) : Option (List F) := do
  let a ← counters[i]?
  let b ← counters[j]?
  return if a < b then (counters.set i b).set j a else counters

/-- The loop over `j`. -/
def sortRound (numEntries : ℕ) (counters : List F) (i : ℕ) : Option (List F) :=
  (range' (i + 1) (numEntries - (i + 1))).foldlM (compareSwap i) counters

/-- The loop over `i`. -/
def sortFirst (numEntries num : ℕ) (counters : List F) : Option (List F) :=
  (range' 0 (min numEntries num)).foldlM (sortRound numEntries) counters

theorem compareSwap_eq (pre done rest : List F) (x y : F) :
    compareSwap pre.length (pre ++ x :: (done ++ y :: rest)) (pre.length + 1 + done.length) =
      some (pre ++ max x y :: (done ++ min x y :: rest)) := by
  have hj : pre.length + 1 + done.length - pre.length = done.length + 1 := by omega
  have hle : pre.length ≤ pre.length + 1 + done.length := by omega
  have hy : (pre ++ x :: (done ++ y :: rest))[pre.length + 1 + done.length]? = some y := by
    rw [getElem?_append_right hle, hj]
    simp
  by_cases hlt : x < y
  · simp [compareSwap, hy, hj, hle, hlt, hlt.le]
  · simp [compareSwap, hy, not_lt.1 hlt]

/-- The loop over `j` brings the largest counter to place `i`. -/
theorem foldlM_compareSwap (pre done rest : List F) (x : F) (hdone : ∀ y ∈ done, y ≤ x) :
    ∃ m t, (range' (pre.length + 1 + done.length) rest.length).foldlM (compareSwap pre.length)
      (pre ++ x :: (done ++ rest)) = some (pre ++ m :: t) ∧ m :: t ~ x :: (done ++ rest) ∧
      ∀ y ∈ t, y ≤ m := by
  induction rest generalizing done x with
  | nil => exact ⟨x, done, by simp, by simp, hdone⟩
  | cons y rest ih =>
    have hdone' : ∀ z ∈ done ++ [min x y], z ≤ max x y :=
      forall_mem_append.2 ⟨fun z hz => (hdone z hz).trans (le_max_left x y), by simp⟩
    obtain ⟨m, t, heq, hperm, hle⟩ := ih (done ++ [min x y]) (max x y) hdone'
    refine ⟨m, t, ?_, hperm.trans ?_, hle⟩
    · rw [length_cons, range'_succ, foldlM_cons, compareSwap_eq, Option.bind_eq_bind]
      simpa [Nat.add_assoc] using heq
    · have hpair : max x y :: min x y :: (done ++ rest) ~ x :: y :: (done ++ rest) := by
        rcases le_total x y with h | h <;> simp [h, Perm.swap]
      rw [append_assoc]
      exact .trans (.cons _ perm_middle) (hpair.trans (.cons x perm_middle.symm))

theorem insertionSort_eq_cons {m : F} {t l : List F} (h : m :: t ~ l) (hle : ∀ y ∈ t, y ≤ m) :
    l.insertionSort (· ≥ ·) = m :: t.insertionSort (· ≥ ·) := by
  rw [← insertionSort_cons_of_forall_rel (r := (· ≥ ·)) hle]
  exact ((perm_insertionSort _ _).trans (h.symm.trans (perm_insertionSort _ _).symm)).eq_of_sortedGE
    sortedGE_insertionSort sortedGE_insertionSort

/-- After `k` rounds the largest `k` counters are sorted. -/
theorem foldlM_sortRound (k : ℕ) (pre l : List F) (hk : k ≤ l.length) :
    ∃ p t, (range' pre.length k).foldlM (sortRound (pre.length + l.length)) (pre ++ l) =
      some (pre ++ (p ++ t)) ∧ p.length = k ∧
      p ++ t.insertionSort (· ≥ ·) = l.insertionSort (· ≥ ·) := by
  induction k generalizing pre l with
  | zero => exact ⟨[], l, by simp⟩
  | succ k ih =>
    obtain ⟨x, l, rfl⟩ := exists_cons_of_length_pos (Nat.lt_of_lt_of_le (Nat.succ_pos k) hk)
    obtain ⟨m, u, heq, hperm, hle⟩ := foldlM_compareSwap pre [] l x (by simp)
    have hlen : u.length = l.length := Nat.succ.inj hperm.length_eq
    have hround : sortRound (pre.length + (x :: l).length) (pre ++ x :: l) pre.length =
        some (pre ++ m :: u) := by
      rw [sortRound, length_cons, Nat.add_left_comm, Nat.add_sub_cancel]
      exact heq
    obtain ⟨p, t, hrun, hp, hsorted⟩ := ih (pre ++ [m]) u (hlen ▸ Nat.le_of_succ_le_succ hk)
    refine ⟨m :: p, t, ?_, by rw [length_cons, hp], ?_⟩
    · rw [range'_succ, foldlM_cons, hround, Option.bind_eq_bind]
      simpa [hlen, Nat.add_assoc, Nat.add_comm 1] using hrun
    · rw [cons_append, hsorted]
      exact (insertionSort_eq_cons hperm hle).symm

/-- The loops read no place behind the counters, and place `num - 1` is as if all were sorted. -/
theorem getElem?_sortFirst {num : ℕ} (hnum : 1 ≤ num) (l : List F) :
    ∃ sorted, sortFirst l.length num l = some sorted ∧
      sorted[num - 1]? = (l.insertionSort (· ≥ ·))[num - 1]? := by
  obtain ⟨p, t, hrun, hp, hsorted⟩ := foldlM_sortRound _ [] l (Nat.min_le_left l.length num)
  refine ⟨p ++ t, by simpa [sortFirst] using hrun, ?_⟩
  rw [← hsorted]
  by_cases hlt : num - 1 < p.length
  · rw [getElem?_append_left hlt, getElem?_append_left hlt]
  · have hlen := congrArg length hsorted
    rw [length_append, length_insertionSort, length_insertionSort] at hlen
    obtain rfl : t = [] := length_eq_zero_iff.1 (by omega)
    rfl

/-- The usage counters of an entry. -/
structure EntryUsage (F : Type*) where
  usageCounterLongTerm : F
  usageCounterShortTerm : F

/-- A menu. -/
structure MenuUsage (F : Type*) where
  noNameLookup : Bool
  isSubmenu : Bool
  children : List (EntryUsage F)

/-- The thresholds and the largest counter. -/
structure Usage (F : Type*) where
  usageCounterThr : F
  usageCounterThrSub : F
  usageCounterMax : F

/-- The arguments of `menu_usage_counters_update_threshold`. -/
structure ThresholdRequest where
  num : ℤ
  onlySubmenuEntries : Bool
  onlyNonsubmenuEntries : Bool

namespace ThresholdRequest

variable (q : ThresholdRequest) (menus : List (MenuUsage F)) (least most : F) (allocated : Bool)
  (s : Usage F)

/-- The menus that both traversals look at. -/
def chosen : List (MenuUsage F) :=
  menus.filter fun menu => !menu.noNameLookup && !(q.onlySubmenuEntries && !menu.isSubmenu) &&
    !(q.onlyNonsubmenuEntries && menu.isSubmenu)

def numEntries : ℕ := ((q.chosen menus).map (·.children.length)).sum

def counters : List F := (q.chosen menus).flatMap fun menu =>
  menu.children.map fun entry => max entry.usageCounterLongTerm entry.usageCounterShortTerm

/-- `menu_usage_counters_update_threshold`, if it reads only counters that it has collected. `least`
and `most` are 0.01 and 1e5. -/
def updateThreshold : Option (Usage F) :=
  if allocated then do
    let counters ← sortFirst (q.numEntries menus) q.num.toNat (q.counters menus)
    let thr ← if q.num > 0 then counters[q.num.toNat - 1]?.map (max · least) else some most
    return {
      usageCounterThr := if q.onlySubmenuEntries then s.usageCounterThr else thr
      usageCounterThrSub := if q.onlyNonsubmenuEntries then s.usageCounterThrSub else thr
      usageCounterMax := (q.counters menus).foldl max s.usageCounterMax }
  else some s

/-- The `num`-th largest counter or `least`, if this is larger or there are fewer counters. -/
def nthLargest : F :=
  (((q.counters menus).insertionSort (· ≥ ·))[q.num.toNat - 1]?.map (max · least)).getD least

/-- The thresholds that are asked for have a value. -/
def Sets (thr : F) (s : Usage F) : Prop :=
  (q.onlySubmenuEntries = false → s.usageCounterThr = thr) ∧
    (q.onlyNonsubmenuEntries = false → s.usageCounterThrSub = thr)

theorem numEntries_eq : q.numEntries menus = (q.counters menus).length := by
  simp [numEntries, counters]

variable {q}

/-- **The threshold is the `num`-th largest counter**, if there are as many. If there are fewer, a
place behind the counters is read, and without memory for the array nothing is changed. -/
theorem updateThreshold_iff (hnum : 1 ≤ q.num) :
    (∃ t, q.updateThreshold menus least most allocated s = some t ∧
        q.Sets (q.nthLargest menus least) t) ↔
      if allocated then q.num ≤ (q.counters menus).length
      else q.Sets (q.nthLargest menus least) s := by
  cases allocated with
  | false => simp [updateThreshold]
  | true =>
    have hpos : 0 < q.num := hnum
    have hone : 1 ≤ q.num.toNat := by omega
    obtain ⟨sorted, hsort, hget⟩ := getElem?_sortFirst hone (q.counters menus)
    have hlen : q.num ≤ (q.counters menus).length ↔
        (((q.counters menus).insertionSort (· ≥ ·))[q.num.toNat - 1]?).isSome := by
      rw [isSome_getElem?, length_insertionSort]
      omega
    rw [if_pos rfl, hlen]
    cases hv : ((q.counters menus).insertionSort (· ≥ ·))[q.num.toNat - 1]? with
    | none => simp [updateThreshold, numEntries_eq, hsort, hpos, hget, hv]
    | some v =>
      simp +contextual [updateThreshold, numEntries_eq, hsort, hpos, hget, hv, Sets, nthLargest]

/-- The second largest of two counters. -/
theorem updateThreshold_of_two : ∃ t, updateThreshold ⟨2, false, false⟩
    [⟨false, false, [⟨3, 1⟩, ⟨2, 5⟩]⟩] 1 100 true ⟨0, 0, 0⟩ = some t ∧ Sets ⟨2, false, false⟩
      (nthLargest ⟨2, false, false⟩ [⟨false, false, [⟨3, 1⟩, ⟨2, 5⟩]⟩] 1) t :=
  (updateThreshold_iff _ _ _ _ _ (by decide)).2 (Int.le_refl 2)

/-- The second of one counter is read. -/
theorem updateThreshold_of_one : updateThreshold ⟨2, false, false⟩ [⟨false, false, [⟨3, 1⟩]⟩] 1 100
    true ⟨0, 0, 0⟩ = none := by decide

end ThresholdRequest

end MagicLantern.Menus

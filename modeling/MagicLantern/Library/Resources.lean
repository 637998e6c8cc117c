import Mathlib.Data.List.Perm.Basic
import Mathlib.Data.List.Nodup
import Mathlib.Data.List.Range

/-!
# Resources that are created and released

Resources of one kind, such as file handles or memory blocks, are numbered in the order in which
they are created. All releases are recorded, so that one can see if a resource was released twice or
never.
-/

/-- The resources of one kind. -/
structure Resources where
  created : ℕ
  released : List ℕ

namespace Resources

open List

variable {r : Resources} {live live' : List ℕ} {n : ℕ} {x : Option ℕ}

/-- Another resource, which gets the number `r.created`. -/
def create (r : Resources) : Resources :=
  { r with created := r.created + 1 }

/-- A resource is released; to release nothing has no effect. -/
def release (r : Resources) : Option ℕ → Resources
  | some n => { r with released := n :: r.released }
  | none => r

/-- The resources in the list are in use, and all others were released exactly once. -/
def Balanced (r : Resources) (live : List ℕ) : Prop :=
  (live ++ r.released).Perm (List.range r.created)

theorem Balanced.perm (h : r.Balanced live) (hperm : live'.Perm live) : r.Balanced live' :=
  (hperm.append_right _).trans h

theorem Balanced.create (h : r.Balanced live) : r.create.Balanced (r.created :: live) := by
  rw [Balanced, Resources.create, range_succ]
  exact (h.cons r.created).trans (perm_append_singleton _ _).symm

theorem Balanced.release (h : r.Balanced (x.toList ++ live)) : (r.release x).Balanced live := by
  cases x with
  | none => exact h
  | some n => exact perm_middle.trans h

theorem Balanced.release_last (h : r.Balanced x.toList) : (r.release x).Balanced [] := by
  rw [← append_nil x.toList] at h
  exact h.release

theorem Balanced.lt_created (h : r.Balanced live) (hn : n ∈ r.released) : n < r.created :=
  mem_range.1 (h.mem_iff.1 (mem_append_right _ hn))

theorem Balanced.count_released (h : r.Balanced live) (hn : n < r.created) :
    r.released.count n = 1 ∨ r.released.count n = 0 ∧ n ∈ live := by
  have hcount : live.count n + r.released.count n = 1 := by
    rw [← count_append, h.count_eq]
    exact count_eq_one_of_mem nodup_range (mem_range.2 hn)
  by_cases hmem : n ∈ live
  · have := count_pos_iff.2 hmem
    exact .inr ⟨by omega, hmem⟩
  · rw [count_eq_zero_of_not_mem hmem] at hcount
    exact .inl (by omega)

/-- All resources that were created between two states were released exactly once, and no others. -/
def AllReleased (r r' : Resources) : Prop :=
  r'.released.Perm (List.range' r.created (r'.created - r.created) ++ r.released)

theorem AllReleased.refl (r : Resources) : r.AllReleased r := by
  rw [AllReleased, Nat.sub_self]
  exact Perm.refl _

theorem AllReleased.length_eq {r' : Resources} (h : r.AllReleased r') :
    r'.released.length = (r'.created - r.created) + r.released.length := by
  rw [Perm.length_eq h, length_append, length_range']

end Resources

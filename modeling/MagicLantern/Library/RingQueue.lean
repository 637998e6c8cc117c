import Mathlib.Tactic

/-!
# Queues in circular arrays

A queue in an array of `N` cells has its entries from the position `p` on, and goes on at the start
of the array after its end. A queue of fewer than `N` entries is determined by its two ends, and an
entry written behind it changes none of the others.
-/

namespace RingQueue

open List

variable {α : Type*} {N n k p' t : ℕ} {q : ℕ → α} {p : ℕ} {x : α} {l l' : List α}

/-- The position `n` steps after `p` in an array of `N` cells. -/
def advance (N p n : ℕ) : ℕ := (p + n) % N

@[simp] theorem advance_zero (hp : p < N) : advance N p 0 = p := Nat.mod_eq_of_lt hp

theorem advance_lt (hN : 0 < N) (p n : ℕ) : advance N p n < N := Nat.mod_lt _ hN

theorem advance_advance (N p m n : ℕ) : advance N (advance N p m) n = advance N p (m + n) := by
  rw [advance, advance, advance, Nat.mod_add_mod, Nat.add_assoc]

/-- Fewer than `N` steps lead to different positions. -/
theorem advance_inj {m : ℕ} (hm : m < N) (hn : n < N) (h : advance N p m = advance N p n) :
    m = n := by
  have hmod : m ≡ n [MOD N] := Nat.ModEq.add_left_cancel' p h
  rwa [Nat.ModEq, Nat.mod_eq_of_lt hm, Nat.mod_eq_of_lt hn] at hmod

theorem exists_advance_eq {j : ℕ} (hp : p < N) (hj : j < N) : ∃ k < N, advance N p k = j := by
  refine ⟨(j + (N - p)) % N, Nat.mod_lt _ (by omega), ?_⟩
  have hsum : p + (j + (N - p)) = j + N := by omega
  rw [advance, Nat.add_mod_mod, hsum, Nat.add_mod_right, Nat.mod_eq_of_lt hj]

/-- The array holds the entries of the list from the position `p` on. -/
def Holds (N : ℕ) (q : ℕ → α) : ℕ → List α → Prop
  | _, [] => True
  | p, x :: l => q p = x ∧ Holds N q (advance N p 1) l

@[simp] theorem holds_nil : Holds N q p [] := trivial

@[simp] theorem holds_cons : Holds N q p (x :: l) ↔ q p = x ∧ Holds N q (advance N p 1) l := Iff.rfl

theorem holds_append (hp : p < N) :
    Holds N q p (l ++ l') ↔ Holds N q p l ∧ Holds N q (advance N p l.length) l' := by
  induction l generalizing p with
  | nil => simp [advance_zero hp]
  | cons y l ih =>
    have hlt : advance N p 1 < N := advance_lt (by omega) p 1
    rw [cons_append, holds_cons, holds_cons, ih hlt, advance_advance, length_cons,
      Nat.add_comm 1, and_assoc]

theorem Holds.getElem (h : Holds N q p l) (hp : p < N) (hk : k < l.length) :
    q (advance N p k) = l[k] := by
  induction l generalizing p k with
  | nil => simp at hk
  | cons y l ih =>
    obtain ⟨hy, hl⟩ := h
    cases k with
    | zero => rw [advance_zero hp, hy, getElem_cons_zero]
    | succ k =>
      have hlt : advance N p 1 < N := advance_lt (by omega) p 1
      rw [getElem_cons_succ, ← ih hl hlt (by simpa using hk), advance_advance, Nat.add_comm]

/-- The entries between the positions `p` and `p'`. -/
def slice (N : ℕ) (q : ℕ → α) (p p' : ℕ) : List α :=
  (List.range ((p' + N - p) % N)).map fun k => q (advance N p k)

/-- The entries of a queue that is not as long as the array are those between its ends. -/
theorem Holds.slice_eq (h : Holds N q p l) (hp : p < N) (hlen : l.length < N) :
    slice N q p (advance N p l.length) = l := by
  have hcount : (advance N p l.length + N - p) % N = l.length := by
    have hmod : (advance N p l.length + N - p + p) % N = (l.length + p) % N := by
      rw [Nat.sub_add_cancel (by omega), Nat.add_mod_right, advance, Nat.mod_mod, Nat.add_comm]
    have hcancel := Nat.ModEq.add_right_cancel' p hmod
    rwa [Nat.ModEq, Nat.mod_eq_of_lt hlen] at hcancel
  rw [slice, hcount]
  refine ext_getElem (by simp) fun k hk hk' => ?_
  rw [getElem_map, getElem_range, h.getElem hp hk']

/-- What is between two positions is a queue that ends at the second one. -/
theorem holds_slice (hp : p < N) (hp' : p' < N) :
    Holds N q p (slice N q p p') ∧ advance N p (slice N q p p').length = p' := by
  have hholds (n p : ℕ) (hp : p < N) :
      Holds N q p ((range n).map fun k => q (advance N p k)) := by
    induction n with
    | zero => trivial
    | succ n ih =>
      rw [range_succ, map_append, holds_append hp]
      refine ⟨ih, ?_⟩
      simp
  refine ⟨hholds _ p hp, ?_⟩
  rw [slice, length_map, length_range, advance, Nat.add_mod_mod,
    Nat.add_sub_cancel' (by omega), Nat.add_mod_right, Nat.mod_eq_of_lt hp']

/-- A cell that is not used by the queue may be written. -/
theorem Holds.update (h : Holds N q p l) (hp : p < N) (ht : ∀ k < l.length, advance N p k ≠ t)
    (x : α) : Holds N (Function.update q t x) p l := by
  induction l generalizing p with
  | nil => trivial
  | cons y l ih =>
    obtain ⟨hy, hl⟩ := h
    have hlt : advance N p 1 < N := advance_lt (by omega) p 1
    refine ⟨?_, ih hl hlt fun k hk => ?_⟩
    · have hne := ht 0 (by simp)
      rw [advance_zero hp] at hne
      rw [Function.update_of_ne hne, hy]
    · rw [advance_advance, Nat.add_comm]
      exact ht (k + 1) (by simpa using hk)

/-- **Pushing** an entry behind a queue that does not fill the array. -/
theorem Holds.push (h : Holds N q p l) (hp : p < N) (hlen : l.length < N) (x : α) :
    Holds N (Function.update q (advance N p l.length) x) p (l ++ [x]) := by
  refine (holds_append hp).2 ⟨h.update hp (fun k hk heq => ?_) x, ?_⟩
  · exact hk.ne (advance_inj (hk.trans hlen) hlen heq)
  · simp

/-- An entry written at the end of the ring is the last one between its ends, if the ring does not
overflow. -/
theorem slice_push (hp : p < N) (hp' : p' < N) (hlen : (slice N q p p').length + 1 < N) (x : α) :
    slice N (Function.update q p' x) p (advance N p' 1) = slice N q p p' ++ [x] := by
  obtain ⟨hholds, hend⟩ := holds_slice (q := q) hp hp'
  have hpush := hholds.push hp (by omega) x
  have hslice := hpush.slice_eq hp (by simpa using hlen)
  rwa [length_append, length_singleton, ← advance_advance, hend] at hslice

/-! ### Several entries -/

theorem length_slice_lt (hN : 0 < N) (p' : ℕ) : (slice N q p p').length < N := by
  simpa [slice] using Nat.mod_lt _ hN

theorem Holds.of_getElem (hp : p < N) (h : ∀ k (hk : k < l.length), q (advance N p k) = l[k]) :
    Holds N q p l := by
  induction l generalizing p with
  | nil => trivial
  | cons x l ih =>
    have hlt : advance N p 1 < N := advance_lt (by omega) p 1
    refine ⟨?_, ih hlt fun k hk => ?_⟩
    · have hzero := h 0 (Nat.succ_pos _)
      rwa [advance_zero hp] at hzero
    · rw [advance_advance, Nat.add_comm]
      exact h (k + 1) (by simpa using hk)

/-- The first entries leave. -/
theorem slice_drop (hp : p < N) (hp' : p' < N) (hn : n ≤ (slice N q p p').length) :
    slice N q (advance N p n) p' = (slice N q p p').drop n := by
  obtain ⟨hholds, hend⟩ := holds_slice (q := q) hp hp'
  have hlt := length_slice_lt (q := q) (p := p) (show 0 < N by omega) p'
  rw [← take_append_drop n (slice N q p p'), holds_append hp, length_take,
    Nat.min_eq_left hn] at hholds
  have hdrop := hholds.2.slice_eq (advance_lt (by omega) _ _)
    ((length_drop ▸ Nat.sub_le _ _).trans_lt hlt)
  rwa [length_drop, advance_advance, Nat.add_sub_cancel' hn, hend] at hdrop

/-- The first entries, if they are not behind the end of the array. -/
theorem take_slice (hn : n ≤ (slice N q p p').length) (hfits : p + n ≤ N) :
    (slice N q p p').take n = (range n).map fun k => q (p + k) := by
  have hle : n ≤ (p' + N - p) % N := by simpa [slice] using hn
  rw [slice, ← map_take, take_range, Nat.min_eq_left hle]
  refine map_congr_left fun k hk => ?_
  have hk := mem_range.1 hk
  rw [advance, Nat.mod_eq_of_lt (by omega)]

/-- A block that is written behind a queue. -/
theorem slice_pushBlock {q' : ℕ → α} (hp : p < N) (hp' : p' < N)
    (hlen : (slice N q p p').length + l.length < N)
    (hnew : ∀ j (hj : j < l.length), q' (advance N p' j) = l[j])
    (hold : ∀ i, (∀ j < l.length, i ≠ advance N p' j) → q' i = q i) :
    slice N q' p (advance N p' l.length) = slice N q p p' ++ l := by
  obtain ⟨hholds, hend⟩ := holds_slice (q := q) hp hp'
  have hblock : Holds N q' p (slice N q p p' ++ l) := by
    refine (holds_append hp).2 ⟨Holds.of_getElem hp fun k hk => ?_, ?_⟩
    · rw [hold _ fun j hj heq => ?_, hholds.getElem hp hk]
      rw [← hend, advance_advance] at heq
      have := advance_inj (by omega) (by omega) heq
      omega
    · rw [hend]
      exact Holds.of_getElem hp' hnew
  have hslice := hblock.slice_eq hp (by simpa using hlen)
  rwa [length_append, ← advance_advance, hend] at hslice

/-! ### Ends of a stream -/

/-- Where the first `t` entries of a stream end in an array of `N` cells. An end at the end of the
array is not moved to its start; only the empty stream ends there. -/
def endPos (N t : ℕ) : ℕ := if t = 0 then 0 else (t - 1) % N + 1

theorem endPos_le (hN : 0 < N) (t : ℕ) : endPos N t ≤ N := by
  unfold endPos
  split_ifs with ht
  · exact Nat.zero_le N
  · exact Nat.mod_lt _ hN

theorem exists_rounds (N t : ℕ) :
    ∃ k, t = N * k + endPos N t ∧ (endPos N t = 0 → t = 0) := by
  unfold endPos
  split_ifs with ht
  · exact ⟨0, by omega, fun _ => ht⟩
  · refine ⟨(t - 1) / N, ?_, False.elim⟩
    have hdiv := Nat.div_add_mod (t - 1) N
    omega

theorem endPos_mod (N t : ℕ) : endPos N t % N = t % N := by
  obtain ⟨k, hk, -⟩ := exists_rounds N t
  conv_rhs => rw [hk, Nat.mul_add_mod]

/-- An end is determined by its place in the array, if it is not at the start. -/
theorem eq_endPos {x : ℕ} (ht : t = N * k + x) (hx : x ≤ N) (hpos : x = 0 → t = 0) :
    endPos N t = x := by
  unfold endPos
  split_ifs with h
  · exact (Nat.eq_zero_of_add_eq_zero_left (h ▸ ht).symm).symm
  · obtain ⟨y, rfl⟩ : ∃ y, x = y + 1 := ⟨x - 1, by have := mt hpos h; omega⟩
    rw [ht, ← Nat.add_assoc, Nat.add_sub_cancel, Nat.mul_add_mod, Nat.mod_eq_of_lt hx]

theorem endPos_compare {a b : ℕ} (hN : 0 < N) (hle : a ≤ b) (hlt : b < a + N) :
    (endPos N a ≤ endPos N b ∧ b + endPos N a = a + endPos N b) ∨
      (endPos N b < endPos N a ∧ b + endPos N a = a + N + endPos N b) := by
  obtain ⟨k, hk, hkpos⟩ := exists_rounds N a
  obtain ⟨l, hl, hlpos⟩ := exists_rounds N b
  have hx := endPos_le hN a
  have hy := endPos_le hN b
  generalize endPos N a = x at *
  -- The second end is in the same round or in the next one.
  rcases Nat.lt_trichotomy l k with hround | rfl | hround
  · obtain ⟨d, rfl⟩ := Nat.exists_eq_add_of_lt hround
    rw [Nat.mul_succ, Nat.mul_add] at hk
    have hzero : x = 0 := by omega
    have := hkpos hzero
    omega
  · omega
  · obtain ⟨d, rfl⟩ := Nat.exists_eq_add_of_lt hround
    rw [Nat.mul_succ, Nat.mul_add] at hl
    have hd : N * d = 0 := by
      by_contra hd
      have hNd : N ≤ N * d := Nat.le_mul_of_pos_right N <| Nat.pos_of_ne_zero <| by
        rintro rfl
        exact hd (Nat.mul_zero N)
      omega
    omega

theorem endPos_add (hN : 0 < N) (hn : n ≤ N) :
    endPos N (t + n) =
      if endPos N t + n ≤ N then endPos N t + n else endPos N t + n - N := by
  obtain ⟨k, hk, hpos⟩ := exists_rounds N t
  have hle := endPos_le hN t
  split_ifs with h
  · exact eq_endPos (k := k) (by omega) h (by omega)
  · refine eq_endPos (k := k + 1) ?_ (by omega) (by omega)
    rw [Nat.mul_succ]
    omega

end RingQueue

import Mathlib.Data.Int.Order.Basic
import Mathlib.Data.List.Range

/-!
# Slit-scan pictures

A slit-scan picture is put together from the live frames, one line or 7 bytes of each line for each
frame. Top to bottom, left to right and right to left, every byte of the picture is written once;
from bottom to top, the first line that is copied is the one behind the frame.

Source: `src/modules/silent/silent.c`.

## Main results

* `RawInfo.slitscan_complete_iff` — when the picture is complete.
* `RawInfo.slitscan_btt`.
-/

namespace MagicLantern.Silent

open List

/-- The geometry of a raw frame. -/
structure RawInfo where
  height : ℕ
  pitch : ℕ

/-- A `memcpy` from the live frame. -/
structure Copy where
  dst : ℤ
  src : ℤ
  size : ℕ

inductive SlitscanMode
  | scanTtb
  | scanBtt
  | scanLtr
  | scanRtl
  | centerH
  deriving DecidableEq

/-- A copy to the same position. -/
def Copy.at (offset : ℤ) (size : ℕ) : Copy := ⟨offset, offset, size⟩

namespace RawInfo

variable (g : RawInfo)

/-- `silent_pic_raw_slitscan_vsync`: what is copied, and the next value of `sp_slitscan_line`;
`none` when it stops. -/
def slitscanVsync (line : ℕ) : SlitscanMode → Option (List Copy × ℕ)
  | .scanTtb =>
    if line ≥ g.height then none else some ([.at (g.pitch * line) g.pitch], line + 1)
  | .scanBtt =>
    if line ≥ g.height then none else some ([.at (g.pitch * (g.height - line)) g.pitch], line + 1)
  | .scanLtr =>
    if line ≥ g.pitch then none
    else some ((range g.height).map fun i : ℕ => .at (i * g.pitch + line) 7, line + 7)
  | .scanRtl =>
    if line ≥ g.pitch then none
    else some ((range g.height).map fun i : ℕ => .at (i * g.pitch + (g.pitch - line - 7)) 7,
      line + 7)
  | .centerH =>
    if line ≥ g.height then none
    else some ([⟨g.pitch * (line / 2 * 2), g.pitch * (g.height / 2 / 2 * 2), g.pitch * 2⟩],
      line + 2)

/-- The copies of all calls until it stops. -/
def slitscan (mode : SlitscanMode) : ℕ → ℕ → Option (List (List Copy))
  | 0, _ => none
  | fuel + 1, line =>
    match g.slitscanVsync line mode with
    | none => some []
    | some (copies, line) => (slitscan mode fuel line).map (copies :: ·)

/-- The `j`-th byte of the `i`-th copy of call `k` is written at `b`. -/
def Writes (calls : List (List Copy)) (b : ℤ) (w : ℕ × ℕ × ℕ) : Prop :=
  ∃ copies c, calls[w.1]? = some copies ∧ copies[w.2.1]? = some c ∧ w.2.2 < c.size ∧
    c.dst + w.2.2 = b

/-- Everything is copied inside the frame and to the same position, and every byte is written once.
-/
structure Complete (calls : List (List Copy)) : Prop where
  inside : ∀ copies ∈ calls, ∀ c ∈ copies, 0 ≤ c.dst ∧ c.dst + c.size ≤ g.height * g.pitch
  same : ∀ copies ∈ calls, ∀ c ∈ copies, c.src = c.dst
  once : ∀ b : ℕ, b < g.height * g.pitch → ∃! w, Writes calls b w

variable {g} {mode : SlitscanMode} {n m l u : ℕ} {o : ℕ → ℕ → ℕ}

theorem slitscan_eq {f : ℕ → List Copy} (hstop : g.slitscanVsync (u * n) mode = none)
    (hstep : ∀ k < n, g.slitscanVsync (u * k) mode = some (f k, u * (k + 1))) {k r : ℕ}
    (hkr : k + r = n) : g.slitscan mode (r + 1) (u * k) = some ((range' k r).map f) := by
  induction r generalizing k with
  | zero =>
    obtain rfl : k = n := hkr
    rw [slitscan, hstop]
    rfl
  | succ r ih =>
    rw [slitscan, hstep k (by omega)]
    dsimp only
    rw [ih (by omega)]
    rfl

theorem writes_iff {b : ℕ} {w : ℕ × ℕ × ℕ} :
    Writes ((range' 0 n).map fun k => (range m).map fun i => .at (o k i : ℕ) l) b w ↔
      w.1 < n ∧ w.2.1 < m ∧ w.2.2 < l ∧ o w.1 w.2.1 + w.2.2 = b := by
  constructor
  · rintro ⟨copies, c, hcopies, hc, hsize, heq⟩
    rw [getElem?_map, Option.map_eq_some_iff] at hcopies
    obtain ⟨k, hk, rfl⟩ := hcopies
    rw [getElem?_map, Option.map_eq_some_iff] at hc
    obtain ⟨i, hi, rfl⟩ := hc
    obtain ⟨hlt, rfl⟩ := List.getElem?_eq_some_iff.1 hk
    obtain ⟨hlt', rfl⟩ := List.getElem?_eq_some_iff.1 hi
    simp only [Copy.at, getElem_range', getElem_range, Nat.one_mul, Nat.zero_add] at hsize heq
    exact ⟨by simpa using hlt, by simpa using hlt', hsize, by omega⟩
  · rintro ⟨hk, hi, hj, heq⟩
    exact ⟨_, _, by simp [hk]; rfl, by simp [hi]; rfl, hj, by rw [Copy.at]; dsimp only; omega⟩

/-- Calls that copy `m` pieces of the same size each. -/
theorem exists_complete (hstop : g.slitscanVsync (u * n) mode = none)
    (hstep : ∀ k < n, g.slitscanVsync (u * k) mode =
      some ((range m).map fun i => .at (o k i : ℕ) l, u * (k + 1)))
    (hinside : ∀ k < n, ∀ i < m, o k i + l ≤ g.height * g.pitch)
    (honce : ∀ b < g.height * g.pitch,
      ∃! w : ℕ × ℕ × ℕ, w.1 < n ∧ w.2.1 < m ∧ w.2.2 < l ∧ o w.1 w.2.1 + w.2.2 = b) :
    ∃ fuel calls, g.slitscan mode fuel 0 = some calls ∧ g.Complete calls := by
  refine ⟨n + 1, _, slitscan_eq (k := 0) hstop hstep (Nat.zero_add n), ⟨?_, ?_, ?_⟩⟩
  · simp only [forall_mem_map, mem_range, mem_range'_1]
    intro k hk i hi
    have := hinside k (by omega) i hi
    simp only [Copy.at]
    omega
  · simp [Copy.at]
  · intro b hb
    simpa only [writes_iff] using honce b hb

/-- Every line is copied in columns of 7 bytes, in whichever order. -/
theorem exists_complete_of_col {q : ℕ} {c : ℕ → ℕ} (hq : g.pitch = 7 * q)
    (hcol : ∀ k < q, c k < q ∧ c (c k) = k) (hstop : g.slitscanVsync (7 * q) mode = none)
    (hstep : ∀ k < q, g.slitscanVsync (7 * k) mode = some ((range g.height).map fun i =>
      .at (i * g.pitch + 7 * c k : ℕ) 7, 7 * (k + 1))) :
    ∃ fuel calls, g.slitscan mode fuel 0 = some calls ∧ g.Complete calls := by
  have hmul (i : ℕ) : i * g.pitch = 7 * (q * i) := by rw [hq, Nat.mul_left_comm, Nat.mul_comm i]
  refine exists_complete hstop hstep (fun k hk i hi => ?_) fun b hb => ?_
  · have := (hcol k hk).1
    have := Nat.mul_le_mul_right g.pitch hi
    rw [Nat.succ_mul] at this
    omega
  · rw [hmul] at hb
    have hpos : 0 < q := Nat.pos_of_ne_zero (by rintro rfl; simp at hb)
    obtain ⟨hlt, hinv⟩ := hcol _ (Nat.mod_lt (b / 7) hpos)
    have hdiv := Nat.div_add_mod (b / 7) q
    refine ⟨(c (b / 7 % q), b / 7 / q, b % 7),
      ⟨hlt, Nat.div_lt_of_lt_mul (by omega), Nat.mod_lt _ (by decide), ?_⟩, ?_⟩
    · dsimp only
      rw [hmul]
      omega
    · rintro ⟨k, i, j⟩ ⟨hk, -, hj, heq⟩
      dsimp only at hk hj heq
      rw [hmul] at heq
      obtain ⟨rfl, hk'⟩ :=
        (Nat.div_mod_unique (a := b / 7) (d := i) hpos).2 ⟨by omega, (hcol k hk).1⟩
      rw [hk', (hcol k hk).2, show j = b % 7 by omega]

/-- **Slit-scan pictures are complete** if and only if they are not taken from bottom to top. -/
theorem slitscan_complete_iff (hheight : 0 < g.height) (hpitch : 0 < g.pitch) (hseven : 7 ∣ g.pitch)
    (hmode : mode ≠ .centerH) :
    (∃ fuel calls, g.slitscan mode fuel 0 = some calls ∧ g.Complete calls) ↔ mode ≠ .scanBtt := by
  obtain ⟨q, hq⟩ := hseven
  cases mode with
  | scanTtb =>
    refine iff_of_true (exists_complete (u := 1) (n := g.height) (m := 1) (l := g.pitch)
      (o := fun k _ => g.pitch * k) ?_ (fun k hk => ?_) (fun k hk i _ => ?_) fun b hb => ?_) nofun
    · rw [slitscanVsync, if_pos (by omega)]
    · rw [slitscanVsync, if_neg (by omega)]
      rw [Nat.one_mul, Nat.one_mul, ← Int.natCast_mul]
      rfl
    · rw [← Nat.mul_succ, Nat.mul_comm g.height]
      exact Nat.mul_le_mul_left _ hk
    · refine ⟨(b / g.pitch, 0, b % g.pitch),
        ⟨Nat.div_lt_of_lt_mul (Nat.mul_comm .. ▸ hb), Nat.one_pos,
        Nat.mod_lt _ hpitch, Nat.div_add_mod ..⟩, ?_⟩
      rintro ⟨k, i, j⟩ ⟨hk, hi, hj, heq⟩
      obtain ⟨rfl, rfl⟩ := (Nat.div_mod_unique hpitch).2 ⟨(Nat.add_comm ..).trans heq, hj⟩
      exact congrArg (_, ·, _) (Nat.lt_one_iff.1 hi)
  | scanBtt =>
    refine iff_of_false ?_ (not_not.2 rfl)
    rintro ⟨fuel | fuel, calls, hrun, hcomplete⟩
    · cases hrun
    · rw [slitscan, slitscanVsync, if_neg (Nat.not_le.2 hheight)] at hrun
      obtain ⟨rest, -, rfl⟩ := Option.map_eq_some_iff.1 hrun
      have hinside := (hcomplete.inside _ mem_cons_self _ mem_cons_self).2
      simp only [Copy.at, Int.mul_comm (g.pitch : ℤ), Int.natCast_zero, Int.sub_zero] at hinside
      omega
  | scanLtr =>
    refine iff_of_true (exists_complete_of_col (c := id) hq (fun k hk => ⟨hk, rfl⟩) ?_
      fun k hk => ?_) nofun
    · rw [slitscanVsync, if_pos (by omega)]
    · rw [slitscanVsync, if_neg (by omega)]
      push_cast
      rfl
  | scanRtl =>
    refine iff_of_true (exists_complete_of_col (c := fun k => q - 1 - k)
      hq (fun k hk => by omega) ?_ fun k hk => ?_) nofun
    · rw [slitscanVsync, if_pos (by omega)]
    · have hcol : (g.pitch : ℤ) - (7 * k : ℕ) - 7 = (7 * (q - 1 - k) : ℕ) := by omega
      rw [slitscanVsync, if_neg (by omega), hcol]
      push_cast
      rfl
  | centerH => exact absurd rfl hmode

/-- Two lines of two groups of pixels. -/
theorem slitscan_complete_rtl : ∃ fuel calls,
    slitscan ⟨2, 14⟩ .scanRtl fuel 0 = some calls ∧ Complete ⟨2, 14⟩ calls :=
  (slitscan_complete_iff (by decide) (by decide) (by decide) (by decide)).2 (by decide)

/-- From bottom to top, the first line is written behind the frame. -/
theorem slitscan_btt : ∃ calls, slitscan ⟨2, 14⟩ .scanBtt 3 0 = some calls ∧
    calls.map (·.map Copy.dst) = [[28], [14]] ∧ ¬ Complete ⟨2, 14⟩ calls :=
  ⟨_, rfl, by decide, fun h => absurd (h.inside _ (.head _) _ (.head _)).2 (by decide)⟩

end RawInfo

end MagicLantern.Silent

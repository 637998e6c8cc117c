import Mathlib.Algebra.Order.BigOperators.Group.List
import Mathlib.Tactic.Ring

/-!
# Justified text

A first pass counts the units of the characters that can be stretched. While the characters are
drawn, the missing space is distributed over the units as by Bresenham's algorithm, but this second
pass takes the units of the last character for every character.

Source: `src/src/rbf_font.c`.

## Main results

* `Line.filled_iff` — when a line is filled.
* `Line.not_filled_of_space`.
-/

namespace MagicLantern.Font

open List

/-- What the drawing loop changes. -/
structure Pen where
  l : ℤ
  d : ℤ
  condensed : Bool

/-- A step from 0 to `dx`. -/
def Pen.step (space dx dy : ℤ) (p : Pen) : Pen :=
  if p.d > 0 then ⟨p.l + space.sign, p.d + (2 * dy - 2 * dx), p.condensed || space < 0⟩
  else { p with d := p.d + 2 * dy }

/-- Is the text still indented behind a character? -/
def indented (indent : Bool) (c : Char) : Bool := indent && (c == ' ' || c == '*')

/-- The units of all characters but the last. -/
def units (f : Bool → Char → ℕ) : Bool → List Char → ℕ
  | indent, c :: d :: str => f (indented indent c) c + units f (indented indent c) (d :: str)
  | _, _ => 0

/-- `rbf_str_width`, from a place in the text. -/
def rbfStrWidth (wTable : Char → ℤ) (l maxl : ℤ) : List Char → ℤ
  | [] => max l maxl
  | c :: str =>
    if c = '\n' then rbfStrWidth wTable 0 (max l maxl) str
    else rbfStrWidth wTable (l + wTable c) maxl str

/-- The widths of the characters, the length of the line, and the text. -/
structure Line where
  wTable : Char → ℤ
  maxlen : ℤ
  str : List Char

namespace Line

variable (L : Line)

def isMono : Bool := L.wTable 'm' == L.wTable 'i'

def space : ℤ := L.maxlen - rbfStrWidth L.wTable 0 0 L.str

/-- The units of a character. -/
def stretch (indent : Bool) (c : Char) : ℕ :=
  if L.isMono then 3 else if indent then 0 else if L.space < 0 then 1 else if c = ' ' then 10 else 2

def bins : ℕ := units L.stretch true L.str

def dy : ℤ := min |L.space| L.bins

/-- The steps behind a character that is drawn: `*c` is now the last one. -/
def repeats (indent : Bool) : ℕ := L.stretch indent (L.str.getLastD '\x00')

/-- The characters that are drawn, with their places, and where the last one ends. -/
def draw : Bool → Pen → List Char → List (Char × ℤ × Bool) × ℤ
  | _, p, [] => ([], p.l)
  | indent, p, c :: str =>
    if p.l + L.wTable c ≤ L.maxlen then
      let q := { p with l := p.l + L.wTable c }
      let r := draw (indented indent c) (if str = [] then q else
        (Pen.step L.space L.bins L.dy)^[L.repeats (indented indent c)] { q with condensed :=
          false }) str
      ((c, p.l, p.condensed) :: r.1, r.2)
    else ([], p.l)

/-- The justified branch of `rbf_draw_clipped_string`. -/
def drawClippedString : List (Char × ℤ × Bool) × ℤ :=
  L.draw true ⟨0, 2 * L.dy - L.bins, false⟩ L.str

/-- All characters are drawn, and the last one ends at `maxlen`. -/
def Filled : Prop := L.drawClippedString.1.map Prod.fst = L.str ∧ L.drawClippedString.2 = L.maxlen

/-- The characters behind the indentation, without the last one. -/
def stretched : List Char := L.str.dropLast.dropWhile fun c => c == ' ' || c == '*'

/-- The font is monospaced, nothing is missing, or the two passes differ by too few units to give
out another number of pixels. -/
def Even : Prop :=
  L.isMono ∨ L.space = 0 ∨
    if L.str.getLastD '\x00' = ' ' then
      8 * (L.space * (L.stretched.length - L.stretched.count ' ')) ≤
        L.stretched.length + 4 * L.stretched.count ' '
    else 8 * (L.space * L.stretched.count ' ') < L.stretched.length + 4 * L.stretched.count ' '

instance : Decidable L.Filled := inferInstanceAs (Decidable (_ ∧ _))

instance : Decidable L.Even := inferInstanceAs (Decidable (_ ∨ _))

end Line

variable {L : Line} {space dx base k : ℤ} {n : ℕ} {p : Pen} {str : List Char}

/-- The pen after `n` units, `k` of which were given a pixel. -/
structure Pen.At (space dx base : ℤ) (n : ℕ) (k : ℤ) (p : Pen) : Prop where
  l : p.l = base + k
  d : p.d = 2 * space - dx + 2 * (space * n) - 2 * (dx * k)
  le : p.d ≤ 2 * space
  lt : 0 < dx → 2 * space - 2 * dx < p.d
  zero : dx = 0 → p.l = base

/-- All of the space is given out to `n` units. -/
def GivenOut (space dx : ℤ) (n : ℕ) : Prop :=
  dx = 0 ∨ -dx < 2 * space * (n - dx) ∧ 2 * space * (n - dx) ≤ dx

namespace Pen.At

theorem add (h : At space dx base n k p) (w : ℤ) (condensed : Bool) :
    At space dx (base + w) n k ⟨p.l + w, p.d, condensed⟩ := by
  obtain ⟨hl, hd, hle, hlt, hzero⟩ := h
  constructor <;> dsimp only <;> omega

variable (h0 : 0 ≤ space) (hdx : space ≤ dx) (h : At space dx base n k p)
include h0 hdx h

theorem step : ∃ k' ≥ k, At space dx base (n + 1) k' (p.step space dx space) := by
  obtain ⟨hl, hd, hle, hlt, hzero⟩ := h
  have hn : space * (n + 1 : ℕ) = space * n + space := by push_cast; ring
  rw [Pen.step]
  split_ifs with hpos
  · have hsign : space.sign = 1 := Int.sign_eq_one_of_pos (by omega)
    have hk : dx * (k + 1) = dx * k + dx := mul_add_one ..
    exact ⟨k + 1, by omega, by constructor <;> dsimp only <;> omega⟩
  · exact ⟨k, le_rfl, by constructor <;> dsimp only <;> omega⟩

theorem iterate (m : ℕ) :
    ∃ k' ≥ k, At space dx base (n + m) k' ((Pen.step space dx space)^[m] p) := by
  induction m with
  | zero => exact ⟨k, le_rfl, h⟩
  | succ m ih =>
    obtain ⟨k₁, hk₁, h₁⟩ := ih
    obtain ⟨k₂, hk₂, h₂⟩ := h₁.step h0 hdx
    rw [Function.iterate_succ_apply']
    exact ⟨k₂, hk₁.trans hk₂, h₂⟩

theorem eq_iff : k = space ↔ GivenOut space dx n := by
  obtain ⟨hl, hd, hle, hlt, hzero⟩ := h
  rcases (h0.trans hdx).eq_or_lt with hnil | hpos
  · exact iff_of_true (by omega) (.inl hnil.symm)
  have hn : 2 * space * (n - dx) = 2 * (space * n) - 2 * (dx * space) := by ring
  have hmul {i j : ℤ} (hij : i < j) : dx * i + dx ≤ dx * j := by
    rw [← mul_add_one]
    exact Int.mul_le_mul_of_nonneg_left hij hpos.le
  rw [GivenOut]
  constructor
  · rintro rfl
    omega
  · intro hcond
    rcases lt_trichotomy k space with hk | hk | hk
    · have := hmul hk
      omega
    · exact hk
    · have := hmul hk
      omega

end Pen.At

namespace Line

theorem sum_nonneg (hw : ∀ c, 0 < L.wTable c) (str : List Char) : 0 ≤ (str.map L.wTable).sum :=
  List.sum_nonneg (forall_mem_map.2 fun c _ => (hw c).le)

theorem draw_iff (hw : ∀ c, 0 < L.wTable c) (h0 : 0 ≤ L.space) (hdx : L.space ≤ L.bins)
    (indent : Bool) (h : p.At L.space L.bins base n k)
    (hmaxlen : base + (str.map L.wTable).sum + L.space = L.maxlen) :
    ((L.draw indent p str).1.map Prod.fst = str ∧ (L.draw indent p str).2 = L.maxlen) ↔
      GivenOut L.space L.bins (n + units (fun i _ => L.repeats i) indent str) := by
  have hdy : L.dy = L.space := by rw [dy, abs_of_nonneg h0, min_eq_left hdx]
  induction str generalizing indent p n k base with
  | nil =>
    rw [map_nil, sum_nil] at hmaxlen
    rw [draw, units, Nat.add_zero, ← h.eq_iff h0 hdx, h.l, map_nil, and_iff_right rfl]
    · omega
    · simp
  | cons c str ih =>
    rw [map_cons, sum_cons] at hmaxlen
    have hl := h.l
    rw [draw, hdy]
    split_ifs with hfits hlast
    · subst hlast
      simpa [units] using ih (indented indent c) (h.add (L.wTable c) p.condensed) (by omega)
    · obtain ⟨d, str, rfl⟩ := exists_cons_of_ne_nil hlast
      obtain ⟨k', -, hk'⟩ :=
        (h.add (L.wTable c) false).iterate h0 hdx (L.repeats (indented indent c))
      simpa [units, Nat.add_assoc] using ih (indented indent c) hk' (by omega)
    · refine iff_of_false (by simp) fun hout => hfits ?_
      obtain ⟨k', hk, hat⟩ := h.iterate h0 hdx (units _ indent (c :: str))
      have hsum := sum_nonneg hw str
      have := (hat.eq_iff h0 hdx).2 hout
      omega

theorem rbfStrWidth_eq {wTable : Char → ℤ} (hline : '\n' ∉ str) (l : ℤ) :
    rbfStrWidth wTable l 0 str = max (l + (str.map wTable).sum) 0 := by
  induction str generalizing l with
  | nil => rw [rbfStrWidth, map_nil, sum_nil, add_zero]
  | cons c str ih =>
    obtain ⟨hc, hline⟩ := not_or.1 (mt mem_cons.2 hline)
    rw [rbfStrWidth, if_neg (Ne.symm hc), ih hline, map_cons, sum_cons, add_assoc]

theorem units_false (f : Bool → Char → ℕ) :
    units f false str = (str.dropLast.map (f false)).sum := by
  induction str with
  | nil => rfl
  | cons c str ih =>
    cases str with
    | nil => rfl
    | cons d str => rw [units, indented, Bool.false_and, ih, dropLast_cons_cons, map_cons, sum_cons]

theorem units_true {f : Bool → Char → ℕ} (hf : ∀ c, f true c = 0) : units f true str =
    ((str.dropLast.dropWhile fun c => c == ' ' || c == '*').map (f false)).sum := by
  induction str with
  | nil => rfl
  | cons c str ih =>
    cases str with
    | nil => rfl
    | cons d str =>
      rw [units, dropLast_cons_cons]
      cases hc : (c == ' ' || c == '*') with
      | true => simp [indented, hc, hf, ih]
      | false => simp [indented, hc, units_false]

theorem sum_map_stretch (hmono : L.isMono = false) (h0 : 0 ≤ L.space) (l : List Char) :
    (l.map (L.stretch false)).sum = 2 * l.length + 8 * l.count ' ' := by
  induction l with
  | nil => rfl
  | cons c l ih =>
    rw [map_cons, sum_cons, length_cons, count_cons, stretch]
    simp only [hmono, beq_iff_eq, Bool.false_eq_true, if_false]
    split_ifs <;> omega

/-- **Justified text fills the line** if and only if the two passes differ by few enough units. -/
theorem filled_iff (hw : ∀ c, 0 < L.wTable c) (hline : '\n' ∉ L.str)
    (hfits : rbfStrWidth L.wTable 0 0 L.str ≤ L.maxlen) (hbins : L.space ≤ L.bins) :
    L.Filled ↔ L.Even := by
  have h0 : 0 ≤ L.space := sub_nonneg.2 hfits
  have hmaxlen : 0 + (L.str.map L.wTable).sum + L.space = L.maxlen := by
    rw [space, rbfStrWidth_eq hline, zero_add, max_eq_left (sum_nonneg hw L.str)]
    omega
  have hstart : Pen.At L.space L.bins 0 0 0 ⟨0, 2 * L.dy - L.bins, false⟩ := by
    rw [dy, abs_of_nonneg h0, min_eq_left hbins]
    constructor <;> dsimp only <;> omega
  rw [Filled, drawClippedString, draw_iff hw h0 hbins _ hstart hmaxlen, Nat.zero_add, GivenOut,
    Even]
  rcases h0.eq_or_lt with hzero | hpos
  · rw [← hzero, mul_zero, zero_mul]
    exact iff_of_true (by omega) (.inr (.inl rfl))
  rw [or_iff_right (by omega), or_iff_right hpos.ne']
  cases hmono : L.isMono with
  | true =>
    have hunits : units (fun i _ => L.repeats i) true L.str = L.bins := by
      rw [bins]
      congr 1
      funext i c
      rw [repeats, stretch, stretch, hmono, if_pos rfl, if_pos rfl]
    rw [hunits, sub_self, mul_zero]
    exact iff_of_true (by omega) (.inl rfl)
  | false =>
    have hindent (c : Char) : L.stretch true c = 0 := by simp [stretch, hmono]
    have hunits : units (fun i _ => L.repeats i) true L.str =
        L.stretched.length * if L.str.getLastD '\x00' = ' ' then 10 else 2 := by
      rw [units_true (f := fun i _ => L.repeats i) fun _ => hindent _, ← stretched, map_const',
        sum_replicate, repeats, stretch]
      simp [hmono, h0.not_gt]
    have hcount : L.stretched.count ' ' ≤ L.stretched.length := count_le_length
    rw [bins, units_true hindent, ← stretched, sum_map_stretch hmono h0] at hbins ⊢
    rw [hunits, or_iff_right Bool.false_ne_true]
    generalize L.stretched.length = m, L.stretched.count ' ' = a at hbins hcount
    have hle := Int.mul_le_mul_of_nonneg_left (Int.ofNat_le.2 hcount) h0
    have hnonneg : 0 ≤ L.space * a := Int.mul_nonneg h0 (Int.natCast_nonneg _)
    split_ifs
    · have hdiff : 2 * L.space * (↑(m * 10) - ↑(2 * m + 8 * a)) =
          16 * (L.space * m) - 16 * (L.space * a) := by push_cast; ring
      rw [hdiff, mul_sub]
      omega
    · have hdiff : 2 * L.space * (↑(m * 2) - ↑(2 * m + 8 * a)) = -(16 * (L.space * a)) := by
        push_cast; ring
      rw [hdiff]
      omega

/-- A line of letters. -/
theorem filled_of_letters : Filled ⟨fun c => if c = 'i' then 2 else 4, 12, ['a', 'i', 'b']⟩ := by
  refine (filled_iff (fun c => ?_) ?_ ?_ ?_).2 ?_
  · dsimp only
    split_ifs <;> decide
  all_goals decide

/-- Behind a letter and a space only four of the twelve units are given out. -/
theorem not_filled_of_space :
    let L : Line := ⟨fun c => if c = 'i' then 2 else 4, 22, ['a', ' ', 'b']⟩
    (∀ c, 0 < L.wTable c) ∧ '\n' ∉ L.str ∧ rbfStrWidth L.wTable 0 0 L.str ≤ L.maxlen ∧
      L.space ≤ L.bins ∧ ¬ L.Filled := by
  refine ⟨fun c => ?_, by decide⟩
  dsimp only
  split_ifs <;> decide

end Line

end MagicLantern.Font

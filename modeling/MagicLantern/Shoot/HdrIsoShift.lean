import Mathlib.Data.Int.Notation
import Mathlib.Data.Nat.Notation
import Mathlib.Order.Defs.LinearOrder

/-!
# Bracketing with ISO

`hdr_iso_shift` does a part of an exposure bracket with ISO and returns the rest. The part is
limited, enlarged if the shutter would become too fast, limited again, and only then rounded to full
stops. All values are in units of 1/8 EV.

Source: `src/src/shoot.c`.

## Main results

* `Settings.shiftOk_iff` — when the request is in range.
* `Settings.hdrIsoShift_below_min`.
-/

namespace MagicLantern.Shoot

/-- The choices for `hdr_iso`. -/
inductive HdrIso
  | off
  | full
  | half
  deriving DecidableEq

/-- The part of a shift is divided by this number. -/
def HdrIso.divisor : HdrIso → ℤ
  | .half => 2
  | _ => 1

/-- The settings. -/
structure Settings where
  hdrIso : HdrIso
  htp : Bool
  rawIso : ℤ
  rawIsoAuto : ℤ
  rawShutter : ℤ
  autoIsoRange : ℕ
  /-- `FASTEST_SHUTTER_SPEED_RAW`, 160 or 152. -/
  fastestShutterSpeedRaw : ℤ

/-- What `hdr_iso_shift` leaves: the ISO to be restored, the one that is requested, if any, and the
shift that is still to be done. -/
structure IsoShift where
  hdrIso00 : ℤ
  requested : Option ℤ
  evX8 : ℤ
  deriving DecidableEq

namespace Settings

variable (c : Settings) (evX8 : ℤ)

/-- `MIN_ISO`. -/
def minIso : ℤ := if c.htp then 80 else 72

/-- `max_auto_iso`. -/
def maxAutoIso : ℤ := (c.autoIsoRange % 0x100 : ℕ)

/-- `iso0`. -/
def iso0 : ℤ := if c.rawIso = 0 then c.rawIsoAuto else c.rawIso

/-- How far ISO is to be lowered, before it is rounded. -/
def isoDelta : ℤ :=
  let isoDelta := min (c.iso0 - c.minIso) ((-evX8).tdiv c.hdrIso.divisor)
  let rc := c.rawShutter - (evX8 + isoDelta)
  if rc ≥ c.fastestShutterSpeedRaw then
    min (c.iso0 - c.minIso) (isoDelta + rc - c.fastestShutterSpeedRaw + 1)
  else isoDelta

/-- `hdr_iso_shift`. -/
def hdrIsoShift : IsoShift :=
  if c.hdrIso ≠ .off ∧ c.iso0 ≠ 0 then
    if evX8 < 0 then
      let isoDelta := (c.isoDelta evX8 + 6).tdiv 8 * 8
      ⟨c.rawIso, some (c.iso0 - isoDelta), evX8 + isoDelta⟩
    else if evX8 > 0 then
      let isoDelta := (min (c.maxAutoIso - c.iso0) (evX8.tdiv c.hdrIso.divisor)).tdiv 8 * 8
      let isoDelta := if isoDelta < 0 then 0 else isoDelta
      ⟨c.rawIso, some (c.iso0 + isoDelta), evX8 - isoDelta⟩
    else ⟨c.rawIso, none, evX8⟩
  else ⟨c.rawIso, none, evX8⟩

/-- How far ISO is changed. -/
def isoChange : ℤ := (c.hdrIsoShift evX8).requested.getD c.iso0 - c.iso0

/-- ISO stays in its range, it is not changed in the wrong direction, and what is returned is the
rest. -/
structure ShiftOk : Prop where
  range : c.minIso ≤ c.iso0 + c.isoChange evX8 ∧ c.iso0 + c.isoChange evX8 ≤ c.maxAutoIso
  direction : c.isoChange evX8 = 0 ∨ 0 < c.isoChange evX8 ∧ 0 < evX8 ∨ c.isoChange evX8 < 0 ∧
    evX8 < 0
  rest : c.isoChange evX8 + (c.hdrIsoShift evX8).evX8 = evX8

/-- The shift is not done by lowering ISO, or rounding keeps above the lowest ISO: there are whole
stops down to it, or the shift and the limit of the shutter do not need the stop that is not whole.
-/
def RoundsAbove : Prop :=
  c.hdrIso = .off ∨ 0 ≤ evX8 ∨ (c.iso0 - c.minIso) % 8 < 2 ∨
    max (-evX8 / c.hdrIso.divisor) (c.rawShutter - evX8 - c.fastestShutterSpeedRaw + 1) <
      (c.iso0 - c.minIso) / 8 * 8 + 2

variable {c evX8}

/-- The limit comes after the two wishes. -/
theorem isoDelta_eq (h : evX8 < 0) : c.isoDelta evX8 = min (c.iso0 - c.minIso)
    (max (-evX8 / c.hdrIso.divisor) (c.rawShutter - evX8 - c.fastestShutterSpeedRaw + 1)) := by
  have hdiv := Int.tdiv_eq_ediv_of_nonneg (b := c.hdrIso.divisor) (show 0 ≤ -evX8 by omega)
  simp only [isoDelta]
  split_ifs <;> omega

theorem isoChange_of_neg (hiso : c.hdrIso ≠ .off ∧ c.iso0 ≠ 0) (h : evX8 < 0) :
    c.isoChange evX8 = -((c.isoDelta evX8 + 6).tdiv 8 * 8) := by
  simp only [isoChange, hdrIsoShift, if_pos hiso, if_pos h, Option.getD_some]
  omega

theorem isoChange_of_pos (hiso : c.hdrIso ≠ .off ∧ c.iso0 ≠ 0) (h : 0 < evX8) : c.isoChange evX8 =
    max 0 ((min (c.maxAutoIso - c.iso0) (evX8.tdiv c.hdrIso.divisor)).tdiv 8 * 8) := by
  simp only [isoChange, hdrIsoShift]
  split_ifs <;> simp only [Option.getD_some] <;> omega

theorem isoChange_of_not (h : ¬ (c.hdrIso ≠ .off ∧ c.iso0 ≠ 0) ∨ evX8 = 0) :
    c.isoChange evX8 = 0 := by
  rcases h with h | rfl
  · rw [isoChange, hdrIsoShift, if_neg h]
    exact Int.sub_self _
  · simp [isoChange, hdrIsoShift]

theorem isoChange_add : c.isoChange evX8 + (c.hdrIsoShift evX8).evX8 = evX8 := by
  simp only [isoChange, hdrIsoShift]
  split_ifs <;> simp only [Option.getD_some, Option.getD_none] <;> omega

/-- **A part of the bracket is done with ISO**, within its range and exactly, if and only if
rounding keeps above the lowest ISO. -/
theorem shiftOk_iff (hmin : c.minIso ≤ c.iso0) (hmax : c.iso0 ≤ c.maxAutoIso) :
    c.ShiftOk evX8 ↔ c.RoundsAbove evX8 := by
  have hpos : 0 < c.minIso := by
    rw [minIso]
    split_ifs <;> decide
  have hiff : c.ShiftOk evX8 ↔ _ :=
    ⟨fun h => And.intro h.range h.direction, fun h => ⟨h.1, h.2, isoChange_add⟩⟩
  have hdivisor : c.hdrIso.divisor = 1 ∨ c.hdrIso.divisor = 2 := by
    cases c.hdrIso <;> simp [HdrIso.divisor]
  rw [hiff, RoundsAbove]
  by_cases hoff : c.hdrIso = .off
  · rw [isoChange_of_not (.inl fun h => h.1 hoff)]
    exact iff_of_true ⟨by omega, .inl rfl⟩ (.inl hoff)
  have hiso : c.hdrIso ≠ .off ∧ c.iso0 ≠ 0 := ⟨hoff, by omega⟩
  rw [or_iff_right hoff]
  rcases Int.lt_trichotomy evX8 0 with hneg | rfl | hup
  · -- ISO is lowered, and only the rounding can go too far
    have hneg' : 0 ≤ -evX8 / c.hdrIso.divisor := by rcases hdivisor with h | h <;> rw [h] <;> omega
    rw [isoChange_of_neg hiso hneg, isoDelta_eq hneg, Int.tdiv_eq_ediv_of_nonneg (by omega)]
    omega
  · rw [isoChange_of_not (.inr rfl)]
    exact iff_of_true ⟨by omega, .inl rfl⟩ (.inl (Int.le_refl 0))
  · -- ISO is raised, and the rounding is downwards
    have hup' : 0 ≤ evX8 / c.hdrIso.divisor := by rcases hdivisor with h | h <;> rw [h] <;> omega
    rw [isoChange_of_pos hiso hup, Int.tdiv_eq_ediv_of_nonneg (Int.le_of_lt hup),
      Int.tdiv_eq_ediv_of_nonneg (by omega)]
    omega

/-- From ISO 200 a shift down by two stops is done with ISO by one stop. -/
theorem shiftOk_two_stops : ShiftOk ⟨.half, false, 80, 0, 104, 0x4868, 160⟩ (-16) :=
  (shiftOk_iff (by decide) (by decide)).2 (.inr (.inr (.inl (by decide))))

/-- From ISO 125 a shift down by one stop requests an ISO below 100. -/
theorem hdrIsoShift_below_min : ¬ ShiftOk ⟨.full, false, 75, 0, 104, 0x4868, 160⟩ (-8) ∧
    hdrIsoShift ⟨.full, false, 75, 0, 104, 0x4868, 160⟩ (-8) = ⟨75, some 67, 0⟩ :=
  ⟨fun h => absurd h.range.1 (by decide), by decide⟩

end Settings

end MagicLantern.Shoot

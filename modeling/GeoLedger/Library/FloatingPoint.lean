import Mathlib
import GeoLedger.Library.Grid

/-! Numbers with a bounded number of digits. A format keeps a significand of `precision` digits in
its base, so the grid that a number is rounded to depends on the size of the number; results are
rounded to the nearest such number, and a tie to the one with the even significand. Overflow, which
the formats in use turn into an exception or an infinity, is not among the numbers here. -/
namespace FloatingPoint

/-- A format. The least exponent that a last digit can have is `none` where it is out of reach. -/
structure Format where
  base : ℕ
  precision : ℕ
  minExponent : Option ℤ
  one_lt_base : 1 < base
  precision_pos : 0 < precision

namespace Format

variable (F : Format) {x y : ℚ} {e : ℤ}

/-- The exponent of the last digit that the format has room for. -/
def unitExponent (x : ℚ) : ℤ :=
  let last := Int.log F.base |x| + 1 - F.precision
  match F.minExponent with
  | none => last
  | some least => max least last

/-- Round to the nearest number of the format, ties to the even significand. -/
def round (x : ℚ) : ℚ := Grid.roundHalfEven ((F.base : ℚ) ^ F.unitExponent x) x

theorem base_pos : (0 : ℚ) < F.base := by
  have := F.one_lt_base
  exact_mod_cast (by omega : 0 < F.base)

theorem unit_pos (e : ℤ) : (0 : ℚ) < (F.base : ℚ) ^ e := zpow_pos F.base_pos e

@[simp] theorem round_zero : F.round 0 = 0 := Grid.roundHalfEven_zero _

theorem round_nonneg (h : 0 ≤ x) : 0 ≤ F.round x := Grid.roundHalfEven_nonneg (F.unit_pos _) h

/-- Only a positive number is rounded to a positive one. -/
theorem pos_of_round_pos (h : 0 < F.round x) : 0 < x := by
  by_contra hNot
  exact absurd (Grid.roundHalfEven_nonpos (F.unit_pos _) (not_lt.mp hNot)) (not_le.mpr h)

/-- The multiples of a power of the base are among those of a smaller power. -/
theorem multiples_mono {e₁ e₂ : ℤ} (h : e₁ ≤ e₂) :
    Grid.multiples ((F.base : ℚ) ^ e₂) ≤ Grid.multiples ((F.base : ℚ) ^ e₁) := by
  intro x hx
  obtain ⟨n, rfl⟩ := Grid.mem_multiples_iff.mp hx
  obtain ⟨k, rfl⟩ := Int.le.dest h
  refine Grid.mem_multiples_iff.mpr ⟨n * F.base ^ k, ?_⟩
  rw [zpow_add₀ F.base_pos.ne', zpow_natCast]
  push_cast
  ring

/-- Rounding adds no digits behind the last one of a number. -/
theorem round_mem_multiples (h : x ∈ Grid.multiples ((F.base : ℚ) ^ e)) :
    F.round x ∈ Grid.multiples ((F.base : ℚ) ^ e) := by
  rcases le_total (F.unitExponent x) e with hFine | hCoarse
  · rw [round, Grid.roundHalfEven_of_mem (F.unit_pos _) (F.multiples_mono hFine h)]
    exact h
  · exact F.multiples_mono hCoarse (Grid.roundHalfEven_mem _ _)

/-- The digits that the format has room for reach above the number. -/
theorem abs_lt_zpow_unitExponent (x : ℚ) : |x| < (F.base : ℚ) ^ (F.unitExponent x + F.precision) := by
  rcases eq_or_ne x 0 with rfl | hNe
  · rw [abs_zero]
    exact F.unit_pos _
  · refine (Int.lt_zpow_iff_log_lt F.one_lt_base (abs_pos.mpr hNe)).mpr ?_
    unfold unitExponent
    cases F.minExponent with
    | none => simp only; omega
    | some least => simp only; omega

/-- The number has no digit behind the exponent, and no more digits than the format keeps. -/
structure Fits (e : ℤ) (x : ℚ) : Prop where
  reach : ∀ least ∈ F.minExponent, least ≤ e
  mem : x ∈ Grid.multiples ((F.base : ℚ) ^ e)
  size : |x| < (F.base : ℚ) ^ (e + F.precision)

variable {F}

/-- A number that fits is not rounded: its digits reach down to the last one that is kept. -/
theorem Fits.round_eq (h : F.Fits e x) : F.round x = x := by
  rcases eq_or_ne x 0 with rfl | hNe
  · exact F.round_zero
  · have hLog := (Int.lt_zpow_iff_log_lt F.one_lt_base (abs_pos.mpr hNe)).mp h.size
    have hUnit : F.unitExponent x ≤ e := by
      unfold unitExponent
      cases hMin : F.minExponent with
      | none => simp only; omega
      | some least => exact max_le (h.reach least hMin) (by omega)
    exact Grid.roundHalfEven_of_mem (F.unit_pos _) (F.multiples_mono hUnit h.mem)

/-- What lies on the same grid and is no larger fits as well. -/
theorem Fits.of_abs_le (h : F.Fits e x) (hMem : y ∈ Grid.multiples ((F.base : ℚ) ^ e)) (hLe : |y| ≤ |x|) :
    F.Fits e y :=
  ⟨h.reach, hMem, hLe.trans_lt h.size⟩

/-- Rounding lands on a number of the format. When it carries into one more digit, the result is a
power of the base. -/
theorem round_round (F : Format) (x : ℚ) : F.round (F.round x) = F.round x := by
  have hMem : F.round x ∈ Grid.multiples ((F.base : ℚ) ^ F.unitExponent x) := Grid.roundHalfEven_mem _ _
  have hReach : ∀ least ∈ F.minExponent, least ≤ F.unitExponent x := by
    intro least hLeast
    rw [Option.mem_def] at hLeast
    simp only [unitExponent, hLeast]
    exact le_max_left _ _
  have hPower : (F.base : ℚ) ^ (F.unitExponent x + F.precision) ∈
      Grid.multiples ((F.base : ℚ) ^ (F.unitExponent x + F.precision)) := Grid.mem_multiples_iff.mpr ⟨1, by simp⟩
  have hTop : (F.base : ℚ) ^ (F.unitExponent x + F.precision) ∈ Grid.multiples ((F.base : ℚ) ^ F.unitExponent x) :=
    F.multiples_mono (by omega) hPower
  obtain ⟨hBelow, hAbove⟩ := abs_lt.mp (F.abs_lt_zpow_unitExponent x)
  have hSize : |F.round x| ≤ (F.base : ℚ) ^ (F.unitExponent x + F.precision) :=
    abs_le.mpr ⟨Grid.le_roundHalfEven (F.unit_pos _) (AddSubgroup.neg_mem _ hTop) hBelow.le,
      Grid.roundHalfEven_le (F.unit_pos _) hTop hAbove.le⟩
  rcases hSize.lt_or_eq with hLess | hCarry
  · exact Fits.round_eq ⟨hReach, hMem, hLess⟩
  · have hCoarse : (F.base : ℚ) ^ (F.unitExponent x + F.precision) ∈
        Grid.multiples ((F.base : ℚ) ^ (F.unitExponent x + 1)) :=
      F.multiples_mono (by have := F.precision_pos; omega) hPower
    refine Fits.round_eq (e := F.unitExponent x + 1) ⟨fun least hLeast => (hReach least hLeast).trans (by omega), ?_, ?_⟩
    · rcases (abs_eq (F.unit_pos _).le).mp hCarry with hPos | hNeg
      · rw [hPos]
        exact hCoarse
      · rw [hNeg]
        exact AddSubgroup.neg_mem _ hCoarse
    · rw [hCarry]
      have hBase : (1 : ℚ) < F.base := by exact_mod_cast F.one_lt_base
      exact zpow_lt_zpow_right₀ hBase (by omega)

/-- A power of the base keeps its one digit. -/
theorem round_zpow (hReach : ∀ least ∈ F.minExponent, least ≤ e) : F.round ((F.base : ℚ) ^ e) = (F.base : ℚ) ^ e := by
  refine Fits.round_eq ⟨hReach, Grid.mem_multiples_iff.mpr ⟨1, by simp⟩, ?_⟩
  rw [abs_of_pos (F.unit_pos e)]
  have hBase : (1 : ℚ) < F.base := by exact_mod_cast F.one_lt_base
  have := F.precision_pos
  exact zpow_lt_zpow_right₀ hBase (by omega)

/-- Rounding does not take a number below a power of the base: the power that the number's first digit
counts is among the numbers it is rounded to. -/
theorem zpow_le_round (hReach : ∀ least ∈ F.minExponent, least ≤ e) (h : (F.base : ℚ) ^ e ≤ x) :
    (F.base : ℚ) ^ e ≤ F.round x := by
  have hPos : 0 < x := (F.unit_pos e).trans_le h
  have hLog : e ≤ Int.log F.base x := (Int.zpow_le_iff_le_log F.one_lt_base hPos).mp h
  have hUnit : F.unitExponent x ≤ Int.log F.base x := by
    have := F.precision_pos
    unfold unitExponent
    rw [abs_of_pos hPos]
    cases hMin : F.minExponent with
    | none => simp only; omega
    | some least => exact max_le ((hReach least hMin).trans hLog) (by omega)
  have hPower : (F.base : ℚ) ^ Int.log F.base x ∈ Grid.multiples ((F.base : ℚ) ^ Int.log F.base x) :=
    Grid.mem_multiples_iff.mpr ⟨1, by simp⟩
  calc (F.base : ℚ) ^ e ≤ (F.base : ℚ) ^ Int.log F.base x :=
        zpow_le_zpow_right₀ (by exact_mod_cast F.one_lt_base.le) hLog
    _ ≤ F.round x :=
        Grid.le_roundHalfEven (F.unit_pos _) (F.multiples_mono hUnit hPower) (Int.zpow_log_le_self F.one_lt_base hPos)

end Format

end FloatingPoint

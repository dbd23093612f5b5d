import Mathlib
import GeoLedger.Library.FloatingPoint

/-! The binary64 format with its infinities and NaN, as far as comparisons, differences and
quotients go. A result is the exact one rounded once, and an infinity when that leaves the range.
Comparisons with NaN fail. The sign of a zero is left out, since no comparison sees it. -/
namespace FloatingPoint

/-- 53 binary digits, down to `2 ^ -1074`. -/
def binary64 : Format where
  base := 2
  precision := 53
  minExponent := some (-1074)
  one_lt_base := by decide
  precision_pos := by decide

/-- A float. A finite one is stored as it is, within the range. -/
inductive Binary64 where
  | finite (x : ℚ) (stored : binary64.round x = x ∧ |x| < 2 ^ 1024)
  | infinity (negative : Bool)
  | nan
deriving DecidableEq

namespace Binary64

/-- The float nearest to a number. -/
def ofRat (x : ℚ) : Binary64 :=
  if h : |binary64.round x| < 2 ^ 1024 then .finite (binary64.round x) ⟨binary64.round_round x, h⟩
  else .infinity (x < 0)

def less : Binary64 → Binary64 → Bool
  | .nan, _ => false
  | _, .nan => false
  | .finite x _, .finite y _ => x < y
  | .infinity negative, .finite _ _ => negative
  | .finite _ _, .infinity negative => !negative
  | .infinity negative, .infinity negative' => negative && !negative'

def lessEqual : Binary64 → Binary64 → Bool
  | .nan, _ => false
  | _, .nan => false
  | .finite x _, .finite y _ => x ≤ y
  | .infinity negative, .finite _ _ => negative
  | .finite _ _, .infinity negative => !negative
  | .infinity negative, .infinity negative' => negative || !negative'

instance : LT Binary64 := ⟨fun x y => less x y = true⟩

instance : LE Binary64 := ⟨fun x y => lessEqual x y = true⟩

instance (x y : Binary64) : Decidable (x < y) := inferInstanceAs (Decidable (less x y = true))

instance (x y : Binary64) : Decidable (x ≤ y) := inferInstanceAs (Decidable (lessEqual x y = true))

/-- `x - y`. -/
def sub : Binary64 → Binary64 → Binary64
  | .nan, _ => .nan
  | _, .nan => .nan
  | .finite x _, .finite y _ => ofRat (x - y)
  | .infinity negative, .finite _ _ => .infinity negative
  | .finite _ _, .infinity negative => .infinity (!negative)
  | .infinity negative, .infinity negative' => if negative = negative' then .nan else .infinity negative

/-- `x / y`, where `y` is not zero. -/
def div : Binary64 → Binary64 → Binary64
  | .nan, _ => .nan
  | _, .nan => .nan
  | .finite x _, .finite y _ => ofRat (x / y)
  | .infinity negative, .finite y _ => .infinity (negative ^^ decide (y < 0))
  | .finite _ _, .infinity _ => ofRat 0
  | .infinity _, .infinity _ => .nan

variable {x y v : Binary64}

theorem lt_of_le_of_lt (h : v ≤ x) (h' : x < y) : v < y := by
  change lessEqual v x = true at h
  change less x y = true at h'
  change less v y = true
  cases v <;> cases x <;> cases y <;> simp_all [less, lessEqual]
  exact lt_of_le_of_lt h h'

/-- Where no float of a kind lies between two, such floats are below the larger one when they are at most
the smaller one. -/
theorem lt_iff_le_of_gap (hLess : x < y) (hGap : ¬(x < v ∧ v < y)) : v < y ↔ v ≤ x := by
  refine ⟨fun hBelow => ?_, fun h => lt_of_le_of_lt h hLess⟩
  have hNot : ¬x < v := fun hAbove => hGap ⟨hAbove, hBelow⟩
  change less x y = true at hLess
  change less v y = true at hBelow
  change ¬less x v = true at hNot
  change lessEqual v x = true
  cases v <;> cases x <;> cases y <;> simp_all [less, lessEqual]

end Binary64

end FloatingPoint

import Mathlib

/-! Truncation towards zero, and lists of numbers that are truncated before or
after they are added up. The two orders agree exactly when what is cut off adds
up to less than one. -/
namespace Truncation

variable {α : Type*} [Field α] [LinearOrder α] [IsStrictOrderedRing α] [FloorRing α]

/-- The integer part, towards zero. -/
def truncate (x : α) : ℤ := if x < 0 then -⌊-x⌋ else ⌊x⌋

omit [IsStrictOrderedRing α] in
theorem truncate_of_nonneg {x : α} (h : 0 ≤ x) : truncate x = ⌊x⌋ := if_neg (not_lt.mpr h)

omit [IsStrictOrderedRing α] in
/-- Integer parts and what is cut off add up to the sum. -/
theorem sum_floor_add_sum_fract (xs : List α) :
    ((xs.map Int.floor).sum : α) + (xs.map Int.fract).sum = xs.sum := by
  induction xs with
  | nil => simp
  | cons x rest ih =>
      simp only [List.map_cons, List.sum_cons, Int.cast_add]
      rw [← ih]
      nth_rewrite 3 [← Int.floor_add_fract x]
      ring

/-- An integer with less than one added to it or taken from it is cut back to the
integer unless the change works against its sign. -/
theorem truncate_intCast_add_eq_iff_of_small {n : ℤ} {r : α} (hAbove : r < 1) (hBelow : -1 < r) :
    truncate ((n : α) + r) = n ↔ (0 < n → 0 ≤ r) ∧ (n < 0 → r ≤ 0) := by
  rcases lt_trichotomy n 0 with hNeg | rfl | hPos
  · have hCast : (n : α) ≤ -1 := by exact_mod_cast (by omega : n ≤ -1)
    have hSign : (n : α) + r < 0 := by linarith
    have hFloor : ⌊-r⌋ = 0 ↔ r ≤ 0 := by
      rw [Int.floor_eq_zero_iff, Set.mem_Ico]
      constructor
      · exact fun h => by linarith [h.1]
      · exact fun h => ⟨by linarith, by linarith⟩
    rw [truncate, if_pos hSign, neg_add, ← Int.cast_neg, Int.floor_intCast_add]
    constructor
    · intro h
      exact ⟨fun hPos => absurd hPos (by omega), fun _ => hFloor.mp (by omega)⟩
    · rintro ⟨_, hSide⟩
      rw [hFloor.mpr (hSide hNeg)]
      omega
  · refine iff_of_true ?_ ⟨fun h => absurd h (lt_irrefl 0), fun h => absurd h (lt_irrefl 0)⟩
    rw [Int.cast_zero, zero_add, truncate]
    split
    · rw [neg_eq_zero, Int.floor_eq_zero_iff, Set.mem_Ico]
      constructor <;> linarith
    · rw [Int.floor_eq_zero_iff, Set.mem_Ico]
      constructor <;> linarith
  · have hCast : (1 : α) ≤ n := by exact_mod_cast (by omega : 1 ≤ n)
    have hSign : ¬(n : α) + r < 0 := by linarith
    have hFloor : ⌊r⌋ = 0 ↔ 0 ≤ r := by
      rw [Int.floor_eq_zero_iff, Set.mem_Ico, and_iff_left hAbove]
    rw [truncate, if_neg hSign, Int.floor_intCast_add]
    constructor
    · intro h
      exact ⟨fun _ => hFloor.mp (by omega), fun hNeg => absurd hNeg (by omega)⟩
    · rintro ⟨hSide, _⟩
      rw [hFloor.mpr (hSide hPos), add_zero]

omit [IsStrictOrderedRing α] in
theorem abs_sub_truncate_lt_one [IsOrderedRing α] (x : α) : |x - truncate x| < 1 := by
  unfold truncate
  split
  · rw [Int.cast_neg, sub_neg_eq_add, add_comm, ← sub_neg_eq_add, abs_sub_comm, abs_lt]
    constructor
    · linarith [Int.floor_le (-x)]
    · linarith [Int.lt_floor_add_one (-x)]
  · rw [abs_lt]
    constructor
    · linarith [Int.floor_le x]
    · linarith [Int.lt_floor_add_one x]

/-- An integer is what truncation leaves of it and another number exactly when
the other number is less than one and does not work against its sign. -/
theorem truncate_intCast_add_eq_iff {n : ℤ} {r : α} :
    truncate ((n : α) + r) = n ↔ |r| < 1 ∧ (0 < n → 0 ≤ r) ∧ (n < 0 → r ≤ 0) := by
  constructor
  · intro h
    have hSmall := abs_sub_truncate_lt_one ((n : α) + r)
    rw [h, add_sub_cancel_left] at hSmall
    obtain ⟨hBelow, hAbove⟩ := abs_lt.mp hSmall
    exact ⟨hSmall, (truncate_intCast_add_eq_iff_of_small hAbove hBelow).mp h⟩
  · rintro ⟨hSmall, hSign⟩
    obtain ⟨hBelow, hAbove⟩ := abs_lt.mp hSmall
    exact (truncate_intCast_add_eq_iff_of_small hAbove hBelow).mpr hSign

end Truncation

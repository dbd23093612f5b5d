import Mathlib

/-! Decimal grids and rounding half away from zero. A grid is the set of
integer multiples of a positive quantum; rounding maps every rational to a
nearest grid point, and the two candidates of a tie to the one further from zero. -/
namespace Grid

/-- The integer multiples of the quantum. -/
def multiples (quantum : ℚ) : AddSubgroup ℚ := AddSubgroup.zmultiples quantum

theorem mem_multiples_iff {quantum x : ℚ} : x ∈ multiples quantum ↔ ∃ n : ℤ, (n : ℚ) * quantum = x := by
  simp [multiples, AddSubgroup.mem_zmultiples_iff]

/-- Membership is decided by the denominator of the quotient. -/
theorem mem_multiples_iff_den {quantum x : ℚ} (hq : 0 < quantum) :
    x ∈ multiples quantum ↔ (x / quantum).den = 1 := by
  rw [mem_multiples_iff]
  constructor
  · rintro ⟨n, rfl⟩
    rw [mul_div_cancel_right₀ _ hq.ne']
    exact Rat.den_intCast n
  · intro h
    refine ⟨(x / quantum).num, ?_⟩
    rw [Rat.coe_int_num_of_den_eq_one h, div_mul_cancel₀ _ hq.ne']

/-- Round to the grid, ties away from zero. -/
def roundHalfAway (quantum x : ℚ) : ℚ :=
  if 0 ≤ x then ⌊x / quantum + 1 / 2⌋ * quantum else -(⌊-x / quantum + 1 / 2⌋ * quantum)

variable {quantum x y : ℚ}

theorem roundHalfAway_mem (quantum x : ℚ) : roundHalfAway quantum x ∈ multiples quantum := by
  rw [mem_multiples_iff]
  unfold roundHalfAway
  split
  · exact ⟨_, rfl⟩
  · exact ⟨-⌊-x / quantum + 1 / 2⌋, by push_cast; ring⟩

theorem roundHalfAway_zero (quantum : ℚ) : roundHalfAway quantum 0 = 0 := by
  have h : ⌊(1 / 2 : ℚ)⌋ = 0 := by norm_num
  simp only [roundHalfAway, le_refl, if_true, zero_div, zero_add, h, Int.cast_zero, zero_mul]

theorem roundHalfAway_neg (quantum x : ℚ) : roundHalfAway quantum (-x) = -roundHalfAway quantum x := by
  rcases lt_trichotomy x 0 with hx | rfl | hx
  · simp [roundHalfAway, hx.le, not_le.mpr hx]
  · simp [roundHalfAway_zero]
  · simp [roundHalfAway, hx.le, not_le.mpr hx]

/-- Grid points are fixed. -/
theorem roundHalfAway_of_mem (hq : 0 < quantum) (hx : x ∈ multiples quantum) :
    roundHalfAway quantum x = x := by
  have hFloor (n : ℤ) : ⌊(n : ℚ) + 1 / 2⌋ = n := by
    rw [Int.floor_intCast_add]
    norm_num
  obtain ⟨n, rfl⟩ := mem_multiples_iff.mp hx
  unfold roundHalfAway
  split
  · rw [mul_div_cancel_right₀ _ hq.ne', hFloor]
  · have hNeg : -((n : ℚ) * quantum) / quantum = ((-n : ℤ) : ℚ) := by
      rw [← neg_mul, mul_div_cancel_right₀ _ hq.ne']
      push_cast
      rfl
    rw [hNeg, hFloor]
    push_cast
    ring

theorem roundHalfAway_mono (hq : 0 < quantum) (h : x ≤ y) :
    roundHalfAway quantum x ≤ roundHalfAway quantum y := by
  refine monotone_of_odd_of_monotoneOn_nonneg (roundHalfAway_neg quantum) (fun a ha b hb hab => ?_) h
  rw [roundHalfAway, if_pos (Set.mem_Ici.mp ha), roundHalfAway, if_pos (Set.mem_Ici.mp hb)]
  have hFloor : ⌊a / quantum + 1 / 2⌋ ≤ ⌊b / quantum + 1 / 2⌋ := by
    apply Int.floor_le_floor
    have := div_le_div_of_nonneg_right hab hq.le
    linarith
  exact mul_le_mul_of_nonneg_right (by exact_mod_cast hFloor) hq.le

/-- Round to the grid toward zero. -/
def roundDown (quantum x : ℚ) : ℚ := if 0 ≤ x then ⌊x / quantum⌋ * quantum else -(⌊-x / quantum⌋ * quantum)

/-- Round to the grid away from zero. -/
def roundUp (quantum x : ℚ) : ℚ := if 0 ≤ x then ⌈x / quantum⌉ * quantum else -(⌈-x / quantum⌉ * quantum)

theorem roundUp_mem (quantum x : ℚ) : roundUp quantum x ∈ multiples quantum := by
  rw [mem_multiples_iff]
  unfold roundUp
  split
  · exact ⟨_, rfl⟩
  · exact ⟨-⌈-x / quantum⌉, by push_cast; ring⟩

theorem roundDown_mem (quantum x : ℚ) : roundDown quantum x ∈ multiples quantum := by
  unfold roundDown
  split
  · exact mem_multiples_iff.mpr ⟨⌊x / quantum⌋, rfl⟩
  · exact mem_multiples_iff.mpr ⟨-⌊-x / quantum⌋, by push_cast; ring⟩

theorem roundDown_neg (quantum x : ℚ) : roundDown quantum (-x) = -roundDown quantum x := by
  rcases lt_trichotomy x 0 with hx | rfl | hx
  · simp [roundDown, hx.le, not_le.mpr hx]
  · simp [roundDown]
  · simp [roundDown, hx.le, not_le.mpr hx]

theorem roundDown_mono (hq : 0 < quantum) : Monotone (roundDown quantum) := by
  refine monotone_of_odd_of_monotoneOn_nonneg (roundDown_neg quantum) fun a ha b hb hab => ?_
  rw [roundDown, if_pos (Set.mem_Ici.mp ha), roundDown, if_pos (Set.mem_Ici.mp hb)]
  have hFloor : ⌊a / quantum⌋ ≤ ⌊b / quantum⌋ := Int.floor_le_floor (div_le_div_of_nonneg_right hab hq.le)
  exact mul_le_mul_of_nonneg_right (by exact_mod_cast hFloor) hq.le

theorem roundDown_of_mem (hq : 0 < quantum) (hx : x ∈ multiples quantum) : roundDown quantum x = x := by
  obtain ⟨n, rfl⟩ := mem_multiples_iff.mp hx
  unfold roundDown
  split
  · rw [mul_div_cancel_right₀ _ hq.ne', Int.floor_intCast]
  · have hNeg : -((n : ℚ) * quantum) / quantum = ((-n : ℤ) : ℚ) := by
      rw [← neg_mul, mul_div_cancel_right₀ _ hq.ne']
      push_cast
      rfl
    rw [hNeg, Int.floor_intCast]
    push_cast
    ring

/-- Round to the grid, ties to the even multiple. -/
def roundHalfEven (quantum x : ℚ) : ℚ :=
  let n := ⌊x / quantum⌋
  let rest := x / quantum - n
  if rest < 1 / 2 ∨ (rest = 1 / 2 ∧ n % 2 = 0) then n * quantum else (n + 1) * quantum

theorem roundHalfEven_zero (quantum : ℚ) : roundHalfEven quantum 0 = 0 := by
  simp [roundHalfEven]

theorem roundHalfEven_mem (quantum x : ℚ) : roundHalfEven quantum x ∈ multiples quantum := by
  rw [mem_multiples_iff, roundHalfEven]
  split
  · exact ⟨_, rfl⟩
  · exact ⟨⌊x / quantum⌋ + 1, by push_cast; rfl⟩

theorem roundHalfEven_of_mem (hq : 0 < quantum) (hx : x ∈ multiples quantum) : roundHalfEven quantum x = x := by
  obtain ⟨n, rfl⟩ := mem_multiples_iff.mp hx
  have hQuotient : (n : ℚ) * quantum / quantum = n := mul_div_cancel_right₀ _ hq.ne'
  rw [roundHalfEven, hQuotient, Int.floor_intCast, sub_self]
  exact if_pos (Or.inl (by norm_num))

/-- What lies below a multiple is rounded to no more than that. -/
theorem roundHalfEven_le (hq : 0 < quantum) (hy : y ∈ multiples quantum) (h : x ≤ y) :
    roundHalfEven quantum x ≤ y := by
  obtain ⟨m, rfl⟩ := mem_multiples_iff.mp hy
  have hQuotient : x / quantum ≤ m := (div_le_iff₀ hq).mpr h
  have hFloor : ⌊x / quantum⌋ ≤ m := by exact_mod_cast (Int.floor_le _).trans hQuotient
  rw [roundHalfEven]
  split
  · exact mul_le_mul_of_nonneg_right (by exact_mod_cast hFloor) hq.le
  · next hUp =>
    -- Half a quantum or more is missing, so the floor is not the multiple itself.
    rw [not_or, not_lt] at hUp
    have hBelow : ⌊x / quantum⌋ < m := by
      have hLess : ((⌊x / quantum⌋ : ℤ) : ℚ) < m := by linarith [hUp.1]
      exact_mod_cast hLess
    exact mul_le_mul_of_nonneg_right (by exact_mod_cast hBelow) hq.le

/-- What lies above a multiple is rounded to no less than that. -/
theorem le_roundHalfEven (hq : 0 < quantum) (hy : y ∈ multiples quantum) (h : y ≤ x) :
    y ≤ roundHalfEven quantum x := by
  obtain ⟨m, rfl⟩ := mem_multiples_iff.mp hy
  have hFloor : m ≤ ⌊x / quantum⌋ := Int.le_floor.mpr ((le_div_iff₀ hq).mpr h)
  have hCast : (m : ℚ) ≤ ⌊x / quantum⌋ := by exact_mod_cast hFloor
  rw [roundHalfEven]
  split
  · exact mul_le_mul_of_nonneg_right hCast hq.le
  · exact mul_le_mul_of_nonneg_right (by linarith) hq.le

theorem roundHalfEven_nonneg (hq : 0 < quantum) (hx : 0 ≤ x) : 0 ≤ roundHalfEven quantum x :=
  le_roundHalfEven hq (multiples quantum).zero_mem hx

theorem roundHalfEven_nonpos (hq : 0 < quantum) (hx : x ≤ 0) : roundHalfEven quantum x ≤ 0 :=
  roundHalfEven_le hq (multiples quantum).zero_mem hx

/-- A positive multiple is at least the quantum. -/
theorem le_of_mem_multiples (hq : 0 < quantum) (hx : x ∈ multiples quantum) (hPos : 0 < x) : quantum ≤ x := by
  obtain ⟨n, rfl⟩ := mem_multiples_iff.mp hx
  have hn : (0 : ℚ) < n := pos_of_mul_pos_left hPos hq.le
  have hOne : (1 : ℚ) ≤ n := by
    have hInt : 0 < n := by exact_mod_cast hn
    exact_mod_cast hInt
  calc quantum = 1 * quantum := (one_mul _).symm
    _ ≤ n * quantum := mul_le_mul_of_nonneg_right hOne hq.le

end Grid

import Mathlib

/-! Decimal numerals as texts: an optional minus, digits, and possibly a point and
digits. A numeral denotes a rational, and every integer over a power of ten has a
numeral with that many digits after the point. -/
namespace DecimalNumerals

/-- A numeral; without digits after the point there is no point. -/
structure Numeral where
  negative : Bool
  whole : List Char
  fraction : List Char
  whole_ne : whole ≠ []
  whole_digit : ∀ c ∈ whole, c.isDigit = true
  fraction_digit : ∀ c ∈ fraction, c.isDigit = true

namespace Numeral

def unsigned (x : Numeral) : List Char := x.whole ++ if x.fraction = [] then [] else '.' :: x.fraction

def chars (x : Numeral) : List Char := if x.negative then '-' :: x.unsigned else x.unsigned

def text (x : Numeral) : String := String.ofList x.chars

def scale (x : Numeral) : ℕ := x.fraction.length

/-- The rational that a numeral denotes. -/
def value (x : Numeral) : ℚ :=
  (if x.negative then -1 else 1) *
    (Nat.ofDigitChars 10 x.whole 0 + Nat.ofDigitChars 10 x.fraction 0 / 10 ^ x.fraction.length)

/-- All digits as one integer, with the sign. -/
def coefficient (x : Numeral) : ℤ :=
  if x.negative then -(Nat.ofDigitChars 10 (x.whole ++ x.fraction) 0 : ℤ)
  else Nat.ofDigitChars 10 (x.whole ++ x.fraction) 0

/-- The digits are an integer over a power of ten. -/
theorem value_eq (x : Numeral) : x.value = x.coefficient / 10 ^ x.scale := by
  have hDigits : (Nat.ofDigitChars 10 (x.whole ++ x.fraction) 0 : ℚ) =
      (Nat.ofDigitChars 10 x.whole 0 + Nat.ofDigitChars 10 x.fraction 0 / 10 ^ x.fraction.length) *
        10 ^ x.fraction.length := by
    rw [Nat.ofDigitChars_append, Nat.ofDigitChars_eq_ofDigitChars_zero]
    push_cast
    field_simp
  have hPower : (10 : ℚ) ^ x.fraction.length ≠ 0 := by positivity
  rw [value, coefficient, scale, eq_div_iff hPower]
  cases x.negative with
  | false => simpa using hDigits.symm
  | true =>
      simp only [if_true, Int.cast_neg, Int.cast_natCast, hDigits]
      ring

theorem digit_or_point {x : Numeral} {c : Char} (h : c ∈ x.unsigned) : c.isDigit = true ∨ c = '.' := by
  unfold unsigned at h
  rcases List.mem_append.mp h with hWhole | hRest
  · exact Or.inl (x.whole_digit c hWhole)
  · split at hRest
    · cases hRest
    · rcases List.mem_cons.mp hRest with rfl | hFraction
      · exact Or.inr rfl
      · exact Or.inl (x.fraction_digit c hFraction)

/-- A numeral has no other characters than its sign, its point and digits. -/
theorem sign_point_or_digit {x : Numeral} {c : Char} (h : c ∈ x.chars) :
    c = '-' ∨ c.isDigit = true ∨ c = '.' := by
  unfold chars at h
  split at h
  · rcases List.mem_cons.mp h with rfl | hUnsigned
    · exact Or.inl rfl
    · exact Or.inr (digit_or_point hUnsigned)
  · exact Or.inr (digit_or_point h)

theorem unsigned_head (x : Numeral) : x.unsigned.head? ≠ some '-' := by
  intro hHead
  rcases digit_or_point (List.mem_of_head? hHead) with hDigit | hPoint
  · exact absurd hDigit (by decide)
  · exact absurd hPoint (by decide)

/-- The sign is the first character. -/
theorem head_chars (x : Numeral) : decide (x.chars.head? = some '-') = x.negative := by
  unfold chars
  cases x.negative with
  | false => exact decide_eq_false x.unsigned_head
  | true => rfl

theorem unsigned_of_chars (x : Numeral) : (if x.chars.head? = some '-' then x.chars.tail else x.chars) = x.unsigned := by
  unfold chars
  cases x.negative with
  | false => exact if_neg x.unsigned_head
  | true => rfl

/-- There is no point before the point. -/
theorem span_unsigned (x : Numeral) :
    x.unsigned.span (· ≠ '.') = (x.whole, if x.fraction = [] then [] else '.' :: x.fraction) := by
  have hWhole : ∀ c ∈ x.whole, decide (c ≠ '.') = true := by
    intro c hc
    refine decide_eq_true fun hPoint => ?_
    have hDigit := x.whole_digit c hc
    rw [hPoint] at hDigit
    exact absurd hDigit (by decide)
  unfold unsigned
  rw [List.span_eq_takeWhile_dropWhile, List.takeWhile_append_of_pos hWhole, List.dropWhile_append_of_pos hWhole]
  split <;> simp

/-- A text has one numeral. -/
theorem text_injective : Function.Injective text := by
  intro x y h
  have hChars : x.chars = y.chars := String.ofList_inj.mp h
  have hSign : x.negative = y.negative := by rw [← head_chars x, ← head_chars y, hChars]
  have hUnsigned : x.unsigned = y.unsigned := by rw [← unsigned_of_chars x, ← unsigned_of_chars y, hChars]
  have hParts := x.span_unsigned.symm.trans ((congrArg _ hUnsigned).trans y.span_unsigned)
  obtain ⟨hWhole, hRest⟩ := Prod.mk.inj hParts
  have hFraction : x.fraction = y.fraction := by
    by_cases hx : x.fraction = [] <;> by_cases hy : y.fraction = []
    · rw [hx, hy]
    · rw [if_pos hx, if_neg hy] at hRest
      cases hRest
    · rw [if_neg hx, if_pos hy] at hRest
      cases hRest
    · rw [if_neg hx, if_neg hy] at hRest
      exact (List.cons.inj hRest).2
  cases x
  cases y
  cases hSign
  cases hWhole
  cases hFraction
  rfl

/-- A point stands before a digit only. -/
theorem scale_pos_of_point {x : Numeral} (h : '.' ∈ x.chars) : 0 < x.scale := by
  by_contra hScale
  have hFraction : x.fraction = [] := List.length_eq_zero_iff.mp (Nat.eq_zero_of_not_pos hScale)
  have hUnsigned : '.' ∈ x.unsigned := by
    unfold chars at h
    split at h
    · exact (List.mem_cons.mp h).resolve_left (by decide)
    · exact h
  rw [unsigned, if_pos hFraction, List.append_nil] at hUnsigned
  exact absurd (x.whole_digit '.' hUnsigned) (by decide)

theorem value_of_minus_zero {x : Numeral} (h : x.chars = ['-', '0']) : x.value = 0 := by
  unfold chars at h
  split at h
  · have hUnsigned := List.cons_inj_right _ |>.mp h
    unfold unsigned at hUnsigned
    rcases List.append_eq_singleton_iff.mp hUnsigned with ⟨hWhole, -⟩ | ⟨hWhole, hRest⟩
    · exact absurd hWhole x.whole_ne
    · have hFraction : x.fraction = [] := by
        by_contra hNe
        rw [if_neg hNe] at hRest
        cases hRest
      simp [value, hWhole, hFraction, Nat.ofDigitChars_cons]
  · exact absurd (congrArg List.head? h) x.unsigned_head

end Numeral

section Fixed

/-- The digits of a number, with zeros in front up to one digit before the point. -/
def padded (n scale : ℕ) : List Char :=
  List.replicate (scale + 1 - (Nat.toDigits 10 n).length) '0' ++ Nat.toDigits 10 n

theorem length_padded (n scale : ℕ) : scale + 1 ≤ (padded n scale).length := by
  rw [padded, List.length_append, List.length_replicate]
  omega

theorem padded_digit (n scale : ℕ) : ∀ c ∈ padded n scale, c.isDigit = true := by
  intro c hc
  rcases List.mem_append.mp hc with hZero | hDigit
  · rw [List.eq_of_mem_replicate hZero]
    rfl
  · exact Nat.isDigit_of_mem_toDigits (by norm_num) (by norm_num) hDigit

theorem ofDigitChars_padded (n scale : ℕ) : Nat.ofDigitChars 10 (padded n scale) 0 = n := by
  rw [padded, Nat.ofDigitChars_append, Nat.ofDigitChars_replicate_zero, Nat.mul_zero, Nat.ofDigitChars_ten_toDigits]

/-- The numeral of an integer over a power of ten. -/
def fixed (negative : Bool) (n scale : ℕ) : Numeral where
  negative := negative
  whole := (padded n scale).take ((padded n scale).length - scale)
  fraction := (padded n scale).drop ((padded n scale).length - scale)
  whole_ne := by
    intro hEmpty
    have hLength := congrArg List.length hEmpty
    rw [List.length_take, List.length_nil] at hLength
    have hPadded := length_padded n scale
    omega
  whole_digit c hc := padded_digit n scale c (List.mem_of_mem_take hc)
  fraction_digit c hc := padded_digit n scale c (List.mem_of_mem_drop hc)

theorem fixed_scale (negative : Bool) (n scale : ℕ) : (fixed negative n scale).scale = scale := by
  have hPadded := length_padded n scale
  rw [Numeral.scale, fixed, List.length_drop]
  omega

theorem fixed_coefficient (negative : Bool) (n scale : ℕ) :
    (fixed negative n scale).coefficient = if negative then -(n : ℤ) else n := by
  rw [Numeral.coefficient, fixed, List.take_append_drop, ofDigitChars_padded]

theorem fixed_value (i : ℤ) (scale : ℕ) : (fixed (i < 0) i.natAbs scale).value = i / 10 ^ scale := by
  rw [Numeral.value_eq, fixed_scale, fixed_coefficient]
  congr 2
  by_cases h : i < 0
  · rw [decide_eq_true h, if_pos rfl]
    omega
  · rw [decide_eq_false h, if_neg (by decide)]
    omega

theorem padded_last (n scale : ℕ) : ∃ front, padded n scale = front ++ [Nat.digitChar (n % 10)] := by
  have hDigits : ∃ front, Nat.toDigits 10 n = front ++ [Nat.digitChar (n % 10)] := by
    rcases Nat.lt_or_ge n 10 with hSmall | hLarge
    · exact ⟨[], by rw [Nat.toDigits_of_lt_base hSmall, Nat.mod_eq_of_lt hSmall, List.nil_append]⟩
    · exact ⟨_, Nat.toDigits_of_base_le (by norm_num) hLarge⟩
  obtain ⟨front, hFront⟩ := hDigits
  exact ⟨_, by rw [padded, hFront, ← List.append_assoc]⟩

/-- A text with a point ends with the last digit of the integer. -/
theorem fixed_chars_last (negative : Bool) (n : ℕ) {scale : ℕ} (hScale : 0 < scale) :
    ∃ front, (fixed negative n scale).chars = front ++ [Nat.digitChar (n % 10)] := by
  obtain ⟨front, hFront⟩ := padded_last n scale
  have hLength := congrArg List.length hFront
  rw [List.length_append, List.length_singleton] at hLength
  have hEnough := length_padded n scale
  have hFraction : (fixed negative n scale).fraction =
      front.drop ((padded n scale).length - scale) ++ [Nat.digitChar (n % 10)] := by
    rw [fixed]
    dsimp only
    rw [hFront, List.drop_append_of_le_length (by rw [← hFront]; omega)]
  have hUnsigned : ∃ first, (fixed negative n scale).unsigned = first ++ [Nat.digitChar (n % 10)] := by
    refine ⟨(fixed negative n scale).whole ++ '.' :: front.drop ((padded n scale).length - scale), ?_⟩
    rw [Numeral.unsigned, hFraction, if_neg (by simp), List.append_assoc, List.cons_append]
  obtain ⟨first, hFirst⟩ := hUnsigned
  rw [Numeral.chars, hFirst]
  split
  · exact ⟨'-' :: first, rfl⟩
  · exact ⟨first, rfl⟩

end Fixed

end DecimalNumerals

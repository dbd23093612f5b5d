import Mathlib
import GeoLedger.AmountGrammar
import GeoLedger.Library.DecimalNumerals
import GeoLedger.Library.Grid
import GeoLedger.Admin.DisplayAtoms

/-! `utils/decimal`: sums, differences, orders and rounded figures of decimal texts in
the admin interface, and the texts of atoms. -/
namespace GeoLedger.DecimalStrings
open DecimalNumerals
open GraphAnalytics (BigDec parseDecimal matchDecimal jsDigits? Shows)

section Functions

/-- `align`: both integers over the larger power of ten. -/
def align (a b : BigDec) : ℤ × ℤ × ℕ :=
  let s := max a.scale b.scale
  (a.i * 10 ^ (s - a.scale), b.i * 10 ^ (s - b.scale), s)

/-- `formatBigIntFixed`: the digits are padded, and the point is put before the last ones. -/
def formatBigIntFixed (i : ℤ) (scale : ℕ) : String :=
  let sign := if i < 0 then ['-'] else []
  let s := Nat.toDigits 10 i.natAbs
  if scale ≤ 0 then String.ofList (sign ++ s)
  else
    let pad := scale + 1
    let padded := if s.length ≥ pad then s else List.replicate (pad - s.length) '0' ++ s
    let head := padded.take (padded.length - scale)
    let frac := padded.drop (padded.length - scale)
    String.ofList (sign ++ (head ++ '.' :: frac))

def addDecimalStrings (a b : String) : String :=
  match parseDecimal a, parseDecimal b with
  | some da, some db =>
      let (ai, bi, s) := align da db
      formatBigIntFixed (ai + bi) s
  | _, _ => a

def subDecimalStrings (a b : String) : String :=
  match parseDecimal a, parseDecimal b with
  | some da, some db =>
      let (ai, bi, s) := align da db
      formatBigIntFixed (ai - bi) s
  | _, _ => a

def absDecimalString (v : String) : String :=
  match parseDecimal v with
  | some d => formatBigIntFixed (if d.i < 0 then -d.i else d.i) d.scale
  | none => v

def compareDecimalStrings (a b : String) : ℤ :=
  match parseDecimal a, parseDecimal b with
  | some da, some db =>
      let (ai, bi, _) := align da db
      if ai = bi then 0 else if ai < bi then -1 else 1
  | _, _ => 0

/-- An integer over `div` without the digits that are cut off, the magnitude rounded half up. -/
def roundHalfUp (i : ℤ) (div : ℕ) : ℤ :=
  let q := i.natAbs / div
  let r := i.natAbs % div
  let half := div / 2
  let rounded := if r ≥ half then q + 1 else q
  if i < 0 then -(rounded : ℤ) else rounded

def formatDecimalFixed (input : String) (digits : ℚ) : String :=
  match parseDecimal input with
  | none => input
  | some dec =>
      let target := (max 0 ⌊digits⌋).toNat
      if dec.scale = target then formatBigIntFixed dec.i target
      else if dec.scale < target then formatBigIntFixed (dec.i * 10 ^ (target - dec.scale)) target
      else formatBigIntFixed (roundHalfUp dec.i (10 ^ (dec.scale - target))) target

/-- `atomsToDecimal` pads and cuts as `formatBigIntFixed` does. -/
def atomsToDecimal (atoms : ℤ) (precision : ℕ) : String := formatBigIntFixed atoms precision

end Functions

section Texts

theorem isJsWhitespace_of_digit {c : Char} (h : c.isDigit = true) : SseWire.isJsWhitespace c = false := by
  have hRange : 48 ≤ c.toNat ∧ c.toNat ≤ 57 := Char.isDigit_iff_toNat.mp h
  simp only [SseWire.isJsWhitespace, List.mem_cons, List.not_mem_nil, or_false, Bool.or_eq_false_iff,
    decide_eq_false_iff_not, Bool.and_eq_false_iff]
  omega

/-- A numeral has no blanks to trim. -/
theorem trim_chars (x : Numeral) : SseWire.trim x.chars = x.chars := by
  have hSolid : ∀ c ∈ x.chars, SseWire.isJsWhitespace c = false := by
    intro c hc
    rcases Numeral.sign_point_or_digit hc with rfl | hDigit | rfl
    · rfl
    · exact isJsWhitespace_of_digit hDigit
    · rfl
  have hStart : SseWire.trimStart x.chars = x.chars := by
    refine List.dropWhile_eq_self_iff.mpr fun hLength => ?_
    rw [hSolid _ (List.getElem_mem hLength)]
    decide
  rw [SseWire.trim, hStart]
  refine List.rdropWhile_eq_self_iff.mpr fun hNe => ?_
  rw [hSolid _ (List.getLast_mem hNe)]
  decide

/-- The value of a digit. -/
def digit (c : Char) : ℕ := c.toNat - '0'.toNat

/-- A text of digits is read as their values. -/
theorem jsDigits?_eq {digits : List Char} (hNe : digits ≠ []) (hDigit : ∀ c ∈ digits, c.isDigit = true) :
    jsDigits? digits = some (digits.map digit) := by
  rw [jsDigits?, if_neg hNe, AmountGrammar.mapM_eq_some_iff, List.map_map]
  refine List.map_congr_left fun c hc => ?_
  have hIn : charIn '0' '9' c = true := by
    rw [charIn, Bool.and_eq_true, decide_eq_true_eq, decide_eq_true_eq]
    exact Char.isDigit_iff_toNat.mp (hDigit c hc)
  rw [if_pos hIn]
  rfl

/-- The value of digits is read in base ten. -/
theorem digitsValue_map (digits : List Char) : digitsValue (digits.map digit) = Nat.ofDigitChars 10 digits 0 := by
  rw [digitsValue, List.foldl_map, Nat.ofDigitChars_eq_foldl]
  rfl

/-- The text of a numeral matches as its sign, its whole part and its fraction. -/
theorem matchDecimal_text (x : Numeral) :
    matchDecimal x.text = some (x.negative, x.whole.map digit, x.fraction.map digit) := by
  have hWhole := jsDigits?_eq x.whole_ne x.whole_digit
  unfold matchDecimal
  rw [Numeral.text, String.toList_ofList, trim_chars]
  dsimp only
  rw [x.unsigned_of_chars, x.span_unsigned, x.head_chars]
  by_cases hFraction : x.fraction = []
  · rw [if_pos hFraction, hFraction]
    dsimp only
    rw [hWhole]
    rfl
  · rw [if_neg hFraction]
    dsimp only
    rw [hWhole, jsDigits?_eq hFraction x.fraction_digit]

/-- The parser reads the digits of a numeral as one integer. -/
theorem parseDecimal_text (x : Numeral) : parseDecimal x.text = some ⟨x.coefficient, x.scale⟩ := by
  rw [parseDecimal, matchDecimal_text, Option.map_some]
  dsimp only
  rw [← List.map_append, digitsValue_map, List.length_map]
  rfl

/-- The text of a numeral shows its value. -/
theorem shows_text (x : Numeral) : Shows x.text x.value := ⟨_, parseDecimal_text x, x.value_eq.symm⟩

/-- Padding and cutting give the numeral of the integer. -/
theorem formatBigIntFixed_eq (i : ℤ) (scale : ℕ) : formatBigIntFixed i scale = (fixed (i < 0) i.natAbs scale).text := by
  have hLength : 0 < (Nat.toDigits 10 i.natAbs).length := Nat.length_toDigits_pos
  unfold formatBigIntFixed
  dsimp only
  rcases Nat.eq_zero_or_pos scale with rfl | hScale
  · have hPadded : padded i.natAbs 0 = Nat.toDigits 10 i.natAbs := by
      rw [padded, Nat.sub_eq_zero_of_le (by omega), List.replicate_zero, List.nil_append]
    rw [if_pos (Nat.le_refl 0)]
    simp only [Numeral.text, Numeral.chars, Numeral.unsigned, fixed, hPadded, Nat.sub_zero, List.take_length,
      List.drop_length, if_true, List.append_nil, decide_eq_true_eq]
    split <;> rfl
  · have hPadded : (if (Nat.toDigits 10 i.natAbs).length ≥ scale + 1 then Nat.toDigits 10 i.natAbs
        else List.replicate (scale + 1 - (Nat.toDigits 10 i.natAbs).length) '0' ++ Nat.toDigits 10 i.natAbs) =
        padded i.natAbs scale := by
      split
      · next h => rw [padded, Nat.sub_eq_zero_of_le h, List.replicate_zero, List.nil_append]
      · rfl
    have hFraction : (padded i.natAbs scale).drop ((padded i.natAbs scale).length - scale) ≠ [] := by
      have hEnough := length_padded i.natAbs scale
      rw [Ne, List.drop_eq_nil_iff]
      omega
    rw [if_neg (by omega), hPadded]
    simp only [Numeral.text, Numeral.chars, Numeral.unsigned, fixed, hFraction, if_false, decide_eq_true_eq]
    split <;> rfl

end Texts

section Arithmetic

/-- The text is a numeral with that many digits after the point, and denotes the value. -/
def Spells (text : String) (scale : ℕ) (value : ℚ) : Prop :=
  ∃ x : Numeral, x.text = text ∧ x.scale = scale ∧ x.value = value

/-- A scaled integer is spelt with the digits of its scale. -/
theorem spells_formatBigIntFixed (i : ℤ) (scale : ℕ) : Spells (formatBigIntFixed i scale) scale (i / 10 ^ scale) :=
  ⟨_, (formatBigIntFixed_eq i scale).symm, fixed_scale _ _ _, fixed_value i scale⟩

/-- A text with a minus denotes a negative integer. -/
theorem neg_of_minus {i : ℤ} {scale : ℕ} (h : (formatBigIntFixed i scale).toList.head? = some '-') : i < 0 := by
  rw [formatBigIntFixed_eq, Numeral.text, String.toList_ofList] at h
  have hSign := (fixed (i < 0) i.natAbs scale).head_chars
  rw [decide_eq_true h] at hSign
  exact of_decide_eq_true hSign.symm

/-- The integers over the common power of ten are the two values. -/
theorem align_values (a b : BigDec) :
    ((align a b).1 : ℚ) = a.value * 10 ^ max a.scale b.scale ∧
      ((align a b).2.1 : ℚ) = b.value * 10 ^ max a.scale b.scale := by
  unfold align
  push_cast
  exact ⟨a.aligned (le_max_left _ _), b.aligned (le_max_right _ _)⟩

/-- The value of a parsed numeral is the value of the numeral. -/
theorem value_parsed (x : Numeral) : BigDec.value ⟨x.coefficient, x.scale⟩ = x.value := x.value_eq.symm

/-- The value of an aligned integer. -/
theorem aligned_value (x y : Numeral) :
    ((align ⟨x.coefficient, x.scale⟩ ⟨y.coefficient, y.scale⟩).1 : ℚ) / 10 ^ max x.scale y.scale = x.value ∧
      ((align ⟨x.coefficient, x.scale⟩ ⟨y.coefficient, y.scale⟩).2.1 : ℚ) / 10 ^ max x.scale y.scale = y.value := by
  obtain ⟨hFirst, hSecond⟩ := align_values ⟨x.coefficient, x.scale⟩ ⟨y.coefficient, y.scale⟩
  have hPower : (10 : ℚ) ^ max x.scale y.scale ≠ 0 := by positivity
  rw [hFirst, hSecond, value_parsed, value_parsed]
  exact ⟨mul_div_cancel_right₀ _ hPower, mul_div_cancel_right₀ _ hPower⟩

/-- Decimal strings are added exactly, with the longer of the two fractions. -/
theorem spells_add (x y : Numeral) :
    Spells (addDecimalStrings x.text y.text) (max x.scale y.scale) (x.value + y.value) := by
  obtain ⟨hFirst, hSecond⟩ := aligned_value x y
  rw [addDecimalStrings, parseDecimal_text, parseDecimal_text, ← hFirst, ← hSecond, ← add_div, ← Int.cast_add]
  exact spells_formatBigIntFixed _ _

/-- Decimal strings are subtracted exactly, with the longer of the two fractions. -/
theorem spells_sub (x y : Numeral) :
    Spells (subDecimalStrings x.text y.text) (max x.scale y.scale) (x.value - y.value) := by
  obtain ⟨hFirst, hSecond⟩ := aligned_value x y
  rw [subDecimalStrings, parseDecimal_text, parseDecimal_text, ← hFirst, ← hSecond, ← sub_div, ← Int.cast_sub]
  exact spells_formatBigIntFixed _ _

/-- The absolute value of a decimal string is exact, with the same fraction. -/
theorem spells_abs (x : Numeral) : Spells (absDecimalString x.text) x.scale |x.value| := by
  have hAbs : (if x.coefficient < 0 then -x.coefficient else x.coefficient) = |x.coefficient| := by
    split
    · next h => exact (abs_of_neg h).symm
    · next h => exact (abs_of_nonneg (not_lt.mp h)).symm
  have hPower : |(10 : ℚ) ^ x.scale| = 10 ^ x.scale := abs_of_pos (by positivity)
  rw [absDecimalString, parseDecimal_text, x.value_eq, abs_div, hPower]
  dsimp only
  rw [hAbs, ← Int.cast_abs]
  exact spells_formatBigIntFixed _ _

/-- Comparing the aligned integers compares the values. -/
theorem compareDecimalStrings_eq (x y : Numeral) :
    compareDecimalStrings x.text y.text = if x.value = y.value then 0 else if x.value < y.value then -1 else 1 := by
  obtain ⟨hFirst, hSecond⟩ := aligned_value x y
  have hPower : (0 : ℚ) < 10 ^ max x.scale y.scale := by positivity
  have hEq : x.value = y.value ↔ (align ⟨x.coefficient, x.scale⟩ ⟨y.coefficient, y.scale⟩).1 =
      (align ⟨x.coefficient, x.scale⟩ ⟨y.coefficient, y.scale⟩).2.1 := by
    rw [← hFirst, ← hSecond, div_left_inj' hPower.ne', Int.cast_inj]
  have hLt : x.value < y.value ↔ (align ⟨x.coefficient, x.scale⟩ ⟨y.coefficient, y.scale⟩).1 <
      (align ⟨x.coefficient, x.scale⟩ ⟨y.coefficient, y.scale⟩).2.1 := by
    rw [← hFirst, ← hSecond, div_lt_div_iff_of_pos_right hPower, Int.cast_lt]
  simp only [compareDecimalStrings, parseDecimal_text, hEq, hLt]

end Arithmetic

section Rounding

/-- Comparing the remainder with one half rounds to the nearest integer. -/
theorem div_add_half (n half : ℕ) (hHalf : 0 < half) :
    (if n % (2 * half) ≥ half then n / (2 * half) + 1 else n / (2 * half)) = (n + half) / (2 * half) := by
  have hRest : n % (2 * half) < 2 * half := Nat.mod_lt _ (by omega)
  have hSplit : n + half = 2 * half * (n / (2 * half)) + (n % (2 * half) + half) := by
    rw [← Nat.add_assoc, Nat.div_add_mod]
  rw [hSplit, Nat.mul_add_div (by omega)]
  generalize n % (2 * half) = rest at hRest
  generalize n / (2 * half) = quotient
  split
  · have hOne : (rest + half) / (2 * half) = 1 := Nat.div_eq_of_lt_le (by omega) (by omega)
    rw [hOne]
  · have hZero : (rest + half) / (2 * half) = 0 := Nat.div_eq_of_lt (by omega)
    rw [hZero, Nat.add_zero]

/-- Rounding the magnitude half up rounds the value half away from zero. -/
theorem roundHalfUp_eq (i : ℤ) {half : ℕ} (hHalf : 0 < half) (quantum : ℚ) (hQuantum : 0 < quantum) :
    (roundHalfUp i (2 * half) : ℚ) * quantum = Grid.roundHalfAway quantum (i / (2 * half : ℕ) * quantum) := by
  have hNat (n : ℕ) : Grid.roundHalfAway quantum ((n : ℚ) / (2 * half : ℕ) * quantum) =
      ((n + half) / (2 * half) : ℕ) * quantum := by
    have hSum : (n : ℚ) / (2 * half : ℕ) + 1 / 2 = ((n + half : ℕ) : ℚ) / (2 * half : ℕ) := by
      have hPos : (half : ℚ) ≠ 0 := by positivity
      push_cast
      field_simp
    rw [Grid.roundHalfAway, if_pos (by positivity), mul_div_cancel_right₀ _ hQuantum.ne', hSum,
      Rat.floor_natCast_div_natCast]
    rfl
  have hRounded : (if i.natAbs % (2 * half) ≥ 2 * half / 2 then i.natAbs / (2 * half) + 1
      else i.natAbs / (2 * half)) = (i.natAbs + half) / (2 * half) := by
    rw [Nat.mul_div_cancel_left half (by norm_num), div_add_half _ _ hHalf]
  unfold roundHalfUp
  dsimp only
  rw [hRounded]
  by_cases hNeg : i < 0
  · have hAbs : (i : ℚ) = -(i.natAbs : ℚ) := by
      rw [← Int.cast_natCast, ← Int.cast_neg, Int.ofNat_natAbs_of_nonpos hNeg.le, neg_neg]
    rw [if_pos hNeg, hAbs, neg_div, neg_mul, Grid.roundHalfAway_neg, hNat, Int.cast_neg, Int.cast_natCast, neg_mul]
  · have hAbs : (i : ℚ) = (i.natAbs : ℚ) := by
      rw [← Int.cast_natCast, Int.natAbs_of_nonneg (not_lt.mp hNeg)]
    rw [if_neg hNeg, hAbs, hNat, Int.cast_natCast]

/-- The figure is the text of an integer that is the rounded value over the power of ten. -/
theorem formatDecimalFixed_eq (x : Numeral) (digits : ℕ) :
    ∃ i : ℤ, formatDecimalFixed x.text digits = formatBigIntFixed i digits ∧
      (i : ℚ) / 10 ^ digits = Grid.roundHalfAway (1 / 10 ^ digits) x.value := by
  have hQuantum : (0 : ℚ) < 1 / 10 ^ digits := by positivity
  have hTarget : (max 0 ⌊((digits : ℕ) : ℚ)⌋).toNat = digits := by
    rw [Int.floor_natCast, max_eq_right (Int.natCast_nonneg digits), Int.toNat_natCast]
  have hExact (i : ℤ) (hValue : (i : ℚ) / 10 ^ digits = x.value) :
      (i : ℚ) / 10 ^ digits = Grid.roundHalfAway (1 / 10 ^ digits) x.value := by
    rw [Grid.roundHalfAway_of_mem hQuantum (Grid.mem_multiples_iff.mpr ⟨i, ?_⟩), hValue]
    rw [← hValue, mul_one_div]
  simp only [formatDecimalFixed, parseDecimal_text, hTarget]
  rcases lt_trichotomy x.scale digits with hLt | hEq | hGt
  · refine ⟨x.coefficient * 10 ^ (digits - x.scale), ?_, hExact _ ?_⟩
    · rw [if_neg hLt.ne, if_pos hLt]
    · have hAligned := BigDec.aligned ⟨x.coefficient, x.scale⟩ hLt.le
      rw [value_parsed] at hAligned
      push_cast
      rw [hAligned, mul_div_cancel_right₀ _ (by positivity)]
  · refine ⟨x.coefficient, if_pos hEq, hExact _ ?_⟩
    rw [x.value_eq, hEq]
  · obtain ⟨k, hScale⟩ := Nat.exists_eq_add_of_lt hGt
    have hDiff : x.scale - digits = k + 1 := by omega
    have hDiv : 10 ^ (k + 1) = 2 * (5 * 10 ^ k) := by ring
    refine ⟨roundHalfUp x.coefficient (10 ^ (k + 1)), ?_, ?_⟩
    · rw [if_neg hGt.ne', if_neg (by omega), hDiff]
    · rw [hDiv, div_eq_mul_one_div, roundHalfUp_eq x.coefficient (by positivity) _ hQuantum, ← hDiv, x.value_eq,
        hScale]
      congr 1
      push_cast
      rw [div_mul_div_comm, mul_one, ← pow_add]
      congr 2
      ring

/-- A decimal string is formatted to a number of digits by rounding half away from zero. -/
theorem spells_formatDecimalFixed (x : Numeral) (digits : ℕ) :
    Spells (formatDecimalFixed x.text digits) digits (Grid.roundHalfAway (1 / 10 ^ digits) x.value) := by
  obtain ⟨i, hText, hValue⟩ := formatDecimalFixed_eq x digits
  rw [hText, ← hValue]
  exact spells_formatBigIntFixed i digits

/-- A rounded figure with a minus is not zero. -/
theorem formatDecimalFixed_minus (x : Numeral) (digits : ℕ)
    (h : (formatDecimalFixed x.text digits).toList.head? = some '-') :
    Grid.roundHalfAway (1 / 10 ^ digits) x.value < 0 := by
  obtain ⟨i, hText, hValue⟩ := formatDecimalFixed_eq x digits
  rw [hText] at h
  rw [← hValue]
  exact div_neg_of_neg_of_pos (Int.cast_lt_zero.mpr (neg_of_minus h)) (by positivity)

end Rounding

section Atoms

/-- The ratio is compared exactly. -/
theorem isRatioBelowThreshold_text (x y t : Numeral) (hDenominator : 0 < y.value) (hThreshold : 0 ≤ t.value) :
    GraphAnalytics.isRatioBelowThreshold x.text y.text t.text = true ↔ x.value / y.value < t.value := by
  have hUnsigned : 0 ≤ t.coefficient := by
    have hCoefficient : (t.coefficient : ℚ) = t.value * 10 ^ t.scale := by
      rw [t.value_eq, div_mul_cancel₀ _ (by positivity)]
    have hCast : (0 : ℚ) ≤ t.coefficient := by
      rw [hCoefficient]
      positivity
    exact_mod_cast hCast
  rw [GraphAnalytics.isRatioBelowThreshold_iff (shows_text x) (shows_text y) (parseDecimal_text t) hUnsigned,
    value_parsed, and_iff_right hDenominator.ne', div_lt_iff₀ hDenominator, mul_comm]

/-- The atoms of a numeral are its value cut towards zero. -/
theorem decimalToAtoms_text (x : Numeral) (precision : ℕ) :
    GraphAnalytics.decimalToAtoms x.text precision = Truncation.truncate (x.value * 10 ^ precision) := by
  rw [(shows_text x).atoms, decimalToAtoms_eq]

/-- Rounding down to a precision is truncating the scaled value. -/
theorem roundDown_eq (precision : ℕ) (value : ℚ) :
    Grid.roundDown (1 / 10 ^ precision) value = Truncation.truncate (value * 10 ^ precision) / 10 ^ precision := by
  have hPower : (0 : ℚ) < 10 ^ precision := by positivity
  have hScaled : ∀ v : ℚ, v / (1 / 10 ^ precision) = v * 10 ^ precision := fun v => by rw [div_div_eq_mul_div, div_one]
  unfold Grid.roundDown Truncation.truncate
  by_cases h : 0 ≤ value
  · rw [if_pos h, if_neg (not_lt.mpr (mul_nonneg h hPower.le)), hScaled, mul_one_div]
  · rw [if_neg h, if_pos (mul_neg_of_neg_of_pos (not_le.mp h) hPower), hScaled, Int.cast_neg, neg_div, neg_mul,
      mul_one_div]

/-- Atoms survive their text. -/
theorem decimalToAtoms_atomsToDecimal (atoms : ℤ) (precision : ℕ) :
    GraphAnalytics.decimalToAtoms (atomsToDecimal atoms precision) precision = atoms := by
  obtain ⟨x, hText, -, hValue⟩ := spells_formatBigIntFixed atoms precision
  rw [atomsToDecimal, ← hText, decimalToAtoms_text, hValue, div_mul_cancel₀ _ (by positivity)]
  unfold Truncation.truncate
  split
  · rw [← Int.cast_neg, Int.floor_intCast, neg_neg]
  · exact Int.floor_intCast atoms

/-- Atoms that were cut from a decimal string are spelt back as the value rounded down. -/
theorem spells_atomsToDecimal (x : Numeral) (precision : ℕ) :
    Spells (atomsToDecimal (GraphAnalytics.decimalToAtoms x.text precision) precision) precision
      (Grid.roundDown (1 / 10 ^ precision) x.value) := by
  rw [roundDown_eq, ← decimalToAtoms_text]
  exact spells_formatBigIntFixed _ _

end Atoms

/-- Sums, differences, magnitudes, orders, rounded figures, ratios and atoms of decimal
texts are exact. -/
theorem decimal_strings_exact (x y threshold : Numeral) (digits precision : ℕ) (atoms : ℤ) :
    Spells (addDecimalStrings x.text y.text) (max x.scale y.scale) (x.value + y.value) ∧
      Spells (subDecimalStrings x.text y.text) (max x.scale y.scale) (x.value - y.value) ∧
      Spells (absDecimalString x.text) x.scale |x.value| ∧
      compareDecimalStrings x.text y.text =
        (if x.value = y.value then 0 else if x.value < y.value then -1 else 1) ∧
      (Spells (formatDecimalFixed x.text digits) digits (Grid.roundHalfAway (1 / 10 ^ digits) x.value) ∧
        ((formatDecimalFixed x.text digits).toList.head? = some '-' →
          Grid.roundHalfAway (1 / 10 ^ digits) x.value < 0)) ∧
      (0 < y.value → 0 ≤ threshold.value →
        (GraphAnalytics.isRatioBelowThreshold x.text y.text threshold.text = true ↔ x.value / y.value < threshold.value)) ∧
      GraphAnalytics.decimalToAtoms (atomsToDecimal atoms precision) precision = atoms ∧
      Spells (atomsToDecimal (GraphAnalytics.decimalToAtoms x.text precision) precision) precision
        (Grid.roundDown (1 / 10 ^ precision) x.value) :=
  ⟨spells_add x y, spells_sub x y, spells_abs x, compareDecimalStrings_eq x y,
    ⟨spells_formatDecimalFixed x digits, formatDecimalFixed_minus x digits⟩,
    isRatioBelowThreshold_text x y threshold, decimalToAtoms_atomsToDecimal atoms precision,
    spells_atomsToDecimal x precision⟩

end GeoLedger.DecimalStrings

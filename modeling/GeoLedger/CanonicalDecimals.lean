import Mathlib
import GeoLedger.Admin.ParticipantMetrics
import GeoLedger.Library.DecimalNumerals

/-! The decimals of the canonical JSON: a `Decimal` is normalized in the default
context, which keeps twenty-eight digits, and written without an exponent. -/
namespace GeoLedger.CanonicalJson
open DecimalNumerals

/-- A finite `Decimal`. -/
structure PyDecimal where
  negative : Bool
  coefficient : ℕ
  exponent : ℤ

/-- How `canonical_json` fails; `overflow` is raised by the decimal context. -/
inductive CanonicalError where
  | badRequest (message : String)
  | overflow
deriving DecidableEq

namespace PyDecimal

def value (d : PyDecimal) : ℚ := (if d.negative then -1 else 1) * d.coefficient * 10 ^ d.exponent

/-- `"e" in str(value).lower()`: a positive exponent, or more than five zeros after the point. -/
def hasExponent (d : PyDecimal) : Bool :=
  !(d.exponent ≤ 0 && -6 < d.exponent + (Nat.toDigits 10 d.coefficient).length)

/-- The trailing zeros of a coefficient go to the exponent. -/
def stripZeros (n : ℕ) (exponent : ℤ) : ℕ × ℤ :=
  if h : n ≠ 0 ∧ n % 10 = 0 then stripZeros (n / 10) (exponent + 1) else (n, exponent)
termination_by n

/-- `Decimal.normalize`, unless the context overflows. -/
def normalize (d : PyDecimal) : Option PyDecimal :=
  let n := roundToContext d.coefficient
  if n = 0 then some ⟨d.negative, 0, 0⟩
  else
    let (m, e) := stripZeros n d.exponent
    if 999999 < e + (Nat.toDigits 10 m).length - 1 then none else some ⟨d.negative, m, e⟩

/-- `format(q, "f")`: all digits, without an exponent. -/
def plain (q : PyDecimal) : Numeral :=
  fixed q.negative (q.coefficient * 10 ^ q.exponent.toNat) (-q.exponent).toNat

end PyDecimal

def formatDecimal (value : PyDecimal) : Except CanonicalError String :=
  match value.normalize with
  | none => .error .overflow
  | some q =>
      let s := q.plain.chars
      let s := if '.' ∈ s then (s.rdropWhile (· = '0')).rdropWhile (· = '.') else s
      let s := if s = ['-', '0'] then ['0'] else s
      if 'e' ∈ s.map Char.toLower then .error (.badRequest "Exponent notation is not allowed in canonical JSON")
      else .ok (String.ofList s)

section Rounding

/-- A coefficient of at most twenty-eight digits, trailing zeros aside. -/
def Fits (n : ℕ) : Prop := ∃ m k, n = m * 10 ^ k ∧ m < 10 ^ contextPrecision

/-- The context keeps a coefficient exactly when it fits. -/
theorem roundToContext_eq_iff (n : ℕ) : roundToContext n = n ↔ Fits n := by
  set excess := (Nat.digits 10 n).length - contextPrecision with hExcess
  have hUpper : n < 10 ^ contextPrecision * 10 ^ excess := by
    rw [← pow_add]
    exact Nat.lt_of_lt_of_le (Nat.lt_base_pow_length_digits (by norm_num)) (Nat.pow_le_pow_right (by norm_num) (by omega))
  have hUnit : 0 < 10 ^ excess := by positivity
  constructor
  · intro hEq
    have hDvd : 10 ^ excess ∣ n := by
      rw [← hEq]
      exact Dvd.intro_left _ rfl
    obtain ⟨m, hm⟩ := hDvd
    refine ⟨m, excess, hm.trans (Nat.mul_comm _ _), ?_⟩
    rw [hm, Nat.mul_comm] at hUpper
    exact Nat.lt_of_mul_lt_mul_right hUpper
  · rintro ⟨m, k, hn, hm⟩
    have hDvd : 10 ^ excess ∣ n := by
      rcases Nat.eq_zero_or_pos n with rfl | hPos
      · exact Nat.dvd_zero _
      have hLe : excess ≤ k := by
        have hm' : m ≠ 0 := by
          rintro rfl
          rw [Nat.zero_mul] at hn
          omega
        have hLength : (Nat.digits 10 n).length ≤ contextPrecision + k := by
          refine (Nat.digits_length_le_iff (by norm_num) n).mpr ?_
          rw [hn, pow_add]
          exact Nat.mul_lt_mul_of_pos_right hm (by positivity)
        omega
      rw [hn]
      exact Dvd.dvd.mul_left (pow_dvd_pow 10 hLe) m
    have hRest : n % 10 ^ excess = 0 := Nat.mod_eq_zero_of_dvd hDvd
    unfold roundToContext
    dsimp only
    rw [← hExcess, hRest, if_pos (Or.inl (by omega)), Nat.div_mul_cancel hDvd]

/-- One more zero at the end does not change which digits are kept. -/
theorem roundToContext_ten {n : ℕ} (hn : n ≠ 0) : roundToContext (10 * n) = 10 * roundToContext n := by
  have hLength : (Nat.digits 10 (10 * n)).length = (Nat.digits 10 n).length + 1 := by
    rw [Nat.digits_base_mul (by norm_num) (Nat.pos_of_ne_zero hn), List.length_cons]
  rcases Nat.lt_or_ge (Nat.digits 10 n).length contextPrecision with hShort | hLong
  · have hSmall : Fits n := ⟨n, 0, by omega, (Nat.digits_length_le_iff (by norm_num) n).mp hShort.le⟩
    have hSmall' : Fits (10 * n) := ⟨n, 1, by omega, (Nat.digits_length_le_iff (by norm_num) n).mp hShort.le⟩
    rw [(roundToContext_eq_iff _).mpr hSmall, (roundToContext_eq_iff _).mpr hSmall']
  · have hExcess : (Nat.digits 10 (10 * n)).length - contextPrecision =
        (Nat.digits 10 n).length - contextPrecision + 1 := by omega
    unfold roundToContext
    dsimp only
    rw [hExcess, pow_succ', Nat.mul_div_mul_left _ _ (by norm_num), Nat.mul_mod_mul_left]
    generalize (10 : ℕ) ^ ((Nat.digits 10 n).length - contextPrecision) = unit
    have hCond : (2 * (10 * (n % unit)) < 10 * unit ∨ 2 * (10 * (n % unit)) = 10 * unit ∧ n / unit % 2 = 0) ↔
        (2 * (n % unit) < unit ∨ 2 * (n % unit) = unit ∧ n / unit % 2 = 0) := by omega
    simp only [hCond]
    ring

end Rounding

section Normal

namespace PyDecimal

theorem stripZeros_ten {n : ℕ} (hn : n ≠ 0) (exponent : ℤ) :
    stripZeros (10 * n) exponent = stripZeros n (exponent + 1) := by
  rw [stripZeros, dif_pos ⟨by omega, by omega⟩, Nat.mul_div_cancel_left n (by norm_num)]

/-- The value stays, and the last digit is not zero. -/
theorem stripZeros_spec {n : ℕ} (hn : n ≠ 0) (exponent : ℤ) :
    ((stripZeros n exponent).1 : ℚ) * 10 ^ (stripZeros n exponent).2 = n * 10 ^ exponent ∧
      (stripZeros n exponent).1 % 10 ≠ 0 := by
  induction n, exponent using stripZeros.induct with
  | case1 n exponent h ih =>
      obtain ⟨hNe, hZero⟩ := h
      obtain ⟨hValue, hLast⟩ := ih (by omega)
      rw [stripZeros, dif_pos ⟨hNe, hZero⟩]
      refine ⟨hValue.trans ?_, hLast⟩
      have hSplit : (n : ℚ) = (n / 10 : ℕ) * 10 := by
        exact_mod_cast (Nat.div_mul_cancel (Nat.dvd_of_mod_eq_zero hZero)).symm
      rw [zpow_add_one₀ (by norm_num), hSplit]
      ring
  | case2 n exponent h =>
      rw [stripZeros, dif_neg h]
      exact ⟨rfl, fun hZero => h ⟨hn, hZero⟩⟩

theorem normalize_ten (negative : Bool) {n : ℕ} (hn : n ≠ 0) (exponent : ℤ) :
    normalize ⟨negative, 10 * n, exponent⟩ = normalize ⟨negative, n, exponent + 1⟩ := by
  unfold normalize
  dsimp only
  rw [roundToContext_ten hn]
  by_cases hZero : roundToContext n = 0
  · rw [hZero, Nat.mul_zero, if_pos rfl, if_pos rfl]
  · rw [if_neg (by omega), if_neg hZero, stripZeros_ten hZero]

theorem normalize_pow (negative : Bool) {n : ℕ} (hn : n ≠ 0) (k : ℕ) (exponent : ℤ) :
    normalize ⟨negative, 10 ^ k * n, exponent⟩ = normalize ⟨negative, n, exponent + k⟩ := by
  induction k generalizing exponent with
  | zero => simp
  | succ k ih =>
      rw [pow_succ', Nat.mul_assoc, normalize_ten negative (by positivity), ih]
      congr 2
      push_cast
      ring

/-- Two spellings of a value that is not zero are normalized alike. -/
theorem normalize_eq {a b : PyDecimal} (hValue : a.value = b.value) (ha : a.coefficient ≠ 0) :
    a.normalize = b.normalize := by
  wlog hLe : a.exponent ≤ b.exponent generalizing a b
  · refine (this hValue.symm ?_ (by omega)).symm
    intro hb
    rw [value, value, hb, Nat.cast_zero, mul_zero, zero_mul] at hValue
    have hCast : (a.coefficient : ℚ) ≠ 0 := Nat.cast_ne_zero.mpr ha
    have hPower : (10 : ℚ) ^ a.exponent ≠ 0 := by positivity
    cases hSign : a.negative <;> simp [hSign, hCast, hPower] at hValue
  obtain ⟨k, hk⟩ := Int.eq_ofNat_of_zero_le (sub_nonneg.mpr hLe)
  have hExponent : b.exponent = a.exponent + k := by omega
  have hSigned : (if a.negative then (-1 : ℚ) else 1) * a.coefficient =
      (if b.negative then (-1 : ℚ) else 1) * (10 ^ k * b.coefficient : ℕ) := by
    have hPower : (10 : ℚ) ^ a.exponent ≠ 0 := by positivity
    rw [value, value, hExponent, zpow_add₀ (by norm_num), zpow_natCast] at hValue
    refine mul_right_cancel₀ hPower (hValue.trans ?_)
    push_cast
    ring
  have hPos : (0 : ℚ) < a.coefficient := Nat.cast_pos.mpr (Nat.pos_of_ne_zero ha)
  have hOther : (0 : ℚ) ≤ (10 ^ k * b.coefficient : ℕ) := Nat.cast_nonneg _
  have hSign : a.negative = b.negative := by
    cases hA : a.negative <;> cases hB : b.negative <;> simp only [hA, hB, if_true, if_false, Bool.false_eq_true,
      one_mul, neg_one_mul] at hSigned ⊢ <;> linarith
  have hCoefficient : a.coefficient = 10 ^ k * b.coefficient := by
    rw [hSign] at hSigned
    have hCast : (a.coefficient : ℚ) = (10 ^ k * b.coefficient : ℕ) := by
      cases hB : b.negative <;> simp only [hB, if_true, if_false, Bool.false_eq_true, one_mul,
        neg_one_mul, neg_inj] at hSigned <;> exact hSigned
    exact_mod_cast hCast
  have hb : b.coefficient ≠ 0 := by
    intro hZero
    rw [hZero, Nat.mul_zero] at hCoefficient
    exact ha hCoefficient
  have hShift := normalize_pow b.negative hb k a.exponent
  rw [← hCoefficient, ← hExponent, ← hSign] at hShift
  cases a
  cases b
  cases hSign
  exact hShift

/-- What is normalized has the rounded value, and no zero at its end. -/
theorem normalize_spec {d q : PyDecimal} (h : d.normalize = some q) :
    q.value = (if d.negative then -1 else 1) * roundToContext d.coefficient * 10 ^ d.exponent ∧
      (q.coefficient % 10 ≠ 0 ∨ q.coefficient = 0 ∧ q.exponent = 0) := by
  unfold normalize at h
  dsimp only at h
  by_cases hZero : roundToContext d.coefficient = 0
  · rw [if_pos hZero] at h
    cases h
    rw [hZero]
    simp [value]
  · rw [if_neg hZero] at h
    obtain ⟨hValue, hLast⟩ := stripZeros_spec hZero d.exponent
    split at h
    · cases h
    · cases h
      refine ⟨?_, Or.inl hLast⟩
      rw [value, mul_assoc, hValue, mul_assoc]

theorem plain_value (q : PyDecimal) : q.plain.value = q.value := by
  have hPower : (10 : ℚ) ^ q.exponent.toNat / 10 ^ (-q.exponent).toNat = 10 ^ q.exponent := by
    cases q.exponent with
    | ofNat k => simp
    | negSucc k =>
        rw [zpow_negSucc, Int.neg_negSucc, Int.toNat_negSucc, pow_zero, one_div]
        rfl
  rw [Numeral.value_eq, plain, fixed_scale, fixed_coefficient, value, ← hPower]
  cases q.negative with
  | false =>
      simp only [Bool.false_eq_true, if_false]
      push_cast
      ring
  | true =>
      simp only [if_true]
      push_cast
      ring

end PyDecimal

end Normal

section Written

theorem toLower_ne_exponent {x : Numeral} : 'e' ∉ x.chars.map Char.toLower := by
  intro h
  obtain ⟨c, hc, hLower⟩ := List.mem_map.mp h
  rcases Numeral.sign_point_or_digit hc with rfl | hDigit | rfl
  · exact absurd hLower (by decide)
  · have hRange : 48 ≤ c.toNat ∧ c.toNat ≤ 57 := Char.isDigit_iff_toNat.mp hDigit
    rw [← Char.ofNat_toNat c] at hLower
    generalize c.toNat = n at hRange hLower
    obtain ⟨hLow, hHigh⟩ := hRange
    interval_cases n <;> exact absurd hLower (by decide)
  · exact absurd hLower (by decide)

/-- A normalized decimal is written as it is, except for a negative zero. -/
theorem formatDecimal_eq {d q : PyDecimal} (h : d.normalize = some q) :
    formatDecimal d =
      .ok (String.ofList (if q.plain.chars = ['-', '0'] then ['0'] else q.plain.chars)) := by
  have hStripped : (if '.' ∈ q.plain.chars then (q.plain.chars.rdropWhile (· = '0')).rdropWhile (· = '.')
      else q.plain.chars) = q.plain.chars := by
    split
    · next hPoint =>
      have hScale := Numeral.scale_pos_of_point hPoint
      rw [PyDecimal.plain, fixed_scale] at hScale
      have hLast : (q.coefficient * 10 ^ q.exponent.toNat) % 10 ≠ 0 := by
        have hWhole : q.exponent.toNat = 0 := by omega
        rw [hWhole, pow_zero, Nat.mul_one]
        rcases (PyDecimal.normalize_spec h).2 with hLast | ⟨-, hZero⟩
        · exact hLast
        · omega
      obtain ⟨front, hChars⟩ := fixed_chars_last q.negative (q.coefficient * 10 ^ q.exponent.toNat) hScale
      have hRest : (q.coefficient * 10 ^ q.exponent.toNat) % 10 < 10 := Nat.mod_lt _ (by norm_num)
      rw [PyDecimal.plain, hChars, List.rdropWhile_concat_neg _ _ _ ?_, List.rdropWhile_concat_neg _ _ _ ?_]
      · generalize (q.coefficient * 10 ^ q.exponent.toNat) % 10 = digit at hRest
        interval_cases digit <;> decide
      · generalize (q.coefficient * 10 ^ q.exponent.toNat) % 10 = digit at hRest hLast
        interval_cases digit <;> first | exact absurd rfl hLast | decide
    · rfl
  unfold formatDecimal
  rw [h]
  dsimp only
  rw [hStripped]
  split
  · rfl
  · rw [if_neg toLower_ne_exponent]

/-- What is written is a plain numeral of the normalized value. -/
theorem formatDecimal_numeral {d q : PyDecimal} (h : d.normalize = some q) :
    ∃ x : Numeral, formatDecimal d = .ok x.text ∧ x.value = q.value := by
  rw [formatDecimal_eq h]
  split
  · next hZero =>
    refine ⟨fixed false 0 0, rfl, ?_⟩
    rw [← q.plain_value, Numeral.value_of_minus_zero hZero, Numeral.value_eq, fixed_coefficient]
    simp
  · exact ⟨q.plain, rfl, q.plain_value⟩

/-- Equal decimals that are written at all are written alike. -/
theorem formatDecimal_congr {a b : PyDecimal} (hValue : a.value = b.value) : formatDecimal a = formatDecimal b := by
  by_cases ha : a.coefficient = 0
  · have hb : b.coefficient = 0 := by
      by_contra hb
      rw [PyDecimal.value, PyDecimal.value, ha, Nat.cast_zero, mul_zero, zero_mul] at hValue
      have hCast : (b.coefficient : ℚ) ≠ 0 := Nat.cast_ne_zero.mpr hb
      have hPower : (10 : ℚ) ^ b.exponent ≠ 0 := by positivity
      cases hSign : b.negative <;> simp [hSign, hCast, hPower] at hValue
    have hZero (d : PyDecimal) (hd : d.coefficient = 0) : formatDecimal d = .ok "0" := by
      have hNormal : d.normalize = some ⟨d.negative, 0, 0⟩ := by
        rw [PyDecimal.normalize, hd]
        rfl
      rw [formatDecimal_eq hNormal]
      cases d.negative <;> rfl
    rw [hZero a ha, hZero b hb]
  · unfold formatDecimal
    rw [PyDecimal.normalize_eq hValue ha]

/-- A decimal is written with its value exactly when its coefficient fits the context. -/
theorem formatDecimal_exact_iff {d : PyDecimal} {s : String} (h : formatDecimal d = .ok s) :
    (∃ x : Numeral, s = x.text ∧ x.value = d.value) ↔ Fits d.coefficient := by
  rcases Option.eq_none_or_eq_some d.normalize with hNone | ⟨q, hNormal⟩
  · unfold formatDecimal at h
    rw [hNone] at h
    cases h
  obtain ⟨x, hText, hValue⟩ := formatDecimal_numeral hNormal
  rw [hText] at h
  obtain rfl := Except.ok.inj h
  have hOnly : (∃ y : Numeral, x.text = y.text ∧ y.value = d.value) ↔ x.value = d.value := by
    constructor
    · rintro ⟨y, hSame, hExact⟩
      rw [Numeral.text_injective hSame]
      exact hExact
    · exact fun hExact => ⟨x, rfl, hExact⟩
  have hPower : (10 : ℚ) ^ d.exponent ≠ 0 := by positivity
  have hSign : (if d.negative then (-1 : ℚ) else 1) ≠ 0 := by
    cases d.negative <;> norm_num
  rw [hOnly, hValue, (PyDecimal.normalize_spec hNormal).1, PyDecimal.value, mul_left_inj' hPower,
    mul_right_inj' hSign, Nat.cast_inj, roundToContext_eq_iff]

end Written

end GeoLedger.CanonicalJson

import Mathlib
import GeoLedger.Admin.GraphAnalytics

/-! The decimals of the admin interface against the amounts they show: cutting
the digits of a text is truncating its amount, and comparing aligned integers
is comparing the amounts. -/
namespace GeoLedger.GraphAnalytics

section Digits

theorem digitsValue_lt {digits : List Nat} (h : ∀ d ∈ digits, d < 10) : digitsValue digits < 10 ^ digits.length := by
  rw [digitsValue_eq_ofDigits, ← List.length_reverse]
  exact Nat.ofDigits_lt_base_pow_length (by norm_num) fun d hd => h d (List.mem_reverse.mp hd)

theorem digitsValue_replicate_zero (n : Nat) : digitsValue (List.replicate n 0) = 0 := by
  rw [digitsValue_eq_ofDigits, List.reverse_replicate, Nat.ofDigits_replicate_zero]

/-- Padding with zeros and keeping the first digits divides by what is cut off. -/
theorem digitsValue_take_padded (int frac : List Nat) (hFrac : ∀ d ∈ frac, d < 10) (precision : Nat) :
    digitsValue (int ++ (frac ++ List.replicate precision 0).take precision) =
      digitsValue (int ++ frac) * 10 ^ precision / 10 ^ frac.length := by
  set padded := frac ++ List.replicate precision 0 with hPadded
  have hRest : (padded.drop precision).length = frac.length := by simp [hPadded]
  have hSmall : digitsValue (padded.drop precision) < 10 ^ frac.length := by
    rw [← hRest]
    refine digitsValue_lt fun d hd => ?_
    rcases List.mem_append.mp (List.mem_of_mem_drop hd) with hIn | hZero
    · exact hFrac d hIn
    · rw [List.eq_of_mem_replicate hZero]
      norm_num
  have hShift : digitsValue (int ++ frac) * 10 ^ precision =
      digitsValue (int ++ padded.take precision) * 10 ^ frac.length + digitsValue (padded.drop precision) := by
    calc digitsValue (int ++ frac) * 10 ^ precision
        = digitsValue (int ++ padded) := by
          rw [hPadded, ← List.append_assoc, digitsValue_append (int ++ frac), digitsValue_replicate_zero,
            List.length_replicate, add_zero]
      _ = digitsValue ((int ++ padded.take precision) ++ padded.drop precision) := by
          rw [List.append_assoc, List.take_append_drop]
      _ = _ := by rw [digitsValue_append, hRest]
  rw [hShift, mul_comm, Nat.mul_add_div (by positivity), Nat.div_eq_of_lt hSmall, add_zero]

/-- The digits of a matched text are decimal digits. -/
theorem lt_of_jsDigits? {text : List Char} {digits : List Nat} (h : jsDigits? text = some digits) :
    ∀ d ∈ digits, d < 10 := by
  unfold jsDigits? at h
  split at h
  · cases h
  · clear * - h
    induction text generalizing digits with
    | nil =>
        cases h
        simp
    | cons c rest ih =>
        rw [List.mapM_cons] at h
        obtain ⟨first, hFirst, hTail⟩ := Option.bind_eq_some_iff.mp h
        obtain ⟨others, hOthers, hAll⟩ := Option.bind_eq_some_iff.mp hTail
        cases hAll
        intro d hd
        rcases List.mem_cons.mp hd with rfl | hLater
        · split at hFirst
          · next hDigit =>
              cases hFirst
              simp only [charIn, Bool.and_eq_true, decide_eq_true_eq] at hDigit
              have hNine : '9'.toNat = '0'.toNat + 9 := rfl
              omega
          · cases hFirst
        · exact ih hOthers d hLater

theorem lt_of_matchDecimal {text : String} {neg : Bool} {int frac : List Nat}
    (h : matchDecimal text = some (neg, int, frac)) : ∀ d ∈ frac, d < 10 := by
  simp only [matchDecimal] at h
  split at h
  · obtain ⟨_, _, hEq⟩ := Option.map_eq_some_iff.mp h
    cases hEq
    simp
  · split at h
    · next hFrac =>
        cases h
        exact lt_of_jsDigits? hFrac
    · cases h

end Digits

section Shown

/-- A text shows an amount. -/
def Shows (text : String) (amount : Amount) : Prop := ∃ d, parseDecimal text = some d ∧ d.value = amount

theorem decimalToAtoms_neg (value : Amount) (precision : Nat) :
    GeoLedger.decimalToAtoms (-value) precision = -GeoLedger.decimalToAtoms value precision := by
  rcases lt_trichotomy value 0 with hNeg | rfl | hPos
  · simp [GeoLedger.decimalToAtoms, hNeg, hNeg.not_gt]
  · simp [GeoLedger.decimalToAtoms]
  · simp [GeoLedger.decimalToAtoms, hPos, hPos.not_gt]

/-- The atoms of a text are the atoms of the amount it shows. -/
theorem Shows.atoms {text : String} {amount : Amount} (h : Shows text amount) (precision : Nat) :
    decimalToAtoms text precision = GeoLedger.decimalToAtoms amount precision := by
  obtain ⟨d, hParsed, rfl⟩ := h
  obtain ⟨⟨neg, int, frac⟩, hMatch, rfl⟩ := Option.map_eq_some_iff.mp hParsed
  have hMagnitude : (digitsValue (int ++ (frac ++ List.replicate precision 0).take precision) : ℤ) =
      GeoLedger.decimalToAtoms (digitsValue (int ++ frac) / 10 ^ frac.length) precision := by
    rw [GeoLedger.decimalToAtoms_eq, Truncation.truncate_of_nonneg (by positivity),
      digitsValue_take_padded int frac (lt_of_matchDecimal hMatch), div_mul_eq_mul_div]
    have hFloor := Rat.floor_natCast_div_natCast (digitsValue (int ++ frac) * 10 ^ precision) (10 ^ frac.length)
    push_cast at hFloor ⊢
    exact hFloor.symm
  cases neg with
  | false => simpa [decimalToAtoms, hMatch, BigDec.value] using hMagnitude
  | true =>
      have hNegated := congrArg Neg.neg hMagnitude
      rw [← decimalToAtoms_neg] at hNegated
      simpa [decimalToAtoms, hMatch, BigDec.value, neg_div] using hNegated

/-- Aligning a decimal to a larger scale scales its amount. -/
theorem BigDec.aligned (d : BigDec) {s : Nat} (hScale : d.scale ≤ s) :
    (d.i : ℚ) * 10 ^ (s - d.scale) = d.value * 10 ^ s := by
  obtain ⟨k, rfl⟩ := Nat.exists_eq_add_of_le hScale
  rw [BigDec.value, Nat.add_sub_cancel_left, pow_add]
  field_simp

/-- Aligning two decimals and clearing the denominators compares the amounts. -/
theorem isRatioBelowThreshold_iff {numerator denominator threshold : String} {available limit : Amount}
    (hNumerator : Shows numerator available) (hDenominator : Shows denominator limit) {thr : BigDec}
    (hThreshold : parseDecimal threshold = some thr) (hUnsigned : 0 ≤ thr.i) :
    isRatioBelowThreshold numerator denominator threshold = true ↔
      limit ≠ 0 ∧ available < limit * thr.value := by
  obtain ⟨num, hNum, rfl⟩ := hNumerator
  obtain ⟨den, hDen, rfl⟩ := hDenominator
  have hZero : den.value = 0 ↔ den.i = 0 := by simp [BigDec.value]
  simp only [isRatioBelowThreshold, hNum, hDen, hThreshold]
  by_cases hEmpty : den.i = 0
  · simp [hEmpty, hZero.mpr hEmpty]
  · have hUnit : (0 : ℚ) < 10 ^ max num.scale den.scale := by positivity
    have hThrUnit : (0 : ℚ) < 10 ^ thr.scale := by positivity
    have hThr : thr.value = thr.i / 10 ^ thr.scale := rfl
    rw [if_neg hEmpty, if_neg (not_lt.mpr hUnsigned), decide_eq_true_eq, and_iff_right (mt hZero.mp hEmpty),
      ← @Int.cast_lt ℚ]
    push_cast
    rw [num.aligned (le_max_left _ _), den.aligned (le_max_right _ _), hThr, ← mul_div_assoc,
      lt_div_iff₀ hThrUnit, mul_right_comm num.value, mul_right_comm den.value, mul_lt_mul_iff_left₀ hUnit]

end Shown

end GeoLedger.GraphAnalytics

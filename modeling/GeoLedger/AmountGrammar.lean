import Mathlib
import GeoLedger.Validation

/-! The grammar of amounts, stated apart from the parser: an optional minus, digits
and an optional fraction, over any alphabet of digits. The parser accepts it over
the decimal digits of every script. -/
namespace GeoLedger.AmountGrammar

section Grammar

variable (digit? : Char → Option Nat)

/-- One or more digits, with the value of each. -/
def Digits (text : List Char) (values : List Nat) : Prop :=
  text ≠ [] ∧ text.map digit? = values.map some

/-- Digits, and possibly a point and digits after it. -/
inductive Unsigned : List Char → List Nat → List Nat → Prop
  | whole {text int} : Digits digit? text int → Unsigned text int []
  | fraction {whole part int frac} : Digits digit? whole int → Digits digit? part frac →
      Unsigned (whole ++ '.' :: part) int frac

/-- A plain decimal text: an unsigned one, possibly after a minus. -/
inductive Plain : List Char → Bool → List Nat → List Nat → Prop
  | unsigned {text int frac} : Unsigned digit? text int frac → Plain text false int frac
  | minus {text int frac} : Unsigned digit? text int frac → Plain ('-' :: text) true int frac

variable {digit?}

theorem Digits.exists_of_mem {text : List Char} {values : List Nat}
    (h : Digits digit? text values) {c : Char} (hIn : c ∈ text) : ∃ d, digit? c = some d := by
  have hMapped : digit? c ∈ values.map some := h.2 ▸ List.mem_map_of_mem hIn
  obtain ⟨d, _, hDigit⟩ := List.mem_map.mp hMapped
  exact ⟨d, hDigit.symm⟩

theorem Unsigned.point_or_digit {text : List Char} {int frac : List Nat} (h : Unsigned digit? text int frac)
    {c : Char} (hIn : c ∈ text) : c = '.' ∨ ∃ d, digit? c = some d := by
  cases h with
  | whole hWhole => exact .inr (hWhole.exists_of_mem hIn)
  | fraction hWhole hPart =>
      rcases List.mem_append.mp hIn with hIn | hIn
      · exact .inr (hWhole.exists_of_mem hIn)
      · rcases List.mem_cons.mp hIn with rfl | hIn
        · exact .inl rfl
        · exact .inr (hPart.exists_of_mem hIn)

/-- The characters of a plain decimal are its sign, its point and digits. -/
theorem Plain.sign_point_or_digit {text : List Char} {negative : Bool} {int frac : List Nat}
    (h : Plain digit? text negative int frac) {c : Char} (hIn : c ∈ text) :
    c = '-' ∨ c = '.' ∨ ∃ d, digit? c = some d := by
  cases h with
  | unsigned hUnsigned => exact .inr (hUnsigned.point_or_digit hIn)
  | minus hUnsigned =>
      rcases List.mem_cons.mp hIn with rfl | hIn
      · exact .inl rfl
      · exact .inr (hUnsigned.point_or_digit hIn)

variable {other? : Char → Option Nat}

theorem Digits.mono {text : List Char} {values : List Nat} (h : Digits digit? text values)
    (hSub : ∀ c ∈ text, ∀ d, digit? c = some d → other? c = some d) : Digits other? text values := by
  refine ⟨h.1, h.2 ▸ List.map_congr_left fun c hIn => ?_⟩
  obtain ⟨d, hDigit⟩ := h.exists_of_mem hIn
  rw [hDigit, hSub c hIn d hDigit]

/-- A text stays plain under an alphabet that reads its digits in the same way. -/
theorem Plain.mono {text : List Char} {negative : Bool} {int frac : List Nat}
    (h : Plain digit? text negative int frac)
    (hSub : ∀ c ∈ text, ∀ d, digit? c = some d → other? c = some d) :
    Plain other? text negative int frac := by
  have hUnsigned : ∀ {rest : List Char}, Unsigned digit? rest int frac → (∀ c ∈ rest, c ∈ text) →
      Unsigned other? rest int frac := by
    intro rest hRest hIn
    cases hRest with
    | whole hWhole => exact .whole (hWhole.mono fun c hc => hSub c (hIn c hc))
    | fraction hWhole hPart =>
        exact .fraction (hWhole.mono fun c hc => hSub c (hIn c (by simp [hc])))
          (hPart.mono fun c hc => hSub c (hIn c (by simp [hc])))
  cases h with
  | unsigned hPlain => exact .unsigned (hUnsigned hPlain fun c hc => hc)
  | minus hPlain => exact .minus (hUnsigned hPlain fun c hc => List.mem_cons_of_mem _ hc)

end Grammar

/-- The rational that a sign and the digits before and after the point denote. -/
def denoted (negative : Bool) (int frac : List Nat) : Amount :=
  (if negative then -1 else 1) *
    (Nat.ofDigits 10 int.reverse + Nat.ofDigits 10 frac.reverse / 10 ^ frac.length)

/-- What an amount may be: its scale, its number of digits and its sign. -/
structure Bounds where
  maxScale : Option Nat
  maxPrecision : Option Nat
  requirePositive : Bool

/-- The text is a plain decimal within the bounds and denotes the amount. -/
def Reads (digit? : Char → Option Nat) (bounds : Bounds) (text : List Char) (v : Amount) : Prop :=
  ∃ negative int frac, Plain digit? text negative int frac ∧ v = denoted negative int frac ∧
    (∀ scale ∈ bounds.maxScale, frac.length ≤ scale) ∧
    (∀ precision ∈ bounds.maxPrecision, int.length + frac.length ≤ precision) ∧
    (bounds.requirePositive = true → 0 < v)

/-- The digits of `[0-9]`. -/
def asciiDigit? (c : Char) : Option Nat := if charIn '0' '9' c then some (c.toNat - 48) else none

section Characters

/-- A digit lies in the ten code points after a zero. -/
theorem exists_zero {c : Char} {d : Nat} (h : pyDigit? c = some d) :
    ∃ z ∈ digitZeros, c.toNat = z + d ∧ d < 10 := by
  obtain ⟨z, hFind, rfl⟩ := Option.map_eq_some_iff.mp h
  have hRange := List.find?_some hFind
  simp only [decide_eq_true_eq] at hRange
  exact ⟨z, List.mem_of_find?_eq_some hFind, by omega, by omega⟩

theorem eq_or_le_of_mem_digitZeros : ∀ z ∈ digitZeros, z = 0x30 ∨ 0x660 ≤ z := by decide

/-- Below the Arabic digits there are those of `[0-9]` only. -/
theorem pyDigit?_eq_none {c : Char} (hLow : c.toNat < 0x660) (hOut : c.toNat < 0x30 ∨ 0x3a ≤ c.toNat) :
    pyDigit? c = none := by
  cases hDigit : pyDigit? c with
  | none => rfl
  | some d =>
      obtain ⟨z, hZero, hCode, hLt⟩ := exists_zero hDigit
      have := eq_or_le_of_mem_digitZeros z hZero
      omega

/-- Where the white space of the language lies. -/
theorem whitespace_blocks {c : Char} (h : isPyWhitespace c = true) :
    c.toNat < 0x30 ∨ (0x80 ≤ c.toNat ∧ c.toNat < 0x100) ∨ c.toNat = 0x1680 ∨
      (0x2000 ≤ c.toNat ∧ c.toNat < 0x2060) ∨ c.toNat = 0x3000 := by
  simp only [isPyWhitespace, Bool.or_eq_true, Bool.and_eq_true, decide_eq_true_eq] at h
  omega

theorem pyDigit?_of_whitespace {c : Char} (h : isPyWhitespace c = true) : pyDigit? c = none := by
  have hApart : ∀ z ∈ digitZeros, (z + 10 ≤ 0x1680 ∨ 0x1680 < z) ∧ (z + 10 ≤ 0x2000 ∨ 0x2060 ≤ z) ∧
      (z + 10 ≤ 0x3000 ∨ 0x3000 < z) := by decide
  cases hDigit : pyDigit? c with
  | none => rfl
  | some d =>
      obtain ⟨z, hZero, hCode, hLt⟩ := exists_zero hDigit
      have hBlocks := hApart z hZero
      have hLow := eq_or_le_of_mem_digitZeros z hZero
      rcases whitespace_blocks h with hSpace | hSpace | hSpace | hSpace | hSpace <;> omega

/-- No digit is an ASCII letter. -/
theorem toLower_of_digit {c : Char} {d : Nat} (h : pyDigit? c = some d) : c.toLower = c := by
  obtain ⟨z, hZero, hCode, hLt⟩ := exists_zero h
  have hOut := eq_or_le_of_mem_digitZeros z hZero
  unfold Char.toLower
  rw [dif_neg]
  rintro ⟨hLow, hHigh⟩
  have hLow' : 65 ≤ c.toNat := hLow
  have hHigh' : c.toNat ≤ 90 := hHigh
  omega

/-- The digits of `[0-9]` are digits of the language, with the same values. -/
theorem pyDigit?_of_ascii {c : Char} {d : Nat} (h : asciiDigit? c = some d) : pyDigit? c = some d := by
  unfold asciiDigit? at h
  split at h
  · next hIn =>
      cases h
      simp only [charIn, Bool.and_eq_true, decide_eq_true_eq] at hIn
      have hLow : 48 ≤ c.toNat := hIn.1
      have hHigh : c.toNat ≤ 57 := hIn.2
      have hFind : digitZeros.find? (fun z => z ≤ c.toNat ∧ c.toNat < z + 10) = some 0x30 := by
        rw [digitZeros, List.find?_cons_of_pos]
        simp only [decide_eq_true_eq]
        omega
      rw [pyDigit?, hFind]
      rfl
  · cases h

end Characters

section Parser

theorem mapM_eq_some_iff {digit? : Char → Option Nat} {text : List Char} {values : List Nat} :
    text.mapM digit? = some values ↔ text.map digit? = values.map some := by
  induction text generalizing values with
  | nil => cases values <;> simp
  | cons c rest ih =>
      cases values with
      | nil => simp [List.mapM_cons, Option.bind_eq_some_iff]
      | cons d later =>
          simp only [List.mapM_cons, Option.bind_eq_bind, Option.bind_eq_some_iff, Option.pure_def,
            Option.some.injEq, List.cons.injEq, List.map_cons, ih]
          constructor
          · rintro ⟨first, hFirst, others, hOthers, rfl, rfl⟩
            exact ⟨hFirst, hOthers⟩
          · rintro ⟨hFirst, hOthers⟩
            exact ⟨d, hFirst, later, hOthers, rfl, rfl⟩

theorem pyDigits?_eq_some_iff {text : List Char} {values : List Nat} :
    pyDigits? text = some values ↔ Digits pyDigit? text values := by
  unfold pyDigits? Digits
  split
  · next hEmpty => simp [hEmpty]
  · next hNonempty => simp [hNonempty, mapM_eq_some_iff]

/-- There is no point among digits. -/
theorem Digits.ne_point {text : List Char} {values : List Nat} (h : Digits pyDigit? text values) :
    ∀ c ∈ text, c ≠ '.' := by
  rintro c hIn rfl
  obtain ⟨d, hDigit⟩ := h.exists_of_mem hIn
  have hNone : pyDigit? '.' = none := pyDigit?_eq_none (by decide) (by decide)
  rw [hNone] at hDigit
  cases hDigit

theorem Digits.span_point {whole : List Char} {int : List Nat} (h : Digits pyDigit? whole int)
    (rest : List Char) : (whole ++ '.' :: rest).span (· ≠ '.') = (whole, '.' :: rest) := by
  have hAll : ∀ c ∈ whole, decide (c ≠ '.') = true := fun c hc => decide_eq_true (h.ne_point c hc)
  rw [List.span_eq_takeWhile_dropWhile, List.takeWhile_append_of_pos hAll, List.dropWhile_append_of_pos hAll]
  simp

theorem Digits.span_whole {whole : List Char} {int : List Nat} (h : Digits pyDigit? whole int) :
    whole.span (· ≠ '.') = (whole, []) := by
  have hAll : ∀ c ∈ whole, decide (c ≠ '.') = true := fun c hc => decide_eq_true (h.ne_point c hc)
  rw [List.span_eq_takeWhile_dropWhile, List.takeWhile_eq_self_iff.mpr hAll, List.dropWhile_eq_nil_iff.mpr hAll]

/-- The split at the first point accepts the unsigned texts and reads their digits. -/
theorem decimalParts_eq_some_iff {text : List Char} {int frac : List Nat} :
    decimalParts text = some (int, frac) ↔ Unsigned pyDigit? text int frac := by
  constructor
  · intro h
    have hText := List.takeWhile_append_dropWhile (p := fun c => decide (c ≠ '.')) (l := text)
    unfold decimalParts at h
    rw [List.span_eq_takeWhile_dropWhile] at h
    split at h
    · next intPart hSpan =>
        obtain ⟨hTake, hDrop⟩ := Prod.mk.inj hSpan
        obtain ⟨digits, hDigits, hEq⟩ := Option.map_eq_some_iff.mp h
        cases hEq
        rw [hDrop, List.append_nil] at hText
        rw [← hText, hTake]
        exact .whole (pyDigits?_eq_some_iff.mp hDigits)
    · next intPart c fracPart hSpan =>
        obtain ⟨hTake, hDrop⟩ := Prod.mk.inj hSpan
        have hPoint : c = '.' := by
          have hHead := List.head?_dropWhile_not (fun c => decide (c ≠ '.')) text
          rw [hDrop] at hHead
          simpa using hHead
        split at h
        · next whole part hWhole hPart =>
            cases h
            rw [← hText, hTake, hDrop, hPoint]
            exact .fraction (pyDigits?_eq_some_iff.mp hWhole) (pyDigits?_eq_some_iff.mp hPart)
        · cases h
  · intro h
    cases h with
    | whole hWhole =>
        simp only [decimalParts, hWhole.span_whole, pyDigits?_eq_some_iff.mpr hWhole, Option.map_some]
    | fraction hWhole hPart =>
        simp only [decimalParts, hWhole.span_point, pyDigits?_eq_some_iff.mpr hWhole,
          pyDigits?_eq_some_iff.mpr hPart]

/-- The decimal of all digits over a power of ten is the one of the two parts. -/
theorem denoted_eq (negative : Bool) (int frac : List Nat) :
    denoted negative int frac =
      if negative then -((digitsValue (int ++ frac) : Amount) / 10 ^ frac.length)
      else (digitsValue (int ++ frac) : Amount) / 10 ^ frac.length := by
  have hPower : (10 : Amount) ^ frac.length ≠ 0 := by positivity
  have hSum : (digitsValue (int ++ frac) : Amount) / 10 ^ frac.length =
      Nat.ofDigits 10 int.reverse + Nat.ofDigits 10 frac.reverse / 10 ^ frac.length := by
    rw [digitsValue_append, digitsValue_eq_ofDigits, digitsValue_eq_ofDigits]
    push_cast
    field_simp
  rw [hSum]
  cases negative <;> simp [denoted]

/-- The sign test and the split accept the plain decimals. -/
theorem plain_iff {text : List Char} {negative : Bool} {int frac : List Nat} :
    Plain pyDigit? text negative int frac ↔
      decide (text.head? = some '-') = negative ∧
        decimalParts (if text.head? = some '-' then text.tail else text) = some (int, frac) := by
  constructor
  · intro h
    cases h with
    | unsigned hUnsigned =>
        have hHead : text.head? ≠ some '-' := by
          intro hMinus
          have hIn : '-' ∈ text := List.mem_of_head? hMinus
          have hNone : pyDigit? '-' = none := pyDigit?_eq_none (by decide) (by decide)
          rcases hUnsigned.point_or_digit hIn with hPoint | ⟨d, hDigit⟩
          · exact absurd hPoint (by decide)
          · rw [hNone] at hDigit
            cases hDigit
        rw [if_neg hHead]
        exact ⟨decide_eq_false hHead, decimalParts_eq_some_iff.mpr hUnsigned⟩
    | minus hUnsigned => exact ⟨rfl, decimalParts_eq_some_iff.mpr hUnsigned⟩
  · rintro ⟨rfl, hParts⟩
    split at hParts
    · next hMinus =>
        cases text with
        | nil => cases hMinus
        | cons c rest =>
            obtain rfl := Option.some.inj hMinus
            exact .minus (decimalParts_eq_some_iff.mp hParts)
    · next hHead =>
        rw [decide_eq_false hHead]
        exact .unsigned (decimalParts_eq_some_iff.mp hParts)

variable {text : List Char} {negative : Bool} {int frac : List Nat}

theorem Plain.ne_nil (h : Plain pyDigit? text negative int frac) : text ≠ [] := by
  rintro rfl
  cases h with
  | unsigned hUnsigned =>
      generalize hText : ([] : List Char) = text at hUnsigned
      cases hUnsigned with
      | whole hWhole => exact hWhole.1 hText.symm
      | fraction hWhole hPart => simp at hText

/-- No white space, so nothing to strip. -/
theorem Plain.strip_eq (h : Plain pyDigit? text negative int frac) : text = pyStrip text := by
  have hInk : ∀ c ∈ text, isPyWhitespace c = false := by
    intro c hIn
    rw [← Bool.not_eq_true]
    intro hSpace
    rcases h.sign_point_or_digit hIn with rfl | rfl | ⟨d, hDigit⟩
    · exact absurd hSpace (by decide)
    · exact absurd hSpace (by decide)
    · rw [pyDigit?_of_whitespace hSpace] at hDigit
      cases hDigit
  have hKeeps : ∀ {rest : List Char}, (∀ c ∈ rest, isPyWhitespace c = false) →
      rest.dropWhile isPyWhitespace = rest := by
    intro rest hRest
    cases rest with
    | nil => rfl
    | cons c others => rw [List.dropWhile_cons_of_neg (by simp [hRest c List.mem_cons_self])]
  rw [pyStrip, hKeeps hInk, hKeeps fun c hc => hInk c (List.mem_reverse.mp hc), List.reverse_reverse]

/-- Lower case letters that are not digits do not occur. -/
theorem Plain.notMem_lower (h : Plain pyDigit? text negative int frac) {letter : Char}
    (hLetter : pyDigit? letter = none ∧ letter ≠ '-' ∧ letter ≠ '.') : letter ∉ pyLower text := by
  intro hIn
  obtain ⟨c, hMem, hLower⟩ := List.mem_map.mp hIn
  rcases h.sign_point_or_digit hMem with rfl | rfl | ⟨d, hDigit⟩
  · exact hLetter.2.1 hLower.symm
  · exact hLetter.2.2 hLower.symm
  · rw [toLower_of_digit hDigit] at hLower
    rw [hLower, hLetter.1] at hDigit
    cases hDigit

/-- The forbidden literals all have an `n`. -/
theorem Plain.notMem_forbidden (h : Plain pyDigit? text negative int frac) :
    String.ofList (pyLower text) ∉ forbiddenAmountLiterals := by
  have hAll : ∀ word ∈ forbiddenAmountLiterals, 'n' ∈ word.toList := by decide
  intro hIn
  have hLetter := hAll _ hIn
  rw [String.toList_ofList] at hLetter
  exact h.notMem_lower ⟨pyDigit?_eq_none (by decide) (by decide), by decide, by decide⟩ hLetter

end Parser

section Verdicts

variable {amount : String} {negative : Bool} {int frac : List Nat}

/-- On a plain decimal the parser checks the bounds and returns what it denotes. -/
theorem parseAmountDecimal_of_plain (h : Plain pyDigit? amount.toList negative int frac) (bounds : Bounds) :
    parseAmountDecimal amount bounds.maxScale bounds.maxPrecision bounds.requirePositive =
      if bounds.maxScale.any (· < frac.length) then .error (.badRequest "Invalid amount format")
      else if bounds.maxPrecision.any (· < int.length + frac.length) then
        .error (.badRequest "Invalid amount format")
      else if bounds.requirePositive && denoted negative int frac ≤ 0 then
        .error (.badRequest "Amount must be positive")
      else .ok (denoted negative int frac) := by
  have hExponent : 'e' ∉ pyLower amount.toList :=
    h.notMem_lower ⟨pyDigit?_eq_none (by decide) (by decide), by decide, by decide⟩
  obtain ⟨hSign, hParts⟩ := plain_iff.mp h
  rw [denoted_eq, ← hSign]
  unfold parseAmountDecimal
  simp only [if_neg h.ne_nil, if_neg (not_not_intro h.strip_eq), if_neg h.notMem_forbidden,
    if_neg hExponent, hParts, decide_eq_true_eq]

/-- Any other text is turned down. -/
theorem parseAmountDecimal_of_not_plain
    (h : ∀ negative int frac, ¬Plain pyDigit? amount.toList negative int frac)
    (maxScale maxPrecision : Option Nat) (requirePositive : Bool) :
    parseAmountDecimal amount maxScale maxPrecision requirePositive =
      .error (.badRequest "Invalid amount format") := by
  have hParts : decimalParts (if amount.toList.head? = some '-' then amount.toList.tail
      else amount.toList) = none := by
    rw [Option.eq_none_iff_forall_ne_some]
    rintro ⟨int, frac⟩ hSome
    exact h _ int frac (plain_iff.mpr ⟨rfl, hSome⟩)
  unfold parseAmountDecimal
  simp only [hParts, ite_self]

/-- What the parser accepts: the grammar over the digits of every script. -/
theorem parseAmountDecimal_eq_ok_iff (amount : String) (bounds : Bounds) (v : Amount) :
    parseAmountDecimal amount bounds.maxScale bounds.maxPrecision bounds.requirePositive = .ok v ↔
      Reads pyDigit? bounds amount.toList v := by
  constructor
  · intro h
    by_cases hPlain : ∃ negative int frac, Plain pyDigit? amount.toList negative int frac
    · obtain ⟨negative, int, frac, hPlain⟩ := hPlain
      rw [parseAmountDecimal_of_plain hPlain] at h
      split at h
      · cases h
      next hScale =>
      split at h
      · cases h
      next hPrecision =>
      split at h
      · cases h
      next hPositive =>
      cases h
      refine ⟨negative, int, frac, hPlain, rfl, ?_, ?_, ?_⟩
      · intro scale hIn
        simpa [Option.mem_def.mp hIn] using hScale
      · intro precision hIn
        simpa [Option.mem_def.mp hIn] using hPrecision
      · intro hRequired
        simpa [hRequired] using hPositive
    · simp only [not_exists] at hPlain
      rw [parseAmountDecimal_of_not_plain hPlain] at h
      cases h
  · rintro ⟨negative, int, frac, hPlain, rfl, hScale, hPrecision, hPositive⟩
    rw [parseAmountDecimal_of_plain hPlain, if_neg, if_neg, if_neg]
    · simp only [Bool.and_eq_true, decide_eq_true_eq, not_and, not_le]
      exact hPositive
    · simp only [Option.any_eq_true, decide_eq_true_eq, not_exists, not_and, not_lt]
      exact fun precision hIn => hPrecision precision hIn
    · simp only [Option.any_eq_true, decide_eq_true_eq, not_exists, not_and, not_lt]
      exact fun scale hIn => hScale scale hIn

/-- What is not accepted is turned down as a bad request. -/
theorem parseAmountDecimal_badRequest {bounds : Bounds} {error : GeoError}
    (h : parseAmountDecimal amount bounds.maxScale bounds.maxPrecision bounds.requirePositive = .error error) :
    ∃ message, error = .badRequest message := by
  by_cases hPlain : ∃ negative int frac, Plain pyDigit? amount.toList negative int frac
  · obtain ⟨negative, int, frac, hPlain⟩ := hPlain
    rw [parseAmountDecimal_of_plain hPlain] at h
    split at h
    · cases h
      exact ⟨_, rfl⟩
    split at h
    · cases h
      exact ⟨_, rfl⟩
    split at h
    · cases h
      exact ⟨_, rfl⟩
    · cases h
  · simp only [not_exists] at hPlain
    rw [parseAmountDecimal_of_not_plain hPlain] at h
    cases h
    exact ⟨_, rfl⟩

end Verdicts

/-- The parser accepts the plain decimals of `[0-9]` within the bounds, with what
they denote, and turns down every other text as a bad request. -/
def AcceptsItsGrammar (amount : String) (bounds : Bounds) : Prop :=
  (∀ v, parseAmountDecimal amount bounds.maxScale bounds.maxPrecision bounds.requirePositive = .ok v ↔
      Reads asciiDigit? bounds amount.toList v) ∧
    ∀ error, parseAmountDecimal amount bounds.maxScale bounds.maxPrecision bounds.requirePositive =
      .error error → ∃ message, error = .badRequest message

/-- The text reads as an amount within the bounds once digits of every script count,
and one of its digits is none of `0` to `9`. -/
def HasForeignDigit (amount : String) (bounds : Bounds) : Prop :=
  (∃ v, Reads pyDigit? bounds amount.toList v) ∧
    ∃ c ∈ amount.toList, (pyDigit? c).isSome ∧ asciiDigit? c = none

/-- The parser keeps to its grammar but for amounts written with digits of another script. -/
theorem acceptsItsGrammar_iff (amount : String) (bounds : Bounds) :
    AcceptsItsGrammar amount bounds ↔ ¬HasForeignDigit amount bounds := by
  constructor
  · rintro ⟨hAccepts, _⟩ ⟨⟨v, hReads⟩, c, hIn, hDigit, hForeign⟩
    obtain ⟨negative, int, frac, hPlain, _⟩ :=
      (hAccepts v).mp ((parseAmountDecimal_eq_ok_iff amount bounds v).mpr hReads)
    rcases hPlain.sign_point_or_digit hIn with rfl | rfl | ⟨d, hAscii⟩
    · exact absurd hDigit (by decide +kernel)
    · exact absurd hDigit (by decide +kernel)
    · rw [hForeign] at hAscii
      cases hAscii
  · intro hNative
    refine ⟨fun v => ?_, fun error hError => parseAmountDecimal_badRequest hError⟩
    rw [parseAmountDecimal_eq_ok_iff]
    constructor
    · intro hReads
      obtain ⟨negative, int, frac, hPlain, hRest⟩ := hReads
      refine ⟨negative, int, frac, hPlain.mono fun c hIn d hDigit => ?_, hRest⟩
      cases hAscii : asciiDigit? c with
      | none =>
          exact absurd ⟨⟨v, negative, int, frac, hPlain, hRest⟩, c, hIn, by rw [hDigit]; rfl, hAscii⟩ hNative
      | some other => rw [← hDigit, pyDigit?_of_ascii hAscii]
    · rintro ⟨negative, int, frac, hPlain, hRest⟩
      exact ⟨negative, int, frac, hPlain.mono fun c _ d hDigit => pyDigit?_of_ascii hDigit, hRest⟩

/-- Twelve in Arabic-Indic digits is accepted and is no text of the grammar. -/
theorem accepts_arabic_twelve :
    parseAmountDecimal "١٢" (some defaultMaxAmountScale) (some defaultMaxAmountPrecision) true = .ok 12 ∧
      ¬AcceptsItsGrammar "١٢" ⟨some defaultMaxAmountScale, some defaultMaxAmountPrecision, true⟩ := by
  have hParsed : parseAmountDecimal "١٢" (some defaultMaxAmountScale) (some defaultMaxAmountPrecision) true =
      .ok 12 := by decide +kernel
  refine ⟨hParsed, fun h => ?_⟩
  obtain ⟨negative, int, frac, hPlain, _⟩ := (h.1 12).mp hParsed
  rcases hPlain.sign_point_or_digit (c := '١') (by decide) with hSign | hPoint | ⟨d, hDigit⟩
  · exact absurd hSign (by decide)
  · exact absurd hPoint (by decide)
  · have hNone : asciiDigit? '١' = none := by decide +kernel
    rw [hNone] at hDigit
    cases hDigit

end GeoLedger.AmountGrammar

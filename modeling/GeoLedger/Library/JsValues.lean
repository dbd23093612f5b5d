import Mathlib

/-! JSON values as a JavaScript program reads them. A property that is absent is
`undefined`, integers become the nearest double, and a text of digits is read in
fixed widths. -/
namespace JsValues

inductive Json where
  | null
  | bool (value : Bool)
  | int (value : ℤ)
  | float (value : ℚ)
  | text (value : String)
  | list (items : List Json)
  | dict (entries : List (String × Json))

/-- The entries of an object. -/
abbrev Record := List (String × Json)

/-- A property that may be absent, null or have a value. -/
inductive Nullish (Value : Type) where
  | undefined
  | null
  | value (value : Value)
deriving DecidableEq, Repr

section Doubles

/-- A natural number with 53 significant bits, the nearest one, ties to even. -/
def roundToDouble (m : ℕ) : ℕ :=
  let unit := 2 ^ (Nat.log2 m + 1 - 53)
  let down := m / unit
  let rest := m % unit
  (if 2 * rest < unit then down
    else if unit < 2 * rest then down + 1
    else if down % 2 = 0 then down else down + 1) * unit

def maxExponent : ℕ := 1024

/-- The first power of two that is no double. -/
def infinity : ℕ := 2 ^ maxExponent

theorem lt_infinity {m k : ℕ} (h : m < 2 ^ k) (hk : k ≤ maxExponent) : m < infinity := by
  rw [infinity]
  exact h.trans_le (Nat.pow_le_pow_right (by norm_num) hk)

/-- The double nearest to an integer, unless it is infinite. -/
def toDouble (n : ℤ) : Option ℤ :=
  if roundToDouble n.natAbs < infinity then some (n.sign * roundToDouble n.natAbs) else none

theorem roundToDouble_of_lt {m : ℕ} (h : m < 2 ^ 53) : roundToDouble m = m := by
  have hUnit : Nat.log2 m + 1 - 53 = 0 := by
    rcases Nat.eq_zero_or_pos m with rfl | hPos
    · rfl
    · have hLog := (Nat.log2_lt hPos.ne').mpr h
      omega
  simp [roundToDouble, hUnit, Nat.mod_one]

theorem toDouble_of_lt {n : ℤ} (h : n.natAbs < 2 ^ 53) : toDouble n = some n := by
  rw [toDouble, roundToDouble_of_lt h, if_pos (lt_infinity h (by norm_num [maxExponent])), Int.sign_mul_natAbs]

/-- The double of a number is zero for zero only, and keeps the sign. -/
theorem roundToDouble_pos {m : ℕ} (h : 0 < m) : 0 < roundToDouble m := by
  rcases lt_or_ge m (2 ^ 53) with hSmall | hLarge
  · rwa [roundToDouble_of_lt hSmall]
  · have hLog := Nat.log2_self_le h.ne'
    have hUnit : 2 ^ (Nat.log2 m + 1 - 53) ≤ m :=
      (Nat.pow_le_pow_right (by norm_num) (by omega)).trans hLog
    have hDown := Nat.div_pos hUnit (by positivity)
    refine Nat.mul_pos ?_ (by positivity)
    split
    · exact hDown
    · split
      · omega
      · split
        · exact hDown
        · omega

theorem toDouble_nonneg_iff {n d : ℤ} (h : toDouble n = some d) : 0 ≤ d ↔ 0 ≤ n := by
  rw [toDouble] at h
  split at h
  · cases h
    rcases lt_trichotomy n 0 with hn | rfl | hn
    · have hPos := roundToDouble_pos (Int.natAbs_pos.mpr hn.ne)
      rw [Int.sign_eq_neg_one_of_neg hn]
      omega
    · simp
    · rw [Int.sign_eq_one_of_pos hn]
      omega
  · cases h

/-- The finite number that a value is. -/
def Json.finiteNumber? : Json → Option ℚ
  | .int n => (toDouble n).map fun d => (d : ℚ)
  | .float x => some x
  | _ => none

end Doubles

section Records

def Json.record? : Json → Option Record
  | .dict entries => some entries
  | _ => none

def Json.text? : Json → Option String
  | .text value => some value
  | _ => none

def Json.list? : Json → Option (List Json)
  | .list items => some items
  | _ => none

end Records

section Digits

/-- `\d`. -/
def isDigit (c : Char) : Bool := '0'.toNat ≤ c.toNat && c.toNat ≤ '9'.toNat

/-- `Number` of a text of digits. -/
def numberOf (digits : List Char) : ℕ := digits.foldl (fun n c => 10 * n + (c.toNat - '0'.toNat)) 0

/-- The last digits of a number, in a fixed width. -/
def fixedDigits : ℕ → ℕ → List Char
  | 0, _ => []
  | k + 1, n => fixedDigits k (n / 10) ++ [Nat.digitChar (n % 10)]

/-- `(\d{k})`. -/
def takeDigits (k : ℕ) (text : List Char) : Option (ℕ × List Char) :=
  if (text.take k).length = k ∧ (text.take k).all isDigit = true then
    some (numberOf (text.take k), text.drop k)
  else none

def expect (c : Char) : List Char → Option (List Char)
  | [] => none
  | x :: rest => if x = c then some rest else none

theorem digitChar_digit : ∀ d < 10, isDigit (Nat.digitChar d) = true ∧
    (Nat.digitChar d).toNat - '0'.toNat = d := by decide

theorem length_fixedDigits (k n : ℕ) : (fixedDigits k n).length = k := by
  induction k generalizing n with
  | zero => rfl
  | succ k ih => simp [fixedDigits, ih]

theorem all_fixedDigits (k n : ℕ) : (fixedDigits k n).all isDigit = true := by
  induction k generalizing n with
  | zero => rfl
  | succ k ih =>
      rw [fixedDigits, List.all_append, ih, Bool.true_and]
      simp [(digitChar_digit (n % 10) (Nat.mod_lt _ (by norm_num))).1]

theorem numberOf_fixedDigits {k n : ℕ} (h : n < 10 ^ k) : numberOf (fixedDigits k n) = n := by
  induction k generalizing n with
  | zero =>
      rw [pow_zero, Nat.lt_one_iff] at h
      rw [h]
      rfl
  | succ k ih =>
      have hTail := ih (n := n / 10) (by rw [pow_succ] at h; omega)
      have hDigit := (digitChar_digit (n % 10) (Nat.mod_lt _ (by norm_num))).2
      rw [numberOf] at hTail
      rw [numberOf, fixedDigits, List.foldl_append, hTail, List.foldl_cons, List.foldl_nil, hDigit]
      omega

/-- Digits written in a fixed width are read back. -/
theorem takeDigits_fixedDigits {k n : ℕ} (h : n < 10 ^ k) (rest : List Char) :
    takeDigits k (fixedDigits k n ++ rest) = some (n, rest) := by
  have hTake : (fixedDigits k n ++ rest).take k = fixedDigits k n :=
    List.take_left' (length_fixedDigits k n)
  have hDrop : (fixedDigits k n ++ rest).drop k = rest := List.drop_left' (length_fixedDigits k n)
  rw [takeDigits, hTake, hDrop, if_pos ⟨length_fixedDigits k n, all_fixedDigits k n⟩, numberOf_fixedDigits h]

theorem expect_cons (c : Char) (rest : List Char) : expect c (c :: rest) = some rest := if_pos rfl

end Digits

end JsValues

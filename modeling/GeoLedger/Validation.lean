import Mathlib
import GeoLedger.Schema

/-! Validation of request texts: equivalent codes, transaction ids, amounts and
trust line policies, with the string operations of the language they rely on. -/
namespace GeoLedger

section Text

/-- `str.isspace` of one character. -/
def isPyWhitespace (c : Char) : Bool :=
  (9 ≤ c.toNat && c.toNat ≤ 13) || (28 ≤ c.toNat && c.toNat ≤ 32) || c.toNat = 0x85 ||
    c.toNat = 0xa0 || c.toNat = 0x1680 || (0x2000 ≤ c.toNat && c.toNat ≤ 0x200a) ||
    c.toNat = 0x2028 || c.toNat = 0x2029 || c.toNat = 0x202f || c.toNat = 0x205f || c.toNat = 0x3000

/-- `str.strip()`. -/
def pyStrip (text : List Char) : List Char :=
  ((text.dropWhile isPyWhitespace).reverse.dropWhile isPyWhitespace).reverse

/-- The code points of the zeros of all decimal digits; each is followed by the
digits one to nine of its script. -/
def digitZeros : List Nat :=
  [0x30, 0x660, 0x6f0, 0x7c0, 0x966, 0x9e6, 0xa66, 0xae6, 0xb66, 0xbe6, 0xc66, 0xce6, 0xd66, 0xde6,
    0xe50, 0xed0, 0xf20, 0x1040, 0x1090, 0x17e0, 0x1810, 0x1946, 0x19d0, 0x1a80, 0x1a90, 0x1b50,
    0x1bb0, 0x1c40, 0x1c50, 0xa620, 0xa8d0, 0xa900, 0xa9d0, 0xa9f0, 0xaa50, 0xabf0, 0xff10, 0x104a0,
    0x10d30, 0x11066, 0x110f0, 0x11136, 0x111d0, 0x112f0, 0x11450, 0x114d0, 0x11650, 0x116c0,
    0x11730, 0x118e0, 0x11950, 0x11c50, 0x11d50, 0x11da0, 0x16a60, 0x16ac0, 0x16b50, 0x1d7ce,
    0x1d7d8, 0x1d7e2, 0x1d7ec, 0x1d7f6, 0x1e140, 0x1e2f0, 0x1e950, 0x1fbf0]

/-- The value of a character matched by `\d`. -/
def pyDigit? (c : Char) : Option Nat :=
  (digitZeros.find? fun z => z ≤ c.toNat ∧ c.toNat < z + 10).map (c.toNat - ·)

/-- The values of a non-empty run of digits. -/
def pyDigits? (text : List Char) : Option (List Nat) :=
  if text = [] then none else text.mapM pyDigit?

/-- The number a run of digits denotes. -/
def digitsValue (digits : List Nat) : Nat := digits.foldl (fun n d => 10 * n + d) 0

theorem digitsValue_eq_ofDigits (digits : List Nat) : digitsValue digits = Nat.ofDigits 10 digits.reverse := by
  have hFold : ∀ n : Nat, digits.foldl (fun n d => 10 * n + d) n =
      Nat.ofDigits 10 digits.reverse + 10 ^ digits.length * n := by
    induction digits with
    | nil => simp
    | cons d rest ih =>
        intro n
        rw [List.foldl_cons, ih, List.reverse_cons, Nat.ofDigits_append, Nat.ofDigits_singleton,
          List.length_reverse, List.length_cons]
        ring
  simpa [digitsValue] using hFold 0

theorem digitsValue_append (digits more : List Nat) :
    digitsValue (digits ++ more) = digitsValue digits * 10 ^ more.length + digitsValue more := by
  rw [digitsValue_eq_ofDigits, digitsValue_eq_ofDigits, digitsValue_eq_ofDigits, List.reverse_append,
    Nat.ofDigits_append, List.length_reverse]
  ring

/-- `sys.int_info.default_max_str_digits`: the longest text that `int` and `str` convert. -/
def intMaxStrDigits : Nat := 4300

/-- `str.lower()` on the ASCII letters. -/
def pyLower (text : List Char) : List Char := text.map Char.toLower

end Text

/-- A character class `[lo-hi]`. -/
def charIn (lo hi c : Char) : Bool := lo.toNat ≤ c.toNat && c.toNat ≤ hi.toNat

def validateEquivalentCode (code : String) : Except GeoError Unit :=
  let chars := code.toList
  if 1 ≤ chars.length ∧ chars.length ≤ 16 ∧
      chars.all fun c => charIn 'A' 'Z' c || charIn '0' '9' c || c == '_' then .ok ()
  else .error (.badRequest "Invalid equivalent code")

section Amounts

/-- The digits before and after the point of a text of the form `\d+(\.\d+)?`. -/
def decimalParts (text : List Char) : Option (List Nat × List Nat) :=
  match text.span (· ≠ '.') with
  | (intPart, []) => (pyDigits? intPart).map fun int => (int, [])
  | (intPart, _ :: fracPart) =>
      match pyDigits? intPart, pyDigits? fracPart with
      | some int, some frac => some (int, frac)
      | _, _ => none

def forbiddenAmountLiterals : List String :=
  ["nan", "inf", "+inf", "-inf", "infinity", "+infinity", "-infinity"]

def parseAmountDecimal (amount : String) (maxScale maxPrecision : Option Nat)
    (requirePositive : Bool) : Except GeoError Amount :=
  let invalid := .error (.badRequest "Invalid amount format")
  let text := amount.toList
  if text = [] then invalid
  else if text ≠ pyStrip text then invalid
  else if String.ofList (pyLower text) ∈ forbiddenAmountLiterals then invalid
  else if 'e' ∈ pyLower text then invalid
  else
    let negative := text.head? = some '-'
    match decimalParts (if negative then text.tail else text) with
    | none => invalid
    | some (int, frac) =>
        if maxScale.any (· < frac.length) then invalid
        else if maxPrecision.any (· < int.length + frac.length) then invalid
        else
          let magnitude : Amount := digitsValue (int ++ frac) / 10 ^ frac.length
          let value := if negative then -magnitude else magnitude
          if requirePositive && value ≤ 0 then .error (.badRequest "Amount must be positive")
          else .ok value

def defaultMaxAmountScale : Nat := 18

def defaultMaxAmountPrecision : Nat := 50

end Amounts

section Policies

/-- What `Decimal(text)` denotes, as far as its sign is asked for. -/
inductive DecimalText where
  | invalid
  | nan
  | negative
  | nonnegative
deriving DecidableEq, Repr

/-- An exponent: perhaps a sign, and digits. -/
def exponent? (text : List Char) : Option ℤ :=
  match text with
  | '-' :: digits => (pyDigits? digits).map fun ds => -(digitsValue ds : ℤ)
  | '+' :: digits => (pyDigits? digits).map fun ds => (digitsValue ds : ℤ)
  | digits => (pyDigits? digits).map fun ds => (digitsValue ds : ℤ)

/-- The digits of the coefficient of a number, with either part of it optional, and how many of
them stand behind the point. -/
def coefficient (text : List Char) : Option (List Nat × Nat) :=
  match text.span (· ≠ '.') with
  | (intPart, []) => (pyDigits? intPart).map fun digits => (digits, 0)
  | (intPart, _ :: fracPart) =>
      if intPart = [] ∧ fracPart = [] then none
      else ((intPart ++ fracPart).mapM pyDigit?).map fun digits => (digits, fracPart.length)

/-- Whether `Decimal` can keep a number exactly, up to `MAX_EMAX` and down to `MIN_ETINY`; it
refuses every other text. The exponent is that of the last digit, and leading zeros do not count. -/
def decimalKeeps (digits : List Nat) (exponent : ℤ) : Bool :=
  let significant := max 1 (digits.dropWhile (· = 0)).length
  exponent + significant - 1 ≤ 999999999999999999 && -1999999999999999997 ≤ exponent

/-- `Decimal(text)`: surrounding white space and underscores are dropped. -/
def decimalText (text : String) : DecimalText :=
  let chars := (pyStrip text.toList).filter (· ≠ '_')
  let negative := chars.head? = some '-'
  let unsigned := pyLower (if chars.head? = some '-' ∨ chars.head? = some '+' then chars.tail else chars)
  let signed (nonzero : Bool) := if negative ∧ nonzero then DecimalText.negative else .nonnegative
  if String.ofList unsigned = "inf" ∨ String.ofList unsigned = "infinity" then signed true
  else if String.ofList (unsigned.takeWhile Char.isAlpha) ∈ ["nan", "snan"] ∧
      (unsigned.dropWhile Char.isAlpha).all (fun c => (pyDigit? c).isSome) then .nan
  else match unsigned.span (· ≠ 'e') with
    | (mantissa, rest) =>
        match coefficient mantissa, if rest = [] then some 0 else exponent? rest.tail with
        | some (digits, scale), some exponent =>
            if decimalKeeps digits (exponent - scale) then signed (digits.any (· ≠ 0)) else .invalid
        | _, _ => .invalid

/-- `Decimal(str(value))` of a policy value. An integer that `str` does not convert raises the
error that is taken for a text that is no number. -/
def policyDecimal : PolicyValue → DecimalText
  | .int n => if 10 ^ intMaxStrDigits ≤ n.natAbs then .invalid else if n < 0 then .negative else .nonnegative
  | .float x => if x < 0 then .negative else .nonnegative
  | .nan => .nan
  | .infinity negative => if negative then .negative else .nonnegative
  | .str text => decimalText text
  | _ => .invalid

def allowedTrustlinePolicyKeys : List String :=
  ["auto_clearing", "can_be_intermediate", "max_hop_usage", "daily_limit", "blocked_participants"]

/-- A boolean key of a policy: absent, null or a boolean. -/
def checkPolicyBool (policy : Policy) (key : String) : Except GeoError Unit :=
  match policy.get? key with
  | none | some .null | some (.bool _) => .ok ()
  | some _ => .error (.badRequest ("trustline.policy." ++ key ++ " must be boolean"))

/-- A numeric key of a policy: absent, null or a number that is not negative. -/
def checkPolicyNumber (policy : Policy) (key : String) : Except GeoError Unit :=
  match policy.get? key with
  | none | some .null => .ok ()
  | some value =>
      match policyDecimal value with
      | .invalid => .error (.badRequest ("trustline.policy." ++ key ++ " must be a number"))
      | .nan => .error .internal
      | .negative => .error (.badRequest ("trustline.policy." ++ key ++ " must be >= 0"))
      | .nonnegative => .ok ()

def validateTrustlinePolicy (policy : Policy) : Except GeoError Unit := do
  let unknown := policy.keys.filter (· ∉ allowedTrustlinePolicyKeys)
  if unknown ≠ [] then
    .error (.badRequest
      ("Unknown trustline policy keys: " ++ toString (unknown.insertionSort (· ≤ ·))))
  checkPolicyBool policy "auto_clearing"
  checkPolicyBool policy "can_be_intermediate"
  checkPolicyNumber policy "max_hop_usage"
  checkPolicyNumber policy "daily_limit"
  match policy.get? "blocked_participants" with
  | none | some .null => .ok ()
  | some (.list items) =>
      if ∀ item ∈ items, item ≠ none ∧ item ≠ some "" then .ok ()
      else .error (.badRequest "trustline.policy.blocked_participants must be a list of strings")
  | some _ => .error (.badRequest "trustline.policy.blocked_participants must be a list of strings")

end Policies

end GeoLedger

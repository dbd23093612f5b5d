import Mathlib
import GeoLedger.Library.FloatingPoint
import GeoLedger.Schema

/-! What the ledger is run with: the database column that stores amounts, the
arithmetic of decimals, the source of identifiers, the digests, and the settings.
The digests and the order in which a query without `ORDER BY` returns its rows are
arbitrary. -/
namespace GeoLedger

/-- A column of amounts: what a flushed value becomes, and which values fit. -/
structure AmountColumn where
  grid : AddSubgroup ℚ
  round : Amount → Amount
  fits : Amount → Bool
  round_mem : ∀ x, round x ∈ grid
  round_of_mem : ∀ x ∈ grid, round x = x
  round_neg : ∀ x, round (-x) = -round x
  round_mono : Monotone round
  fits_of_abs_le : ∀ x y, |x| ≤ |y| → fits y = true → fits x = true

namespace AmountColumn

theorem round_zero (c : AmountColumn) : c.round 0 = 0 := c.round_of_mem 0 c.grid.zero_mem

theorem round_nonneg (c : AmountColumn) {x : Amount} (h : 0 ≤ x) : 0 ≤ c.round x := by
  have hMono := c.round_mono h
  rwa [c.round_zero] at hMono

/-- The column that stores every written `Decimal` exactly. -/
def exact : AmountColumn where
  grid := ⊤
  round := id
  fits _ := true
  round_mem _ := AddSubgroup.mem_top _
  round_of_mem _ _ := rfl
  round_neg _ := rfl
  round_mono := monotone_id
  fits_of_abs_le _ _ _ _ := rfl

/-- The smallest amount that `Numeric(20, 8)` distinguishes. -/
def storageQuantum : Amount := 1 / 100000000

theorem storageQuantum_pos : 0 < storageQuantum := by norm_num [storageQuantum]

/-- `Numeric(20, 8)`: eight fractional digits, ties away from zero, and at most
twelve digits before the point. -/
def numeric208 : AmountColumn where
  grid := Grid.multiples storageQuantum
  round := Grid.roundHalfAway storageQuantum
  fits x := |x| < 1000000000000
  round_mem := Grid.roundHalfAway_mem storageQuantum
  round_of_mem _ h := Grid.roundHalfAway_of_mem storageQuantum_pos h
  round_neg := Grid.roundHalfAway_neg storageQuantum
  round_mono _ _ h := Grid.roundHalfAway_mono storageQuantum_pos h
  fits_of_abs_le _ _ hLe hFits := decide_eq_true (lt_of_le_of_lt hLe (of_decide_eq_true hFits))

end AmountColumn

section Decimals

/-- The context of every `Decimal` operation, which nothing in the code changes: 28 digits, ties to
the even one. The limits of its exponents are out of the reach of amounts. -/
def decimalContext : FloatingPoint.Format where
  base := 10
  precision := 28
  minExponent := none
  one_lt_base := by decide
  precision_pos := by decide

/-- `x + y`. -/
def decimalAdd (x y : Amount) : Amount := decimalContext.round (x + y)

/-- `x - y`. -/
def decimalSub (x y : Amount) : Amount := decimalContext.round (x - y)

variable {x y : Amount} {e : ℤ}

@[simp] theorem decimalSub_self (x : Amount) : decimalSub x x = 0 := by
  rw [decimalSub, sub_self, FloatingPoint.Format.round_zero]

theorem decimalAdd_nonneg (hx : 0 ≤ x) (hy : 0 ≤ y) : 0 ≤ decimalAdd x y :=
  decimalContext.round_nonneg (add_nonneg hx hy)

theorem decimalSub_nonneg (h : y ≤ x) : 0 ≤ decimalSub x y := decimalContext.round_nonneg (sub_nonneg.mpr h)

/-- What a rounded difference leaves was there: nothing appears where nothing was left. -/
theorem lt_of_decimalSub_pos (h : 0 < decimalSub x y) : y < x := sub_pos.mp (decimalContext.pos_of_round_pos h)

/-- The amounts whose last digit has at least this exponent. -/
def digitsTo (e : ℤ) : AddSubgroup Amount := Grid.multiples ((decimalContext.base : ℚ) ^ e)

/-- The amounts of the column are those with eight digits behind the point. -/
theorem digitsTo_storage : digitsTo (-8) = Grid.multiples AmountColumn.storageQuantum := by
  rw [digitsTo, AmountColumn.storageQuantum]
  norm_num [decimalContext]

theorem decimalSub_mem (hx : x ∈ digitsTo e) (hy : y ∈ digitsTo e) : decimalSub x y ∈ digitsTo e :=
  decimalContext.round_mem_multiples ((digitsTo e).sub_mem hx hy)

theorem decimalAdd_mem (hx : x ∈ digitsTo e) (hy : y ∈ digitsTo e) : decimalAdd x y ∈ digitsTo e :=
  decimalContext.round_mem_multiples ((digitsTo e).add_mem hx hy)

/-- Whether an amount fits the context can be read off it. -/
theorem fits_decimalContext_iff :
    decimalContext.Fits e x ↔ (x / (10 : ℚ) ^ e).den = 1 ∧ |x| < (10 : ℚ) ^ (e + 28) := by
  have hMem := Grid.mem_multiples_iff_den (x := x) (decimalContext.unit_pos e)
  exact ⟨fun h => ⟨hMem.mp h.mem, h.size⟩, fun h => ⟨fun _ hNone => (by cases hNone), hMem.mpr h.1, h.2⟩⟩

instance : Decidable (decimalContext.Fits e x) := decidable_of_iff' _ fits_decimalContext_iff

/-- Taking a part off an amount that fits the context is exact. -/
theorem decimalSub_eq (hx : decimalContext.Fits e x) (hy : y ∈ digitsTo e) (hNonneg : 0 ≤ y) (hLe : y ≤ x) :
    decimalSub x y = x - y := by
  refine (hx.of_abs_le ((digitsTo e).sub_mem hx.mem hy) ?_).round_eq
  rw [abs_of_nonneg (sub_nonneg.mpr hLe), abs_of_nonneg (hNonneg.trans hLe)]
  exact sub_le_self x hNonneg

/-- So is a sum that fits it. -/
theorem decimalAdd_eq (h : decimalContext.Fits e (x + y)) : decimalAdd x y = x + y := h.round_eq

/-- A sum of stored amounts that is rounded to less than twenty digits before the point is not rounded at all. -/
theorem decimalAdd_eq_of_lt (hx : x ∈ digitsTo (-8)) (hy : y ∈ digitsTo (-8)) (hNonneg : 0 ≤ x + y)
    (h : decimalAdd x y < 10 ^ 20) : decimalAdd x y = x + y := by
  refine decimalAdd_eq (e := -8) ⟨fun _ hNone => (by cases hNone), (digitsTo (-8)).add_mem hx hy, ?_⟩
  rw [abs_of_nonneg hNonneg]
  by_contra hLarge
  have hRound := decimalContext.zpow_le_round (fun _ hNone => (by cases hNone)) (not_lt.mp hLarge)
  refine absurd h (not_lt.mpr (le_trans ?_ hRound))
  norm_num [decimalContext]

/-- A running total, `total += x`, from zero. -/
def decimalSum (l : List Amount) : Amount := l.foldl decimalAdd 0

/-- A running total loses no digit while all magnitudes together stay below an amount that fits the context. -/
theorem foldl_decimalAdd_eq {l : List Amount} {total : Amount} (hy : decimalContext.Fits e y)
    (hTotal : total ∈ digitsTo e) (hMem : ∀ x ∈ l, x ∈ digitsTo e) (hBound : |total| + (l.map abs).sum ≤ |y|) :
    l.foldl decimalAdd total = total + l.sum := by
  induction l generalizing total with
  | nil => simp
  | cons x rest ih =>
      rw [List.map_cons, List.sum_cons] at hBound
      have hRest : 0 ≤ (rest.map abs).sum := List.sum_nonneg fun z hz => by
        obtain ⟨w, _, rfl⟩ := List.mem_map.mp hz
        exact abs_nonneg w
      have hAbs := abs_add_le total x
      have hNext : total + x ∈ digitsTo e := (digitsTo e).add_mem hTotal (hMem x List.mem_cons_self)
      have hStep : decimalAdd total x = total + x := decimalAdd_eq (hy.of_abs_le hNext (by linarith))
      rw [List.foldl_cons, hStep, ih hNext (fun z hz => hMem z (List.mem_cons_of_mem _ hz)) (by linarith),
        List.sum_cons, add_assoc]

theorem decimalSum_eq {l : List Amount} (hy : decimalContext.Fits e y) (hMem : ∀ x ∈ l, x ∈ digitsTo e)
    (hBound : (l.map abs).sum ≤ |y|) : decimalSum l = l.sum := by
  rw [decimalSum, foldl_decimalAdd_eq hy (digitsTo e).zero_mem hMem (by simpa using hBound), zero_add]

end Decimals

/-- A value in the dictionary that a request signs. -/
inductive SignedValue where
  | text (value : String)
  | amount (value : Amount)
  | policy (value : Policy)

/-- One line hashed into an integrity checkpoint. -/
inductive ChecksumLine where
  | debt (debtorId creditorId : Uuid) (amount : Amount)
  | trustline (fromId toId : Uuid) (limit : Amount) (status : TrustLineStatus)

/-- The order in which queries without `ORDER BY` return their rows. -/
structure ReadOrder where
  trustLines : List TrustLine → List TrustLine
  trustLines_perm : ∀ rows, (trustLines rows).Perm rows
  debts : List Debt → List Debt
  debts_perm : ∀ rows, (debts rows).Perm rows
  cycles : List (List Debt) → List (List Debt)
  cycles_perm : ∀ rows, (cycles rows).Perm rows

/-- Rows in the order in which they were inserted. -/
def ReadOrder.insertion : ReadOrder :=
  ⟨id, List.Perm.refl, id, List.Perm.refl, id, List.Perm.refl⟩

/-- The hub the ledger runs in. `uuid4` never repeats an identifier. -/
structure Env where
  directory : Directory
  column : AmountColumn
  uuid4 : Nat → Uuid
  uuid4_injective : Function.Injective uuid4
  uuid5 : List Uuid → TxId
  sha256 : List ChecksumLine → String
  verifySignature : Participant → List (String × SignedValue) → String → Bool
  postgres : Bool
  prepareLockTtlSeconds : Nat
  paymentTxStuckTimeoutSeconds : Nat

/-- A text with a character that is not a digit is not the text of an identifier. -/
theorem ne_toString_of_mem {text : String} {c : Char} (hMem : c ∈ text.toList) (hDigit : c.isDigit = false)
    (id : Uuid) : text ≠ toString id := by
  rintro rfl
  change c ∈ (Nat.repr id).toList at hMem
  rw [Nat.toList_repr] at hMem
  rw [Nat.isDigit_of_mem_toDigits (by decide) (by decide) hMem] at hDigit
  cases hDigit

/-- A registry of five participants and two equivalents. -/
def Directory.sample : Directory where
  participants := [⟨1, "A"⟩, ⟨2, "B"⟩, ⟨3, "C"⟩, ⟨4, "D"⟩, ⟨5, "E"⟩]
  equivalents := [⟨1, "UAH"⟩, ⟨2, "HOUR"⟩]
  participant_id_unique := by decide
  pid_unique := by decide
  pid_nonempty := by decide
  equivalent_id_unique := by decide
  code_unique := by decide
  code_not_id := by
    intro e he id
    simp only [List.mem_cons, List.not_mem_nil, or_false] at he
    rcases he with rfl | rfl
    · exact ne_toString_of_mem (c := 'A') (by simp) rfl id
    · exact ne_toString_of_mem (c := 'O') (by simp) rfl id

namespace Equivalent

def uah : Equivalent := ⟨1, "UAH"⟩

def hour : Equivalent := ⟨2, "HOUR"⟩

end Equivalent

/-- The digests of the first three and of the first four debts, and pairwise
different texts for other sets. -/
def sampleUuid5 : List Uuid → TxId
  | [0, 1, 2] => "b0dda9b1-c435-5a0e-8ff3-0c53919ba0a2"
  | [0, 1, 2, 3] => "d3d729ce-ac63-53a3-a6bf-f9d7ebf5fdfa"
  | debtIds => String.ofList (List.replicate (Encodable.encode debtIds) 'x')

/-- A hub over the sample registry, with identifiers counted from zero. -/
def Env.sample (column : AmountColumn) (postgres : Bool) : Env where
  directory := .sample
  column := column
  uuid4 := id
  uuid4_injective := Function.injective_id
  uuid5 := sampleUuid5
  sha256 _ := ""
  verifySignature _ _ _ := true
  postgres := postgres
  prepareLockTtlSeconds := 30
  paymentTxStuckTimeoutSeconds := 120

end GeoLedger

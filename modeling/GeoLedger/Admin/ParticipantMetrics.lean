import Mathlib
import GeoLedger.Library.Distributions
import GeoLedger.Library.Truncation
import GeoLedger.Tables
import GeoLedger.Debts

/-! `compute_participant_metrics`: the balance row, the distribution of net
positions, the rank and the bottlenecks of a participant in one equivalent, as
the admin API computes them from the tables. -/
namespace GeoLedger
open Distributions

variable {env : Env}

/-- `_decimal_to_atoms`: truncated towards zero at the precision. -/
def decimalToAtoms (value : Amount) (precision : Nat) : ℤ :=
  let neg := value < 0
  let absV := if neg then -value else value
  let atomsAbs := ⌊absV * 10 ^ precision⌋
  if neg then -atomsAbs else atomsAbs

theorem decimalToAtoms_eq (value : Amount) (precision : Nat) :
    decimalToAtoms value precision = Truncation.truncate (value * 10 ^ precision) := by
  have hUnit : (0 : Amount) < 10 ^ precision := by positivity
  by_cases hNeg : value < 0
  · simp only [decimalToAtoms, if_pos hNeg]
    rw [Truncation.truncate, if_pos (mul_neg_of_neg_of_pos hNeg hUnit), neg_mul]
  · simp only [decimalToAtoms, if_neg hNeg]
    rw [Truncation.truncate_of_nonneg (mul_nonneg (not_lt.mp hNeg) hUnit.le)]

section Balance

/-- The trust lines of an equivalent that are not closed. -/
def liveLines (tl : TrustTable env) (e : Uuid) : List TrustLine :=
  tl.rows.filter fun l => l.status ≠ .closed ∧ l.equivalentId = e

/-- The debt that a trust line is joined to, zero without one. -/
def lineUsed (t : DebtTable env) (l : TrustLine) : Amount :=
  t.owed l.toParticipantId l.fromParticipantId l.equivalentId

structure AdminParticipantBalanceRow where
  equivalent : String
  outgoingLimit : Amount
  outgoingUsed : Amount
  incomingLimit : Amount
  incomingUsed : Amount
  totalDebt : Amount
  totalCredit : Amount
  net : Amount

/-- `_compute_balance_rows` for one equivalent. -/
def computeBalanceRow (db : Db env) (participantId : Uuid) (eq : Equivalent) : AdminParticipantBalanceRow :=
  let outgoing := (liveLines db.trustLines eq.id).filter (·.fromParticipantId = participantId)
  let incoming := (liveLines db.trustLines eq.id).filter (·.toParticipantId = participantId)
  let totalDebt := db.debts.debits participantId eq.id
  let totalCredit := db.debts.credits participantId eq.id
  { equivalent := eq.code
    outgoingLimit := (outgoing.map (·.limit)).sum
    outgoingUsed := (outgoing.map (lineUsed db.debts)).sum
    incomingLimit := (incoming.map (·.limit)).sum
    incomingUsed := (incoming.map (lineUsed db.debts)).sum
    totalDebt := totalDebt
    totalCredit := totalCredit
    net := totalCredit - totalDebt }

end Balance

section Distribution

/-- A bin of a distribution, in atoms. -/
structure NetDistributionBin where
  fromAtoms : ℤ
  toAtoms : ℤ
  count : Nat
deriving DecidableEq

structure AdminParticipantNetDistribution where
  minAtoms : ℤ
  maxAtoms : ℤ
  bins : List NetDistributionBin
deriving DecidableEq

structure AdminParticipantRank where
  rank : Nat
  n : Nat
  netAtoms : ℤ
deriving DecidableEq

/-- `net_by_pid`: credits and debts are added up, truncated and subtracted. -/
def netAtoms (t : DebtTable env) (e : Uuid) (precision : Nat) (p : Participant) : ℤ :=
  decimalToAtoms (t.credits p.id e) precision - decimalToAtoms (t.debits p.id e) precision

/-- `min(vals) if vals else 0`. -/
def minOrZero : List ℤ → ℤ
  | [] => 0
  | v :: rest => rest.foldl min v

/-- `max(vals) if vals else 0`. -/
def maxOrZero : List ℤ → ℤ
  | [] => 0
  | v :: rest => rest.foldl max v

/-- The width of twenty bins over a span, rounded up. -/
def binWidth (span : ℤ) : ℤ := (span + 20 - 1) / 20

/-- The bin of a value: the ones beyond either end count in the outer bins. -/
def binOf (minV w v : ℤ) : Nat :=
  let idx := if w > 0 then (v - minV) / w else 0
  (if idx < 0 then 0 else if idx ≥ 20 then 20 - 1 else idx).toNat

/-- The bins of a list of values between their least and their largest one. -/
def distributionBins (minV maxV : ℤ) (vals : List ℤ) : List NetDistributionBin :=
  if maxV - minV ≤ 0 then [⟨minV, maxV, vals.length⟩]
  else
    let w := binWidth (maxV - minV)
    let buckets := fill (binOf minV w) (List.replicate 20 0) vals
    (List.range 20).map fun (i : Nat) =>
      let frm := minV + i * w
      ⟨frm, if i = 20 - 1 then maxV else frm + w, buckets.getD i 0⟩

/-- The participants by falling net position, the equal ones by PID. -/
def sortedParticipants (t : DebtTable env) (e : Uuid) (precision : Nat) : List Participant :=
  env.directory.participants.insertionSort fun p q =>
    netAtoms t e precision q < netAtoms t e precision p ∨
      netAtoms t e precision p = netAtoms t e precision q ∧ p.pid ≤ q.pid

def computeRankAndDistribution (t : DebtTable env) (participantPid : Pid) (e : Uuid) (precision : Nat) :
    AdminParticipantNetDistribution × AdminParticipantRank :=
  let sorted := sortedParticipants t e precision
  let vals := sorted.map (netAtoms t e precision)
  let minV := minOrZero vals
  let maxV := maxOrZero vals
  let idx := (sorted.map (·.pid)).idxOf participantPid
  (⟨minV, maxV, distributionBins minV maxV vals⟩,
    if idx < sorted.length then ⟨idx + 1, sorted.length, vals.getD idx 0⟩ else ⟨0, sorted.length, 0⟩)

theorem minOrZero_eq (vals : List ℤ) : minOrZero vals = vals.min?.getD 0 := by
  cases vals <;> rfl

theorem maxOrZero_eq (vals : List ℤ) : maxOrZero vals = vals.max?.getD 0 := by
  cases vals <;> rfl

theorem minOrZero_le {vals : List ℤ} {v : ℤ} (hv : v ∈ vals) : minOrZero vals ≤ v := by
  cases vals with
  | nil => cases hv
  | cons first rest => exact List.min_le_of_mem hv

theorem le_maxOrZero {vals : List ℤ} {v : ℤ} (hv : v ∈ vals) : v ≤ maxOrZero vals := by
  cases vals with
  | nil => cases hv
  | cons first rest => exact List.le_max_of_mem hv

/-- The least and the largest value do not depend on the order. -/
theorem minOrZero_perm {vals others : List ℤ} (h : vals.Perm others) : minOrZero vals = minOrZero others := by
  have hMem {xs : List ℤ} (hxs : xs ≠ []) : minOrZero xs ∈ xs := by
    cases xs with
    | nil => exact absurd rfl hxs
    | cons first rest => exact List.min_mem hxs
  by_cases hEmpty : vals = []
  · subst hEmpty
    rw [h.nil_eq]
  · have hOthers : others ≠ [] := fun hNil => hEmpty (List.Perm.eq_nil (hNil ▸ h))
    exact le_antisymm (minOrZero_le (h.mem_iff.mpr (hMem hOthers))) (minOrZero_le (h.mem_iff.mp (hMem hEmpty)))

theorem maxOrZero_perm {vals others : List ℤ} (h : vals.Perm others) : maxOrZero vals = maxOrZero others := by
  have hMem {xs : List ℤ} (hxs : xs ≠ []) : maxOrZero xs ∈ xs := by
    cases xs with
    | nil => exact absurd rfl hxs
    | cons first rest => exact List.max_mem hxs
  by_cases hEmpty : vals = []
  · subst hEmpty
    rw [h.nil_eq]
  · have hOthers : others ≠ [] := fun hNil => hEmpty (List.Perm.eq_nil (hNil ▸ h))
    exact le_antisymm (le_maxOrZero (h.mem_iff.mp (hMem hEmpty))) (le_maxOrZero (h.mem_iff.mpr (hMem hOthers)))

/-- A participant's rank is its place among the sorted participants. -/
theorem rank_eq_place (t : DebtTable env) (e : Uuid) (precision : Nat) {p : Participant}
    (hp : p ∈ env.directory.participants) :
    (computeRankAndDistribution t p.pid e precision).2 =
      ⟨(sortedParticipants t e precision).idxOf p + 1, env.directory.participants.length,
        netAtoms t e precision p⟩ := by
  have hMem : p ∈ sortedParticipants t e precision := (List.perm_insertionSort _ _).mem_iff.mpr hp
  have hLength : (sortedParticipants t e precision).length = env.directory.participants.length :=
    List.length_insertionSort _ _
  have hPlace : ((sortedParticipants t e precision).map (·.pid)).idxOf p.pid =
      (sortedParticipants t e precision).idxOf p :=
    @idxOf_map _ _ _ _ (fun q : Participant => q.pid) _ p fun q hq hPid =>
      Rows.eq_of_column env.directory.pid_unique ((List.perm_insertionSort _ _).mem_iff.mp hq) hp hPid
  have hFound : (sortedParticipants t e precision).idxOf p < (sortedParticipants t e precision).length :=
    List.idxOf_lt_length_of_mem hMem
  have hNet : ((sortedParticipants t e precision).map (netAtoms t e precision)).getD
      ((sortedParticipants t e precision).idxOf p) 0 = netAtoms t e precision p := by
    rw [List.getD_eq_getElem?_getD, List.getElem?_map, List.getElem?_eq_getElem hFound, List.getElem_idxOf]
    rfl
  rw [hLength] at hFound
  simp only [computeRankAndDistribution, hPlace, hLength, if_pos hFound, hNet]

end Distribution

section Capacity

/-- A `Decimal` that is not negative: the coefficient over a power of ten. -/
structure UnsignedDecimal where
  coefficient : Nat
  scale : Nat

def UnsignedDecimal.value (d : UnsignedDecimal) : Amount := d.coefficient / 10 ^ d.scale

/-- The digits that the default context keeps. -/
def contextPrecision : Nat := 28

/-- A coefficient in the default context: half to even on the digits beyond its precision. -/
def roundToContext (coefficient : Nat) : Nat :=
  let unit := 10 ^ ((Nat.digits 10 coefficient).length - contextPrecision)
  let q := coefficient / unit
  let r := coefficient % unit
  (if 2 * r < unit ∨ 2 * r = unit ∧ q % 2 = 0 then q else q + 1) * unit

/-- The product of a stored amount, which has eight fractional digits, and a decimal. -/
def contextProduct (amount : Amount) (d : UnsignedDecimal) : Amount :=
  roundToContext (⌊amount * 10 ^ 8⌋.toNat * d.coefficient) / 10 ^ (8 + d.scale)

def isRatioBelowThreshold (numerator denominator : Amount) (threshold : UnsignedDecimal) : Bool :=
  if denominator ≤ 0 then false else numerator < contextProduct denominator threshold

inductive BottleneckDir where
  | out
  | inc
deriving DecidableEq

structure AdminParticipantCapacityBottleneck where
  dir : BottleneckDir
  other : String
  trustline : TrustLine

/-- The bottlenecks of `_compute_capacity`, before they are sorted. -/
def computeBottlenecks (db : Db env) (participantId : Uuid) (e : Uuid) (threshold : Option UnsignedDecimal) :
    List AdminParticipantCapacityBottleneck :=
  ((liveLines db.trustLines e).filter fun l =>
    l.fromParticipantId = participantId ∨ l.toParticipantId = participantId).flatMap fun l =>
      let available := l.limit - lineUsed db.debts l
      let below := threshold.any fun thr => l.status = .active ∧ 0 < l.limit ∧ isRatioBelowThreshold available l.limit thr
      (if l.fromParticipantId = participantId ∧ below then
        [⟨.out, env.directory.pidText l.toParticipantId, l⟩] else []) ++
      (if l.toParticipantId = participantId ∧ below then
        [⟨.inc, env.directory.pidText l.fromParticipantId, l⟩] else [])

end Capacity

end GeoLedger

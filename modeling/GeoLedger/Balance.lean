import Mathlib
import GeoLedger.Invariants

/-! `BalanceService._compute_summary`: the totals of a participant's debts and
the capacity of its links, by equivalent. A link without a trust line counts
with limit zero, when it gives any capacity. -/
namespace GeoLedger

variable {env : Env}

/-- `row.equivalent.code`. A foreign key keeps rows without an equivalent out. -/
def Directory.codeOf (d : Directory) (e : Uuid) : Option String := (d.equivalentById e).map (·.code)

/-- Rows with the codes of their equivalents. -/
def withCodes {Row : Type} (d : Directory) (equivalentId : Row → Uuid) (rows : List Row) :
    List (String × Row) :=
  rows.filterMap fun r => (d.codeOf (equivalentId r)).map fun code => (code, r)

/-- One entry of `equivalents_map`: total debt, total credit, the capacity to
spend and the capacity to receive. -/
abbrev EquivalentTotals := Amount × Amount × Amount × Amount

structure BalanceEquivalent where
  code : String
  totalDebt : Amount
  totalCredit : Amount
  netBalance : Amount
  availableToSpend : Amount
  availableToReceive : Amount
deriving DecidableEq, Repr

/-- Debts by the other party and the code. -/
def debtsByPeer (peer : Debt → Uuid) (debts : List (String × Debt)) : Dict (Uuid × String) Amount :=
  Dict.ofList (debts.map fun d => ((peer d.2, d.1), d.2.amount))

/-- The capacity of the links over trust lines. `used` is what the debtor of the
line owes on it and `reverse` what is owed back. -/
def lineCapacities (peer : TrustLine → Uuid) (used reverse : Dict (Uuid × String) Amount)
    (lines : List (String × TrustLine)) : List (String × Amount) :=
  lines.map fun l => (l.1, l.2.limit - used.getD (peer l.2, l.1) 0 + reverse.getD (peer l.2, l.1) 0)

/-- The positive capacity of the links that have debts but no trust line. -/
def debtCapacities (peer : TrustLine → Uuid) (used reverse : Dict (Uuid × String) Amount)
    (lines : List (String × TrustLine)) (peers : List (Uuid × String)) : List (String × Amount) :=
  ((peers.filter fun p => p ∉ lines.map fun l => (peer l.2, l.1)).map fun p =>
      (p.2, 0 - used.getD p 0 + reverse.getD p 0)).filter fun c => 0 < c.2

section Summary

variable (participantId : Uuid) (db : Db env)

def outTls : List (String × TrustLine) :=
  withCodes env.directory TrustLine.equivalentId
    (db.trustLines.rows.filter fun l => l.fromParticipantId = participantId ∧ l.status = .active)

def inTls : List (String × TrustLine) :=
  withCodes env.directory TrustLine.equivalentId
    (db.trustLines.rows.filter fun l => l.toParticipantId = participantId ∧ l.status = .active)

def myDebts : List (String × Debt) :=
  withCodes env.directory Debt.equivalentId (db.debts.rows.filter (·.debtorId = participantId))

def othersDebts : List (String × Debt) :=
  withCodes env.directory Debt.equivalentId (db.debts.rows.filter (·.creditorId = participantId))

def debtsIOwe : Dict (Uuid × String) Amount := debtsByPeer Debt.creditorId (myDebts participantId db)

def debtsOthersOwe : Dict (Uuid × String) Amount :=
  debtsByPeer Debt.debtorId (othersDebts participantId db)

def allPeersEquivalents : List (Uuid × String) :=
  ((debtsIOwe participantId db).keys ++ (debtsOthersOwe participantId db).keys).dedup

/-- What is added to `spend_capacity`: the links paid over incoming lines, and
the links without one. -/
def spendCapacities : List (String × Amount) :=
  let used := debtsIOwe participantId db
  let reverse := debtsOthersOwe participantId db
  lineCapacities TrustLine.fromParticipantId used reverse (inTls participantId db) ++
    debtCapacities TrustLine.fromParticipantId used reverse (inTls participantId db)
      (allPeersEquivalents participantId db)

/-- What is added to `receive_capacity`. -/
def receiveCapacities : List (String × Amount) :=
  let used := debtsOthersOwe participantId db
  let reverse := debtsIOwe participantId db
  lineCapacities TrustLine.toParticipantId used reverse (outTls participantId db) ++
    debtCapacities TrustLine.toParticipantId used reverse (outTls participantId db)
      (allPeersEquivalents participantId db)

/-- The additions to `equivalents_map`. -/
def summaryEntries : List (String × EquivalentTotals) :=
  ((myDebts participantId db).map fun d => (d.1, d.2.amount, 0, 0, 0)) ++
    ((othersDebts participantId db).map fun d => (d.1, 0, d.2.amount, 0, 0)) ++
    ((spendCapacities participantId db).map fun c => (c.1, 0, 0, c.2, 0)) ++
    ((receiveCapacities participantId db).map fun c => (c.1, 0, 0, 0, c.2))

def computeSummary : List BalanceEquivalent :=
  (Dict.empty.tally (summaryEntries participantId db)).items.map
    fun (code, debt, credit, spendCapacity, receiveCapacity) =>
      { code := code
        totalDebt := debt
        totalCredit := credit
        netBalance := credit - debt
        availableToSpend := max 0 spendCapacity
        availableToReceive := max 0 receiveCapacity }

end Summary

/-- `available_to_spend` in an equivalent; an equivalent that is not listed has none. -/
def availableToSpend (summary : List BalanceEquivalent) (code : String) : Amount :=
  ((summary.find? (·.code = code)).map (·.availableToSpend)).getD 0

section Totals

variable {participantId : Uuid} {db : Db env} {code : String}

theorem EquivalentTotals.sum_spend (entries : List EquivalentTotals) :
    entries.sum.2.2.1 = (entries.map (·.2.2.1)).sum := by
  induction entries with
  | nil => rfl
  | cons entry rest ih =>
      rw [List.sum_cons, List.map_cons, List.sum_cons, ← ih]
      rfl

/-- What can be spent is the sum of the capacities of the links, cut off at zero. -/
theorem availableToSpend_eq :
    availableToSpend (computeSummary participantId db) code =
      max 0 (((spendCapacities participantId db).filter (·.1 = code)).map (·.2)).sum := by
  have hEntry : availableToSpend (computeSummary participantId db) code =
      max 0 ((Dict.empty.tally (summaryEntries participantId db)).getD code 0).2.2.1 := by
    unfold availableToSpend computeSummary Dict.getD Dict.get?
    induction (Dict.empty.tally (summaryEntries participantId db)).items with
    | nil => simp
    | cons entry rest ih =>
        obtain ⟨key, totals⟩ := entry
        by_cases h : key = code
        · simp [h]
        · simpa [h, List.lookup_cons, beq_eq_false_iff_ne.mpr (Ne.symm h)] using ih
  have hSpend : ((summaryEntries participantId db).filter (·.1 = code)).map (·.2.2.2.1) =
      (((myDebts participantId db).filter (·.1 = code)).map fun _ => 0) ++
        (((othersDebts participantId db).filter (·.1 = code)).map fun _ => 0) ++
        ((spendCapacities participantId db).filter (·.1 = code)).map (·.2) ++
        (((receiveCapacities participantId db).filter (·.1 = code)).map fun _ => 0) := by
    simp only [summaryEntries, List.filter_append, List.map_append, List.filter_map, List.map_map,
      Function.comp_def]
  have hEmpty : (Dict.empty : Dict String EquivalentTotals).getD code 0 = 0 := rfl
  rw [hEntry, Dict.getD_tally, hEmpty, zero_add, EquivalentTotals.sum_spend, List.map_map]
  simp only [Function.comp_def, hSpend]
  simp

end Totals

end GeoLedger

import Mathlib
import GeoLedger.Debts

/-! `InvariantChecker` and the integrity checkpoint. The checks restricted to a
list of pairs are characterised by the amounts owed along those pairs; the
zero-sum check holds of every table. -/
namespace GeoLedger

variable {env : Env}

namespace TrustTable

variable {tl : TrustTable env} {a b e : Uuid}

theorem limit_cases (tl : TrustTable env) (a b e : Uuid) :
    tl.limit a b e = 0 ∨ ∃ l ∈ tl.rows, l.status = .active ∧ l.key = (a, b, e) ∧
      tl.limit a b e = l.limit := by
  cases h : tl.active a b e with
  | none => exact Or.inl (by simp [limit, h])
  | some l =>
      have hFound := List.find?_some h
      simp only [decide_eq_true_eq] at hFound
      exact Or.inr ⟨l, List.mem_of_find?_eq_some h, hFound.1, hFound.2, by simp [limit, h]⟩

theorem zero_le_limit (tl : TrustTable env) (a b e : Uuid) : 0 ≤ tl.limit a b e := by
  rcases tl.limit_cases a b e with h | ⟨l, hMem, _, _, h⟩
  · exact h.ge
  · rw [h]
    exact tl.limit_nonneg l hMem

/-- Two live lines between the same participants are the same line. -/
theorem eq_of_live {l l' : TrustLine} (hl : l ∈ tl.rows) (hl' : l' ∈ tl.rows)
    (hLive : l.status ≠ .closed) (hLive' : l'.status ≠ .closed) (hKey : l.key = l'.key) : l = l' :=
  Rows.eq_of_column tl.live_unique (List.mem_filter.mpr ⟨hl, by simpa using hLive⟩)
    (List.mem_filter.mpr ⟨hl', by simpa using hLive'⟩) hKey

theorem active_eq_some_iff {l : TrustLine} :
    tl.active a b e = some l ↔ l ∈ tl.rows ∧ l.status = .active ∧ l.key = (a, b, e) := by
  have hFound {l : TrustLine} (h : tl.active a b e = some l) :
      l ∈ tl.rows ∧ l.status = .active ∧ l.key = (a, b, e) := by
    have hProp := List.find?_some h
    simp only [decide_eq_true_eq] at hProp
    exact ⟨List.mem_of_find?_eq_some h, hProp⟩
  refine ⟨hFound, ?_⟩
  rintro ⟨hMem, hActive, hKey⟩
  cases h : tl.active a b e with
  | none =>
      have hNone := List.find?_eq_none.mp h l hMem
      simp only [decide_eq_true_eq] at hNone
      exact absurd ⟨hActive, hKey⟩ hNone
  | some other =>
      obtain ⟨hOther, hOtherActive, hOtherKey⟩ := hFound h
      rw [eq_of_live hMem hOther (by simp [hActive]) (by simp [hOtherActive])
        (hKey.trans hOtherKey.symm)]

theorem limit_of_active {l : TrustLine} (hMem : l ∈ tl.rows) (hActive : l.status = .active)
    (hKey : l.key = (a, b, e)) : tl.limit a b e = l.limit := by
  simp [limit, active_eq_some_iff.mpr ⟨hMem, hActive, hKey⟩]

end TrustTable

section Checks

variable (tl : TrustTable env) (t : DebtTable env) (e : Uuid) (pairs : List (Uuid × Uuid))

/-- Debts above the limit of the active creditor-to-debtor line. An empty list
of pairs restricts nothing. -/
def trustLimitViolations : List Debt :=
  t.rows.filter fun d => d.equivalentId = e ∧ (pairs = [] ∨ (d.debtorId, d.creditorId) ∈ pairs) ∧
    tl.limit d.creditorId d.debtorId d.equivalentId < d.amount

def checkTrustLimits : Except GeoError Unit :=
  if trustLimitViolations tl t e pairs = [] then .ok ()
  else .error (.integrity .TRUST_LIMIT_VIOLATION)

/-- Pairs of positive debts in both directions, listed from the smaller id. -/
def debtSymmetryViolations : List (Debt × Debt) :=
  (t.rows.product t.rows).filter fun (d₁, d₂) =>
    d₁.debtorId = d₂.creditorId ∧ d₁.creditorId = d₂.debtorId ∧ d₁.equivalentId = d₂.equivalentId ∧
      0 < d₁.amount ∧ 0 < d₂.amount ∧ d₁.debtorId < d₁.creditorId ∧ d₁.equivalentId = e ∧
      (pairs = [] ∨ (d₁.debtorId, d₁.creditorId) ∈ pairs ∨ (d₁.creditorId, d₁.debtorId) ∈ pairs)

def checkDebtSymmetry : Except GeoError Unit :=
  if debtSymmetryViolations t e pairs = [] then .ok ()
  else .error (.integrity .DEBT_SYMMETRY_VIOLATION)

/-- `_compute_imbalance`: the sum of all net positions in an equivalent. -/
def computeImbalance : Amount :=
  ((((t.rows.filter (·.equivalentId = e)).flatMap fun d => [d.debtorId, d.creditorId]).dedup).map
    fun p => t.netPosition p e).sum

def checkZeroSum : Except GeoError Unit :=
  if computeImbalance t e = 0 then .ok () else .error (.integrity .ZERO_SUM_VIOLATION)

end Checks

theorem checkTrustLimits_eq_ok_iff {tl : TrustTable env} {t : DebtTable env} {e : Uuid}
    {pairs : List (Uuid × Uuid)} (hPairs : pairs ≠ []) :
    checkTrustLimits tl t e pairs = .ok () ↔
      ∀ p ∈ pairs, t.owed p.1 p.2 e ≤ tl.limit p.2 p.1 e := by
  have hIff : checkTrustLimits tl t e pairs = .ok () ↔ trustLimitViolations tl t e pairs = [] := by
    unfold checkTrustLimits
    split <;> simp_all
  rw [hIff, trustLimitViolations, List.filter_eq_nil_iff]
  constructor
  · rintro h ⟨a, b⟩ hp
    rcases t.owed_cases a b e with hZero | ⟨d, hMem, hKey, hOwed⟩
    · rw [hZero]
      exact tl.zero_le_limit _ _ _
    · simp only [Debt.key, Prod.mk.injEq] at hKey
      obtain ⟨rfl, rfl, rfl⟩ := hKey
      have hRow := h d hMem
      simp only [true_and, decide_eq_true_eq, not_and, not_lt] at hRow
      rw [hOwed]
      exact hRow (Or.inr hp)
  · intro h d hMem
    simp only [decide_eq_true_eq, not_and, not_lt]
    rintro rfl hp
    have hRow := h (d.debtorId, d.creditorId) (hp.resolve_left hPairs)
    rwa [DebtTable.owed_of_mem hMem rfl] at hRow

theorem checkDebtSymmetry_eq_ok_iff {t : DebtTable env} {e : Uuid} {pairs : List (Uuid × Uuid)}
    (hPairs : pairs ≠ []) :
    checkDebtSymmetry t e pairs = .ok () ↔
      ∀ p ∈ pairs, t.owed p.1 p.2 e = 0 ∨ t.owed p.2 p.1 e = 0 := by
  have hIff : checkDebtSymmetry t e pairs = .ok () ↔ debtSymmetryViolations t e pairs = [] := by
    unfold checkDebtSymmetry
    split <;> simp_all
  rw [hIff, debtSymmetryViolations, List.filter_eq_nil_iff]
  constructor
  · rintro h ⟨a, b⟩ hp
    rcases t.owed_cases a b e with hZero | ⟨d, hMem, hKey, _⟩
    · exact Or.inl hZero
    · rcases t.owed_cases b a e with hZero | ⟨d', hMem', hKey', _⟩
      · exact Or.inr hZero
      · have hNe := t.no_self_loop d hMem
        simp only [Debt.key, Prod.mk.injEq] at hKey hKey'
        obtain ⟨rfl, rfl, rfl⟩ := hKey
        obtain ⟨hDebtor, hCreditor, hEquivalent⟩ := hKey'
        have hPos := t.amount_positive d hMem
        have hPos' := t.amount_positive d' hMem'
        rcases lt_or_gt_of_ne hNe with hLt | hGt
        · have hRow := h (d, d') (List.mem_product.mpr ⟨hMem, hMem'⟩)
          simp [hDebtor, hCreditor, hEquivalent, hPos, hPos', hLt, hp] at hRow
        · have hRow := h (d', d) (List.mem_product.mpr ⟨hMem', hMem⟩)
          simp [hDebtor, hCreditor, hEquivalent, hPos, hPos', hGt, hp] at hRow
  · rintro h ⟨d, d'⟩ hMem
    obtain ⟨hMem, hMem'⟩ := List.mem_product.mp hMem
    simp only [decide_eq_true_eq]
    rintro ⟨hDebtor, hCreditor, hEquivalent, hPos, hPos', _, rfl, hp⟩
    have hOwed := DebtTable.owed_of_mem hMem rfl
    have hOwed' : t.owed d.creditorId d.debtorId d.equivalentId = d'.amount :=
      DebtTable.owed_of_mem hMem' (by simp [Debt.key, hDebtor, hCreditor, hEquivalent])
    rcases hp.resolve_left hPairs with hp | hp
    · rcases h _ hp with hZero | hZero
      · rw [hOwed] at hZero
        exact hPos.ne' hZero
      · rw [hOwed'] at hZero
        exact hPos'.ne' hZero
    · rcases h _ hp with hZero | hZero
      · rw [hOwed'] at hZero
        exact hPos'.ne' hZero
      · rw [hOwed] at hZero
        exact hPos.ne' hZero

/-- Net positions of one equivalent sum to zero over the participants of its debts. -/
theorem computeImbalance_eq_zero (t : DebtTable env) (e : Uuid) : computeImbalance t e = 0 := by
  unfold computeImbalance
  rw [← List.sum_toFinset _ (List.nodup_dedup _)]
  set S :=
    ((t.rows.filter (·.equivalentId = e)).flatMap fun d => [d.debtorId, d.creditorId]).dedup.toFinset
    with hS
  have hIn {d : Debt} (hMem : d ∈ t.rows) (he : d.equivalentId = e) :
      d.debtorId ∈ S ∧ d.creditorId ∈ S := by
    have hRow : d ∈ t.rows.filter (·.equivalentId = e) := List.mem_filter.mpr ⟨hMem, by simpa⟩
    simp only [hS, List.mem_toFinset, List.mem_dedup, List.mem_flatMap]
    exact ⟨⟨d, hRow, by simp⟩, ⟨d, hRow, by simp⟩⟩
  have hTotal (side : Debt → Uuid) (hSide : ∀ d ∈ t.rows, d.equivalentId = e → side d ∈ S) :
      ∑ p ∈ S, ((t.rows.filter fun d => side d = p ∧ d.equivalentId = e).map (·.amount)).sum =
        (t.rows.map fun d => if d.equivalentId = e then d.amount else 0).sum := by
    simp only [Rows.sum_filter, Rows.sum_finset_comm]
    congr 1
    apply List.map_congr_left
    intro d hd
    by_cases he : d.equivalentId = e
    · simp [he, hSide d hd he]
    · simp [he]
  simp only [DebtTable.netPosition, DebtTable.credits, DebtTable.debits, Finset.sum_sub_distrib]
  rw [hTotal Debt.creditorId (fun d hd he => (hIn hd he).2),
    hTotal Debt.debtorId (fun d hd he => (hIn hd he).1), sub_self]

theorem checkZeroSum_eq_ok (t : DebtTable env) (e : Uuid) : checkZeroSum t e = .ok () := by
  rw [checkZeroSum, if_pos (computeImbalance_eq_zero t e)]

section Checkpoint

/-- An integrity checkpoint: the digest of an equivalent's debts and trust
lines, and the outcome of the checks. -/
structure Checkpoint where
  checksum : String
  checks : InvariantChecks

/-- `invariants_status["passed"]`. -/
def Checkpoint.passed (c : Checkpoint) : Bool :=
  c.checks.zeroSum && c.checks.trustLimits == 0 && c.checks.debtSymmetry == 0

/-- `compute_integrity_checkpoint_for_equivalent`. -/
def computeIntegrityCheckpoint (tl : TrustTable env) (t : DebtTable env) (e : Uuid) : Checkpoint where
  checksum := env.sha256 <|
    (((t.rows.filter (·.equivalentId = e)).insertionSort
        fun d₁ d₂ => toLex (d₁.debtorId, d₁.creditorId) ≤ toLex (d₂.debtorId, d₂.creditorId)).map
      fun d => .debt d.debtorId d.creditorId d.amount) ++
    (((tl.rows.filter (·.equivalentId = e)).insertionSort
        fun l₁ l₂ => toLex (l₁.fromParticipantId, toLex (l₁.toParticipantId, l₁.id)) ≤
          toLex (l₂.fromParticipantId, toLex (l₂.toParticipantId, l₂.id))).map
      fun l => .trustline l.fromParticipantId l.toParticipantId l.limit l.status)
  checks := {
    zeroSum := decide (computeImbalance t e = 0)
    trustLimits := (trustLimitViolations tl t e []).length
    debtSymmetry := (debtSymmetryViolations t e []).length }

/-- The audit row written with a change of one equivalent. -/
def auditRow (operation : OperationType) (txId : Option TxId) (code : String)
    (participants : List String) (before after : Checkpoint) : IntegrityAuditLog where
  operationType := operation
  txId := txId
  equivalentCode := code
  stateChecksumBefore := before.checksum
  stateChecksumAfter := after.checksum
  affectedParticipants := participants
  invariantsChecked := after.checks
  verificationPassed := after.passed

end Checkpoint

end GeoLedger

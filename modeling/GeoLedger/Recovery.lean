import Mathlib
import GeoLedger.Library.Runs
import GeoLedger.Payments.Engine

/-! `app.core.recovery`: expired prepare locks and stale payments are aborted one
transaction at a time. An abort that fails is counted and rolled back; which
ones fail is arbitrary. -/
namespace GeoLedger

variable {env : Env}

structure ExpiredLockCleanupResult where
  expiredLockIdsResolved : Nat
  transactionsAborted : Nat
  terminalTransactionsSeen : Nat
  itemFailures : Nat
deriving DecidableEq, Repr

structure StalePaymentAbortResult where
  transactionsAborted : Nat
  terminalTransactionsSeen : Nat
  abortFailures : Nat
deriving DecidableEq, Repr

/-- `_classify_abort_outcome`: newly aborted, or terminal before. -/
def classifyAbortOutcome : AbortOutcome → Nat × Nat
  | .success => (1, 0)
  | .already_aborted | .already_committed => (0, 1)

/-- The expired locks grouped by transaction, ordered by transaction and id. -/
def expiredLocksByTx (now : Time) (db : Db env) : List (TxId × List PrepareLock) :=
  (Dict.groupBy PrepareLock.txId ((db.prepareLocks.rows.filter (¬·.live now)).insertionSort
    fun l₁ l₂ => l₁.txId < l₂.txId ∨ (l₁.txId = l₂.txId ∧ l₁.id ≤ l₂.id))).items

/-- One transaction of `cleanup_expired_prepare_locks`. -/
def cleanupItem (now : Time) (fails : TxId → Bool) (acc : ExpiredLockCleanupResult × Db env)
    (item : TxId × List PrepareLock) : ExpiredLockCleanupResult × Db env :=
  if fails item.1 then ({ acc.1 with itemFailures := acc.1.itemFailures + 1 }, acc.2)
  else
    let (outcome, db) := abort now item.1 "Prepare lock expired" (some .E007) none acc.2
    ({ acc.1 with
        expiredLockIdsResolved := acc.1.expiredLockIdsResolved + item.2.length
        transactionsAborted := acc.1.transactionsAborted + (classifyAbortOutcome outcome).1
        terminalTransactionsSeen :=
          acc.1.terminalTransactionsSeen + (classifyAbortOutcome outcome).2 }, db)

def cleanupExpiredPrepareLocks (now : Time) (fails : TxId → Bool) (db : Db env) :
    ExpiredLockCleanupResult × Db env :=
  (expiredLocksByTx now db).foldl (cleanupItem now fails) (⟨0, 0, 0, 0⟩, db)

def activeTxStates : List TxState :=
  [.NEW, .ROUTED, .PREPARE_IN_PROGRESS, .PREPARED, .PROPOSED, .WAITING]

/-- Payments that have been active for longer than the timeout, oldest first. -/
def stalePayments (now : Time) (db : Db env) : List TxId :=
  ((db.transactions.rows.filter fun tx => tx.payload.isPayment ∧ tx.state ∈ activeTxStates ∧
    tx.updatedAt + env.paymentTxStuckTimeoutSeconds < now).insertionSort
      fun tx₁ tx₂ => tx₁.updatedAt ≤ tx₂.updatedAt).map (·.txId)

/-- One transaction of `abort_stale_payment_transactions`. -/
def abortStaleItem (now : Time) (fails : TxId → Bool) (acc : StalePaymentAbortResult × Db env)
    (txId : TxId) : StalePaymentAbortResult × Db env :=
  if fails txId then ({ acc.1 with abortFailures := acc.1.abortFailures + 1 }, acc.2)
  else
    let (outcome, db) := abort now txId "Recovered stale payment transaction" (some .E007) none acc.2
    ({ acc.1 with
        transactionsAborted := acc.1.transactionsAborted + (classifyAbortOutcome outcome).1
        terminalTransactionsSeen :=
          acc.1.terminalTransactionsSeen + (classifyAbortOutcome outcome).2 }, db)

def abortStalePaymentTransactions (now : Time) (fails : TxId → Bool) (db : Db env) :
    StalePaymentAbortResult × Db env :=
  (stalePayments now db).foldl (abortStaleItem now fails) (⟨0, 0, 0⟩, db)

/-- `run_recovery_once`: both passes, and whether all items succeeded. -/
def runRecoveryOnce (now : Time) (cleanupFails staleFails : TxId → Bool) (db : Db env) :
    Bool × Db env :=
  let (expired, db₁) := cleanupExpiredPrepareLocks now cleanupFails db
  let (stale, db₂) := abortStalePaymentTransactions now staleFails db₁
  (expired.itemFailures == 0 && stale.abortFailures == 0, db₂)

/-- Recovery only aborts: whatever every abort preserves, a recovery pass preserves. -/
theorem runRecoveryOnce_invariant {now : Time} {Q : Db env → Prop}
    (hAbort : ∀ db txId reason code, Q db → Q (abort now txId reason code none db).2)
    (cleanupFails staleFails : TxId → Bool) {db : Db env} (h : Q db) :
    Q (runRecoveryOnce now cleanupFails staleFails db).2 := by
  apply Transition.foldl_invariant (P := fun acc : StalePaymentAbortResult × Db env => Q acc.2)
  · apply Transition.foldl_invariant
      (P := fun acc : ExpiredLockCleanupResult × Db env => Q acc.2) _ _ h
    intro acc item hAcc
    unfold cleanupItem
    split
    · exact hAcc
    · exact hAbort acc.2 item.1 _ _ hAcc
  · intro acc txId hAcc
    unfold abortStaleItem
    split
    · exact hAcc
    · exact hAbort acc.2 txId _ _ hAcc

end GeoLedger

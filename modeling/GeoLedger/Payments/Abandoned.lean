import Mathlib
import GeoLedger.RecoveryConvergence
import GeoLedger.Payments.Lifecycle

/-! Payments that nobody finishes. A lock lives no longer than its time to live, and a row
is never dated ahead of the clock, so when the calls stop, waiting and one recovery pass
end every payment and free every reservation. -/
namespace GeoLedger

variable {env : Env} {db db' : Db env} {now : Time} {txId : TxId} {op : LedgerOp}

section Dates

/-- No lock outlives its time to live from now, and no row was updated later than now. -/
structure Dated (now : Time) (db : Db env) : Prop where
  locks : ∀ l ∈ db.prepareLocks.rows, l.expiresAt ≤ now + env.prepareLockTtlSeconds
  rows : ∀ tx ∈ db.transactions.rows, tx.updatedAt ≤ now

theorem Dated.later {now' : Time} (h : Dated now db) (hTime : now ≤ now') : Dated now' db where
  locks l hl := (h.locks l hl).trans (Nat.add_le_add_right hTime _)
  rows tx hTx := (h.rows tx hTx).trans hTime

/-- Rows of an update are dated now. -/
theorem dated_update {t : TxTable} {state : TxState} {error : Option TxError} (h : ∀ tx ∈ t.rows, tx.updatedAt ≤ now) :
    ∀ tx ∈ (t.update txId state error now).rows, tx.updatedAt ≤ now := by
  intro tx hTx
  rcases TxTable.mem_update_iff.mp hTx with ⟨old, _, _, rfl⟩ | ⟨hOld, _⟩
  · exact le_rfl
  · exact h tx hOld

theorem dated_insert {t t' : TxTable} {tx : Transaction} (hInsert : t.insert tx = .ok t')
    (h : ∀ tx ∈ t.rows, tx.updatedAt ≤ now) (hNow : tx.updatedAt = now) : ∀ tx ∈ t'.rows, tx.updatedAt ≤ now := by
  intro row hRow
  rw [(TxTable.insert_eq_ok_iff.mp hInsert).2] at hRow
  rcases List.mem_append.mp hRow with hOld | hNew
  · exact h row hOld
  · rw [List.mem_singleton.mp hNew, hNow]

theorem Prepares.dated {e : Uuid} {tx : Transaction} {flows : List Flow} (hPrepares : Prepares now e tx flows db db')
    (h : Dated now db) : Dated now db' where
  locks l hl := by
    obtain ⟨new, hRows, _, hNew⟩ := hPrepares.locks
    rw [hRows] at hl
    rcases List.mem_append.mp hl with hOld | hIn
    · exact h.locks l hOld
    · exact (hNew l hIn).2.1.le
  rows := by
    rw [hPrepares.transactions]
    exact dated_update h.rows

theorem dated_abort (h : Dated now db) (reason : String) (code : Option ErrorCode)
    (details : Option (List (String × String))) : Dated now (abort now txId reason code details db).2 := by
  rw [abort_eq]
  refine ⟨fun l hl => h.locks l (Rows.mem_delete_iff.mp hl).1, ?_⟩
  cases db.transactions.get? txId with
  | none => exact h.rows
  | some tx =>
      simp only
      split
      · exact h.rows
      · exact dated_update h.rows

/-- No operation dates a transaction or a lock into the future. -/
theorem dated_change (h : Dated now db) (hChange : Change now db op db') : Dated now db' := by
  cases hChange with
  | inserted hInsert => exact ⟨h.locks, dated_insert hInsert h.rows rfl⟩
  | prepared _ hPrepares => exact hPrepares.dated h
  | preparedRoutes _ _ hPrepares => exact hPrepares.dated h
  | committed _ hCommit =>
      refine ⟨fun l hl => ?_, ?_⟩
      · rw [hCommit.prepareLocks] at hl
        exact h.locks l (Rows.mem_delete_iff.mp hl).1
      · rw [hCommit.transactions]
        exact dated_update h.rows
  | aborted txId reason code details => exact dated_abort h reason code details
  | cleared hClears =>
      obtain ⟨hInsert, _, _, _, hLocks⟩ := stageClearing_eq_ok hClears.staged
      exact ⟨hLocks ▸ h.locks, dated_insert hInsert h.rows rfl⟩
  | opened hOk =>
      obtain ⟨_, _, _, _, _, _, _, _, _, rfl⟩ := createTrustLine_effect hOk
      exact ⟨h.locks, h.rows⟩
  | updated hOk =>
      obtain ⟨_, _, _, _, _, _, _, _, _, rfl⟩ := updateTrustLine_effect hOk
      exact ⟨h.locks, h.rows⟩
  | closed hOk =>
      obtain ⟨_, _, _, _, _, _, _, rfl⟩ := closeTrustLine_effect hOk
      exact ⟨h.locks, h.rows⟩

theorem dated_step {s : Ledger env} (h : Dated s.now s.db) (op : LedgerOp) : Dated (s.step op).now (s.step op).db := by
  have hKept : Dated s.now (applyOp s.now s.db op) :=
    applyOp_invariant h fun _ _ hMid hChange => dated_change hMid hChange
  cases op with
  | tick seconds => exact hKept.later (Nat.le_add_right _ seconds)
  | _ => exact hKept

/-- After any run of the ledger nothing is dated into the future. -/
theorem dated_run (ops : List LedgerOp) :
    Dated ((Ledger.empty : Ledger env).run ops).now ((Ledger.empty : Ledger env).run ops).db := by
  refine Transition.foldl_invariant (P := fun s : Ledger env => Dated s.now s.db) ops _ ?_ fun s op hs => dated_step hs op
  constructor
  · intro l hl
    cases hl
  · intro tx hTx
    cases hTx

end Dates

section Abandoned

/-- The calls stop, time passes, and a recovery pass runs in which no abort fails. -/
def abandoned (env : Env) (seconds : Nat) : List LedgerOp :=
  [.tick (env.prepareLockTtlSeconds + env.paymentTxStuckTimeoutSeconds + 1 + seconds),
    .recovery (fun _ => false) fun _ => false]

theorem expired_late {start expires ttl stuck seconds : Nat} (h : expires ≤ start + ttl) :
    ¬start + (ttl + stuck + 1 + seconds) < expires := by
  omega

theorem stale_late {start updated ttl stuck seconds : Nat} (h : updated ≤ start) :
    updated + stuck < start + (ttl + stuck + 1 + seconds) := by
  omega

theorem not_abortFails : ¬AbortFails now (fun _ => false) (fun _ => false) db txId := by
  rintro (⟨_, hFails⟩ | ⟨_, hFails⟩)
  · cases hFails
  · cases hFails

/-- A recovery pass that fails nowhere leaves no expired lock. -/
theorem locks_after_recovery (h : ∀ l ∈ db.prepareLocks.rows, ¬l.live now) :
    (runRecoveryOnce now (fun _ => false) (fun _ => false) db).2.prepareLocks.rows = [] := by
  refine List.eq_nil_iff_forall_not_mem.mpr fun l hl => ?_
  have hMiddle := (((aborts_stale now (fun _ => false)
    (betweenPasses now (fun _ => false) db)).1.locks l).mp hl).1
  have hRow := (((aborts_cleanup now (fun _ => false) db).1.locks l).mp hMiddle).1
  exact not_abortFails (abortFails_of_expired_left ⟨l, hl, rfl, h l hRow⟩)

/-- From every state of the ledger: once it is left alone for long enough, one recovery pass
ends every payment, COMMITTED if it was and ABORTED if not, leaves no lock, and moves no debt. -/
theorem abandoned_payments_end (env : Env) (ops : List LedgerOp) (seconds : Nat) :
    let before : Ledger env := (Ledger.empty : Ledger env).run ops
    let after : Ledger env := before.run (abandoned env seconds)
    after.db.prepareLocks.rows = [] ∧ after.db.debts = before.db.debts ∧
      ∀ tx ∈ before.db.transactions.rows, tx.payload.isPayment →
        after.db.stateOf tx.txId = some (if tx.state = .COMMITTED then .COMMITTED else .ABORTED) := by
  intro before after
  have hDated : Dated before.now before.db := dated_run ops
  have hKnown : KnownStates before.db := by
    have hEmpty : KnownStates (Ledger.empty : Ledger env).db := by
      intro tx hTx
      cases hTx
    exact (later_run _ hEmpty ops).known
  have hLater : Later before.db after.db := later_run before hKnown (abandoned env seconds)
  let late : Time := before.now + (env.prepareLockTtlSeconds + env.paymentTxStuckTimeoutSeconds + 1 + seconds)
  have hAfter : after.db = (runRecoveryOnce late (fun _ => false) (fun _ => false) before.db).2 := rfl
  refine ⟨?_, ?_, fun tx hTx hPayment => ?_⟩
  · rw [hAfter]
    exact locks_after_recovery fun l hl => expired_late (hDated.locks l hl)
  · rw [hAfter]
    exact (aborts_stale late _ _).1.debts.trans (aborts_cleanup late _ _).1.debts
  · have hFound : before.db.transactions.get? tx.txId = some tx := TxTable.get?_eq_some_iff.mpr ⟨hTx, rfl⟩
    have hTerminal (hEnded : tx.state.terminal) : after.db.stateOf tx.txId = some tx.state := by
      have hReach := hLater.advanced tx.txId
      rw [Db.stateOf, hFound] at hReach
      exact terminal_stays hEnded hReach
    have hAborted (hActive : tx.state ∈ activeTxStates) : after.db.stateOf tx.txId = some .ABORTED := by
      have hOld : tx.updatedAt + env.paymentTxStuckTimeoutSeconds < late := stale_late (hDated.rows tx hTx)
      have hStale : Stale late before.db tx.txId := ⟨tx, hFound, hPayment, hActive, hOld⟩
      rw [hAfter]
      exact aborted_of_stale hStale not_abortFails
    rcases hKnown tx hTx with hState | hState | hState | hState
    · rw [hAborted (by simp [hState, activeTxStates]), hState]
      rfl
    · rw [hAborted (by simp [hState, activeTxStates]), hState]
      rfl
    · rw [hTerminal (Or.inl hState), hState]
      rfl
    · rw [hTerminal (Or.inr hState), hState]
      rfl

end Abandoned

end GeoLedger

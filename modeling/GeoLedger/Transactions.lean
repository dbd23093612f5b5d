import Mathlib
import GeoLedger.Steps

/-! The transactions table over whole runs. A committed row never changes
again, and only a clearing records a clearing. -/
namespace GeoLedger
open Outcomes

variable {env : Env}

/-- One step of the transactions table: committed rows stay as they are, and
every clearing row was there before. -/
structure Quiet (t t' : TxTable) : Prop where
  keeps : ∀ tx ∈ t.rows, tx.state = .COMMITTED → tx ∈ t'.rows
  clearings : ∀ tx' ∈ t'.rows, tx'.payload.isPayment = false →
    ∃ tx ∈ t.rows, tx.txId = tx'.txId ∧ tx.payload = tx'.payload

namespace Quiet

variable {t t' : TxTable}

theorem refl (t : TxTable) : Quiet t t := ⟨fun _ h _ => h, fun tx h _ => ⟨tx, h, rfl, rfl⟩⟩

/-- Moving a transaction that is not committed to another state is quiet. -/
theorem update {txId : TxId} {state : TxState} {error : Option TxError} {now : Time}
    (hOpen : ∀ tx ∈ t.rows, tx.txId = txId → tx.state ≠ .COMMITTED) :
    Quiet t (t.update txId state error now) where
  keeps tx hMem hState := by
    refine TxTable.mem_update_iff.mpr (Or.inr ⟨hMem, fun hId => ?_⟩)
    exact hOpen tx hMem hId hState
  clearings tx hMem _ := by
    rcases TxTable.mem_update_iff.mp hMem with ⟨old, hOld, _, rfl⟩ | ⟨hOld, _⟩
    · exact ⟨old, hOld, rfl, rfl⟩
    · exact ⟨tx, hOld, rfl, rfl⟩

theorem update_of_get? {txId : TxId} {tx : Transaction} {state : TxState} {error : Option TxError}
    {now : Time} (hTx : t.get? txId = some tx) (hOpen : tx.state ≠ .COMMITTED) :
    Quiet t (t.update txId state error now) := by
  refine update fun other hOther hId => ?_
  obtain ⟨hMem, hTxId⟩ := TxTable.get?_eq_some_iff.mp hTx
  rw [Rows.eq_of_column t.tx_id_unique hOther hMem (hId.trans hTxId.symm)]
  exact hOpen

/-- Inserting a payment is quiet. -/
theorem insert {tx : Transaction} (hPayment : tx.payload.isPayment = true)
    (h : t.insert tx = .ok t') : Quiet t t' where
  keeps old hMem _ := by
    rw [(TxTable.insert_eq_ok_iff.mp h).2]
    exact List.mem_append_left _ hMem
  clearings old hMem hClearing := by
    rw [(TxTable.insert_eq_ok_iff.mp h).2] at hMem
    rcases List.mem_append.mp hMem with hOld | hNew
    · exact ⟨old, hOld, rfl, rfl⟩
    · rw [List.mem_singleton.mp hNew, hPayment] at hClearing
      cases hClearing

end Quiet

section Steps

variable {now : Time} {db db' : Db env} {txId : TxId} {op : LedgerOp}

theorem quiet_abort (reason : String) (code : Option ErrorCode)
    (details : Option (List (String × String))) :
    Quiet db.transactions (abort now txId reason code details db).2.transactions := by
  rw [abort_eq]
  cases hTx : db.transactions.get? txId with
  | none => exact .refl _
  | some tx =>
      simp only
      split
      · exact .refl _
      · next hOpen => exact .update_of_get? hTx hOpen

theorem Prepares.quiet {e : Uuid} {tx : Transaction} {flows : List Flow}
    (h : Prepares now e tx flows db db') : Quiet db.transactions db'.transactions := by
  rw [h.transactions]
  exact .update_of_get? h.found (tx.state.open_iff.mp h.isOpen).1

theorem Commits.quiet {tx : Transaction} (h : Commits now db db' tx) :
    Quiet db.transactions db'.transactions := by
  rw [h.transactions]
  refine .update_of_get? h.found ?_
  rw [h.prepared]
  decide

/-- A committed transaction is a clearing, or it is quiet and brings no deleted debt's id back. -/
theorem quiet_change (hChange : Change now db op db') :
    (Quiet db.transactions db'.transactions ∧ db.debts.Retires db'.debts) ∨
      ∃ order cycle allowedPids debtIds first rest,
        Clears now order cycle allowedPids db db' debtIds first rest := by
  cases hChange with
  | inserted h => exact Or.inl ⟨.insert rfl h, .refl _⟩
  | prepared _ h => exact Or.inl ⟨h.quiet, h.debts ▸ .refl _⟩
  | preparedRoutes _ _ h => exact Or.inl ⟨h.quiet, h.debts ▸ .refl _⟩
  | committed _ h => exact Or.inl ⟨h.quiet, h.untouched.1⟩
  | aborted txId reason code details =>
      refine Or.inl ⟨quiet_abort reason code details, ?_⟩
      rw [abort_eq]
      exact .refl _
  | cleared h => exact Or.inr ⟨_, _, _, _, _, _, h⟩
  | opened h =>
      obtain ⟨_, _, _, _, _, _, _, _, _, rfl⟩ := createTrustLine_effect h
      exact Or.inl ⟨.refl _, .refl _⟩
  | updated h =>
      obtain ⟨_, _, _, _, _, _, _, _, _, rfl⟩ := updateTrustLine_effect h
      exact Or.inl ⟨.refl _, .refl _⟩
  | closed h =>
      obtain ⟨_, _, _, _, _, _, _, rfl⟩ := closeTrustLine_effect h
      exact Or.inl ⟨.refl _, .refl _⟩

end Steps

end GeoLedger

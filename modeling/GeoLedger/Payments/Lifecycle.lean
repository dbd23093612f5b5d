import Mathlib
import GeoLedger.Reservations

/-! The life of a transaction over whole runs. States only move forward, locks stand
for prepared payments only, and debts move only when a transaction becomes COMMITTED. -/
namespace GeoLedger
open Relation

variable {env : Env} {db db' : Db env} {now : Time} {txId : TxId} {op : LedgerOp}

/-- The state of a transaction, if it is recorded. -/
def Db.stateOf (db : Db env) (txId : TxId) : Option TxState := (db.transactions.get? txId).map (·.state)

/-- One move of a transaction: a payment is inserted NEW and a clearing COMMITTED. -/
inductive Advances : Option TxState → Option TxState → Prop where
  | inserted : Advances none (some .NEW)
  | cleared : Advances none (some .COMMITTED)
  | prepared : Advances (some .NEW) (some .PREPARED)
  | committed : Advances (some .PREPARED) (some .COMMITTED)
  | abandoned : Advances (some .NEW) (some .ABORTED)
  | aborted : Advances (some .PREPARED) (some .ABORTED)

/-- A state that ends a transaction. -/
def TxState.terminal (s : TxState) : Prop := s = .COMMITTED ∨ s = .ABORTED

/-- A transaction does not advance from a terminal state. -/
theorem Advances.not_terminal {before : TxState} {after : Option TxState} (h : Advances (some before) after) :
    ¬before.terminal := by
  cases h <;> simp [TxState.terminal]

/-- A terminal state stays. -/
theorem terminal_stays {before : TxState} {after : Option TxState} (hTerminal : before.terminal)
    (h : ReflTransGen Advances (some before) after) : after = some before := by
  induction h with
  | refl => rfl
  | tail _ hLast ih =>
      rw [ih] at hLast
      exact absurd hTerminal hLast.not_terminal

/-- The states that the engine gives to its transactions. -/
def TxState.known (s : TxState) : Prop := s = .NEW ∨ s = .PREPARED ∨ s = .COMMITTED ∨ s = .ABORTED

def KnownStates (db : Db env) : Prop := ∀ tx ∈ db.transactions.rows, tx.state.known

/-- A transaction that is found is in a known state. -/
theorem KnownStates.of_get? (h : KnownStates db) {tx : Transaction} (hTx : db.transactions.get? txId = some tx) :
    tx.state.known :=
  h tx (TxTable.get?_eq_some_iff.mp hTx).1

section Tables

variable {t t' : TxTable} {tx : Transaction} {state : TxState} {error : Option TxError}

/-- An inserted transaction is found under its id, and the others as before. -/
theorem TxTable.get?_insert (h : t.insert tx = .ok t') (other : TxId) :
    t'.get? other = if other = tx.txId then some tx else t.get? other := by
  obtain ⟨hFresh, hRows⟩ := TxTable.insert_eq_ok_iff.mp h
  refine Option.ext fun found => ?_
  rw [TxTable.get?_eq_some_iff, hRows, List.mem_append, List.mem_singleton]
  by_cases hId : other = tx.txId
  · rw [if_pos hId, Option.some.injEq]
    constructor
    · rintro ⟨hOld | hNew, hFound⟩
      · exact absurd (hFound.trans hId) (hFresh found hOld)
      · exact hNew.symm
    · rintro rfl
      exact ⟨Or.inr rfl, hId.symm⟩
  · rw [if_neg hId, TxTable.get?_eq_some_iff]
    constructor
    · rintro ⟨hOld | hNew, hFound⟩
      · exact ⟨hOld, hFound⟩
      · exact absurd (hFound.symm.trans (congrArg Transaction.txId hNew)) hId
    · rintro ⟨hOld, hFound⟩
      exact ⟨Or.inl hOld, hFound⟩

/-- The id of an inserted transaction was free. -/
theorem TxTable.get?_fresh (h : t.insert tx = .ok t') : t.get? tx.txId = none := by
  cases hTx : t.get? tx.txId with
  | none => rfl
  | some old =>
      obtain ⟨hMem, hId⟩ := TxTable.get?_eq_some_iff.mp hTx
      exact absurd hId ((TxTable.insert_eq_ok_iff.mp h).1 old hMem)

/-- A row that a change inserts. -/
theorem stateOf_insert (h : db.transactions.insert tx = .ok db'.transactions) (other : TxId) :
    db'.stateOf other = if other = tx.txId then some tx.state else db.stateOf other := by
  rw [Db.stateOf, TxTable.get?_insert h]
  split
  · rfl
  · rfl

/-- A row that a change moves to another state. -/
theorem stateOf_update (hTx : db.transactions.get? tx.txId = some tx)
    (h : db'.transactions = db.transactions.update tx.txId state error now) (other : TxId) :
    db'.stateOf other = if other = tx.txId then some state else db.stateOf other := by
  rw [Db.stateOf, h]
  split
  · next hId =>
      rw [hId, TxTable.get?_update hTx]
      rfl
  · next hId =>
      rw [TxTable.get?_update_of_ne hId]
      rfl

/-- Inserting a transaction in a known state keeps all states known. -/
theorem knownStates_insert (hDb : KnownStates db) (h : db.transactions.insert tx = .ok db'.transactions)
    (hState : tx.state.known) : KnownStates db' := by
  intro row hRow
  rw [(TxTable.insert_eq_ok_iff.mp h).2] at hRow
  rcases List.mem_append.mp hRow with hOld | hNew
  · exact hDb row hOld
  · rw [List.mem_singleton.mp hNew]
    exact hState

/-- Moving a transaction to a known state keeps all states known. -/
theorem knownStates_update (hDb : KnownStates db)
    (h : db'.transactions = db.transactions.update txId state error now) (hState : state.known) :
    KnownStates db' := by
  intro row hRow
  rw [h] at hRow
  rcases TxTable.mem_update_iff.mp hRow with ⟨old, _, _, rfl⟩ | ⟨hOld, _⟩
  · exact hState
  · exact hDb row hOld

end Tables

section Changes

/-- The state of one transaction before and after a change. -/
def MovesTo (db db' : Db env) : Prop :=
  ∀ txId, db'.stateOf txId = db.stateOf txId ∨ Advances (db.stateOf txId) (db'.stateOf txId)

/-- A step that leaves the transactions as they are moves none. -/
theorem movesTo_of_eq (h : db'.transactions = db.transactions) : MovesTo db db' := by
  intro txId
  left
  rw [Db.stateOf, h]
  rfl

/-- An insertion moves its transaction out of nothing, and no other. -/
theorem movesTo_insert {tx : Transaction} (h : db.transactions.insert tx = .ok db'.transactions)
    (hMove : Advances none (some tx.state)) : MovesTo db db' := by
  intro other
  rw [stateOf_insert h]
  by_cases hId : other = tx.txId
  · right
    rw [if_pos hId, hId, Db.stateOf, TxTable.get?_fresh h]
    exact hMove
  · left
    rw [if_neg hId]

/-- An update moves its transaction, and no other. -/
theorem movesTo_update {tx : Transaction} {state : TxState} {error : Option TxError}
    (hTx : db.transactions.get? tx.txId = some tx)
    (h : db'.transactions = db.transactions.update tx.txId state error now)
    (hMove : tx.state = state ∨ Advances (some tx.state) (some state)) : MovesTo db db' := by
  intro other
  rw [stateOf_update hTx h]
  by_cases hId : other = tx.txId
  · rw [if_pos hId, hId, Db.stateOf, hTx]
    rcases hMove with hSame | hMove
    · left
      rw [← hSame]
      rfl
    · exact Or.inr hMove
  · left
    rw [if_neg hId]

/-- A preparation moves its transaction to the prepared state, and no other. -/
theorem Prepares.movesTo {e : Uuid} {tx : Transaction} {flows : List Flow} (h : Prepares now e tx flows db db')
    (hKnown : KnownStates db) : MovesTo db db' ∧ KnownStates db' := by
  refine ⟨movesTo_update h.found h.transactions ?_, knownStates_update hKnown h.transactions (Or.inr (Or.inl rfl))⟩
  obtain ⟨hCommitted, hAborted⟩ := tx.state.open_iff.mp h.isOpen
  rcases hKnown.of_get? h.found with hNew | hPrepared | hDone | hDone
  · rw [hNew]
    exact Or.inr .prepared
  · exact Or.inl hPrepared
  · exact absurd hDone hCommitted
  · exact absurd (Or.inl hDone) hAborted

/-- An abort moves its transaction to the aborted state, if at all, and no other. -/
theorem movesTo_abort (hKnown : KnownStates db) (txId : TxId) (reason : String) (code : Option ErrorCode)
    (details : Option (List (String × String))) :
    MovesTo db (abort now txId reason code details db).2 ∧
      KnownStates (abort now txId reason code details db).2 := by
  rw [abort_eq]
  cases hTx : db.transactions.get? txId with
  | none => exact ⟨movesTo_of_eq rfl, hKnown⟩
  | some tx =>
      obtain rfl : tx.txId = txId := (TxTable.get?_eq_some_iff.mp hTx).2
      simp only
      by_cases hCommitted : tx.state = .COMMITTED
      · rw [if_pos hCommitted]
        exact ⟨movesTo_of_eq rfl, hKnown⟩
      · rw [if_neg hCommitted]
        refine ⟨movesTo_update hTx rfl ?_, knownStates_update hKnown rfl (Or.inr (Or.inr (Or.inr rfl)))⟩
        rcases hKnown.of_get? hTx with hNew | hPrepared | hDone | hAborted
        · rw [hNew]
          exact Or.inr .abandoned
        · rw [hPrepared]
          exact Or.inr .aborted
        · exact absurd hDone hCommitted
        · exact Or.inl hAborted

/-- Every change moves transactions forward. -/
theorem movesTo_change (hKnown : KnownStates db) (hChange : Change now db op db') :
    MovesTo db db' ∧ KnownStates db' := by
  cases hChange with
  | inserted hInsert =>
      exact ⟨movesTo_insert hInsert .inserted, knownStates_insert hKnown hInsert (Or.inl rfl)⟩
  | prepared _ hPrepares => exact hPrepares.movesTo hKnown
  | preparedRoutes _ _ hPrepares => exact hPrepares.movesTo hKnown
  | committed _ hCommit =>
      refine ⟨movesTo_update hCommit.found hCommit.transactions (Or.inr ?_),
        knownStates_update hKnown hCommit.transactions (Or.inr (Or.inr (Or.inl rfl)))⟩
      rw [hCommit.prepared]
      exact .committed
  | aborted txId reason code details => exact movesTo_abort hKnown txId reason code details
  | cleared hClears =>
      obtain ⟨hInsert, _⟩ := stageClearing_eq_ok hClears.staged
      exact ⟨movesTo_insert hInsert .cleared, knownStates_insert hKnown hInsert (Or.inr (Or.inr (Or.inl rfl)))⟩
  | opened hOk =>
      obtain ⟨_, _, _, _, _, _, _, _, _, rfl⟩ := createTrustLine_effect hOk
      exact ⟨movesTo_of_eq rfl, hKnown⟩
  | updated hOk =>
      obtain ⟨_, _, _, _, _, _, _, _, _, rfl⟩ := updateTrustLine_effect hOk
      exact ⟨movesTo_of_eq rfl, hKnown⟩
  | closed hOk =>
      obtain ⟨_, _, _, _, _, _, _, rfl⟩ := closeTrustLine_effect hOk
      exact ⟨movesTo_of_eq rfl, hKnown⟩

/-- A change that touches the debts makes a transaction COMMITTED. -/
theorem debts_change (hChange : Change now db op db') : db'.debts = db.debts ∨
    ∃ txId, db.stateOf txId ≠ some .COMMITTED ∧ db'.stateOf txId = some .COMMITTED := by
  cases hChange with
  | inserted => exact Or.inl rfl
  | prepared _ hPrepares => exact Or.inl hPrepares.debts
  | preparedRoutes _ _ hPrepares => exact Or.inl hPrepares.debts
  | @committed op tx db' _ hCommit =>
      refine Or.inr ⟨tx.txId, ?_, ?_⟩
      · rw [Db.stateOf, hCommit.found, Option.map_some, hCommit.prepared]
        simp
      · rw [stateOf_update hCommit.found hCommit.transactions, if_pos rfl]
  | aborted txId reason code details =>
      rw [abort_eq]
      exact Or.inl rfl
  | cleared hClears =>
      obtain ⟨hInsert, _⟩ := stageClearing_eq_ok hClears.staged
      refine Or.inr ⟨_, ?_, by rw [stateOf_insert hInsert, if_pos rfl]; rfl⟩
      rw [Db.stateOf, TxTable.get?_fresh hInsert]
      simp
  | opened hOk =>
      obtain ⟨_, _, _, _, _, _, _, _, _, rfl⟩ := createTrustLine_effect hOk
      exact Or.inl rfl
  | updated hOk =>
      obtain ⟨_, _, _, _, _, _, _, _, _, rfl⟩ := updateTrustLine_effect hOk
      exact Or.inl rfl
  | closed hOk =>
      obtain ⟨_, _, _, _, _, _, _, rfl⟩ := closeTrustLine_effect hOk
      exact Or.inl rfl

end Changes

section Runs

/-- From one state to a later one: transactions have advanced, and the debts are the same
unless some transaction has become COMMITTED. -/
structure Later (db db' : Db env) : Prop where
  known : KnownStates db'
  advanced : ∀ txId, ReflTransGen Advances (db.stateOf txId) (db'.stateOf txId)
  debts : db'.debts = db.debts ∨
    ∃ txId, db.stateOf txId ≠ some .COMMITTED ∧ db'.stateOf txId = some .COMMITTED

theorem Later.refl (h : KnownStates db) : Later db db := ⟨h, fun _ => .refl, Or.inl rfl⟩

/-- What is COMMITTED later stays COMMITTED after one more change. -/
theorem Later.change {mid : Db env} (h : Later db mid) (hChange : Change now mid op db') : Later db db' := by
  obtain ⟨hMoves, hKnown⟩ := movesTo_change h.known hChange
  have hOne : ∀ txId, ReflTransGen Advances (mid.stateOf txId) (db'.stateOf txId) := by
    intro txId
    rcases hMoves txId with hSame | hMove
    · rw [hSame]
    · exact .single hMove
  have hKeeps : ∀ txId, mid.stateOf txId = some .COMMITTED → db'.stateOf txId = some .COMMITTED := by
    intro txId hCommitted
    have hReach := hOne txId
    rw [hCommitted] at hReach
    exact terminal_stays (Or.inl rfl) hReach
  refine ⟨hKnown, fun txId => (h.advanced txId).trans (hOne txId), ?_⟩
  rcases h.debts with hSame | ⟨txId, hBefore, hAfter⟩
  · rcases debts_change hChange with hLast | ⟨txId, hBefore, hAfter⟩
    · exact Or.inl (hLast.trans hSame)
    · refine Or.inr ⟨txId, fun hCommitted => hBefore ?_, hAfter⟩
      have hReach := h.advanced txId
      rw [hCommitted] at hReach
      exact terminal_stays (Or.inl rfl) hReach
  · exact Or.inr ⟨txId, hBefore, hKeeps txId hAfter⟩

/-- After any list of operations every transaction is where its lifecycle may have taken it. -/
theorem later_run (s : Ledger env) (hKnown : KnownStates s.db) (ops : List LedgerOp) : Later s.db (s.run ops).db :=
  run_invariant (P := fun db' => Later s.db db') s (.refl hKnown) (fun _ _ _ _ h hChange => h.change hChange) ops

/-- Whatever operations follow on whatever operations: states have only moved forward, a
COMMITTED or ABORTED transaction has not moved at all, every lock stands for a PREPARED
payment, and the debts have moved only if some transaction became COMMITTED. -/
theorem payment_lifecycle (env : Env) (ops more : List LedgerOp) :
    let before : Db env := ((Ledger.empty : Ledger env).run ops).db
    let after : Db env := (((Ledger.empty : Ledger env).run ops).run more).db
    (∀ txId, ReflTransGen Advances (before.stateOf txId) (after.stateOf txId)) ∧
      (∀ txId state, state.terminal → before.stateOf txId = some state → after.stateOf txId = some state) ∧
      (∀ l ∈ after.prepareLocks.rows, after.stateOf l.txId = some .PREPARED) ∧
      (after.debts = before.debts ∨
        ∃ txId, before.stateOf txId ≠ some .COMMITTED ∧ after.stateOf txId = some .COMMITTED) := by
  intro before after
  have hEmpty : KnownStates (Ledger.empty : Ledger env).db := by
    intro tx hTx
    cases hTx
  have hLater : Later before after := later_run _ (later_run _ hEmpty ops).known more
  have hLocks : LocksSound after := by
    have hRun := @locksSound_run env (ops ++ more)
    rw [Ledger.run, List.foldl_append] at hRun
    exact hRun
  refine ⟨hLater.advanced, fun txId state hTerminal hState => ?_, fun l hl => ?_, hLater.debts⟩
  · have hReach := hLater.advanced txId
    rw [hState] at hReach
    exact terminal_stays hTerminal hReach
  · obtain ⟨tx, hTx, hId, hPrepared⟩ := hLocks.held l hl
    rw [Db.stateOf, TxTable.get?_eq_some_iff.mpr ⟨hTx, hId⟩, Option.map_some, hPrepared]

end Runs

end GeoLedger

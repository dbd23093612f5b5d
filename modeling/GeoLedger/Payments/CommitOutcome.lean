import Mathlib
import GeoLedger.RecoveryConvergence

/-! The outcomes of one call of `PaymentEngine.commit`. The call runs its unit
of work again after some database errors; every attempt that ends in one is
rolled back, to its savepoint when the caller owns the transaction. A commit
whose acknowledgement is lost, which raises although its rows are durable, is
not among the interruptions. -/
namespace GeoLedger

variable {env : Env} {db db' : Db env} {now : Time} {txId : TxId}

/-- What ends an attempt before its own end: `_EquivalentOwnerPreflightChanged`,
40P01, 40001, 23505 on `uq_debts_debtor_creditor_equivalent`, 55P03, or any other
database error. -/
inductive Interruption where
  | ownersChanged
  | deadlockDetected
  | serializationFailure
  | debtKeyRace
  | lockTimeout
  | other
deriving DecidableEq, Repr

/-- Whether the unit of work may run again. Inside a caller-owned transaction it
never does: the owner has to restart its whole transaction. -/
def Interruption.retryable (staged : Bool) : Interruption → Bool
  | .ownersChanged | .deadlockDetected | .serializationFailure | .debtKeyRace => !staged
  | .lockTimeout | .other => false

/-- How a call fails: the unit of work raised, or its last attempt was interrupted. -/
inductive CommitFailure where
  | raised (error : GeoError)
  | interrupted (cause : Interruption)
deriving DecidableEq, Repr

/-- `_run_uow_with_retry`. The list holds what interrupts the attempts, in
order, and `attempt` counts the attempts made. -/
def runUowWithRetry (retryAttempts : Nat) (staged : Bool) (uow : Except GeoError Unit × Db env) (db : Db env)
    (attempt : Nat) : List Interruption → Except CommitFailure Unit × Db env
  | [] => (uow.1.mapError .raised, uow.2)
  | cause :: rest =>
      if cause.retryable staged ∧ attempt + 1 < retryAttempts then
        runUowWithRetry retryAttempts staged uow db (attempt + 1) rest
      else (.error (.interrupted cause), db)

/-- One call of `commit`, in a transaction of its own or staged in its caller's;
`now` is the time of its last attempt. -/
def commitCall (retryAttempts : Nat) (staged : Bool) (interruptions : List Interruption) (now : Time)
    (txId : TxId) (db : Db env) : Except CommitFailure Unit × Db env :=
  runUowWithRetry retryAttempts staged
    (if staged then commitStaged now txId db else commit now txId db) db 0 interruptions

/-- The transaction of a lock is prepared. -/
def PrepareLock.Held (db : Db env) (l : PrepareLock) : Prop :=
  ∃ tx, db.transactions.get? l.txId = some tx ∧ tx.state = .PREPARED

/-- A transaction that was given up: its state is ABORTED and its locks are gone. -/
structure GivenUp (db : Db env) (txId : TxId) : Prop where
  aborted : ∃ tx, db.transactions.get? txId = some tx ∧ tx.state = .ABORTED
  unlocked : db.prepareLocks.ofTx txId = []

/-- All flows of all locks of a transaction are applied, in the order of the
locks; the locks are gone and the transaction is COMMITTED. -/
structure AllApplied (db db' : Db env) (txId : TxId) : Prop where
  locked : db.prepareLocks.ofTx txId ≠ []
  applied : applyFlows (Commits.flows db txId) db.debts = .ok db'.debts
  unlocked : db'.prepareLocks.ofTx txId = []
  committed : ∃ tx, db'.transactions.get? txId = some tx ∧ tx.state = .COMMITTED

/-- The outcome of a call that commits `txId` wholly or not at all. Every lock
that is left was there before, and its transaction is as prepared as it was. -/
structure AllOrNothing (staged : Bool) (txId : TxId) (db : Db env)
    (result : Except CommitFailure Unit × Db env) : Prop where
  returned : result.1 = .ok () →
    (result.2 = db ∧ ∃ tx, db.transactions.get? txId = some tx ∧ tx.state = .COMMITTED) ∨
      AllApplied db result.2 txId
  raised : ∀ failure, result.1 = .error failure → result.2.debts = db.debts
  gaveUp : staged = false → ∀ error, result.1 = .error (.raised error) → error.givesUp txId →
    GivenUp result.2 txId
  locks : ∀ l ∈ result.2.prepareLocks.rows,
    l ∈ db.prepareLocks.rows ∧ (l.Held db → l.Held result.2)

section Outcomes

theorem LockTable.ofTx_deleteTx (t : LockTable env) (txId : TxId) : (t.deleteTx txId).ofTx txId = [] := by
  refine List.filter_eq_nil_iff.mpr fun l hl => ?_
  simpa using (Rows.mem_delete_iff.mp hl).2

/-- A call that raises another error and leaves the database. -/
theorem AllOrNothing.unchanged {staged : Bool} {failure : CommitFailure}
    (h : ∀ error, failure = .raised error → ¬error.givesUp txId ∨ staged = true) :
    AllOrNothing staged txId db (.error failure, db) where
  returned hOk := by cases hOk
  raised _ _ := rfl
  gaveUp hOwned error hError hGivesUp := by
    rw [Except.error.injEq] at hError
    rcases h error hError with hKeeps | hStaged
    · exact absurd hGivesUp hKeeps
    · rw [hOwned] at hStaged
      cases hStaged
  locks l hl := ⟨hl, id⟩

/-- A call that found the transaction committed. -/
theorem AllOrNothing.replay {staged : Bool}
    (h : ∃ tx, db.transactions.get? txId = some tx ∧ tx.state = .COMMITTED) :
    AllOrNothing staged txId db (.ok (), db) where
  returned _ := Or.inl ⟨rfl, h⟩
  raised _ hError := by cases hError
  gaveUp _ _ hError := by cases hError
  locks l hl := ⟨hl, id⟩

/-- A call that gave a prepared transaction up. -/
theorem AllOrNothing.abort {staged : Bool} {tx : Transaction} {reason : String} {code : Option ErrorCode}
    {details : Option (List (String × String))} {failure : CommitFailure}
    (hTx : db.transactions.get? txId = some tx) (hPrepared : tx.state = .PREPARED) :
    AllOrNothing staged txId db (.error failure, (abort now txId reason code details db).2) where
  returned hOk := by cases hOk
  raised _ _ := (aborts_abort db now txId reason code details).debts
  gaveUp _ _ _ _ := by
    have hAborts := aborts_abort db now txId reason code details
    obtain ⟨tx', hTx', hState, _⟩ := hAborts.ended txId (List.mem_singleton.mpr rfl) tx hTx
      (by rw [hPrepared]; decide)
    refine ⟨⟨tx', hTx', hState⟩, ?_⟩
    rw [abort_eq]
    exact db.prepareLocks.ofTx_deleteTx txId
  locks l hl := by
    have hAborts := aborts_abort db now txId reason code details
    obtain ⟨hOld, hOther⟩ := (hAborts.locks l).mp hl
    refine ⟨hOld, fun hHeld => ?_⟩
    unfold PrepareLock.Held
    rw [hAborts.untouched l.txId hOther]
    exact hHeld

/-- A call that committed the transaction. -/
theorem AllOrNothing.commits {staged : Bool} {tx : Transaction} (h : Commits now db db' tx) :
    AllOrNothing staged tx.txId db (.ok (), db') where
  returned _ := by
    refine Or.inr ⟨h.locked, h.applied, ?_, ?_⟩
    · rw [h.prepareLocks]
      exact db.prepareLocks.ofTx_deleteTx tx.txId
    · rw [h.transactions]
      exact ⟨_, TxTable.get?_update h.found, rfl⟩
  raised _ hError := by cases hError
  gaveUp _ _ hError := by cases hError
  locks l hl := by
    rw [h.prepareLocks] at hl
    obtain ⟨hOld, hOther⟩ := Rows.mem_delete_iff.mp hl
    refine ⟨hOld, fun hHeld => ?_⟩
    unfold PrepareLock.Held
    rw [h.transactions, TxTable.get?_update_of_ne hOther]
    exact hHeld

/-- The unit of work in a transaction of its own. -/
theorem commit_allOrNothing (now : Time) (txId : TxId) (db : Db env) (staged : Bool) :
    AllOrNothing staged txId db
      ((commit now txId db).1.mapError .raised, (commit now txId db).2) := by
  rcases commit_cases now txId db with
    ⟨hDb, hReplay, hKeeps⟩ | ⟨tx, reason, code, details, error, hTx, hPrepared, hEq⟩ |
    ⟨tx, rfl, hOk, hCommits⟩
  · rw [hDb]
    cases hResult : (commit now txId db).1 with
    | ok =>
        exact .replay (hReplay hResult)
    | error error =>
        refine .unchanged fun other hOther => Or.inl ?_
        cases hOther
        exact hKeeps error hResult
  · rw [hEq]
    exact .abort hTx hPrepared
  · rw [hOk]
    exact .commits hCommits

/-- The staged unit of work: a call that raises is rolled back to its savepoint. -/
theorem commitStaged_allOrNothing (now : Time) (txId : TxId) (db : Db env) :
    AllOrNothing true txId db
      ((commitStaged now txId db).1.mapError .raised, (commitStaged now txId db).2) := by
  have hUnit := commit_allOrNothing now txId db true
  unfold commitStaged
  split
  · next db' hResult =>
      rw [hResult] at hUnit
      exact hUnit
  · exact .unchanged fun _ _ => Or.inr rfl

end Outcomes

/-- A commit is all or nothing, in both modes, whatever database errors interrupt its
attempts and roll them back. The acknowledgement of the last attempt is not lost. -/
theorem commit_all_or_nothing (retryAttempts : Nat) (staged : Bool) (interruptions : List Interruption)
    (now : Time) (txId : TxId) (db : Db env) :
    AllOrNothing staged txId db (commitCall retryAttempts staged interruptions now txId db) := by
  unfold commitCall
  generalize 0 = attempt
  induction interruptions generalizing attempt with
  | nil =>
      cases staged with
      | true => exact commitStaged_allOrNothing now txId db
      | false => exact commit_allOrNothing now txId db false
  | cons cause rest ih =>
      unfold runUowWithRetry
      split
      · exact ih (attempt + 1)
      · exact .unchanged fun error hError => by cases hError

end GeoLedger

import Mathlib
import GeoLedger.Ledger
import GeoLedger.Payments.Locks
import GeoLedger.Clearing.Effects

/-! What an operation can do, said once. Each operation is a sequence of
committed database transactions, and most are one or none; an invariant of the
ledger is proved by showing that every such transaction keeps it. -/
namespace GeoLedger
open Outcomes

variable {env : Env}

/-- One committed database transaction of an operation. -/
inductive Change (now : Time) (db : Db env) : LedgerOp → Db env → Prop where
  | inserted {txId : TxId} {initiatorId : Uuid} {sender receiver : Pid} {amount : Amount}
      {equivalent : String} {routes : List Route} {fingerprint : Option String} {transactions : TxTable}
      (h : db.transactions.insert (newPaymentTransaction now txId initiatorId
        (.payment sender receiver amount equivalent routes fingerprint)) = .ok transactions) :
      Change now db (.newPayment txId initiatorId sender receiver amount equivalent routes fingerprint)
        { db with transactions := transactions }
  | prepared {path : List Pid} {amount : Amount} {e : Uuid} {tx : Transaction}
      {nodes : List Participant} {db' : Db env}
      (hNodes : resolvePath env.directory path = some nodes)
      (h : Prepares now e tx (pathFlows e nodes amount) db db') :
      Change now db (.prepare tx.txId path amount e) db'
  | preparedRoutes {routes : List Route} {e : Uuid} {tx : Transaction}
      {resolved : List (List Participant × Amount)} {db' : Db env}
      (hRoutes : checkRoutes routes = .ok ())
      (hResolved : resolveRoutes env.directory routes = some resolved)
      (h : Prepares now e tx (routeFlows e resolved) db db') :
      Change now db (.prepareRoutes tx.txId routes e) db'
  | committed {op : LedgerOp} {tx : Transaction} {db' : Db env}
      (hOp : op = .commit tx.txId ∨ op = .commitStaged tx.txId) (h : Commits now db db' tx) :
      Change now db op db'
  | aborted {op : LedgerOp} (txId : TxId) (reason : String) (code : Option ErrorCode)
      (details : Option (List (String × String))) :
      Change now db op (abort now txId reason code details db).2
  | cleared {order : ReadOrder} {fate : CommitFate} {cycle : List (Option Uuid)}
      {allowedPids : Option (List Pid)} {debtIds : List Uuid} {first : Debt} {rest : List Debt}
      {db' : Db env} (h : Clears now order cycle allowedPids db db' debtIds first rest) :
      Change now db (.clear order fate cycle allowedPids) db'
  | opened {fromParticipantId : Uuid} {data : TrustLineCreateRequest} {db' : Db env}
      (h : createTrustLine fromParticipantId data db = .ok db') :
      Change now db (.createTrustLine fromParticipantId data) db'
  | updated {trustlineId userId : Uuid} {data : TrustLineUpdateRequest} {db' : Db env}
      (h : updateTrustLine trustlineId userId data db = .ok db') :
      Change now db (.updateTrustLine trustlineId userId data) db'
  | closed {trustlineId userId : Uuid} {data : TrustLineCloseRequest} {db' : Db env}
      (h : closeTrustLine trustlineId userId data db = .ok db') :
      Change now db (.closeTrustLine trustlineId userId data) db'

/-- The committed transactions of an operation, in order. -/
def Changes (now : Time) (op : LedgerOp) : Db env → Db env → Prop :=
  Relation.ReflTransGen fun db db' => Change now db op db'

theorem Change.of_orElse {now : Time} {op : LedgerOp} {db : Db env} {result : Except GeoError (Db env)}
    (h : ∀ db', result = .ok db' → db' = db ∨ Change now db op db') :
    db.orElse result = db ∨ Change now db op (db.orElse result) := by
  cases result with
  | error _ => exact Or.inl rfl
  | ok db' => exact h db' rfl

/-- A commit is one committed transaction or none. -/
theorem Change.of_commit {now : Time} {op : LedgerOp} {db : Db env} {txId : TxId}
    (hOp : op = .commit txId ∨ op = .commitStaged txId) :
    (commit now txId db).2 = db ∨ Change now db op (commit now txId db).2 := by
  rcases commit_cases now txId db with
    ⟨hDb, _⟩ | ⟨_, reason, code, details, _, _, _, hEq⟩ | ⟨tx, rfl, _, hCommit⟩
  · exact Or.inl hDb
  · rw [hEq]
    exact Or.inr (.aborted txId reason code details)
  · exact Or.inr (.committed hOp hCommit)

/-- Every operation but a recovery pass is one committed transaction or none. -/
theorem applyOp_single (now : Time) (db : Db env) (op : LedgerOp)
    (hOnce : ∀ cleanupFails staleFails, op ≠ .recovery cleanupFails staleFails) :
    applyOp now db op = db ∨ Change now db op (applyOp now db op) := by
  cases op with
  | newPayment =>
      refine Change.of_orElse fun db' hOk => ?_
      cases hInsert : db.transactions.insert _ with
      | error _ =>
          rw [hInsert] at hOk
          cases hOk
      | ok transactions =>
          rw [hInsert] at hOk
          cases hOk
          exact Or.inr (.inserted hInsert)
  | prepare txId path amount e =>
      refine Change.of_orElse fun db' hOk => ?_
      obtain ⟨hSame, _⟩ | ⟨tx, nodes, rfl, hNodes, hPrepares⟩ := prepare_cases hOk
      · exact Or.inl hSame
      · exact Or.inr (.prepared hNodes hPrepares)
  | prepareRoutes txId routes e =>
      refine Change.of_orElse fun db' hOk => ?_
      obtain ⟨hSame, _⟩ | ⟨tx, resolved, rfl, hRoutes, hResolved, hPrepares⟩ := prepareRoutes_cases hOk
      · exact Or.inl hSame
      · exact Or.inr (.preparedRoutes hRoutes hResolved hPrepares)
  | commit txId => exact Change.of_commit (Or.inl rfl)
  | commitStaged txId =>
      simp only [applyOp]
      rcases commitStaged_cases now txId db with hDb | hDb
      · exact Or.inl hDb
      · rw [hDb]
        exact Change.of_commit (Or.inr rfl)
  | abort txId reason code details => exact Or.inr (.aborted txId reason code details)
  | recovery cleanupFails staleFails => exact absurd rfl (hOnce cleanupFails staleFails)
  | clear order fate cycle allowedPids =>
      simp only [applyOp]
      rcases executeClearingWithAmount_cases now order fate cycle allowedPids db with
        hDb | ⟨_, _, _, _, hClears, hDb, _⟩
      · exact Or.inl hDb
      · rw [hDb]
        exact Or.inr (.cleared hClears)
  | createTrustLine => exact Change.of_orElse fun db' hOk => Or.inr (.opened hOk)
  | updateTrustLine => exact Change.of_orElse fun db' hOk => Or.inr (.updated hOk)
  | closeTrustLine => exact Change.of_orElse fun db' hOk => Or.inr (.closed hOk)
  | tick => exact Or.inl rfl

/-- Every operation is made of committed transactions. -/
theorem changes_applyOp (now : Time) (db : Db env) (op : LedgerOp) :
    Changes now op db (applyOp now db op) := by
  have hSingle (hOnce : ∀ cleanupFails staleFails, op ≠ .recovery cleanupFails staleFails) :
      Changes now op db (applyOp now db op) := by
    rcases applyOp_single now db op hOnce with hSame | hOne
    · rw [hSame]
      exact .refl
    · exact .single hOne
  cases op with
  | recovery cleanupFails staleFails =>
      exact runRecoveryOnce_invariant (Q := Changes now (.recovery cleanupFails staleFails) db)
        (fun db' txId reason code h => h.tail (.aborted txId reason code none)) cleanupFails staleFails .refl
  | _ => exact hSingle fun _ _ => LedgerOp.noConfusion

/-- What every committed transaction of an operation preserves, the operation preserves. -/
theorem applyOp_invariant {now : Time} {db : Db env} {op : LedgerOp} {P : Db env → Prop} (h : P db)
    (hChange : ∀ db db', P db → Change now db op db' → P db') : P (applyOp now db op) := by
  have hAll := changes_applyOp now db op
  generalize applyOp now db op = final at hAll ⊢
  induction hAll with
  | refl => exact h
  | tail _ hLast ih => exact hChange _ _ ih hLast

/-- What every admitted transaction preserves an admitted operation preserves, if a recovery
pass is admitted whatever it has already done. -/
theorem applyOp_keeps {now : Time} {db : Db env} {op : LedgerOp} {P : Db env → Prop} {A : Db env → LedgerOp → Prop} (h : P db) (hOp : A db op)
    (hRecovery : ∀ mid cleanupFails staleFails, A mid (.recovery cleanupFails staleFails))
    (hChange : ∀ mid db', P mid → A mid op → Change now mid op db' → P db') : P (applyOp now db op) := by
  by_cases hMany : ∃ cleanupFails staleFails, op = .recovery cleanupFails staleFails
  · obtain ⟨cleanupFails, staleFails, rfl⟩ := hMany
    exact applyOp_invariant h fun mid db' hMid => hChange mid db' hMid (hRecovery mid cleanupFails staleFails)
  · have hOnce : ∀ cleanupFails staleFails, op ≠ .recovery cleanupFails staleFails := by
      intro cleanupFails staleFails hEq
      exact hMany ⟨cleanupFails, staleFails, hEq⟩
    rcases applyOp_single now db op hOnce with hSame | hOne
    · rw [hSame]
      exact h
    · exact hChange db _ h hOp hOne

/-- What every committed transaction preserves holds in every state of a run. -/
theorem run_invariant {P : Db env → Prop} (s : Ledger env) (h : P s.db)
    (hChange : ∀ now op db db', P db → Change now db op db' → P db') (ops : List LedgerOp) :
    P (s.run ops).db :=
  Transition.foldl_invariant (P := fun s : Ledger env => P s.db) ops s h
    fun s op hs => applyOp_invariant hs fun db db' => hChange s.now op db db'

end GeoLedger

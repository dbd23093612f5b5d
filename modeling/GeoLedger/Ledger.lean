import Mathlib
import GeoLedger.Library.Runs
import GeoLedger.Recovery
import GeoLedger.TrustLines
import GeoLedger.Clearing.Execute

/-! The ledger as a state machine. A state is a committed database and a clock;
an operation is one call of a service, committed or refused as a whole. -/
namespace GeoLedger

variable {env : Env}

structure Ledger (env : Env) where
  db : Db env
  now : Time

/-- One call of a service, or the passing of time. -/
inductive LedgerOp where
  | newPayment (txId : TxId) (initiatorId : Uuid) (sender receiver : Pid) (amount : Amount)
      (equivalent : String) (routes : List Route) (fingerprint : Option String)
  | prepare (txId : TxId) (path : List Pid) (amount : Amount) (equivalentId : Uuid)
  | prepareRoutes (txId : TxId) (routes : List Route) (equivalentId : Uuid)
  | commit (txId : TxId)
  | commitStaged (txId : TxId)
  | abort (txId : TxId) (reason : String) (errorCode : Option ErrorCode)
      (details : Option (List (String × String)))
  | recovery (cleanupFails staleFails : TxId → Bool)
  | clear (order : ReadOrder) (fate : CommitFate) (cycle : List (Option Uuid))
      (allowedPids : Option (List Pid))
  | createTrustLine (fromParticipantId : Uuid) (data : TrustLineCreateRequest)
  | updateTrustLine (trustlineId userId : Uuid) (data : TrustLineUpdateRequest)
  | closeTrustLine (trustlineId userId : Uuid) (data : TrustLineCloseRequest)
  | tick (seconds : Nat)

/-- The row that `PaymentService` inserts before it prepares a payment. -/
def newPaymentTransaction (now : Time) (txId : TxId) (initiatorId : Uuid) (payload : Payload) :
    Transaction where
  txId := txId
  initiatorId := initiatorId
  payload := payload
  state := .NEW
  error := none
  updatedAt := now

/-- Keep the database when a call raises. -/
def Db.orElse (db : Db env) : Except GeoError (Db env) → Db env
  | .ok db' => db'
  | .error _ => db

/-- The database after an operation. -/
def applyOp (now : Time) (db : Db env) : LedgerOp → Db env
  | .newPayment txId initiatorId sender receiver amount equivalent routes fingerprint =>
      db.orElse ((db.transactions.insert (newPaymentTransaction now txId initiatorId
        (.payment sender receiver amount equivalent routes fingerprint))).map
          fun transactions => { db with transactions := transactions })
  | .prepare txId path amount equivalentId =>
      db.orElse (prepare now txId path amount equivalentId db)
  | .prepareRoutes txId routes equivalentId =>
      db.orElse (prepareRoutes now txId routes equivalentId db)
  | .commit txId => (commit now txId db).2
  | .commitStaged txId => (commitStaged now txId db).2
  | .abort txId reason errorCode details => (abort now txId reason errorCode details db).2
  | .recovery cleanupFails staleFails => (runRecoveryOnce now cleanupFails staleFails db).2
  | .clear order fate cycle allowedPids =>
      (executeClearingWithAmount now order fate cycle allowedPids db).2
  | .createTrustLine fromParticipantId data =>
      db.orElse (createTrustLine fromParticipantId data db)
  | .updateTrustLine trustlineId userId data =>
      db.orElse (updateTrustLine trustlineId userId data db)
  | .closeTrustLine trustlineId userId data =>
      db.orElse (closeTrustLine trustlineId userId data db)
  | .tick _ => db

/-- One step of the ledger. -/
def Ledger.step (s : Ledger env) (op : LedgerOp) : Ledger env where
  db := applyOp s.now s.db op
  now := match op with
    | .tick seconds => s.now + seconds
    | _ => s.now

/-- The ledger after a sequence of operations. -/
def Ledger.run (s : Ledger env) (ops : List LedgerOp) : Ledger env := ops.foldl Ledger.step s

/-- The empty ledger at the origin of time. -/
def Ledger.empty : Ledger env := ⟨Db.empty, 0⟩

/-- Open a line without a policy. -/
def openLine (fromParticipantId : Uuid) (toPid : Pid) (e : Equivalent) (limit : Amount) : LedgerOp :=
  .createTrustLine fromParticipantId ⟨toPid, e.code, limit, none, "signature"⟩

/-- A payment along one path, up to its preparation. -/
def preparePath (txId : TxId) (initiatorId : Uuid) (path : List Pid) (amount : Amount)
    (e : Equivalent) : List LedgerOp :=
  [.newPayment txId initiatorId (path.headD "") (path.getLastD "") amount e.code [⟨path, amount⟩] none,
    .prepare txId path amount e.id]

/-- A payment along one path. -/
def payAlong (txId : TxId) (initiatorId : Uuid) (path : List Pid) (amount : Amount) (e : Equivalent) :
    List LedgerOp :=
  preparePath txId initiatorId path amount e ++ [.commit txId]

end GeoLedger

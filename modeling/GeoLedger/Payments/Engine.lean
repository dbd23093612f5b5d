import Mathlib
import GeoLedger.Library.Dict
import GeoLedger.Invariants
import GeoLedger.Payments.ApplyFlow

/-! `PaymentEngine`: the segment capacity, `prepare`, `prepare_routes`, `commit`
and `abort`. Each call is one database transaction; a call that raises before it
commits leaves the database as it was. -/
namespace GeoLedger

variable {env : Env}

def TxState.text : TxState → String
  | .NEW => "NEW"
  | .ROUTED => "ROUTED"
  | .PREPARE_IN_PROGRESS => "PREPARE_IN_PROGRESS"
  | .PREPARED => "PREPARED"
  | .COMMITTED => "COMMITTED"
  | .ABORTED => "ABORTED"
  | .PROPOSED => "PROPOSED"
  | .WAITING => "WAITING"
  | .REJECTED => "REJECTED"

section Capacity

variable (db : Db env) (now : Time) (txId : TxId) (senderId receiverId equivalentId : Uuid)

/-- What other transactions' live locks of the sender reserve along the edge. -/
def reservedUsage : Amount :=
  ((((db.prepareLocks.live now).filter fun l => l.participantId = senderId ∧ l.txId ≠ txId).flatMap
      (·.flows)).filter fun f =>
    f.equivalentId = equivalentId ∧ f.fromId = senderId ∧ f.toId = receiverId).map (·.amount) |>.sum

/-- Limit of the receiver's line to the sender, less what the sender owes, plus
what the receiver owes. -/
def availableCapacity : Amount :=
  db.trustLines.limit receiverId senderId equivalentId - db.debts.owed senderId receiverId equivalentId +
    db.debts.owed receiverId senderId equivalentId

def getSegmentCapacityAndReservedUsage : Amount × Amount :=
  (availableCapacity db senderId receiverId equivalentId,
    reservedUsage db now txId senderId receiverId equivalentId)

end Capacity

section Prepare

/-- Consecutive nodes of a path. -/
def hops {α : Type} (path : List α) : List (α × α) := path.zip path.tail

/-- `participant_map[pid]` along a path, when every PID is registered. -/
def resolvePath (directory : Directory) (path : List Pid) : Option (List Participant) :=
  path.mapM directory.participantByPid

def missingParticipants (directory : Directory) (pids : List Pid) : GeoError :=
  .geo ("Participants not found: " ++
    toString (pids.dedup.filter fun pid => (directory.participantByPid pid).isNone))

/-- The capacity check of one segment, with the reservations of this call on
top of the persisted ones. The sums are written without the rounding of the context, in which only
amounts of more than sixteen decimals could need more digits than it keeps. -/
def checkSegment (db : Db env) (now : Time) (txId : TxId) (equivalentId : Uuid)
    (sender receiver : Participant) (amount localReserved : Amount) : Except GeoError Flow :=
  let (available, persisted) :=
    getSegmentCapacityAndReservedUsage db now txId sender.id receiver.id equivalentId
  let reserved := persisted + localReserved
  if available < amount + reserved then
    .error (.insufficientCapacity sender.pid receiver.pid available amount reserved)
  else .ok ⟨sender.id, receiver.id, amount, equivalentId⟩

/-- The locks and the state change that end a successful preparation. -/
def storePrepared (db : Db env) (now : Time) (tx : Transaction) (locks : List (Uuid × List Flow)) :
    Except GeoError (Db env) := do
  let prepareLocks ← db.prepareLocks.insertAll tx.txId (now + env.prepareLockTtlSeconds) locks
  return { db with
    prepareLocks := prepareLocks
    transactions := db.transactions.update tx.txId .PREPARED tx.error now }

/-- `prepare`: one lock for each segment of the path. -/
def prepare (now : Time) (txId : TxId) (path : List Pid) (amount : Amount) (equivalentId : Uuid)
    (db : Db env) : Except GeoError (Db env) :=
  match db.transactions.get? txId with
  | none => .error (.geo ("Transaction " ++ txId ++ " not found"))
  | some tx =>
      if tx.state = .COMMITTED then .ok db
      else if tx.state = .ABORTED ∨ tx.state = .REJECTED then
        .error (.conflict ("Transaction " ++ txId ++ " is " ++ tx.state.text))
      else match resolvePath env.directory path with
        | none => .error (missingParticipants env.directory path)
        | some nodes =>
            if db.prepareLocks.ofTx txId ≠ [] then
              if tx.state = .PREPARED then .ok db
              else .error (.conflict
                ("Transaction " ++ txId ++ " already has locks but state=" ++ tx.state.text))
            else do
              let flows ← (hops nodes).mapM fun segment =>
                checkSegment db now txId equivalentId segment.1 segment.2 amount 0
              storePrepared db now tx (flows.map fun f => (f.fromId, [f]))

/-- `local_reserved`: what the flows accepted so far take along an edge. -/
def localReserved (flows : List Flow) (senderId receiverId equivalentId : Uuid) : Amount :=
  ((flows.filter fun f => f.fromId = senderId ∧ f.toId = receiverId ∧
    f.equivalentId = equivalentId).map (·.amount)).sum

/-- Check the segments of all routes in order, collecting their flows. -/
def checkSegments (db : Db env) (now : Time) (txId : TxId) (equivalentId : Uuid) (flows : List Flow) :
    List (Participant × Participant × Amount) → Except GeoError (List Flow)
  | [] => .ok flows
  | (sender, receiver, amount) :: rest => do
      let flow ← checkSegment db now txId equivalentId sender receiver amount
        (localReserved flows sender.id receiver.id equivalentId)
      checkSegments db now txId equivalentId (flows ++ [flow]) rest

/-- The positivity and length checks made on each route in turn. -/
def checkRoutes : List Route → Except GeoError Unit
  | [] => .ok ()
  | route :: rest =>
      if route.amount ≤ 0 then .error (.geo "Route amount must be positive")
      else if route.path.length < 2 then
        .error (.geo "Route path must include at least 2 participants")
      else checkRoutes rest

/-- The segments of routes whose paths are resolved. -/
def routeSegments (routes : List (List Participant × Amount)) :
    List (Participant × Participant × Amount) :=
  routes.flatMap fun route => (hops route.1).map fun segment => (segment.1, segment.2, route.2)

/-- `participant_map` applied to all routes. -/
def resolveRoutes (directory : Directory) (routes : List Route) :
    Option (List (List Participant × Amount)) :=
  routes.mapM fun route => (resolvePath directory route.path).map fun nodes => (nodes, route.amount)

/-- `prepare_routes`: one lock for each sending participant. -/
def prepareRoutes (now : Time) (txId : TxId) (routes : List Route) (equivalentId : Uuid)
    (db : Db env) : Except GeoError (Db env) :=
  match db.transactions.get? txId with
  | none => .error (.geo ("Transaction " ++ txId ++ " not found"))
  | some tx =>
      if tx.state = .COMMITTED then .ok db
      else if tx.state = .ABORTED ∨ tx.state = .REJECTED then
        .error (.conflict ("Transaction " ++ txId ++ " is " ++ tx.state.text))
      else if db.prepareLocks.ofTx txId ≠ [] then
        if tx.state = .PREPARED then .ok db
        else .error (.conflict
          ("Transaction " ++ txId ++ " already has locks but state=" ++ tx.state.text))
      else do
        checkRoutes routes
        match resolveRoutes env.directory routes with
        | none => .error (missingParticipants env.directory (routes.flatMap (·.path)))
        | some resolved =>
            let flows ← checkSegments db now txId equivalentId [] (routeSegments resolved)
            storePrepared db now tx (Dict.groupBy Flow.fromId flows).items

end Prepare

section Abort

inductive AbortOutcome where
  | success
  | already_aborted
  | already_committed
deriving DecidableEq, Repr

/-- `ERROR_MESSAGES`. -/
def ErrorCode.message : ErrorCode → String
  | .E001 => "Route not found"
  | .E002 => "Insufficient capacity"
  | .E003 => "Trust line limit exceeded"
  | .E004 => "Trust line not active"
  | .E005 => "Invalid signature"
  | .E006 => "Insufficient permissions"
  | .E007 => "Operation timeout"
  | .E008 => "State conflict"
  | .E009 => "Validation error"
  | .E010 => "Internal server error"

/-- The error stored by an abort: an error already recorded keeps its message. -/
def abortError (existing : Option TxError) (reason : String) (errorCode : Option ErrorCode)
    (details : Option (List (String × String))) : TxError :=
  let code := (errorCode.or (existing.map (·.code))).getD .E010
  let recorded := (existing.map (·.message)).getD ""
  { code := code
    message := if recorded ≠ "" then recorded else if reason ≠ "" then reason else code.message
    details := (details.or (existing.map (·.details))).getD [] }

/-- `abort`: delete the locks and move the transaction to ABORTED, unless it is
already terminal. -/
def abort (now : Time) (txId : TxId) (reason : String) (errorCode : Option ErrorCode)
    (details : Option (List (String × String))) (db : Db env) : AbortOutcome × Db env :=
  let unlocked := { db with prepareLocks := db.prepareLocks.deleteTx txId }
  match db.transactions.get? txId with
  | none => (.success, unlocked)
  | some tx =>
      if tx.state = .COMMITTED then (.already_committed, unlocked)
      else
        let error := abortError tx.error reason errorCode details
        (if tx.state = .ABORTED then .already_aborted else .success,
          { unlocked with transactions := db.transactions.update txId .ABORTED (some error) now })

end Abort

section Commit

/-- Every lock has flows, and their amounts are positive. -/
def WellFormedLocks (locks : List PrepareLock) : Prop :=
  ∀ l ∈ locks, l.flows ≠ [] ∧ ∀ f ∈ l.flows, 0 < f.amount

instance (locks : List PrepareLock) : Decidable (WellFormedLocks locks) :=
  inferInstanceAs (Decidable (∀ l ∈ locks, l.flows ≠ [] ∧ ∀ f ∈ l.flows, 0 < f.amount))

/-- `_parse_persisted_prepare_locks`: the locks in the order of their ids. -/
def parsePersistedPrepareLocks (locks : List PrepareLock) : Except GeoError (List PrepareLock) :=
  if WellFormedLocks locks ∧ locks ≠ [] then
    .ok (locks.insertionSort fun l₁ l₂ => l₁.id ≤ l₂.id)
  else .error .internal

/-- Apply flows in order; the first database error ends the loop. -/
def applyFlows (flows : List Flow) (t : DebtTable env) : Except GeoError (DebtTable env) :=
  flows.foldlM (fun t f => applyFlow f t) t

/-- Both ordered pairs of every flow. -/
def affectedPairs (flows : List Flow) : List (Uuid × Uuid) :=
  flows.flatMap fun f => [(f.fromId, f.toId), (f.toId, f.fromId)]

def expectedDelta (flows : List Flow) (p : Uuid) : Amount :=
  (flows.map fun f => (if f.toId = p then f.amount else 0) - (if f.fromId = p then f.amount else 0)).sum

/-- The drift that `check_payment_delta` forgives. -/
def deltaTolerance : Amount := 1 / 100000000

/-- The two ends of every flow. -/
def flowParticipants (flows : List Flow) : List Uuid := flows.flatMap fun f => [f.fromId, f.toId]

def checkPaymentDelta (before after : DebtTable env) (e : Uuid) (flows : List Flow) :
    Except GeoError Unit :=
  if ∀ p ∈ flowParticipants flows,
      |(after.netPosition p e - before.netPosition p e) - expectedDelta flows p| ≤ deltaTolerance then
    .ok ()
  else .error (.integrity .PAYMENT_DELTA_DRIFT)

/-- The checks made for one equivalent after its flows are applied. -/
def checkEquivalent (tl : TrustTable env) (before after : DebtTable env) (group : Uuid × List Flow) :
    Except GeoError Unit := do
  checkTrustLimits tl after group.1 (affectedPairs group.2)
  checkZeroSum after group.1
  checkDebtSymmetry after group.1 (affectedPairs group.2)
  checkPaymentDelta before after group.1 group.2

/-- The PIDs named by a payment's payload. -/
def payloadParticipants : Payload → List String
  | .payment sender receiver _ _ routes _ =>
      (((sender :: receiver :: routes.flatMap (·.path)).filter (· ≠ "")).dedup).insertionSort (· ≤ ·)
  | .clearing .. => []

def paymentAudit (tl : TrustTable env) (before after : DebtTable env) (tx : Transaction)
    (e : Uuid) : IntegrityAuditLog :=
  auditRow .PAYMENT (some tx.txId) (env.directory.codeText e) (payloadParticipants tx.payload)
    (computeIntegrityCheckpoint tl before e) (computeIntegrityCheckpoint tl after e)

def Invariant.text : Invariant → String
  | .ZERO_SUM_VIOLATION => "ZERO_SUM_VIOLATION"
  | .TRUST_LIMIT_VIOLATION => "TRUST_LIMIT_VIOLATION"
  | .DEBT_SYMMETRY_VIOLATION => "DEBT_SYMMETRY_VIOLATION"
  | .PAYMENT_DELTA_DRIFT => "PAYMENT_DELTA_DRIFT"
  | .CLEARING_NEUTRALITY_VIOLATION => "CLEARING_NEUTRALITY_VIOLATION"

/-- The effects of a commit whose locks are valid and not expired: the flows in
lock order, the checks equivalent by equivalent, and the audit rows. -/
def commitPrepared (now : Time) (tx : Transaction) (locks : List PrepareLock) (db : Db env) :
    Except GeoError Unit × Db env :=
  let flows := locks.flatMap (·.flows)
  let groups := (Dict.groupBy Flow.equivalentId flows).items
  match applyFlows flows db.debts with
  | .error error => (.error error, db)
  | .ok debts =>
      match groups.forM (checkEquivalent db.trustLines db.debts debts) with
      | .error error =>
          match error with
          | .integrity violated =>
              (.error error, (abort now tx.txId "Invariant violation: E008" (some .E008)
                (some [("invariant", violated.text)]) db).2)
          | _ => (.error error, db)
      | .ok () =>
          (.ok (), { db with
            debts := debts
            auditLog := db.auditLog ++
              groups.map fun group => paymentAudit db.trustLines db.debts debts tx group.1
            prepareLocks := db.prepareLocks.deleteTx tx.txId
            transactions := db.transactions.update tx.txId .COMMITTED tx.error now })

/-- `commit`. On PostgreSQL the locks are parsed once before the state is read. -/
def commit (now : Time) (txId : TxId) (db : Db env) : Except GeoError Unit × Db env :=
  let locks := db.prepareLocks.ofTx txId
  if env.postgres ∧ locks ≠ [] ∧ ¬WellFormedLocks locks then
    (.error .internal, db)
  else match db.transactions.get? txId with
    | none => (.error (.geo ("Transaction " ++ txId ++ " not found")), db)
    | some tx =>
        if tx.state = .COMMITTED then (.ok (), db)
        else if tx.state = .ABORTED ∨ tx.state = .REJECTED then
          (.error (.conflict ("Transaction " ++ txId ++ " is " ++ tx.state.text)), db)
        else if tx.state ≠ .PREPARED then
          (.error (.conflict
            ("Transaction " ++ txId ++ " is not prepared (state=" ++ tx.state.text ++ ")")), db)
        else if locks = [] then
          (.error (.geo ("No locks found for transaction " ++ txId)), db)
        else match parsePersistedPrepareLocks locks with
          | .error error => (.error error, db)
          | .ok validated =>
              if ∃ l ∈ locks, ¬l.live now then
                (.error (.conflict ("Transaction " ++ txId ++ " expired before commit")),
                  (abort now txId "Prepare locks expired before commit" none none db).2)
              else commitPrepared now tx validated db

/-- `commit` inside a caller-owned transaction: a call that raises is rolled
back to its savepoint, with the abort it made. -/
def commitStaged (now : Time) (txId : TxId) (db : Db env) : Except GeoError Unit × Db env :=
  match commit now txId db with
  | (.ok (), db') => (.ok (), db')
  | (.error error, _) => (.error error, db)

end Commit

end GeoLedger

import Mathlib
import GeoLedger.Validation
import GeoLedger.Invariants

/-! `ClearingService.execute_clearing_with_amount`. A call reads the listed
debts, reduces all of them by the smallest amount and records a transaction
whose id is a digest of the set of debt ids; every refusal leaves the database
as it was. -/
namespace GeoLedger

variable {env : Env}

/-- How the commit of a clearing ends: durable, perhaps with an error or a
cancellation seen by the caller; lost; or never reached, because the PostgreSQL
interlock was not obtained in time. -/
inductive CommitFate where
  | durable (sawError cancelled : Bool)
  | lost (cancelled : Bool)
  | interlockTimeout
deriving DecidableEq, Repr

/-- `_execution_tx_id`: the digest of the sorted set of debt ids. -/
def executionTxId (env : Env) (debtIds : List Uuid) : TxId :=
  env.uuid5 (debtIds.dedup.insertionSort (· ≤ ·))

def policyFlag (policy : Option Policy) (key : String) (default : Bool) : Bool :=
  match policy with
  | none => default
  | some p =>
      match p.get? key with
      | none | some .null => default
      | some (.bool value) => value
      | some (.int n) => n ≠ 0
      | some (.float x) => x ≠ 0
      | some .nan | some (.infinity _) => true
      | some (.str text) =>
          let v := String.ofList (pyLower (pyStrip text.toList))
          if v ∈ ["false", "0", "no", "off"] then false
          else if v ∈ ["true", "1", "yes", "on"] then true
          else default
      | some (.list items) => items ≠ []
      | some (.dict isEmpty) => !isEmpty

section Reads

def lockedPairsForEquivalent (db : Db env) (now : Time) (e : Uuid) : List (Uuid × Uuid) :=
  (((db.prepareLocks.live now).flatMap (·.flows)).filter (·.equivalentId = e)).map
    fun f => (f.fromId, f.toId)

/-- `frozenset({debtor_id, creditor_id}) in locked_pairs`. -/
def pairLocked (locked : List (Uuid × Uuid)) (d : Debt) : Bool :=
  (d.debtorId, d.creditorId) ∈ locked ∨ (d.creditorId, d.debtorId) ∈ locked

/-- The creditor's active line covers the debt and permits auto clearing. -/
def edgeConsents (tl : TrustTable env) (e : Uuid) (d : Debt) : Bool :=
  match tl.active d.creditorId d.debtorId e with
  | none => false
  | some l => policyFlag l.policy "auto_clearing" true

/-- `_cycle_respects_auto_clearing`, in the equivalent of the first debt. -/
def cycleRespectsAutoClearing (tl : TrustTable env) : List Debt → Bool
  | [] => false
  | first :: rest => (first :: rest).all (edgeConsents tl first.equivalentId)

/-- `_read_committed_execution_amount`. A perimeter must cover the recorded edges. -/
def readCommittedExecutionAmount (db : Db env) (txId : TxId) (allowedPids : Option (List Pid)) :
    Except GeoError (Option Amount) :=
  match db.transactions.get? txId with
  | none => .ok none
  | some tx =>
      match tx.payload with
      | .payment .. => .ok none
      | .clearing _ amount _ edges =>
          if tx.state ≠ .COMMITTED then .ok none
          else if allowedPids.any fun pids =>
              edges = [] ∨ ∃ edge ∈ edges, edge.debtor ∉ pids ∨ edge.creditor ∉ pids then
            .error .internal
          else if amount ≤ 0 then .error .internal
          else .ok (some amount)

def resolveScopeIds (directory : Directory) (allowedPids : Option (List Pid)) : Option (List Uuid) :=
  allowedPids.map fun pids => (directory.participants.filter (·.pid ∈ pids)).map (·.id)

end Reads

section Execute

/-- `min([d.amount for d in debts])` of a non-empty list. -/
def clearAmount (first : Debt) (rest : List Debt) : Amount :=
  rest.foldl (fun m d => min m d.amount) first.amount

/-- Reduce the debts in the order they were read. -/
def reduceDebts (amount : Amount) : List Debt → DebtTable env → Except GeoError (DebtTable env)
  | [], t => .ok t
  | d :: rest, t =>
      if d.amount < amount then .error (.geo ("Debt " ++ toString d.id ++ " amount changed during clearing"))
      else do
        let t' ← t.save d.id (d.amount - amount)
        reduceDebts amount rest t'

/-- Both ends of every debt, once each. -/
def cycleParticipants (debts : List Debt) : List Uuid :=
  (debts.flatMap fun d => [d.debtorId, d.creditorId]).dedup

def verifyClearingNeutrality (participants : List Uuid) (e : Uuid) (before after : DebtTable env) :
    Except GeoError Unit :=
  if ∀ p ∈ participants, before.netPosition p e = after.netPosition p e then .ok ()
  else .error (.integrity .CLEARING_NEUTRALITY_VIOLATION)

/-- `edges_payload`, in the order of the request. -/
def edgesPayload (directory : Directory) (debts : List Debt) (amount : Amount) (debtIds : List Uuid) :
    List ClearingEdge :=
  debtIds.filterMap fun id => (debts.find? (·.id = id)).map fun d =>
    ⟨d.id, directory.pidText d.debtorId, directory.pidText d.creditorId, amount⟩

/-- The CLEARING transaction of a call, as it is committed. -/
def clearingTransaction (env : Env) (now : Time) (debtIds : List Uuid) (first : Debt)
    (debts : List Debt) (amount : Amount) : Transaction where
  txId := executionTxId env debtIds
  initiatorId := first.debtorId
  payload := .clearing debtIds amount (env.directory.codeText first.equivalentId)
    (edgesPayload env.directory debts amount debtIds)
  state := .COMMITTED
  error := none
  updatedAt := now

/-- The database after the clearing's writes, before the commit. -/
def stageClearing (now : Time) (debtIds : List Uuid) (first : Debt) (debts : List Debt)
    (amount : Amount) (db : Db env) : Except GeoError (Db env) := do
  let tx := clearingTransaction env now debtIds first debts amount
  let transactions ← db.transactions.insert tx
  let reduced ← reduceDebts amount debts db.debts
  verifyClearingNeutrality (cycleParticipants debts) first.equivalentId db.debts reduced
  return { db with
    debts := reduced
    transactions := transactions
    auditLog := db.auditLog ++ [auditRow .CLEARING (some tx.txId)
      (env.directory.codeText first.equivalentId)
      ((cycleParticipants debts).map env.directory.pidText)
      (computeIntegrityCheckpoint db.trustLines db.debts first.equivalentId)
      (computeIntegrityCheckpoint db.trustLines reduced first.equivalentId)] }

/-- `_commit_to_terminal` and what follows it: an error at the commit is
resolved by reading the transaction back. -/
def resolveCommit (fate : CommitFate) (txId : TxId) (amount : Amount) (allowedPids : Option (List Pid))
    (db staged : Db env) : Except GeoError (Option Amount) × Db env :=
  match fate with
  | .durable false false => (.ok (some amount), staged)
  | .durable false true => (.error (.clearingCommittedAfterCancellation txId amount), staged)
  | .durable true cancelled =>
      match readCommittedExecutionAmount staged txId allowedPids with
      | .ok (some recorded) =>
          (if cancelled then .error (.clearingCommittedAfterCancellation txId recorded)
            else .ok (some recorded), staged)
      | _ => (.error .internal, staged)
  | .lost true => (.error .cancelled, db)
  | _ => (.error .internal, db)

/-- The debts of the request are read and all refusals are passed. -/
def clearDebts (now : Time) (fate : CommitFate) (debtIds : List Uuid) (debts : List Debt)
    (allowedPids : Option (List Pid)) (db : Db env) : Except GeoError (Option Amount) × Db env :=
  match debts with
  | [] => (.ok none, db)
  | first :: rest =>
      let amount := clearAmount first rest
      let locked := lockedPairsForEquivalent db now first.equivalentId
      if amount ≤ 0 then (.ok none, db)
      else if debts.any (pairLocked locked) then (.ok none, db)
      else if ¬cycleRespectsAutoClearing db.trustLines debts then (.ok none, db)
      else match stageClearing now debtIds first debts amount db with
        | .error _ => (.error .internal, db)
        | .ok staged =>
            resolveCommit fate (executionTxId env debtIds) amount allowedPids db staged

/-- `SELECT … FROM debts WHERE id IN (…)`. -/
def debtsByIds (order : ReadOrder) (t : DebtTable env) (debtIds : List Uuid) : List Debt :=
  order.debts (t.rows.filter (·.id ∈ debtIds))

/-- `_execute_clearing_with_amount`. An entry of the cycle is `none` when its
`debt_id` is not a UUID. -/
def executeClearingInner (now : Time) (order : ReadOrder) (fate : CommitFate)
    (cycle : List (Option Uuid)) (interlocked : Option Uuid) (allowedPids : Option (List Pid))
    (db : Db env) : Except GeoError (Option Amount) × Db env :=
  match cycle with
  | [] => (.ok none, db)
  | _ :: _ =>
      match cycle.mapM id with
      | none => (.ok none, db)
      | some debtIds =>
          match readCommittedExecutionAmount db (executionTxId env debtIds) allowedPids with
          | .error _ => (.error .internal, db)
          | .ok (some amount) => (.ok (some amount), db)
          | .ok none =>
              let debts := debtsByIds order db.debts debtIds
              if debts.length ≠ debtIds.length then (.ok none, db)
              else if interlocked.any fun e => ∃ d ∈ debts, d.equivalentId ≠ e then
                (.error .internal, db)
              else if (resolveScopeIds env.directory allowedPids).any fun ids =>
                  ∃ d ∈ debts, d.debtorId ∉ ids ∨ d.creditorId ∉ ids then
                (.error .internal, db)
              else clearDebts now fate debtIds debts allowedPids db

/-- The PostgreSQL branch: a preflight read finds the equivalent whose owner
lock is taken, and refuses lists that span several. -/
def executeClearingInterlocked (now : Time) (order : ReadOrder) (fate : CommitFate)
    (cycle : List (Option Uuid)) (debtIds : List Uuid) (allowedPids : Option (List Pid))
    (db : Db env) : Except GeoError (Option Amount) × Db env :=
  let preflight := debtsByIds order db.debts debtIds
  if preflight.length ≠ debtIds.length then
    match readCommittedExecutionAmount db (executionTxId env debtIds) allowedPids with
    | .error _ => (.error .internal, db)
    | .ok (some amount) => (.ok (some amount), db)
    | .ok none => executeClearingInner now order fate cycle none allowedPids db
  else match (preflight.map (·.equivalentId)).dedup with
    | [e] =>
        if fate = .interlockTimeout then (.error (.timeout "Clearing interlock timed out"), db)
        else executeClearingInner now order fate cycle (some e) allowedPids db
    | _ => (.error .internal, db)

def executeClearingWithAmount (now : Time) (order : ReadOrder) (fate : CommitFate)
    (cycle : List (Option Uuid)) (allowedPids : Option (List Pid)) (db : Db env) :
    Except GeoError (Option Amount) × Db env :=
  if resolveScopeIds env.directory allowedPids = some [] then (.error .internal, db)
  else if env.postgres = false ∨ cycle = [] then
    executeClearingInner now order fate cycle none allowedPids db
  else match cycle.mapM id with
    | none => executeClearingInner now order fate cycle none allowedPids db
    | some debtIds => executeClearingInterlocked now order fate cycle debtIds allowedPids db

end Execute

end GeoLedger

import Mathlib
import GeoLedger.Schema
import GeoLedger.Signing
import GeoLedger.Library.Dict
import GeoLedger.Library.JsonText
import GeoLedger.Library.Outcomes

/-! The migration `008_pid_base58_sha256`: participants get the PIDs that the protocol
derives from their public keys, and copies of the old PIDs are rewritten in the challenges
and in the payloads of transactions. -/
namespace GeoLedger.PidMigration
open JsonText Outcomes

variable {Key : Type}

section Tables

/-- A participant with a valid public key. -/
structure ParticipantRow (Key : Type) where
  id : Uuid
  pid : String
  publicKey : Key
deriving DecidableEq

structure ChallengeRow where
  id : Uuid
  pid : String
deriving DecidableEq

structure TransactionRow where
  id : Uuid
  payload : Json

structure Db (Key : Type) where
  participants : List (ParticipantRow Key)
  challenges : List ChallengeRow
  transactions : List TransactionRow

inductive MigrationError where
  | runtime (message : String)
  | uniquePid
  | keyError
deriving DecidableEq

end Tables

section Payloads

/-- An entry that holds a PID is replaced by the new one. -/
def migrateKey (mapping : Dict String String) (updated : List (String × Json)) (key : String) : List (String × Json) :=
  match updated.lookup key with
  | some (.text value) =>
      match mapping.get? value with
      | some pid => Dict.assign key (.text pid) updated
      | none => updated
  | _ => updated

/-- One hop of a path; only texts can be PIDs. -/
def migrateHop (mapping : Dict String String) : Json → Json
  | .text p => .text (mapping.getD p p)
  | p => p

def migrateRoute (mapping : Dict String String) : Json → Json
  | .dict route =>
      match route.lookup "path" with
      | some (.list path) => .dict (Dict.assign "path" (.list (path.map (migrateHop mapping))) route)
      | _ => .dict route
  | route => route

def migratePidStrings (mapping : Dict String String) : Json → Json
  | .dict payload =>
      let updated := ["from", "to"].foldl (migrateKey mapping) payload
      match updated.lookup "routes" with
      | some (.list routes) => .dict (Dict.assign "routes" (.list (routes.map (migrateRoute mapping))) updated)
      | _ => .dict updated
  | payload => payload

end Payloads

section Migration

/-- The new PID of every participant by its old one; two equal new PIDs are refused. -/
def buildMapping (derive : Key → String) (message : String) :
    List (ParticipantRow Key) → Dict String String → List String → Except MigrationError (Dict String String)
  | [], mapping, _ => .ok mapping
  | row :: rest, mapping, newPids =>
      let newPid := derive row.publicKey
      if newPid ∈ newPids then .error (.runtime message)
      else buildMapping derive message rest (mapping.set row.pid newPid) (newPid :: newPids)

/-- `UPDATE participants SET pid = :pid WHERE id = :id`, under the unique index of PIDs. -/
def updatePid [DecidableEq Key] (rows : List (ParticipantRow Key)) (id : Uuid) (pid : String) :
    Except MigrationError (List (ParticipantRow Key)) :=
  if ∃ r ∈ rows, r.id ≠ id ∧ r.pid = pid then .error .uniquePid
  else .ok (rows.map fun r => if r.id = id then { r with pid := pid } else r)

def tmpPid (id : Uuid) : String := "migrating:" ++ toString id

def updateTmp [DecidableEq Key] (rows : List (ParticipantRow Key)) (row : ParticipantRow Key) :
    Except MigrationError (List (ParticipantRow Key)) := updatePid rows row.id (tmpPid row.id)

def updateNew [DecidableEq Key] (mapping : Dict String String) (rows : List (ParticipantRow Key))
    (row : ParticipantRow Key) : Except MigrationError (List (ParticipantRow Key)) :=
  match mapping.get? row.pid with
  | none => .error .keyError
  | some pid => updatePid rows row.id pid

/-- The body of `upgrade` and of `downgrade`; a payload that does not change is not written. -/
def migrate [DecidableEq Key] (derive : Key → String) (message : String) (db : Db Key) :
    Except MigrationError (Db Key) := do
  let mapping ← buildMapping derive message db.participants Dict.empty []
  let rows ← db.participants.foldlM updateTmp db.participants
  let participants ← db.participants.foldlM (updateNew mapping) rows
  return {
    participants := participants
    challenges := db.challenges.map fun row =>
      match mapping.get? row.pid with
      | none => row
      | some newPid => { row with pid := newPid }
    transactions := db.transactions.map fun row => { row with payload := migratePidStrings mapping row.payload } }

/-- `_pid_v0_base64url` and `_pid_v1_base58_sha256`, on valid public keys. Neither alphabet
has a colon. -/
structure PidScheme (Key : Type) where
  pidV0 : Key → String
  pidV1 : Key → String
  pidV0_injective : Function.Injective pidV0
  pidV1_injective : Function.Injective pidV1
  pidV0_plain : ∀ k, ':' ∉ (pidV0 k).toList
  pidV1_plain : ∀ k, ':' ∉ (pidV1 k).toList

variable [DecidableEq Key] (scheme : PidScheme Key)

def upgrade (db : Db Key) : Except MigrationError (Db Key) :=
  migrate scheme.pidV1 "PID migration produced duplicate PID values" db

def downgrade (db : Db Key) : Except MigrationError (Db Key) :=
  migrate scheme.pidV0 "PID downgrade produced duplicate PID values" db

end Migration

section History

structure Route where
  path : List String
  amount : String

structure ClearedEdge where
  debtId : String
  debtor : String
  creditor : String
  amount : String

/-- The payloads that the payment and the clearing service write. -/
inductive TxPayload where
  | payment (sender receiver amount equivalent : String) (routes : List Route) (key fingerprint : String)
  | clearing (cycle : List String) (amount equivalent : String) (edges : List ClearedEdge)

def Route.toJson (r : Route) : Json := .dict [("path", .list (r.path.map .text)), ("amount", .text r.amount)]

def ClearedEdge.toJson (e : ClearedEdge) : Json :=
  .dict [("debt_id", .text e.debtId), ("debtor", .text e.debtor), ("creditor", .text e.creditor),
    ("amount", .text e.amount)]

def TxPayload.toJson : TxPayload → Json
  | .payment sender receiver amount equivalent routes key fingerprint =>
      .dict [("from", .text sender), ("to", .text receiver), ("amount", .text amount),
        ("equivalent", .text equivalent), ("routes", .list (routes.map Route.toJson)),
        ("idempotency", .dict [("key", .text key), ("fingerprint", .text fingerprint)])]
  | .clearing cycle amount equivalent edges =>
      .dict [("cycle", .list (cycle.map .text)), ("amount", .text amount), ("equivalent", .text equivalent),
        ("edges", .list (edges.map ClearedEdge.toJson))]

/-- Rename the PIDs of a payload, wherever it holds one. -/
def TxPayload.rename (f : String → String) : TxPayload → TxPayload
  | .payment sender receiver amount equivalent routes key fingerprint =>
      .payment (f sender) (f receiver) amount equivalent (routes.map fun r => { r with path := r.path.map f })
        key fingerprint
  | .clearing cycle amount equivalent edges =>
      .clearing cycle amount equivalent
        (edges.map fun e => { e with debtor := f e.debtor, creditor := f e.creditor })

/-- The database with its payloads as they were written. -/
structure History (Key : Type) where
  participants : List (ParticipantRow Key)
  challenges : List ChallengeRow
  transactions : List (Uuid × TxPayload)

namespace History

variable (h : History Key)

def toDb : Db Key :=
  ⟨h.participants, h.challenges, h.transactions.map fun t => ⟨t.1, t.2.toJson⟩⟩

/-- The new PID of the participant that has this one; other texts stay. -/
def newPid (derive : Key → String) (pid : String) : String :=
  ((h.participants.find? (·.pid = pid)).map fun r => derive r.publicKey).getD pid

/-- The database after every occurrence of a participant's PID is replaced. -/
def renamed (derive : Key → String) : History Key where
  participants := h.participants.map fun r => { r with pid := derive r.publicKey }
  challenges := h.challenges.map fun c => { c with pid := h.newPid derive c.pid }
  transactions := h.transactions.map fun t => (t.1, t.2.rename (h.newPid derive))

/-- Distinct participants with distinct keys, and the PIDs that are derived from them. -/
structure Derived (derive : Key → String) : Prop where
  ids : (h.participants.map ParticipantRow.id).Nodup
  keys : (h.participants.map ParticipantRow.publicKey).Nodup
  pids : ∀ r ∈ h.participants, r.pid = derive r.publicKey

end History

end History

end GeoLedger.PidMigration

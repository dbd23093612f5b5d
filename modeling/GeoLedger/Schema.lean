import Mathlib
import GeoLedger.Library.Dict
import GeoLedger.Library.Rows

/-! Tables of the ledger database. A row carries the columns that payments,
clearing, trust lines, routing and recovery read or write; identifiers are
numbers, whose order is the order of the UUIDs they stand for, and a `Decimal`
is the rational it denotes. -/
namespace GeoLedger

abbrev Uuid := Nat
abbrev Pid := String
abbrev TxId := String
abbrev Amount := ℚ
/-- Seconds since an arbitrary origin. -/
abbrev Time := Nat

/-- Keys of two and of three columns are equal when their columns are. -/
scoped instance : LawfulBEq (Uuid × Uuid) := inferInstance
scoped instance : LawfulBEq (Uuid × Uuid × Uuid) := inferInstance
scoped instance : LawfulBEq (Pid × Pid) := inferInstance

structure Participant where
  id : Uuid
  pid : Pid
deriving DecidableEq, Repr

structure Equivalent where
  id : Uuid
  code : String
deriving DecidableEq, Repr

/-- The tables `participants` and `equivalents`, with their unique columns. A PID
is computed from a public key and is not empty; a code has at most sixteen
characters, fewer than the text of an identifier. No operation of the ledger
writes these tables. -/
structure Directory where
  participants : List Participant
  equivalents : List Equivalent
  participant_id_unique : (participants.map (·.id)).Nodup
  pid_unique : (participants.map (·.pid)).Nodup
  pid_nonempty : ∀ p ∈ participants, p.pid ≠ ""
  equivalent_id_unique : (equivalents.map (·.id)).Nodup
  code_unique : (equivalents.map (·.code)).Nodup
  code_not_id : ∀ e ∈ equivalents, ∀ id : Uuid, e.code ≠ toString id

namespace Directory

/-- `SELECT … FROM participants WHERE pid = …`. -/
def participantByPid (d : Directory) (pid : Pid) : Option Participant :=
  d.participants.find? (·.pid = pid)

def participantById (d : Directory) (id : Uuid) : Option Participant :=
  d.participants.find? (·.id = id)

def equivalentByCode (d : Directory) (code : String) : Option Equivalent :=
  d.equivalents.find? (·.code = code)

def equivalentById (d : Directory) (id : Uuid) : Option Equivalent :=
  d.equivalents.find? (·.id = id)

/-- The id belongs to a participant. -/
def Registered (d : Directory) (id : Uuid) : Prop := ∃ p ∈ d.participants, p.id = id

/-- `pid_by_id.get(id, id)`: the participant's PID, or the text of its id. -/
def pidText (d : Directory) (id : Uuid) : String :=
  ((d.participantById id).map (·.pid)).getD (toString id)

/-- `equivalent.code if equivalent else equivalent_id`. -/
def codeText (d : Directory) (id : Uuid) : String :=
  ((d.equivalentById id).map (·.code)).getD (toString id)

/-- The text recorded for an id is an equivalent's code only for that equivalent. -/
theorem codeText_eq_code_iff {d : Directory} {e : Equivalent} (he : e ∈ d.equivalents) {id : Uuid} :
    d.codeText id = e.code ↔ id = e.id := by
  constructor
  · intro hText
    unfold codeText at hText
    cases hFound : d.equivalentById id with
    | none =>
        rw [hFound] at hText
        exact absurd hText.symm (d.code_not_id e he id)
    | some other =>
        rw [hFound] at hText
        obtain ⟨hMem, hId⟩ := (Rows.find?_eq_some_iff d.equivalent_id_unique).mp hFound
        rw [← hId, Rows.eq_of_column d.code_unique hMem he hText]
  · rintro rfl
    have hFound : d.equivalentById e.id = some e :=
      (Rows.find?_eq_some_iff d.equivalent_id_unique).mpr ⟨he, rfl⟩
    simp [codeText, hFound]

/-- The text recorded for a participant's id is the PID of that participant only. -/
theorem pidText_eq_iff {directory : Directory} {p : Participant} (hp : p ∈ directory.participants) {id : Uuid}
    (hId : directory.Registered id) : directory.pidText id = p.pid ↔ id = p.id := by
  obtain ⟨q, hq, rfl⟩ := hId
  have hFound : directory.participantById q.id = some q :=
    (Rows.find?_eq_some_iff directory.participant_id_unique).mpr ⟨hq, rfl⟩
  rw [Directory.pidText, hFound, Option.map_some, Option.getD_some]
  constructor
  · exact fun hPid => by rw [Rows.eq_of_column directory.pid_unique hq hp hPid]
  · exact fun hSame => by rw [Rows.eq_of_column directory.participant_id_unique hq hp hSame]

theorem pidText_mem {directory : Directory} {id : Uuid} (hId : directory.Registered id) :
    ∃ q ∈ directory.participants, q.pid = directory.pidText id := by
  obtain ⟨q, hq, rfl⟩ := hId
  exact ⟨q, hq, ((pidText_eq_iff hq ⟨q, hq, rfl⟩).mpr rfl).symm⟩

theorem pidText_inj {directory : Directory} {id other : Uuid} (hId : directory.Registered id)
    (hOther : directory.Registered other) (hText : directory.pidText id = directory.pidText other) : id = other := by
  obtain ⟨q, hq, rfl⟩ := hOther
  exact (pidText_eq_iff hq hId).mp (hText.trans ((pidText_eq_iff hq ⟨q, hq, rfl⟩).mpr rfl))

end Directory

/-- A JSON value in a trust line's policy. The numbers `NaN` and `Infinity` are read from a
request as well as finite ones. A list item is `none` when it is not a string. -/
inductive PolicyValue where
  | null
  | bool (value : Bool)
  | int (value : ℤ)
  | float (value : ℚ)
  | nan
  | infinity (negative : Bool)
  | str (value : String)
  | list (items : List (Option String))
  | dict (isEmpty : Bool)
deriving DecidableEq

abbrev Policy := Dict String PolicyValue

inductive TrustLineStatus where
  | active
  | frozen
  | closed
deriving DecidableEq, Repr

structure TrustLine where
  id : Uuid
  fromParticipantId : Uuid
  toParticipantId : Uuid
  equivalentId : Uuid
  limit : Amount
  policy : Option Policy
  status : TrustLineStatus

structure Debt where
  id : Uuid
  debtorId : Uuid
  creditorId : Uuid
  equivalentId : Uuid
  amount : Amount
deriving DecidableEq, Repr

/-- The columns of `uq_debts_debtor_creditor_equivalent`. -/
def Debt.key (d : Debt) : Uuid × Uuid × Uuid := (d.debtorId, d.creditorId, d.equivalentId)

/-- One entry of `effects["flows"]`. -/
structure Flow where
  fromId : Uuid
  toId : Uuid
  amount : Amount
  equivalentId : Uuid
deriving DecidableEq, Repr

structure PrepareLock where
  id : Uuid
  txId : TxId
  participantId : Uuid
  flows : List Flow
  expiresAt : Time
deriving DecidableEq, Repr

/-- `PrepareLock.expires_at > func.now()`. -/
def PrepareLock.live (now : Time) (l : PrepareLock) : Prop := now < l.expiresAt

instance (now : Time) (l : PrepareLock) : Decidable (l.live now) :=
  inferInstanceAs (Decidable (now < l.expiresAt))

inductive TxState where
  | NEW
  | ROUTED
  | PREPARE_IN_PROGRESS
  | PREPARED
  | COMMITTED
  | ABORTED
  | PROPOSED
  | WAITING
  | REJECTED
deriving DecidableEq, Repr

/-- One entry of `payload["routes"]`: the path and the amount sent along it. -/
structure Route where
  path : List Pid
  amount : Amount
deriving DecidableEq, Repr

/-- One entry of a clearing's `payload["edges"]`. -/
structure ClearingEdge where
  debtId : Uuid
  debtor : String
  creditor : String
  amount : Amount
deriving DecidableEq, Repr

/-- The JSON payload of a transaction; the constructor is its `type` column. -/
inductive Payload where
  | payment (sender receiver : Pid) (amount : Amount) (equivalent : String) (routes : List Route)
      (fingerprint : Option String)
  | clearing (cycle : List Uuid) (amount : Amount) (equivalent : String)
      (edges : List ClearingEdge)
deriving DecidableEq, Repr

def Payload.isPayment : Payload → Bool
  | .payment .. => true
  | .clearing .. => false

inductive ErrorCode where
  | E001
  | E002
  | E003
  | E004
  | E005
  | E006
  | E007
  | E008
  | E009
  | E010
deriving DecidableEq, Repr

/-- The `error` column of a transaction. -/
structure TxError where
  code : ErrorCode
  message : String
  details : List (String × String)
deriving DecidableEq, Repr

structure Transaction where
  txId : TxId
  initiatorId : Uuid
  payload : Payload
  state : TxState
  error : Option TxError
  updatedAt : Time
deriving DecidableEq, Repr

inductive OperationType where
  | PAYMENT
  | CLEARING
  | TRUST_LINE_CREATE
  | TRUST_LINE_UPDATE
  | TRUST_LINE_CLOSE
deriving DecidableEq, Repr

/-- Outcome of the three checks recorded with an integrity checkpoint: whether
the sums balance, and the number of violations of the other two. -/
structure InvariantChecks where
  zeroSum : Bool
  trustLimits : Nat
  debtSymmetry : Nat
deriving DecidableEq, Repr

structure IntegrityAuditLog where
  operationType : OperationType
  txId : Option TxId
  equivalentCode : String
  stateChecksumBefore : String
  stateChecksumAfter : String
  affectedParticipants : List String
  invariantsChecked : InvariantChecks
  verificationPassed : Bool
deriving DecidableEq, Repr

/-- Database constraints, by the name the schema gives them. -/
inductive Constraint where
  | debtUnique
  | debtAmountPositive
  | debtNoSelfLoop
  | numericOverflow
  | trustLineLimitPositive
  | prepareLockTxParticipant
  | transactionTxId
deriving DecidableEq, Repr

inductive Invariant where
  | ZERO_SUM_VIOLATION
  | TRUST_LIMIT_VIOLATION
  | DEBT_SYMMETRY_VIOLATION
  | PAYMENT_DELTA_DRIFT
  | CLEARING_NEUTRALITY_VIOLATION
deriving DecidableEq, Repr

/-- Exceptions raised by the services, with the texts the source gives them. -/
inductive GeoError where
  | geo (message : String)
  | conflict (message : String)
  | notFound (message : String)
  | badRequest (message : String)
  | forbidden (message : String)
  | invalidSignature (message : String)
  | routing (message : String)
  | insufficientCapacity (sender receiver : Pid) (available needed reserved : Amount)
  | timeout (message : String)
  | integrity (violated : Invariant)
  | database (violated : Constraint)
  | clearingCommittedAfterCancellation (txId : TxId) (amount : Amount)
  | cancelled
deriving DecidableEq, Repr

/-- `GeoException()` without arguments. -/
def GeoError.internal : GeoError := .geo "Internal server error"

end GeoLedger

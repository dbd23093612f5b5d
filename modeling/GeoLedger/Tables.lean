import Mathlib
import GeoLedger.Library.Rows
import GeoLedger.Environment

/-! The tables with the constraints the schema declares. A table carries its
constraints as fields, so every write has to re-establish them: a write that
would break one is refused with the database error the constraint raises. -/
namespace GeoLedger

variable {env : Env}

/-- `debts`. Amounts are values of the column, and `generated` counts the
identifiers drawn for this table. -/
structure DebtTable (env : Env) where
  rows : List Debt
  generated : Nat
  id_unique : (rows.map Debt.id).Nodup
  key_unique : (rows.map Debt.key).Nodup
  issued : ∀ d ∈ rows, ∃ n < generated, d.id = env.uuid4 n
  stored : ∀ d ∈ rows, d.amount ∈ env.column.grid
  amount_fits : ∀ d ∈ rows, env.column.fits d.amount = true
  amount_positive : ∀ d ∈ rows, 0 < d.amount
  no_self_loop : ∀ d ∈ rows, d.debtorId ≠ d.creditorId

namespace DebtTable

def empty : DebtTable env where
  rows := []
  generated := 0
  id_unique := List.nodup_nil
  key_unique := List.nodup_nil
  issued := by simp
  stored := by simp
  amount_fits := by simp
  amount_positive := by simp
  no_self_loop := by simp

/-- `_get_debt`: the row of an ordered pair in an equivalent. -/
def getDebt (t : DebtTable env) (debtorId creditorId equivalentId : Uuid) : Option Debt :=
  t.rows.find? (·.key = (debtorId, creditorId, equivalentId))

/-- The amount of that row, or zero when it does not exist. -/
def owed (t : DebtTable env) (debtorId creditorId equivalentId : Uuid) : Amount :=
  ((t.getDebt debtorId creditorId equivalentId).map (·.amount)).getD 0

/-- Flush a new amount of one row. The column rounds it, and refuses a value
that does not fit or that is not positive. -/
def write (t : DebtTable env) (id : Uuid) (amount : Amount) : Except GeoError (DebtTable env) :=
  if hFits : env.column.fits (env.column.round amount) = false then
    .error (.database .numericOverflow)
  else if hPositive : 0 < env.column.round amount then
    .ok {
      rows := Rows.update Debt.id id (fun d => { d with amount := env.column.round amount }) t.rows
      generated := t.generated
      id_unique := Rows.nodup_map_update Debt.id (fun _ => rfl) t.id_unique
      key_unique := Rows.nodup_map_update Debt.key (fun _ => rfl) t.key_unique
      issued := by
        intro d hd
        rcases Rows.mem_update_iff.mp hd with ⟨old, hOld, _, rfl⟩ | ⟨hMem, _⟩
        · exact t.issued old hOld
        · exact t.issued d hMem
      stored := by
        intro d hd
        rcases Rows.mem_update_iff.mp hd with ⟨old, _, _, rfl⟩ | ⟨hMem, _⟩
        · exact env.column.round_mem amount
        · exact t.stored d hMem
      amount_fits := by
        intro d hd
        rcases Rows.mem_update_iff.mp hd with ⟨old, _, _, rfl⟩ | ⟨hMem, _⟩
        · exact eq_true_of_ne_false hFits
        · exact t.amount_fits d hMem
      amount_positive := by
        intro d hd
        rcases Rows.mem_update_iff.mp hd with ⟨old, _, _, rfl⟩ | ⟨hMem, _⟩
        · exact hPositive
        · exact t.amount_positive d hMem
      no_self_loop := by
        intro d hd
        rcases Rows.mem_update_iff.mp hd with ⟨old, hOld, _, rfl⟩ | ⟨hMem, _⟩
        · exact t.no_self_loop old hOld
        · exact t.no_self_loop d hMem }
  else .error (.database .debtAmountPositive)

/-- `session.delete(debt)`. -/
def delete (t : DebtTable env) (id : Uuid) : DebtTable env where
  rows := Rows.delete Debt.id id t.rows
  generated := t.generated
  id_unique := Rows.nodup_map_delete Debt.id t.id_unique
  key_unique := Rows.nodup_map_delete Debt.key t.key_unique
  issued d hd := t.issued d (Rows.mem_delete_iff.mp hd).1
  stored d hd := t.stored d (Rows.mem_delete_iff.mp hd).1
  amount_fits d hd := t.amount_fits d (Rows.mem_delete_iff.mp hd).1
  amount_positive d hd := t.amount_positive d (Rows.mem_delete_iff.mp hd).1
  no_self_loop d hd := t.no_self_loop d (Rows.mem_delete_iff.mp hd).1

/-- Delete a row whose amount reached zero, else flush its amount. -/
def save (t : DebtTable env) (id : Uuid) (amount : Amount) : Except GeoError (DebtTable env) :=
  if amount = 0 then .ok (t.delete id) else t.write id amount

theorem uuid4_generated_ne (t : DebtTable env) {d : Debt} (hd : d ∈ t.rows) :
    d.id ≠ env.uuid4 t.generated := by
  obtain ⟨n, hn, hId⟩ := t.issued d hd
  rw [hId]
  intro h
  exact hn.ne (env.uuid4_injective h)

/-- Insert a row under a new identifier. -/
def insert (t : DebtTable env) (debtorId creditorId equivalentId : Uuid) (amount : Amount) :
    Except GeoError (DebtTable env) :=
  if hFits : env.column.fits (env.column.round amount) = false then
    .error (.database .numericOverflow)
  else if hPositive : 0 < env.column.round amount then
    if hLoop : debtorId = creditorId then .error (.database .debtNoSelfLoop)
    else if hKey : (debtorId, creditorId, equivalentId) ∈ t.rows.map Debt.key then
      .error (.database .debtUnique)
    else
      .ok {
        rows := t.rows ++
          [⟨env.uuid4 t.generated, debtorId, creditorId, equivalentId, env.column.round amount⟩]
        generated := t.generated + 1
        id_unique :=
          Rows.nodup_map_append Debt.id _ t.id_unique (fun _ hd => t.uuid4_generated_ne hd)
        key_unique := by
          refine Rows.nodup_map_append Debt.key _ t.key_unique ?_
          intro d hd hEq
          exact hKey (List.mem_map.mpr ⟨d, hd, hEq⟩)
        issued := by
          intro d hd
          rcases List.mem_append.mp hd with hOld | hNew
          · obtain ⟨n, hn, hId⟩ := t.issued d hOld
            exact ⟨n, Nat.lt_succ_of_lt hn, hId⟩
          · rw [List.mem_singleton.mp hNew]
            exact ⟨t.generated, Nat.lt_succ_self _, rfl⟩
        stored := by
          intro d hd
          rcases List.mem_append.mp hd with hOld | hNew
          · exact t.stored d hOld
          · rw [List.mem_singleton.mp hNew]
            exact env.column.round_mem amount
        amount_fits := by
          intro d hd
          rcases List.mem_append.mp hd with hOld | hNew
          · exact t.amount_fits d hOld
          · rw [List.mem_singleton.mp hNew]
            exact eq_true_of_ne_false hFits
        amount_positive := by
          intro d hd
          rcases List.mem_append.mp hd with hOld | hNew
          · exact t.amount_positive d hOld
          · rw [List.mem_singleton.mp hNew]
            exact hPositive
        no_self_loop := by
          intro d hd
          rcases List.mem_append.mp hd with hOld | hNew
          · exact t.no_self_loop d hOld
          · rw [List.mem_singleton.mp hNew]
            exact hLoop }
  else .error (.database .debtAmountPositive)

end DebtTable

/-- The columns of `uq_trust_lines_live_from_to_equivalent`. -/
def TrustLine.key (l : TrustLine) : Uuid × Uuid × Uuid :=
  (l.fromParticipantId, l.toParticipantId, l.equivalentId)

/-- `trust_lines`. Lines that are not closed are unique by their key. -/
structure TrustTable (env : Env) where
  rows : List TrustLine
  generated : Nat
  id_unique : (rows.map TrustLine.id).Nodup
  live_unique : ((rows.filter (·.status ≠ .closed)).map TrustLine.key).Nodup
  issued : ∀ l ∈ rows, ∃ n < generated, l.id = env.uuid4 n
  stored : ∀ l ∈ rows, l.limit ∈ env.column.grid
  limit_fits : ∀ l ∈ rows, env.column.fits l.limit = true
  limit_nonneg : ∀ l ∈ rows, 0 ≤ l.limit

namespace TrustTable

def empty : TrustTable env where
  rows := []
  generated := 0
  id_unique := List.nodup_nil
  live_unique := List.nodup_nil
  issued := by simp
  stored := by simp
  limit_fits := by simp
  limit_nonneg := by simp

/-- The active line between two participants in an equivalent. -/
def active (t : TrustTable env) (fromId toId equivalentId : Uuid) : Option TrustLine :=
  t.rows.find? fun l => l.status = .active ∧ l.key = (fromId, toId, equivalentId)

/-- The limit of the active line, or zero without one. -/
def limit (t : TrustTable env) (fromId toId equivalentId : Uuid) : Amount :=
  ((t.active fromId toId equivalentId).map (·.limit)).getD 0

end TrustTable

/-- `prepare_locks`, unique by transaction and participant. -/
structure LockTable (env : Env) where
  rows : List PrepareLock
  generated : Nat
  id_unique : (rows.map PrepareLock.id).Nodup
  issued : ∀ l ∈ rows, ∃ n < generated, l.id = env.uuid4 n
  tx_participant_unique : (rows.map fun l => (l.txId, l.participantId)).Nodup

namespace LockTable

def empty : LockTable env where
  rows := []
  generated := 0
  id_unique := List.nodup_nil
  issued := by simp
  tx_participant_unique := List.nodup_nil

/-- `_load_prepare_locks`. -/
def ofTx (t : LockTable env) (txId : TxId) : List PrepareLock := t.rows.filter (·.txId = txId)

/-- The locks that have not expired. -/
def live (t : LockTable env) (now : Time) : List PrepareLock := t.rows.filter (·.live now)

theorem uuid4_generated_ne (t : LockTable env) {l : PrepareLock} (hl : l ∈ t.rows) :
    l.id ≠ env.uuid4 t.generated := by
  obtain ⟨n, hn, hId⟩ := t.issued l hl
  rw [hId]
  intro h
  exact hn.ne (env.uuid4_injective h)

def insert (t : LockTable env) (txId : TxId) (participantId : Uuid) (flows : List Flow)
    (expiresAt : Time) : Except GeoError (LockTable env) :=
  if hKey : (txId, participantId) ∈ t.rows.map fun l => (l.txId, l.participantId) then
    .error (.database .prepareLockTxParticipant)
  else
    .ok {
      rows := t.rows ++ [⟨env.uuid4 t.generated, txId, participantId, flows, expiresAt⟩]
      generated := t.generated + 1
      id_unique :=
        Rows.nodup_map_append PrepareLock.id _ t.id_unique (fun _ hl => t.uuid4_generated_ne hl)
      issued := by
        intro l hl
        rcases List.mem_append.mp hl with hOld | hNew
        · obtain ⟨n, hn, hId⟩ := t.issued l hOld
          exact ⟨n, Nat.lt_succ_of_lt hn, hId⟩
        · rw [List.mem_singleton.mp hNew]
          exact ⟨t.generated, Nat.lt_succ_self _, rfl⟩
      tx_participant_unique := by
        refine Rows.nodup_map_append _ _ t.tx_participant_unique ?_
        intro l hl hEq
        exact hKey (List.mem_map.mpr ⟨l, hl, hEq⟩) }

/-- `session.add_all(locks)`, flushed in order. -/
def insertAll (t : LockTable env) (txId : TxId) (expiresAt : Time) :
    List (Uuid × List Flow) → Except GeoError (LockTable env)
  | [] => .ok t
  | (participantId, flows) :: rest => do
      let t' ← t.insert txId participantId flows expiresAt
      t'.insertAll txId expiresAt rest

/-- `delete(PrepareLock).where(PrepareLock.tx_id == tx_id)`. -/
def deleteTx (t : LockTable env) (txId : TxId) : LockTable env where
  rows := Rows.delete PrepareLock.txId txId t.rows
  generated := t.generated
  id_unique := Rows.nodup_map_delete PrepareLock.id t.id_unique
  issued l hl := t.issued l (Rows.mem_delete_iff.mp hl).1
  tx_participant_unique := Rows.nodup_map_delete _ t.tx_participant_unique

end LockTable

/-- `transactions`, unique by `tx_id`. -/
structure TxTable where
  rows : List Transaction
  tx_id_unique : (rows.map Transaction.txId).Nodup

namespace TxTable

def empty : TxTable := ⟨[], List.nodup_nil⟩

/-- `_get_tx`. -/
def get? (t : TxTable) (txId : TxId) : Option Transaction := t.rows.find? (·.txId = txId)

def insert (t : TxTable) (tx : Transaction) : Except GeoError TxTable :=
  if hKey : tx.txId ∈ t.rows.map Transaction.txId then .error (.database .transactionTxId)
  else .ok ⟨t.rows ++ [tx], Rows.nodup_map_append Transaction.txId tx t.tx_id_unique
    (fun _ hr hEq => hKey (List.mem_map.mpr ⟨_, hr, hEq⟩))⟩

/-- `update(Transaction).where(Transaction.tx_id == tx_id).values(…)`. -/
def update (t : TxTable) (txId : TxId) (state : TxState) (error : Option TxError) (now : Time) :
    TxTable where
  rows := Rows.update Transaction.txId txId
    (fun tx => { tx with state := state, error := error, updatedAt := now }) t.rows
  tx_id_unique := Rows.nodup_map_update Transaction.txId (fun _ => rfl) t.tx_id_unique

variable {t t' : TxTable} {txId : TxId} {tx : Transaction} {state : TxState} {error : Option TxError}
  {now : Time}

theorem get?_eq_some_iff : t.get? txId = some tx ↔ tx ∈ t.rows ∧ tx.txId = txId :=
  Rows.find?_eq_some_iff t.tx_id_unique

theorem mem_update_iff :
    tx ∈ (t.update txId state error now).rows ↔
      (∃ old ∈ t.rows, old.txId = txId ∧
        tx = { old with state := state, error := error, updatedAt := now }) ∨
      (tx ∈ t.rows ∧ tx.txId ≠ txId) :=
  Rows.mem_update_iff

/-- An updated row is found again, with its new state. -/
theorem get?_update (h : t.get? tx.txId = some tx) : (t.update tx.txId state error now).get? tx.txId =
    some { tx with state := state, error := error, updatedAt := now } :=
  get?_eq_some_iff.mpr ⟨mem_update_iff.mpr (Or.inl ⟨tx, (get?_eq_some_iff.mp h).1, rfl, rfl⟩), rfl⟩

theorem get?_update_of_ne {other : TxId} (h : other ≠ txId) :
    (t.update txId state error now).get? other = t.get? other := by
  refine Option.ext fun tx => ?_
  rw [get?_eq_some_iff, get?_eq_some_iff, mem_update_iff]
  constructor
  · rintro ⟨⟨old, _, hOld, rfl⟩ | ⟨hRow, _⟩, hId⟩
    · exact absurd (hId.symm.trans hOld) h
    · exact ⟨hRow, hId⟩
  · rintro ⟨hRow, hId⟩
    exact ⟨Or.inr ⟨hRow, hId ▸ h⟩, hId⟩

theorem insert_eq_ok_iff :
    t.insert tx = .ok t' ↔ (∀ old ∈ t.rows, old.txId ≠ tx.txId) ∧ t'.rows = t.rows ++ [tx] := by
  unfold insert
  split
  · next hKey =>
      obtain ⟨old, hOld, hId⟩ := List.mem_map.mp hKey
      constructor
      · intro h
        cases h
      · rintro ⟨hFresh, _⟩
        exact absurd hId (hFresh old hOld)
  · next hKey =>
      constructor
      · intro h
        cases h
        exact ⟨fun old hOld hId => hKey (List.mem_map.mpr ⟨old, hOld, hId⟩), rfl⟩
      · rintro ⟨_, hRows⟩
        congr
        cases t'
        exact congrArg (fun rows => rows) hRows.symm

end TxTable

/-- A committed state of the database. -/
structure Db (env : Env) where
  trustLines : TrustTable env
  debts : DebtTable env
  prepareLocks : LockTable env
  transactions : TxTable
  auditLog : List IntegrityAuditLog

/-- The empty ledger. -/
def Db.empty : Db env := ⟨.empty, .empty, .empty, .empty, []⟩

end GeoLedger

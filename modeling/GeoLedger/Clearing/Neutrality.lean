import Mathlib
import GeoLedger.Transactions

/-! Net positions through a clearing. Every listed debt shrinks by the same
amount, so a position moves by that amount for each row in which the
participant is a debtor rather than a creditor. The call checks the balance in
the equivalent of the first debt only. -/
namespace GeoLedger
open Outcomes

variable {env : Env}

section Positions

/-- The part of a unit of a debt that counts for a participant's net position. -/
def Debt.side (d : Debt) (p e : Uuid) : Amount :=
  (if d.creditorId = p ∧ d.equivalentId = e then 1 else 0) -
    (if d.debtorId = p ∧ d.equivalentId = e then 1 else 0)

/-- A net position as a sum over the table. -/
theorem DebtTable.netPosition_eq_rows (t : DebtTable env) (p e : Uuid) :
    t.netPosition p e = (t.rows.map fun d => d.amount * d.side p e).sum := by
  rw [netPosition, credits, debits, Rows.sum_filter, Rows.sum_filter]
  induction t.rows with
  | nil => simp
  | cons d rest ih =>
      have hSide : d.amount * d.side p e =
          (if d.creditorId = p ∧ d.equivalentId = e then d.amount else 0) -
            (if d.debtorId = p ∧ d.equivalentId = e then d.amount else 0) := by
        rw [Debt.side, mul_sub, mul_ite, mul_ite, mul_one, mul_zero]
      simp only [List.map_cons, List.sum_cons]
      rw [← ih, hSide]
      ring

/-- Saving a row moves a net position by the change of its amount. -/
theorem DebtTable.netPosition_save {t t' : DebtTable env} {d : Debt} {amount : Amount} (hMem : d ∈ t.rows)
    (hGrid : amount ∈ env.column.grid) (h : t.save d.id amount = .ok t') (p e : Uuid) :
    t'.netPosition p e = t.netPosition p e + (amount - d.amount) * d.side p e := by
  rw [netPosition_eq_rows, netPosition_eq_rows]
  unfold save at h
  split at h
  · next hZero =>
      cases h
      have hSum := Rows.sum_delete (g := fun d : Debt => d.amount * d.side p e) t.id_unique hMem rfl
      simp only [delete]
      rw [← hSum, hZero]
      ring
  · have hRows := (rows_of_write h).1
    have hSum := Rows.sum_update (f := fun d : Debt => { d with amount := env.column.round amount })
      (g := fun d : Debt => d.amount * d.side p e) t.id_unique hMem rfl
    rw [env.column.round_of_mem amount hGrid] at hRows hSum
    have hSide : ({ d with amount := amount } : Debt).side p e = d.side p e := rfl
    rw [hSide] at hSum
    rw [hRows]
    linarith

/-- Reducing debts moves a net position by the amount times its sides. -/
theorem netPosition_reduceDebts {t t' : DebtTable env} {amount : Amount} {debts : List Debt}
    (hMem : ∀ d ∈ debts, d ∈ t.rows) (hUnique : (debts.map Debt.id).Nodup)
    (hGrid : amount ∈ env.column.grid) (h : reduceDebts amount debts t = .ok t') (p e : Uuid) :
    t'.netPosition p e = t.netPosition p e - amount * (debts.map fun d => d.side p e).sum := by
  induction debts generalizing t with
  | nil =>
      cases h
      simp
  | cons d rest ih =>
      rw [reduceDebts] at h
      split at h
      · cases h
      · obtain ⟨t₁, hSave, hRest⟩ := bind_eq_ok_iff.mp h
        rw [List.map_cons, List.nodup_cons] at hUnique
        have hd : d ∈ t.rows := hMem d List.mem_cons_self
        have hMem₁ : ∀ d' ∈ rest, d' ∈ t₁.rows := by
          intro d' hd'
          refine DebtTable.mem_save_of_ne (hMem d' (List.mem_cons_of_mem _ hd')) ?_ hSave
          intro hId
          exact hUnique.1 (hId ▸ List.mem_map_of_mem hd')
        have hFirst := DebtTable.netPosition_save hd
          (env.column.grid.sub_mem (t.stored d hd) hGrid) hSave p e
        rw [ih hMem₁ hUnique.2 hRest, hFirst, List.map_cons, List.sum_cons]
        ring

/-- In an equivalent, everybody owes as many of the debts as are owed to them. -/
def Balanced (debts : List Debt) (e : Uuid) : Prop :=
  ∀ p, (debts.countP fun d => d.debtorId = p ∧ d.equivalentId = e) =
    debts.countP fun d => d.creditorId = p ∧ d.equivalentId = e

theorem sum_side (debts : List Debt) (p e : Uuid) :
    (debts.map fun d => d.side p e).sum =
      (debts.countP fun d => d.creditorId = p ∧ d.equivalentId = e : Amount) -
        (debts.countP fun d => d.debtorId = p ∧ d.equivalentId = e : Amount) := by
  induction debts with
  | nil => simp
  | cons d rest ih =>
      rw [List.map_cons, List.sum_cons, ih, Debt.side]
      simp only [List.countP_cons, Nat.cast_add, Nat.cast_ite, Nat.cast_one, Nat.cast_zero,
        decide_eq_true_eq]
      ring

/-- Positions stay in an equivalent exactly when the reduced debts are balanced in it. -/
theorem netPosition_reduceDebts_eq_iff {t t' : DebtTable env} {amount : Amount} {debts : List Debt}
    (hMem : ∀ d ∈ debts, d ∈ t.rows) (hUnique : (debts.map Debt.id).Nodup)
    (hGrid : amount ∈ env.column.grid) (hPos : 0 < amount) (h : reduceDebts amount debts t = .ok t')
    (e : Uuid) : (∀ p, t'.netPosition p e = t.netPosition p e) ↔ Balanced debts e := by
  unfold Balanced
  refine forall_congr' fun p => ?_
  rw [netPosition_reduceDebts hMem hUnique hGrid h, sum_side, sub_eq_self, mul_eq_zero,
    or_iff_right hPos.ne', sub_eq_zero, Nat.cast_inj, eq_comm]

end Positions

section Acceptance

variable {now : Time} {order : ReadOrder} {fate : CommitFate} {cycle : List (Option Uuid)}
  {allowedPids : Option (List Pid)} {db db' : Db env} {debtIds : List Uuid} {first : Debt}
  {rest : List Debt}

/-- What a call asks of the database and of its arguments before it commits. -/
structure Accepts (now : Time) (order : ReadOrder) (fate : CommitFate) (cycle : List (Option Uuid))
    (allowedPids : Option (List Pid)) (db : Db env) (debtIds : List Uuid) (first : Debt)
    (rest : List Debt) : Prop where
  ids : cycle.mapM id = some debtIds
  free : db.transactions.get? (executionTxId env debtIds) = none
  read : debtsByIds order db.debts debtIds = first :: rest
  complete : (first :: rest).length = debtIds.length
  interlocked : env.postgres = true → ∀ d ∈ first :: rest, d.equivalentId = first.equivalentId
  perimeter : resolveScopeIds env.directory allowedPids ≠ some []
  inside : ∀ scope, resolveScopeIds env.directory allowedPids = some scope →
    ∀ d ∈ first :: rest, d.debtorId ∈ scope ∧ d.creditorId ∈ scope
  unlocked : (first :: rest).any
    (pairLocked (lockedPairsForEquivalent db now first.equivalentId)) = false
  consents : cycleRespectsAutoClearing db.trustLines (first :: rest) = true
  balanced : Balanced (first :: rest) first.equivalentId
  durable : ∃ sawError cancelled, fate = .durable sawError cancelled

namespace Accepts

variable (h : Accepts now order fate cycle allowedPids db debtIds first rest)
include h

theorem mem_rows : ∀ d ∈ first :: rest, d ∈ db.debts.rows := (debtsByIds_rows h.read).1

theorem ids_unique : ((first :: rest).map Debt.id).Nodup := (debtsByIds_rows h.read).2

theorem amount_pos : 0 < clearAmount first rest := (clearAmount_stored h.mem_rows).1

theorem amount_mem_grid : clearAmount first rest ∈ env.column.grid := (clearAmount_stored h.mem_rows).2

/-- An accepted list is reduced and passes the neutrality check. -/
theorem stage_eq_ok :
    ∃ staged, stageClearing now debtIds first (first :: rest) (clearAmount first rest) db = .ok staged := by
  obtain ⟨reduced, hReduce⟩ := reduceDebts_eq_ok h.mem_rows h.ids_unique h.amount_mem_grid
    h.amount_pos.le (clearAmount_le first rest)
  have hInsert : ∃ transactions, db.transactions.insert
      (clearingTransaction env now debtIds first (first :: rest) (clearAmount first rest)) =
        .ok transactions := by
    refine ⟨⟨db.transactions.rows ++ [_], ?_⟩, TxTable.insert_eq_ok_iff.mpr ⟨?_, rfl⟩⟩
    · refine Rows.nodup_map_append Transaction.txId _ db.transactions.tx_id_unique ?_
      intro tx hTx hId
      exact List.find?_eq_none.mp h.free tx hTx (decide_eq_true hId)
    · intro tx hTx hId
      exact List.find?_eq_none.mp h.free tx hTx (decide_eq_true hId)
  obtain ⟨transactions, hInsert⟩ := hInsert
  have hNeutral : verifyClearingNeutrality (cycleParticipants (first :: rest)) first.equivalentId
      db.debts reduced = .ok () := by
    rw [verifyClearingNeutrality, if_pos]
    intro p _
    exact ((netPosition_reduceDebts_eq_iff h.mem_rows h.ids_unique h.amount_mem_grid h.amount_pos
      hReduce first.equivalentId).mpr h.balanced p).symm
  simp only [stageClearing, hInsert, hReduce, hNeutral, bind, Except.bind]
  exact ⟨_, rfl⟩

/-- The inner call stages an accepted list and commits it. -/
theorem executeInner {interlocked : Option Uuid}
    (hSame : ∀ e, interlocked = some e → ∀ d ∈ first :: rest, d.equivalentId = e) :
    ∃ staged, stageClearing now debtIds first (first :: rest) (clearAmount first rest) db = .ok staged ∧
      executeClearingInner now order fate cycle interlocked allowedPids db =
        resolveCommit fate (executionTxId env debtIds) (clearAmount first rest) allowedPids db staged := by
  obtain ⟨staged, hStaged⟩ := h.stage_eq_ok
  refine ⟨staged, hStaged, ?_⟩
  have hCycle : cycle ≠ [] := by
    rintro rfl
    have hNil : debtIds = [] := (Option.some.inj h.ids).symm
    have hLength := h.complete
    rw [hNil] at hLength
    cases hLength
  obtain ⟨head, tail, rfl⟩ := List.exists_cons_of_ne_nil hCycle
  have hFresh : readCommittedExecutionAmount db (executionTxId env debtIds) allowedPids = .ok none := by
    simp only [readCommittedExecutionAmount, h.free]
  have hEquivalents : (interlocked.any fun e => ∃ d ∈ first :: rest, d.equivalentId ≠ e) = false := by
    cases hE : interlocked with
    | none => rfl
    | some e =>
        simp only [Option.any_some, decide_eq_false_iff_not, not_exists, not_and, not_not]
        exact hSame e hE
  have hScope : ((resolveScopeIds env.directory allowedPids).any fun ids =>
      ∃ d ∈ first :: rest, d.debtorId ∉ ids ∨ d.creditorId ∉ ids) = false := by
    cases hE : resolveScopeIds env.directory allowedPids with
    | none => rfl
    | some scope =>
        simp only [Option.any_some, decide_eq_false_iff_not, not_exists, not_and, not_or, not_not]
        exact h.inside scope hE
  simp only [executeClearingInner, h.ids, hFresh, h.read]
  rw [if_neg (not_not.mpr h.complete), if_neg (Bool.eq_false_iff.mp hEquivalents),
    if_neg (Bool.eq_false_iff.mp hScope)]
  simp only [clearDebts]
  rw [if_neg (not_le.mpr h.amount_pos), if_neg (by simp [h.unlocked]), if_neg (by simp [h.consents]),
    hStaged]

/-- Both branches commit an accepted list. -/
theorem execute :
    ∃ staged, stageClearing now debtIds first (first :: rest) (clearAmount first rest) db = .ok staged ∧
      (executeClearingWithAmount now order fate cycle allowedPids db).2 = staged := by
  have hInner {interlocked : Option Uuid}
      (hSame : ∀ e, interlocked = some e → ∀ d ∈ first :: rest, d.equivalentId = e) :
      ∃ staged, stageClearing now debtIds first (first :: rest) (clearAmount first rest) db = .ok staged ∧
        (executeClearingInner now order fate cycle interlocked allowedPids db).2 = staged := by
    obtain ⟨staged, hStaged, hEq⟩ := h.executeInner hSame
    refine ⟨staged, hStaged, ?_⟩
    obtain ⟨sawError, cancelled, rfl⟩ := h.durable
    rw [hEq]
    rcases resolveCommit_cases (.durable sawError cancelled) (executionTxId env debtIds)
      (clearAmount first rest) allowedPids db staged with hKept | ⟨_, _⟩
    · exact hKept
    · cases sawError <;> cases cancelled <;> simp only [resolveCommit] <;> split <;> rfl
  unfold executeClearingWithAmount
  rw [if_neg h.perimeter]
  split
  · exact hInner fun e hE => by cases hE
  · next hBranch =>
      rw [not_or, Bool.not_eq_false] at hBranch
      simp only [h.ids]
      unfold executeClearingInterlocked
      simp only [h.read]
      rw [if_neg (not_not.mpr h.complete)]
      have hOne : ((first :: rest).map (·.equivalentId)).dedup = [first.equivalentId] := by
        have hConst : (first :: rest).map (·.equivalentId) =
            List.replicate (first :: rest).length first.equivalentId := by
          refine List.eq_replicate_iff.mpr ⟨by simp, ?_⟩
          intro e hE
          obtain ⟨d, hd, rfl⟩ := List.mem_map.mp hE
          exact h.interlocked hBranch.1 d hd
        rw [hConst]
        exact List.replicate_dedup (by simp)
      rw [hOne]
      simp only
      rw [if_neg]
      · refine hInner fun e hE => ?_
        cases hE
        exact h.interlocked hBranch.1
      · obtain ⟨sawError, cancelled, hFate⟩ := h.durable
        rw [hFate]
        exact CommitFate.noConfusion

end Accepts

/-- A clearing is committed: its transaction is new in the table. -/
def CommitsClearing (db db' : Db env) : Prop :=
  ∃ tx ∈ db'.transactions.rows, tx.payload.isPayment = false ∧ tx ∉ db.transactions.rows

theorem Clears.commitsClearing (h : Clears now order cycle allowedPids db db' debtIds first rest) :
    CommitsClearing db db' := by
  obtain ⟨hFresh, hRows⟩ := TxTable.insert_eq_ok_iff.mp (stageClearing_eq_ok h.staged).1
  refine ⟨_, hRows ▸ List.mem_append_right _ (List.mem_singleton.mpr rfl), rfl, ?_⟩
  intro hOld
  exact hFresh _ hOld rfl

theorem not_commitsClearing_self (db : Db env) : ¬CommitsClearing db db := by
  rintro ⟨tx, hIn, _, hOut⟩
  exact hOut hIn

/-- A committed clearing leaves positions of an equivalent exactly when it is balanced in it. -/
theorem Clears.netPosition_eq_iff (h : Clears now order cycle allowedPids db db' debtIds first rest)
    (e : Uuid) : (∀ p, db'.debts.netPosition p e = db.debts.netPosition p e) ↔
      Balanced (first :: rest) e :=
  netPosition_reduceDebts_eq_iff h.mem_rows h.ids_unique h.amount_mem_grid h.amount_pos
    (stageClearing_eq_ok h.staged).2.1 e

/-- Participants outside a list of debts have no side in it. -/
theorem balanced_of_participants {debts : List Debt} {e : Uuid}
    (h : ∀ p ∈ cycleParticipants debts, (debts.countP fun d => d.debtorId = p ∧ d.equivalentId = e) =
      debts.countP fun d => d.creditorId = p ∧ d.equivalentId = e) : Balanced debts e := by
  intro p
  by_cases hp : p ∈ cycleParticipants debts
  · exact h p hp
  · simp only [cycleParticipants, List.mem_dedup, List.mem_flatMap, List.mem_cons, List.not_mem_nil,
      or_false, not_exists, not_and, not_or] at hp
    rw [List.countP_eq_zero.mpr, List.countP_eq_zero.mpr]
    · intro d hd
      simp [Ne.symm (hp d hd).2]
    · intro d hd
      simp [Ne.symm (hp d hd).1]

/-- The neutrality check is the balance of the list in the equivalent of its first debt. -/
theorem Clears.balanced (h : Clears now order cycle allowedPids db db' debtIds first rest) :
    Balanced (first :: rest) first.equivalentId := by
  obtain ⟨_, hReduce, hNeutral, _⟩ := stageClearing_eq_ok h.staged
  refine balanced_of_participants fun p hp => ?_
  have hSame := hNeutral p hp
  rw [netPosition_reduceDebts h.mem_rows h.ids_unique h.amount_mem_grid hReduce, sum_side, eq_comm, sub_eq_self, mul_eq_zero, or_iff_right h.amount_pos.ne', sub_eq_zero,
    Nat.cast_inj] at hSame
  exact hSame.symm

/-- A call commits a clearing exactly when it accepts its arguments. -/
theorem executeClearing_commits_iff :
    CommitsClearing db (executeClearingWithAmount now order fate cycle allowedPids db).2 ↔
      ∃ debtIds first rest, Accepts now order fate cycle allowedPids db debtIds first rest := by
  constructor
  · intro hCommits
    have hChanged : (executeClearingWithAmount now order fate cycle allowedPids db).2 ≠ db := by
      intro hEq
      rw [hEq] at hCommits
      exact not_commitsClearing_self db hCommits
    rcases executeClearingWithAmount_cases now order fate cycle allowedPids db with
      hDb | ⟨debtIds, first, rest, staged, hClears, _, hEq⟩
    · exact absurd hDb hChanged
    · refine ⟨debtIds, first, rest, ?_⟩
      have hFree : db.transactions.get? (executionTxId env debtIds) = none := by
        refine List.find?_eq_none.mpr fun tx hTx hId => ?_
        exact (TxTable.insert_eq_ok_iff.mp (stageClearing_eq_ok hClears.staged).1).1 tx hTx
          (of_decide_eq_true hId)
      refine ⟨hClears.ids, hFree, hClears.read, hClears.complete, hClears.interlocked, ?_,
        hClears.inside, hClears.unlocked, hClears.consents, hClears.balanced, ?_⟩
      · intro hEmpty
        refine hChanged ?_
        rw [executeClearingWithAmount, if_pos hEmpty]
      · cases fate with
        | durable sawError cancelled => exact ⟨sawError, cancelled, rfl⟩
        | lost cancelled =>
            refine absurd ?_ hChanged
            rw [hEq]
            cases cancelled <;> rfl
        | interlockTimeout =>
            refine absurd ?_ hChanged
            rw [hEq]
            rfl
  · rintro ⟨debtIds, first, rest, hAccepts⟩
    obtain ⟨staged, hStaged, hEq⟩ := hAccepts.execute
    obtain ⟨hFresh, hRows⟩ := TxTable.insert_eq_ok_iff.mp (stageClearing_eq_ok hStaged).1
    rw [hEq]
    refine ⟨_, hRows ▸ List.mem_append_right _ (List.mem_singleton.mpr rfl), rfl, ?_⟩
    intro hOld
    exact hFresh _ hOld rfl

/-- A call that commits a clearing keeps every net position, and a call that
returns nothing or does not commit leaves the tables. -/
def Neutral (db : Db env) (result : Except GeoError (Option Amount) × Db env) : Prop :=
  (CommitsClearing db result.2 → ∀ p e, result.2.debts.netPosition p e = db.debts.netPosition p e) ∧
  (result.1 = .ok none ∨ ¬CommitsClearing db result.2 →
    result.2.debts = db.debts ∧ result.2.transactions = db.transactions ∧
      result.2.auditLog = db.auditLog)

/-- A commit is never reported as nothing done. -/
theorem resolveCommit_ne_none (fate : CommitFate) (txId : TxId) (amount : Amount)
    (allowedPids : Option (List Pid)) (db staged : Db env) :
    (resolveCommit fate txId amount allowedPids db staged).1 ≠ .ok none := by
  unfold resolveCommit
  split
  · exact fun h => by cases h
  · exact fun h => by cases h
  · split
    · split <;> exact fun h => by cases h
    · exact fun h => by cases h
  · exact fun h => by cases h
  · exact fun h => by cases h

/-- A call is neutral exactly when every list it accepts is balanced in all
equivalents, and not only in the one of its first debt. -/
theorem executeClearing_neutral_iff (now : Time) (order : ReadOrder) (fate : CommitFate)
    (cycle : List (Option Uuid)) (allowedPids : Option (List Pid)) (db : Db env) :
    Neutral db (executeClearingWithAmount now order fate cycle allowedPids db) ↔
      ∀ debtIds first rest, Accepts now order fate cycle allowedPids db debtIds first rest →
        ∀ e, e ≠ first.equivalentId → Balanced (first :: rest) e := by
  constructor
  · rintro ⟨hKeeps, _⟩ debtIds first rest hAccepts e _
    obtain ⟨staged, hStaged, hEq⟩ := hAccepts.execute
    have hNet := hKeeps (executeClearing_commits_iff.mpr ⟨_, _, _, hAccepts⟩)
    rw [hEq] at hNet
    exact (netPosition_reduceDebts_eq_iff hAccepts.mem_rows hAccepts.ids_unique
      hAccepts.amount_mem_grid hAccepts.amount_pos (stageClearing_eq_ok hStaged).2.1 e).mp
        fun p => hNet p e
  · intro hBalanced
    rcases executeClearingWithAmount_cases now order fate cycle allowedPids db with
      hDb | ⟨debtIds, first, rest, staged, hClears, hDb, hEq⟩
    · refine ⟨fun hCommits => ?_, fun _ => ?_⟩
      · rw [hDb] at hCommits
        exact absurd hCommits (not_commitsClearing_self db)
      · rw [hDb]
        exact ⟨rfl, rfl, rfl⟩
    · refine ⟨fun hCommits p e => ?_, fun hNothing => ?_⟩
      · obtain ⟨ids, first', rest', hAccepts⟩ := executeClearing_commits_iff.mp hCommits
        obtain rfl : debtIds = ids := Option.some.inj (hClears.ids.symm.trans hAccepts.ids)
        obtain ⟨rfl, rfl⟩ : first = first' ∧ rest = rest' := by
          simpa using hClears.read.symm.trans hAccepts.read
        rw [hDb]
        refine (hClears.netPosition_eq_iff e).mpr ?_ p
        by_cases hE : e = first.equivalentId
        · exact hE ▸ hAccepts.balanced
        · exact hBalanced debtIds first rest hAccepts e hE
      · exfalso
        rcases hNothing with hNone | hNot
        · rw [hEq] at hNone
          exact resolveCommit_ne_none _ _ _ _ _ _ hNone
        · rw [hDb] at hNot
          exact hNot hClears.commitsClearing

end Acceptance

/-- A triangle of debts in one equivalent, and a debt in another one. -/
def triangleAndHour : List LedgerOp :=
  [openLine 2 "A" .uah 10, openLine 3 "B" .uah 10, openLine 1 "C" .uah 10, openLine 2 "A" .hour 10] ++
    payAlong "p1" 1 ["A", "B"] 5 .uah ++ payAlong "p2" 2 ["B", "C"] 5 .uah ++
    payAlong "p3" 3 ["C", "A"] 5 .uah ++ payAlong "p4" 1 ["A", "B"] 5 .hour

/-- On the direct branch a list across two equivalents is cleared, and moves the
positions in the second one. -/
theorem clearing_moves_position :
    ¬∀ (env : Env) (now : Time) (order : ReadOrder) (fate : CommitFate) (cycle : List (Option Uuid))
      (allowedPids : Option (List Pid)) (db : Db env),
      Neutral db (executeClearingWithAmount now order fate cycle allowedPids db) := by
  intro h
  have hNeutral := h (Env.sample .numeric208 false) 0 .insertion (.durable false false)
    [some 0, some 1, some 2, some 3] none
    ((Ledger.empty : Ledger (Env.sample .numeric208 false)).run triangleAndHour).db
  have hPosition := hNeutral.1 (by unfold CommitsClearing; decide +kernel) 1 Equivalent.hour.id
  revert hPosition
  decide +kernel

end GeoLedger

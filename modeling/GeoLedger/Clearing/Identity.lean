import Mathlib
import GeoLedger.Transactions

/-! Identity of clearings. A recorded clearing has lost at least one of the rows
its id was computed from, ids of debts are never drawn twice, so the id of a set
of present debts is always free and a recorded id is only ever replayed. -/
namespace GeoLedger
open Outcomes

variable {env : Env}

/-- The digest tells different sets of debt ids apart. -/
def ExecutionIdsInjective (env : Env) : Prop :=
  ∀ S S' : List Uuid, executionTxId env S = executionTxId env S' → ∀ id, id ∈ S ↔ id ∈ S'

/-- The digest depends on the set of the ids only. -/
theorem executionTxId_congr {S S' : List Uuid} (h : ∀ id, id ∈ S ↔ id ∈ S') :
    executionTxId env S = executionTxId env S' := by
  have hPerm : S.dedup.Perm S'.dedup :=
    (List.perm_ext_iff_of_nodup (List.nodup_dedup S) (List.nodup_dedup S')).mpr fun id => by
      simp [h id]
  have hSorted : (S.dedup.insertionSort (· ≤ ·)) = S'.dedup.insertionSort (· ≤ ·) :=
    List.Perm.eq_of_sortedLE List.sortedLE_insertionSort List.sortedLE_insertionSort
      ((List.perm_insertionSort _ _).trans (hPerm.trans (List.perm_insertionSort _ _).symm))
  rw [executionTxId, executionTxId, hSorted]

/-- What the table of transactions says of a clearing: it is committed under
the id of its debts, for a positive amount, and one of the debts is gone. -/
structure Recorded (db : Db env) (tx : Transaction) (debtIds : List Uuid) (amount : Amount) : Prop where
  committed : tx.state = .COMMITTED
  identity : tx.txId = executionTxId env debtIds
  positive : 0 < amount
  gone : ∃ n < db.debts.generated, env.uuid4 n ∈ debtIds ∧ env.uuid4 n ∉ db.debts.rows.map Debt.id

/-- Every clearing in the table is recorded. -/
def ClearingsRecorded (db : Db env) : Prop :=
  ∀ tx ∈ db.transactions.rows, ∀ debtIds amount code edges,
    tx.payload = .clearing debtIds amount code edges → Recorded db tx debtIds amount

theorem Recorded.mono {db db' : Db env} {tx : Transaction} {debtIds : List Uuid} {amount : Amount}
    (h : Recorded db tx debtIds amount) (hRetires : db.debts.Retires db'.debts) :
    Recorded db' tx debtIds amount where
  committed := h.committed
  identity := h.identity
  positive := h.positive
  gone := by
    obtain ⟨n, hn, hIn, hOut⟩ := h.gone
    exact ⟨n, hn.trans_le hRetires.1, hIn, hRetires.2 n hn hOut⟩

/-- A set with the id of a recorded clearing misses a row. -/
theorem ClearingsRecorded.gone {db : Db env} {tx : Transaction} {S : List Uuid} (h : ClearingsRecorded db)
    (hDigest : ExecutionIdsInjective env) (hTx : tx ∈ db.transactions.rows)
    (hClearing : tx.payload.isPayment = false) (hS : tx.txId = executionTxId env S) :
    ∃ id ∈ S, id ∉ db.debts.rows.map Debt.id := by
  cases hPayload : tx.payload with
  | payment => simp [hPayload, Payload.isPayment] at hClearing
  | clearing debtIds amount code edges =>
      have hRecorded := h tx hTx debtIds amount code edges hPayload
      obtain ⟨n, _, hIn, hOut⟩ := hRecorded.gone
      exact ⟨env.uuid4 n, (hDigest S debtIds (hS.symm.trans hRecorded.identity) _).mpr hIn, hOut⟩

/-- A list of present debts is never taken for a replay. -/
theorem ClearingsRecorded.not_replayed {db : Db env} {S : List Uuid} (h : ClearingsRecorded db)
    (hDigest : ExecutionIdsInjective env) (hPresent : ∀ id ∈ S, id ∈ db.debts.rows.map Debt.id)
    (allowedPids : Option (List Pid)) :
    readCommittedExecutionAmount db (executionTxId env S) allowedPids = .ok none := by
  unfold readCommittedExecutionAmount
  split
  · rfl
  · next tx hGet =>
      obtain ⟨hTx, hTxId⟩ := TxTable.get?_eq_some_iff.mp hGet
      split
      · rfl
      · next hPayload =>
          obtain ⟨id, hIn, hOut⟩ := h.gone hDigest hTx (by rw [hPayload]; rfl) hTxId
          exact absurd (hPresent id hIn) hOut

theorem clearingsRecorded_quiet {db db' : Db env} (h : ClearingsRecorded db)
    (hQuiet : Quiet db.transactions db'.transactions) (hRetires : db.debts.Retires db'.debts) :
    ClearingsRecorded db' := by
  intro tx' hTx' debtIds amount code edges hPayload
  obtain ⟨tx, hTx, hId, hSame⟩ := hQuiet.clearings tx' hTx' (by rw [hPayload]; rfl)
  have hRecorded := h tx hTx debtIds amount code edges (hSame.trans hPayload)
  have hEq : tx = tx' := Rows.eq_of_column db'.transactions.tx_id_unique
    (hQuiet.keeps tx hTx hRecorded.committed) hTx' hId
  exact hEq ▸ hRecorded.mono hRetires

section Clearing

variable {now : Time} {order : ReadOrder} {fate : CommitFate} {cycle : List (Option Uuid)}
  {allowedPids : Option (List Pid)} {db db' : Db env} {debtIds : List Uuid} {first : Debt}
  {rest : List Debt}

/-- A clearing adds its own transaction to the table. -/
theorem Clears.transactions (h : Clears now order cycle allowedPids db db' debtIds first rest) :
    db'.transactions.rows = db.transactions.rows ++
      [clearingTransaction env now debtIds first (first :: rest) (clearAmount first rest)] :=
  (TxTable.insert_eq_ok_iff.mp (stageClearing_eq_ok h.staged).1).2

/-- The transaction that a clearing adds is recorded: its smallest debt is gone. -/
theorem Clears.recorded (h : Clears now order cycle allowedPids db db' debtIds first rest) :
    Recorded db' (clearingTransaction env now debtIds first (first :: rest) (clearAmount first rest))
      debtIds (clearAmount first rest) where
  committed := rfl
  identity := rfl
  positive := h.amount_pos
  gone := by
    obtain ⟨d, hd, hAmount⟩ := clearAmount_mem first rest
    obtain ⟨hRetires, hGone, _⟩ := h.effect
    have hMem := hd
    rw [← h.read] at hMem
    obtain ⟨hRow, hListed⟩ := mem_debtsByIds.mp hMem
    obtain ⟨n, hn, hId⟩ := db.debts.issued d hRow
    exact ⟨n, hn.trans_le hRetires.1, hId ▸ hListed, hId ▸ hGone d hd hAmount⟩

/-- A clearing is recorded under the id of its own debts. -/
theorem clearingsRecorded_clears (hDb : ClearingsRecorded db)
    (h : Clears now order cycle allowedPids db db' debtIds first rest) : ClearingsRecorded db' := by
  intro tx hTx ids amount code edges hPayload
  rw [h.transactions] at hTx
  rcases List.mem_append.mp hTx with hOld | hNew
  · exact (hDb tx hOld ids amount code edges hPayload).mono h.effect.1
  · rw [List.mem_singleton.mp hNew] at hPayload ⊢
    simp only [clearingTransaction, Payload.clearing.injEq] at hPayload
    obtain ⟨rfl, rfl, _, _⟩ := hPayload
    exact h.recorded

end Clearing

/-- Every committed transaction keeps the clearings recorded. -/
theorem clearingsRecorded_change {now : Time} {op : LedgerOp} {db db' : Db env} (h : ClearingsRecorded db)
    (hChange : Change now db op db') : ClearingsRecorded db' := by
  rcases quiet_change hChange with ⟨hQuiet, hRetires⟩ | ⟨_, _, _, _, _, _, hClears⟩
  · exact clearingsRecorded_quiet h hQuiet hRetires
  · exact clearingsRecorded_clears h hClears

/-- Committed rows outlive every committed transaction. -/
theorem committed_kept_change {now : Time} {op : LedgerOp} {db db' : Db env} {tx : Transaction}
    (hTx : tx ∈ db.transactions.rows) (hState : tx.state = .COMMITTED) (hChange : Change now db op db') :
    tx ∈ db'.transactions.rows := by
  rcases quiet_change hChange with ⟨hQuiet, _⟩ | ⟨_, _, _, _, _, _, hClears⟩
  · exact hQuiet.keeps tx hTx hState
  · rw [hClears.transactions]
    exact List.mem_append_left _ hTx

section Runs

/-- After any run of the ledger every clearing is recorded under the id of its own debts. -/
theorem clearingsRecorded_run (s : Ledger env) (hStart : ClearingsRecorded s.db) (ops : List LedgerOp) :
    ClearingsRecorded (s.run ops).db :=
  run_invariant s hStart (fun _ _ _ _ h hChange => clearingsRecorded_change h hChange) ops

theorem clearingsRecorded_empty : ClearingsRecorded (Db.empty : Db env) := by
  intro tx hTx
  cases hTx

theorem committed_kept_run (s : Ledger env) {tx : Transaction} (hTx : tx ∈ s.db.transactions.rows)
    (hState : tx.state = .COMMITTED) (ops : List LedgerOp) :
    tx ∈ (s.run ops).db.transactions.rows :=
  run_invariant (P := fun db => tx ∈ db.transactions.rows) s hTx
    (fun _ _ _ _ h hChange => committed_kept_change h hState hChange) ops

end Runs

section Replay

variable {now : Time} {order : ReadOrder} {fate : CommitFate} {cycle : List (Option Uuid)}
  {allowedPids : Option (List Pid)} {db : Db env} {debtIds : List Uuid} {tx : Transaction}
  {amount : Amount} {code : String} {edges : List ClearingEdge}

/-- A perimeter that admits somebody and names both ends of every recorded edge. -/
def PerimeterCovers (directory : Directory) (allowedPids : Option (List Pid))
    (edges : List ClearingEdge) : Prop :=
  ∀ pids, allowedPids = some pids → resolveScopeIds directory allowedPids ≠ some [] ∧ edges ≠ [] ∧
    ∀ edge ∈ edges, edge.debtor ∈ pids ∧ edge.creditor ∈ pids

/-- Reading a recorded clearing back gives its amount, or refuses the perimeter. -/
theorem readCommitted_of_recorded (allowedPids : Option (List Pid)) (hTx : tx ∈ db.transactions.rows)
    (hPayload : tx.payload = .clearing debtIds amount code edges)
    (hRecorded : Recorded db tx debtIds amount) :
    (∃ error, readCommittedExecutionAmount db tx.txId allowedPids = .error error ∧
        ¬PerimeterCovers env.directory allowedPids edges) ∨
      readCommittedExecutionAmount db tx.txId allowedPids = .ok (some amount) := by
  have hGet : db.transactions.get? tx.txId = some tx := TxTable.get?_eq_some_iff.mpr ⟨hTx, rfl⟩
  simp only [readCommittedExecutionAmount, hGet, hPayload]
  rw [if_neg (not_not.mpr hRecorded.committed)]
  split
  · next hOutside =>
      refine Or.inl ⟨_, rfl, fun hCovers => ?_⟩
      cases hPids : allowedPids with
      | none => simp [hPids] at hOutside
      | some pids =>
          obtain ⟨_, hNe, hAll⟩ := hCovers pids hPids
          simp only [hPids, Option.any_some, decide_eq_true_eq] at hOutside
          rcases hOutside with hNil | ⟨edge, hEdge, hOut⟩
          · exact hNe hNil
          · rcases hOut with hOut | hOut
            · exact hOut (hAll edge hEdge).1
            · exact hOut (hAll edge hEdge).2
  · rw [if_neg (not_le.mpr hRecorded.positive)]
    exact Or.inr rfl

/-- A list with an absent id is longer than the rows it reads. -/
theorem length_debtsByIds_lt {t : DebtTable env} {id : Uuid} (hIn : id ∈ debtIds)
    (hOut : id ∉ t.rows.map Debt.id) : (debtsByIds order t debtIds).length < debtIds.length := by
  have hSubset : ((debtsByIds order t debtIds).map Debt.id).toFinset ⊆ debtIds.toFinset.erase id := by
    intro x hx
    obtain ⟨d, hd, rfl⟩ := List.mem_map.mp (List.mem_toFinset.mp hx)
    obtain ⟨hRow, hListed⟩ := mem_debtsByIds.mp hd
    refine Finset.mem_erase.mpr ⟨fun hEq => hOut (hEq ▸ List.mem_map_of_mem hRow), ?_⟩
    exact List.mem_toFinset.mpr hListed
  calc (debtsByIds order t debtIds).length
      = ((debtsByIds order t debtIds).map Debt.id).toFinset.card := by
        rw [List.toFinset_card_of_nodup (nodup_debtsByIds t debtIds), List.length_map]
    _ ≤ (debtIds.toFinset.erase id).card := Finset.card_le_card hSubset
    _ < debtIds.toFinset.card := Finset.card_erase_lt_of_mem (List.mem_toFinset.mpr hIn)
    _ ≤ debtIds.length := List.toFinset_card_le debtIds

/-- A call with the set of a recorded clearing changes nothing and returns the
recorded amount, on both dialect branches. -/
theorem execute_of_recorded (hTx : tx ∈ db.transactions.rows)
    (hPayload : tx.payload = .clearing debtIds amount code edges)
    (hRecorded : Recorded db tx debtIds amount) {others : List Uuid}
    (hOthers : cycle.mapM id = some others) (hSame : ∀ id, id ∈ others ↔ id ∈ debtIds) :
    (executeClearingWithAmount now order fate cycle allowedPids db).2 = db ∧
      (PerimeterCovers env.directory allowedPids edges →
        (executeClearingWithAmount now order fate cycle allowedPids db).1 = .ok (some amount)) := by
  obtain ⟨n, _, hIn, hOut⟩ := hRecorded.gone
  have hId : executionTxId env others = tx.txId :=
    (executionTxId_congr hSame).trans hRecorded.identity.symm
  have hNe : cycle ≠ [] := by
    rintro rfl
    cases hOthers
    exact List.not_mem_nil ((hSame _).mpr hIn)
  have hInner (interlocked : Option Uuid) :
      (executeClearingInner now order fate cycle interlocked allowedPids db).2 = db ∧
        (PerimeterCovers env.directory allowedPids edges →
          (executeClearingInner now order fate cycle interlocked allowedPids db).1 =
            .ok (some amount)) := by
    obtain ⟨head, tail, rfl⟩ := List.exists_cons_of_ne_nil hNe
    simp only [executeClearingInner, hOthers, hId]
    rcases readCommitted_of_recorded allowedPids hTx hPayload hRecorded with
      ⟨error, hRead, hCovers⟩ | hRead
    · rw [hRead]
      exact ⟨rfl, fun h => absurd h hCovers⟩
    · rw [hRead]
      exact ⟨rfl, fun _ => rfl⟩
  unfold executeClearingWithAmount
  split
  · next hEmpty =>
      refine ⟨rfl, fun hCovers => ?_⟩
      cases hPids : allowedPids with
      | none => simp [hPids, resolveScopeIds] at hEmpty
      | some pids => exact absurd hEmpty (hCovers pids hPids).1
  · split
    · exact hInner none
    · rw [hOthers]
      simp only [executeClearingInterlocked]
      rw [if_pos (length_debtsByIds_lt ((hSame _).mpr hIn) hOut).ne, hId]
      rcases readCommitted_of_recorded allowedPids hTx hPayload hRecorded with
        ⟨error, hRead, hCovers⟩ | hRead
      · rw [hRead]
        exact ⟨rfl, fun h => absurd h hCovers⟩
      · rw [hRead]
        exact ⟨rfl, fun _ => rfl⟩

end Replay

/-- In every reachable state, a committed clearing misses a row of every set with
its id; a list of present debts is never taken for a replay; and once a call has
changed the debts, every later call with its set leaves the database as it is
and returns the amount that was recorded. -/
theorem clearing_identity (env : Env) (hDigest : ExecutionIdsInjective env) (ops : List LedgerOp) :
    let s := (Ledger.empty : Ledger env).run ops
    (∀ tx ∈ s.db.transactions.rows, tx.payload.isPayment = false → tx.state = .COMMITTED →
      ∀ S, tx.txId = executionTxId env S → ∃ id ∈ S, id ∉ s.db.debts.rows.map Debt.id) ∧
    (∀ S allowedPids, (∀ id ∈ S, id ∈ s.db.debts.rows.map Debt.id) →
      readCommittedExecutionAmount s.db (executionTxId env S) allowedPids = .ok none) ∧
    (∀ order fate cycle allowedPids debtIds, cycle.mapM id = some debtIds →
      let after := s.step (.clear order fate cycle allowedPids)
      after.db.debts.rows ≠ s.db.debts.rows →
      ∃ tx ∈ after.db.transactions.rows, tx.txId = executionTxId env debtIds ∧
        ∃ amount code edges, tx.payload = .clearing debtIds amount code edges ∧
        ∀ more order' fate' cycle' allowedPids' others, cycle'.mapM id = some others →
          (∀ id, id ∈ others ↔ id ∈ debtIds) →
          let later := after.run more
          let call := executeClearingWithAmount later.now order' fate' cycle' allowedPids' later.db
          call.2 = later.db ∧
            (PerimeterCovers env.directory allowedPids' edges → call.1 = .ok (some amount))) := by
  intro s
  have hRecorded : ClearingsRecorded s.db := clearingsRecorded_run _ clearingsRecorded_empty ops
  refine ⟨fun tx hTx hClearing _ S => hRecorded.gone hDigest hTx hClearing,
    fun S allowedPids hPresent => hRecorded.not_replayed hDigest hPresent allowedPids, ?_⟩
  · intro order fate cycle allowedPids debtIds hIds after hChanged
    have hAfter : after.db = (executeClearingWithAmount s.now order fate cycle allowedPids s.db).2 := rfl
    rcases executeClearingWithAmount_cases s.now order fate cycle allowedPids s.db with
      hDb | ⟨ids, first, rest, staged, hClears, hDb, _⟩
    · rw [hAfter, hDb] at hChanged
      exact absurd rfl hChanged
    · rw [← hAfter] at hDb
      obtain rfl : ids = debtIds := Option.some.inj (hClears.ids.symm.trans hIds)
      set tx := clearingTransaction env s.now ids first (first :: rest) (clearAmount first rest) with hTxDef
      have hTx : tx ∈ after.db.transactions.rows := by
        rw [hDb, hClears.transactions]
        exact List.mem_append_right _ (List.mem_singleton.mpr rfl)
      refine ⟨tx, hTx, rfl, _, _, _, rfl, ?_⟩
      intro more order' fate' cycle' allowedPids' others hOthers hSame later call
      have hLater : tx ∈ later.db.transactions.rows := committed_kept_run after hTx rfl more
      have hLaterRecorded : ClearingsRecorded later.db :=
        clearingsRecorded_run after (hDb ▸ clearingsRecorded_clears hRecorded hClears) more
      exact execute_of_recorded hLater rfl (hLaterRecorded tx hLater _ _ _ _ rfl) hOthers hSame

section Sample

theorem sampleUuid5_injective : Function.Injective sampleUuid5 := by
  have hOther (n : Nat) (text : String) (h : ∃ c ∈ text.toList, c ≠ 'x') :
      String.ofList (List.replicate n 'x') ≠ text := by
    rintro rfl
    obtain ⟨c, hc, hNe⟩ := h
    rw [String.toList_ofList] at hc
    exact hNe (List.eq_of_mem_replicate hc)
  intro S S' h
  unfold sampleUuid5 at h
  split at h <;> split at h
  · rfl
  · exact absurd h (by decide)
  · exact absurd h.symm (hOther _ _ ⟨'b', by decide, by decide⟩)
  · exact absurd h (by decide)
  · rfl
  · exact absurd h.symm (hOther _ _ ⟨'d', by decide, by decide⟩)
  · exact absurd h (hOther _ _ ⟨'b', by decide, by decide⟩)
  · exact absurd h (hOther _ _ ⟨'d', by decide, by decide⟩)
  · have hLength := congrArg List.length (String.ofList_injective h)
    rw [List.length_replicate, List.length_replicate] at hLength
    exact Encodable.encode_injective hLength

theorem executionIdsInjective_of_uuid5 (h : Function.Injective env.uuid5) :
    ExecutionIdsInjective env := by
  intro S S' hEq id
  have hSorted := h hEq
  rw [← List.mem_dedup, ← List.mem_insertionSort (· ≤ ·), hSorted, List.mem_insertionSort,
    List.mem_dedup]

/-- Three payments around a triangle, and the clearing of its debts. -/
def clearTriangle : List LedgerOp :=
  [openLine 2 "A" .uah 10, openLine 3 "B" .uah 10, openLine 1 "C" .uah 10] ++
    payAlong "p1" 1 ["A", "B"] 5 .uah ++ payAlong "p2" 2 ["B", "C"] 5 .uah ++
    payAlong "p3" 3 ["C", "A"] 4 .uah ++
    [.clear .insertion (.durable false false) [some 0, some 1, some 2] none]

/-- The triangle is cleared of its smallest debt, and a set of the two remaining
debts is not taken for a replay. -/
theorem clearing_identity_triangle :
    ((Ledger.empty : Ledger (Env.sample .numeric208 true)).run clearTriangle).db.debts.rows.map Debt.id =
        [0, 1] ∧
      readCommittedExecutionAmount
        ((Ledger.empty : Ledger (Env.sample .numeric208 true)).run clearTriangle).db
        (executionTxId (Env.sample .numeric208 true) [1, 0]) none = .ok none := by
  have hRows : ((Ledger.empty : Ledger (Env.sample .numeric208 true)).run
      clearTriangle).db.debts.rows.map Debt.id = [0, 1] := by decide +kernel
  refine ⟨hRows, ?_⟩
  refine (clearing_identity (Env.sample .numeric208 true)
    (executionIdsInjective_of_uuid5 sampleUuid5_injective) clearTriangle).2.1 [1, 0] none ?_
  rw [hRows]
  decide

end Sample

end GeoLedger

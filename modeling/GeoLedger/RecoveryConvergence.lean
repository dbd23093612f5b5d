import Mathlib
import GeoLedger.Recovery
import GeoLedger.Payments.EngineEffects

/-! What a recovery pass leaves. Each of its two parts aborts the transactions
it selected and whose abort does not fail; an abort ends its own transaction
and touches nothing else. -/
namespace GeoLedger

variable {env : Env} {db db' db'' : Db env} {now : Time} {ids others : List TxId} {txId : TxId}

section Aborts

/-- `db'` is `db` after the transactions of `ids` were aborted. -/
structure Aborts (ids : List TxId) (db db' : Db env) : Prop where
  debts : db'.debts = db.debts
  locks : ∀ l, l ∈ db'.prepareLocks.rows ↔ l ∈ db.prepareLocks.rows ∧ l.txId ∉ ids
  untouched : ∀ txId, txId ∉ ids → db'.transactions.get? txId = db.transactions.get? txId
  committed : ∀ txId tx, db.transactions.get? txId = some tx → tx.state = .COMMITTED →
    db'.transactions.get? txId = some tx
  ended : ∀ txId ∈ ids, ∀ tx, db.transactions.get? txId = some tx → tx.state ≠ .COMMITTED →
    ∃ tx', db'.transactions.get? txId = some tx' ∧ tx'.state = .ABORTED ∧ tx'.payload = tx.payload
  known : ∀ txId, db.transactions.get? txId = none → db'.transactions.get? txId = none

theorem Aborts.refl (db : Db env) : Aborts [] db db where
  debts := rfl
  locks l := by simp
  untouched _ _ := rfl
  committed _ _ h _ := h
  ended _ h := by cases h
  known _ h := h

theorem Aborts.trans (h : Aborts ids db db') (h' : Aborts others db' db'') :
    Aborts (ids ++ others) db db'' where
  debts := h'.debts.trans h.debts
  locks l := by
    rw [h'.locks, h.locks, List.mem_append, not_or, and_assoc]
  untouched txId hOut := by
    rw [List.mem_append, not_or] at hOut
    rw [h'.untouched txId hOut.2, h.untouched txId hOut.1]
  committed txId tx hTx hState := h'.committed txId tx (h.committed txId tx hTx hState) hState
  ended txId hIn tx hTx hState := by
    by_cases hFirst : txId ∈ ids
    · obtain ⟨tx₁, hTx₁, hAborted, hPayload⟩ := h.ended txId hFirst tx hTx hState
      by_cases hSecond : txId ∈ others
      · obtain ⟨tx₂, hTx₂, hState₂, hPayload₂⟩ := h'.ended txId hSecond tx₁ hTx₁ (by simp [hAborted])
        exact ⟨tx₂, hTx₂, hState₂, hPayload₂.trans hPayload⟩
      · rw [h'.untouched txId hSecond]
        exact ⟨tx₁, hTx₁, hAborted, hPayload⟩
    · rw [← h.untouched txId hFirst] at hTx
      exact h'.ended txId ((List.mem_append.mp hIn).resolve_left hFirst) tx hTx hState
  known txId hNone := h'.known txId (h.known txId hNone)

/-- One abort. -/
theorem aborts_abort (db : Db env) (now : Time) (txId : TxId) (reason : String) (code : Option ErrorCode)
    (details : Option (List (String × String))) :
    Aborts [txId] db (abort now txId reason code details db).2 := by
  rw [abort_eq]
  have hLocks (l : PrepareLock) : l ∈ (db.prepareLocks.deleteTx txId).rows ↔
      l ∈ db.prepareLocks.rows ∧ l.txId ∉ [txId] := by
    rw [List.mem_singleton]
    exact Rows.mem_delete_iff
  cases hTx : db.transactions.get? txId with
  | none =>
      refine ⟨rfl, hLocks, fun _ _ => rfl, fun _ _ h _ => h, fun other hIn tx hOther => ?_, fun _ h => h⟩
      rw [List.mem_singleton.mp hIn, hTx] at hOther
      cases hOther
  | some tx =>
      simp only
      split
      · next hCommitted =>
          refine ⟨rfl, hLocks, fun _ _ => rfl, fun _ _ h _ => h, fun other hIn tx' hOther hOpen => ?_,
            fun _ h => h⟩
          rw [List.mem_singleton.mp hIn, hTx] at hOther
          cases hOther
          exact absurd hCommitted hOpen
      · next hOpen =>
          refine ⟨rfl, hLocks, fun other hOut => ?_, fun other tx' hOther hState => ?_,
            fun other hIn tx' hOther _ => ?_, fun other hNone => ?_⟩
          · exact TxTable.get?_update_of_ne (by simpa using hOut)
          · have hNe : other ≠ txId := by
              rintro rfl
              rw [hTx] at hOther
              cases hOther
              exact hOpen hState
            rw [TxTable.get?_update_of_ne hNe]
            exact hOther
          · obtain rfl := List.mem_singleton.mp hIn
            rw [hTx] at hOther
            cases hOther
            obtain rfl := TxTable.txId_of_get? hTx
            exact ⟨_, TxTable.get?_update hTx, rfl, rfl⟩
          · have hNe : other ≠ txId := by
              rintro rfl
              rw [hTx] at hNone
              cases hNone
            rw [TxTable.get?_update_of_ne hNe]
            exact hNone

end Aborts

section Passes

variable {fails : TxId → Bool}

/-- A pass over items aborts those that do not fail, and counts the others. -/
theorem aborts_foldl {Acc Item : Type} (fails : TxId → Bool) (step : Acc → Item → Acc) (key : Item → TxId) (state : Acc → Db env)
    (failures : Acc → Nat)
    (hFails : ∀ acc item, fails (key item) = true →
      state (step acc item) = state acc ∧ failures (step acc item) = failures acc + 1)
    (hDone : ∀ acc item, fails (key item) = false →
      Aborts [key item] (state acc) (state (step acc item)) ∧ failures (step acc item) = failures acc)
    (items : List Item) (acc : Acc) :
    Aborts ((items.map key).filter fun txId => !fails txId) (state acc) (state (items.foldl step acc)) ∧
      failures (items.foldl step acc) = failures acc + ((items.map key).filter fails).length := by
  induction items generalizing acc with
  | nil => exact ⟨.refl _, rfl⟩
  | cons item rest ih =>
      obtain ⟨hAborts, hFailures⟩ := ih (step acc item)
      rw [List.foldl_cons, List.map_cons]
      cases hItem : fails (key item) with
      | true =>
          obtain ⟨hState, hCount⟩ := hFails acc item hItem
          rw [List.filter_cons_of_neg (by simp [hItem]), List.filter_cons_of_pos hItem]
          refine ⟨hState ▸ hAborts, ?_⟩
          rw [hFailures, hCount, List.length_cons]
          omega
      | false =>
          obtain ⟨hFirst, hCount⟩ := hDone acc item hItem
          rw [List.filter_cons_of_pos (by simp [hItem]), List.filter_cons_of_neg (by simp [hItem])]
          exact ⟨hFirst.trans hAborts, hCount ▸ hFailures⟩

/-- The first pass aborts the transactions with an expired lock. -/
theorem aborts_cleanup (now : Time) (fails : TxId → Bool) (db : Db env) :
    Aborts (((expiredLocksByTx now db).map Prod.fst).filter fun txId => !fails txId) db
        (cleanupExpiredPrepareLocks now fails db).2 ∧
      (cleanupExpiredPrepareLocks now fails db).1.itemFailures =
        (((expiredLocksByTx now db).map Prod.fst).filter fails).length := by
  obtain ⟨hAborts, hFailures⟩ := aborts_foldl fails (cleanupItem now fails) Prod.fst Prod.snd
    (fun acc : ExpiredLockCleanupResult × Db env => acc.1.itemFailures)
    (fun acc item hItem => by simp [cleanupItem, hItem])
    (fun acc item hItem => by
      simp only [cleanupItem, hItem, Bool.false_eq_true, if_false, and_true]
      exact aborts_abort _ _ _ _ _ _)
    (expiredLocksByTx now db) (⟨0, 0, 0, 0⟩, db)
  exact ⟨hAborts, hFailures.trans (Nat.zero_add _)⟩

/-- The second pass aborts the stale payments. -/
theorem aborts_stale (now : Time) (fails : TxId → Bool) (db : Db env) :
    Aborts ((stalePayments now db).filter fun txId => !fails txId) db
        (abortStalePaymentTransactions now fails db).2 ∧
      (abortStalePaymentTransactions now fails db).1.abortFailures =
        ((stalePayments now db).filter fails).length := by
  obtain ⟨hAborts, hFailures⟩ := aborts_foldl fails (abortStaleItem now fails) id Prod.snd
    (fun acc : StalePaymentAbortResult × Db env => acc.1.abortFailures)
    (fun acc item hItem => by simp [abortStaleItem, show fails item = true from hItem])
    (fun acc item hItem => by
      simp only [abortStaleItem, show fails item = false from hItem, Bool.false_eq_true, if_false, and_true]
      exact aborts_abort _ _ _ _ _ _)
    (stalePayments now db) (⟨0, 0, 0⟩, db)
  rw [List.map_id] at hAborts hFailures
  exact ⟨hAborts, hFailures.trans (Nat.zero_add _)⟩

/-- The transactions with an expired lock. -/
theorem mem_expiredLocksByTx : txId ∈ (expiredLocksByTx now db).map Prod.fst ↔
    ∃ l ∈ db.prepareLocks.rows, l.txId = txId ∧ ¬l.live now := by
  simp only [expiredLocksByTx, List.mem_map, Prod.exists, exists_and_right, exists_eq_right]
  constructor
  · rintro ⟨group, hGroup⟩
    obtain ⟨rfl, hNe⟩ := (Dict.mem_groupBy_items PrepareLock.txId).mp hGroup
    obtain ⟨l, hl⟩ := List.exists_mem_of_ne_nil _ hNe
    obtain ⟨hSorted, hId⟩ := List.mem_filter.mp hl
    obtain ⟨hRow, hExpired⟩ := List.mem_filter.mp ((List.mem_insertionSort _).mp hSorted)
    exact ⟨l, hRow, by simpa using hId, by simpa using hExpired⟩
  · rintro ⟨l, hRow, rfl, hExpired⟩
    refine ⟨_, (Dict.mem_groupBy_items PrepareLock.txId).mpr ⟨rfl, ?_⟩⟩
    exact List.ne_nil_of_mem (List.mem_filter.mpr ⟨(List.mem_insertionSort _).mpr
      (List.mem_filter.mpr ⟨hRow, by simpa using hExpired⟩), by simp⟩)

/-- A payment that has been active for longer than the timeout. -/
def Stale (now : Time) (db : Db env) (txId : TxId) : Prop :=
  ∃ tx, db.transactions.get? txId = some tx ∧ tx.payload.isPayment ∧ tx.state ∈ activeTxStates ∧
    tx.updatedAt + env.paymentTxStuckTimeoutSeconds < now

theorem mem_stalePayments : txId ∈ stalePayments now db ↔ Stale now db txId := by
  simp only [stalePayments, Stale, List.mem_map, List.mem_insertionSort, List.mem_filter,
    decide_eq_true_eq, TxTable.get?_eq_some_iff]
  constructor
  · rintro ⟨tx, ⟨hRow, hStale⟩, rfl⟩
    exact ⟨tx, ⟨hRow, rfl⟩, hStale⟩
  · rintro ⟨tx, ⟨hRow, rfl⟩, hStale⟩
    exact ⟨tx, ⟨hRow, hStale⟩, rfl⟩

/-- A transaction with an expired lock. -/
def HasExpiredLock (now : Time) (db : Db env) (txId : TxId) : Prop :=
  ∃ l ∈ db.prepareLocks.rows, l.txId = txId ∧ ¬l.live now

end Passes

section Convergence

variable {cleanupFails staleFails : TxId → Bool}

/-- The state between the two passes. -/
def betweenPasses (now : Time) (cleanupFails : TxId → Bool) (db : Db env) : Db env :=
  (cleanupExpiredPrepareLocks now cleanupFails db).2

/-- An abort that the pass attempts fails. -/
def AbortFails (now : Time) (cleanupFails staleFails : TxId → Bool) (db : Db env) (txId : TxId) : Prop :=
  (HasExpiredLock now db txId ∧ cleanupFails txId = true) ∨
    (Stale now (betweenPasses now cleanupFails db) txId ∧ staleFails txId = true)

theorem runRecoveryOnce_snd : (runRecoveryOnce now cleanupFails staleFails db).2 =
    (abortStalePaymentTransactions now staleFails (betweenPasses now cleanupFails db)).2 := rfl

/-- A pass with nothing to do. -/
theorem runRecoveryOnce_idle (hLocks : ∀ txId, ¬HasExpiredLock now db txId)
    (hStale : ∀ txId, ¬Stale now db txId) : runRecoveryOnce now cleanupFails staleFails db = (true, db) := by
  have hNoLocks : expiredLocksByTx now db = [] := by
    rw [← List.map_eq_nil_iff (f := Prod.fst)]
    exact List.eq_nil_iff_forall_not_mem.mpr fun txId hIn => hLocks txId (mem_expiredLocksByTx.mp hIn)
  have hNoStale : stalePayments now db = [] :=
    List.eq_nil_iff_forall_not_mem.mpr fun txId hIn => hStale txId (mem_stalePayments.mp hIn)
  simp [runRecoveryOnce, cleanupExpiredPrepareLocks, abortStalePaymentTransactions, hNoLocks, hNoStale]

/-- An aborted payment is not stale. -/
theorem not_stale_of_state {tx : Transaction} (hTx : db.transactions.get? txId = some tx)
    (hState : tx.state ∉ activeTxStates) : ¬Stale now db txId := by
  rintro ⟨tx', hTx', _, hActive, _⟩
  rw [hTx, Option.some.injEq] at hTx'
  exact hState (hTx' ▸ hActive)

theorem runRecoveryOnce_fst : (runRecoveryOnce now cleanupFails staleFails db).1 = true ↔
    ∀ txId, ¬AbortFails now cleanupFails staleFails db txId := by
  have hFirst := (aborts_cleanup now cleanupFails db).2
  have hSecond := (aborts_stale now staleFails (betweenPasses now cleanupFails db)).2
  have hSplit : (runRecoveryOnce now cleanupFails staleFails db).1 = true ↔
      (cleanupExpiredPrepareLocks now cleanupFails db).1.itemFailures = 0 ∧
        (abortStalePaymentTransactions now staleFails
          (betweenPasses now cleanupFails db)).1.abortFailures = 0 := by
    simp [runRecoveryOnce, betweenPasses]
  rw [hSplit, hFirst, hSecond, List.length_eq_zero_iff, List.length_eq_zero_iff,
    List.filter_eq_nil_iff, List.filter_eq_nil_iff]
  simp only [AbortFails, not_or, forall_and]
  refine and_congr (forall_congr' fun txId => ?_) (forall_congr' fun txId => ?_)
  · rw [mem_expiredLocksByTx, not_and]
    rfl
  · rw [mem_stalePayments, not_and]

/-- An expired lock survives only where the first pass failed to abort. -/
theorem abortFails_of_expired_left
    (h : HasExpiredLock now (runRecoveryOnce now cleanupFails staleFails db).2 txId) :
    AbortFails now cleanupFails staleFails db txId := by
  obtain ⟨l, hLeft, rfl, hExpired⟩ := h
  obtain ⟨hMiddle, _⟩ := ((aborts_stale now staleFails (betweenPasses now cleanupFails db)).1.locks l).mp hLeft
  obtain ⟨hRow, hOut⟩ := ((aborts_cleanup now cleanupFails db).1.locks l).mp hMiddle
  have hHas : HasExpiredLock now db l.txId := ⟨l, hRow, rfl, hExpired⟩
  refine Or.inl ⟨hHas, ?_⟩
  simpa [mem_expiredLocksByTx.mpr hHas] using hOut

/-- A stale payment is aborted by one of the passes unless that abort fails. -/
theorem aborted_of_stale (hStale : Stale now db txId)
    (hDone : ¬AbortFails now cleanupFails staleFails db txId) :
    ((runRecoveryOnce now cleanupFails staleFails db).2.transactions.get? txId).map (·.state) =
      some .ABORTED := by
  have hFirst := (aborts_cleanup now cleanupFails db).1
  have hSecond := (aborts_stale now staleFails (betweenPasses now cleanupFails db)).1
  obtain ⟨hCleanup, hLater⟩ := not_or.mp hDone
  obtain ⟨tx, hTx, hPayment, hActive, hOld⟩ := hStale
  have hOpen : tx.state ≠ .COMMITTED := fun h => by
    rw [h] at hActive
    exact absurd hActive (by decide)
  rw [runRecoveryOnce_snd]
  by_cases hExpired : HasExpiredLock now db txId
  · have hNoFail : cleanupFails txId = false := by
      simpa using fun h => hCleanup ⟨hExpired, h⟩
    have hIn : txId ∈ ((expiredLocksByTx now db).map Prod.fst).filter fun txId => !cleanupFails txId :=
      List.mem_filter.mpr ⟨mem_expiredLocksByTx.mpr hExpired, by simp [hNoFail]⟩
    obtain ⟨tx₁, hTx₁, hState₁, _⟩ := hFirst.ended txId hIn tx hTx hOpen
    have hNotStale : ¬Stale now (betweenPasses now cleanupFails db) txId :=
      not_stale_of_state hTx₁ (by rw [hState₁]; decide)
    rw [hSecond.untouched txId fun hMem => hNotStale (mem_stalePayments.mp (List.mem_filter.mp hMem).1)]
    exact (congrArg _ hTx₁).trans (congrArg some hState₁)
  · have hSame : (betweenPasses now cleanupFails db).transactions.get? txId = some tx := by
      rw [← hTx]
      exact hFirst.untouched txId fun hMem => hExpired (mem_expiredLocksByTx.mp (List.mem_filter.mp hMem).1)
    have hStill : Stale now (betweenPasses now cleanupFails db) txId := ⟨tx, hSame, hPayment, hActive, hOld⟩
    have hNoFail : staleFails txId = false := by
      simpa using fun h => hLater ⟨hStill, h⟩
    have hIn : txId ∈ (stalePayments now (betweenPasses now cleanupFails db)).filter fun txId =>
        !staleFails txId := List.mem_filter.mpr ⟨mem_stalePayments.mpr hStill, by simp [hNoFail]⟩
    obtain ⟨tx₂, hTx₂, hState₂, _⟩ := hSecond.ended txId hIn tx hSame hOpen
    rw [hTx₂, Option.map_some, hState₂]

/-- After a pass in which nothing failed no payment is stale. -/
theorem not_stale_after (hDone : ∀ txId, ¬AbortFails now cleanupFails staleFails db txId) :
    ¬Stale now (runRecoveryOnce now cleanupFails staleFails db).2 txId := by
  intro hStale
  have hSecond := (aborts_stale now staleFails (betweenPasses now cleanupFails db)).1
  have hOut : txId ∉ (stalePayments now (betweenPasses now cleanupFails db)).filter fun txId =>
      !staleFails txId := by
    intro hMem
    obtain ⟨tx, hTx, _, hActive, _⟩ := mem_stalePayments.mp (List.mem_filter.mp hMem).1
    have hOpen : tx.state ≠ .COMMITTED := fun h => by
      rw [h] at hActive
      exact absurd hActive (by decide)
    obtain ⟨tx', hTx', hState', _⟩ := hSecond.ended txId hMem tx hTx hOpen
    exact not_stale_of_state hTx' (by rw [hState']; decide) hStale
  obtain ⟨tx, hTx, hRest⟩ := hStale
  rw [runRecoveryOnce_snd, hSecond.untouched txId hOut] at hTx
  have hMiddle : Stale now (betweenPasses now cleanupFails db) txId := ⟨tx, hTx, hRest⟩
  have hFails : staleFails txId = true := by
    simpa [mem_stalePayments.mpr hMiddle] using hOut
  exact hDone txId (Or.inr ⟨hMiddle, hFails⟩)

/-- What was neither expired nor stale stays as it was. -/
theorem untouched_of_fresh (hExpired : ¬HasExpiredLock now db txId) (hStale : ¬Stale now db txId) :
    (runRecoveryOnce now cleanupFails staleFails db).2.transactions.get? txId = db.transactions.get? txId ∧
      ∀ l, l.txId = txId → (l ∈ (runRecoveryOnce now cleanupFails staleFails db).2.prepareLocks.rows ↔
        l ∈ db.prepareLocks.rows) := by
  have hFirst := (aborts_cleanup now cleanupFails db).1
  have hSecond := (aborts_stale now staleFails (betweenPasses now cleanupFails db)).1
  have hOut : txId ∉ ((expiredLocksByTx now db).map Prod.fst).filter fun txId => !cleanupFails txId :=
    fun hMem => hExpired (mem_expiredLocksByTx.mp (List.mem_filter.mp hMem).1)
  have hSame : (betweenPasses now cleanupFails db).transactions.get? txId = db.transactions.get? txId :=
    hFirst.untouched txId hOut
  have hOut' : txId ∉ (stalePayments now (betweenPasses now cleanupFails db)).filter fun txId =>
      !staleFails txId := by
    intro hMem
    obtain ⟨tx, hTx, hRest⟩ := mem_stalePayments.mp (List.mem_filter.mp hMem).1
    exact hStale ⟨tx, hSame ▸ hTx, hRest⟩
  refine ⟨(hSecond.untouched txId hOut').trans hSame, ?_⟩
  rintro l rfl
  rw [runRecoveryOnce_snd, hSecond.locks, and_iff_left hOut']
  exact (hFirst.locks l).trans (and_iff_left hOut)

/-- A recovery pass aborts every transaction it is to abort unless that abort
fails, keeps everything else, says truthfully whether something failed, and
leaves nothing to do when nothing did. -/
theorem recovery_converges (env : Env) (db : Db env) (now : Time) (cleanupFails staleFails : TxId → Bool) :
    let result := runRecoveryOnce now cleanupFails staleFails db
    (∀ txId, ¬AbortFails now cleanupFails staleFails db txId → ¬HasExpiredLock now result.2 txId) ∧
    (∀ txId, Stale now db txId → ¬AbortFails now cleanupFails staleFails db txId →
      (result.2.transactions.get? txId).map (·.state) = some .ABORTED) ∧
    (∀ txId tx, db.transactions.get? txId = some tx → tx.state = .COMMITTED →
      result.2.transactions.get? txId = some tx) ∧
    result.2.debts = db.debts ∧
    (∀ txId, ¬HasExpiredLock now db txId → ¬Stale now db txId →
      result.2.transactions.get? txId = db.transactions.get? txId ∧
        ∀ l, l.txId = txId → (l ∈ result.2.prepareLocks.rows ↔ l ∈ db.prepareLocks.rows)) ∧
    (result.1 = true ↔ ∀ txId, ¬AbortFails now cleanupFails staleFails db txId) ∧
    (result.1 = true → ∀ cleanupFails' staleFails' : TxId → Bool,
      runRecoveryOnce now cleanupFails' staleFails' result.2 = (true, result.2)) := by
  intro result
  have hFirst := (aborts_cleanup now cleanupFails db).1
  have hSecond := (aborts_stale now staleFails (betweenPasses now cleanupFails db)).1
  refine ⟨fun txId hDone hLeft => hDone (abortFails_of_expired_left hLeft),
    fun txId hStale hDone => aborted_of_stale hStale hDone,
    fun txId tx hTx hState => hSecond.committed txId tx (hFirst.committed txId tx hTx hState) hState,
    hSecond.debts.trans hFirst.debts, fun txId hExpired hStale => untouched_of_fresh hExpired hStale,
    runRecoveryOnce_fst, fun hTrue _ _ => ?_⟩
  have hDone := runRecoveryOnce_fst.mp hTrue
  exact runRecoveryOnce_idle (fun txId hLeft => hDone txId (abortFails_of_expired_left hLeft))
    fun txId => not_stale_after hDone

end Convergence

end GeoLedger

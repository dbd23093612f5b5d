import Mathlib
import GeoLedger.Clearing.DetectionSound

/-! `ClearingService.auto_clear`: detections and clearings in turn. A cycle that
was just detected is never taken for a replay, so every success of the loop
deletes a debt, and the loop ends with or without its safety break. -/
namespace GeoLedger

variable {env : Env}

/-- What the database does in one round of the loop. -/
structure ClearingRound where
  now : Time
  order : ReadOrder
  sqlFails : Bool
  fates : Nat → CommitFate

/-- The loop over the candidates of a round, until one is cleared. -/
def executeFirst (round : ClearingRound) : Nat → List (List ClearingEdge) → Db env → Except GeoError Bool × Db env
  | _, [], db => (.ok false, db)
  | i, cycle :: rest, db =>
      match executeClearingWithAmount round.now round.order (round.fates i)
        (cycle.map fun edge => some edge.debtId) none db with
      | (.error error, db') => (.error error, db')
      | (.ok none, db') => executeFirst round (i + 1) rest db'
      | (.ok (some _), db') => (.ok true, db')

/-- The rounds of `auto_clear`, of which at most `left` more may succeed. -/
def autoClearFrom (rounds : Nat → ClearingRound) (equivalentCode : String) (maxDepth : ℤ) :
    Nat → Nat → Db env → Except GeoError Unit × Nat × Db env
  | 0, count, db => (.ok (), count, db)
  | left + 1, count, db =>
      match findCycles (rounds count).now (rounds count).order (rounds count).sqlFails equivalentCode maxDepth
        none db with
      | .error error => (.error error, count, db)
      | .ok cycles =>
          match executeFirst (rounds count) 0 cycles db with
          | (.error error, db') => (.error error, count, db')
          | (.ok false, db') => (.ok (), count, db')
          | (.ok true, db') => autoClearFrom rounds equivalentCode maxDepth left (count + 1) db'

/-- `auto_clear`, with the number of cleared cycles; it breaks once the number exceeds 100. -/
def autoClear (rounds : Nat → ClearingRound) (equivalentCode : String) (maxDepth : ℤ) (db : Db env) :
    Except GeoError Unit × Nat × Db env :=
  autoClearFrom rounds equivalentCode maxDepth 101 0 db

section Success

variable {now : Time} {order : ReadOrder} {fate : CommitFate} {cycle : List (Option Uuid)}
  {allowedPids : Option (List Pid)} {db : Db env} {amount : Amount}

/-- A staged clearing is committed once its database is kept. -/
theorem commitsClearing_of_stage {debtIds : List Uuid} {first : Debt} {debts : List Debt} {staged : Db env}
    (h : stageClearing now debtIds first debts amount db = .ok staged) : CommitsClearing db staged := by
  obtain ⟨hFresh, hRows⟩ := TxTable.insert_eq_ok_iff.mp (stageClearing_eq_ok h).1
  refine ⟨_, hRows ▸ List.mem_append_right _ (List.mem_singleton.mpr rfl), rfl, fun hOld => ?_⟩
  exact hFresh _ hOld rfl

/-- Debts that are cleared for an amount are cleared in the database. -/
theorem clearDebts_some {debtIds : List Uuid} {debts : List Debt}
    (h : (clearDebts now fate debtIds debts allowedPids db).1 = .ok (some amount)) :
    CommitsClearing db (clearDebts now fate debtIds debts allowedPids db).2 := by
  generalize hResult : clearDebts now fate debtIds debts allowedPids db = result at h ⊢
  cases debts with
  | nil =>
      rw [← hResult] at h
      cases h
  | cons first rest =>
      simp only [clearDebts] at hResult
      split at hResult
      · rw [← hResult] at h
        cases h
      · split at hResult
        · rw [← hResult] at h
          cases h
        · split at hResult
          · rw [← hResult] at h
            cases h
          · split at hResult
            · rw [← hResult] at h
              cases h
            · next staged hStaged =>
                rcases resolveCommit_cases fate (executionTxId env debtIds) (clearAmount first rest)
                  allowedPids db staged with hKept | ⟨_, error, hError⟩
                · rw [← hResult, hKept]
                  exact commitsClearing_of_stage hStaged
                · rw [← hResult, hError] at h
                  cases h

/-- An amount is returned for a replay, or for a clearing that is committed. -/
theorem executeInner_some {interlocked : Option Uuid}
    (h : (executeClearingInner now order fate cycle interlocked allowedPids db).1 = .ok (some amount)) :
    (∃ debtIds, cycle.mapM id = some debtIds ∧
      readCommittedExecutionAmount db (executionTxId env debtIds) allowedPids = .ok (some amount)) ∨
      CommitsClearing db (executeClearingInner now order fate cycle interlocked allowedPids db).2 := by
  generalize hResult : executeClearingInner now order fate cycle interlocked allowedPids db = result at h ⊢
  unfold executeClearingInner at hResult
  split at hResult
  · rw [← hResult] at h
    cases h
  · split at hResult
    · rw [← hResult] at h
      cases h
    · next debtIds hIds =>
        split at hResult
        · rw [← hResult] at h
          cases h
        · next recorded hRead =>
            rw [← hResult] at h
            cases h
            exact Or.inl ⟨debtIds, hIds, hRead⟩
        · simp only at hResult
          split at hResult
          · rw [← hResult] at h
            cases h
          · split at hResult
            · rw [← hResult] at h
              cases h
            · split at hResult
              · rw [← hResult] at h
                cases h
              · rw [← hResult] at h ⊢
                exact Or.inr (clearDebts_some h)

/-- The same of both dialect branches. -/
theorem execute_some (h : (executeClearingWithAmount now order fate cycle allowedPids db).1 = .ok (some amount)) :
    (∃ debtIds, cycle.mapM id = some debtIds ∧
      readCommittedExecutionAmount db (executionTxId env debtIds) allowedPids = .ok (some amount)) ∨
      CommitsClearing db (executeClearingWithAmount now order fate cycle allowedPids db).2 := by
  generalize hResult : executeClearingWithAmount now order fate cycle allowedPids db = result at h ⊢
  unfold executeClearingWithAmount at hResult
  split at hResult
  · rw [← hResult] at h
    cases h
  · split at hResult
    · rw [← hResult] at h ⊢
      exact executeInner_some h
    · split at hResult
      · rw [← hResult] at h ⊢
        exact executeInner_some h
      · next debtIds hIds =>
          simp only [executeClearingInterlocked] at hResult
          split at hResult
          · split at hResult
            · rw [← hResult] at h
              cases h
            · next recorded hRead =>
                rw [← hResult] at h
                cases h
                exact Or.inl ⟨debtIds, hIds, hRead⟩
            · rw [← hResult] at h ⊢
              exact executeInner_some h
          · split at hResult
            · split at hResult
              · rw [← hResult] at h
                cases h
              · rw [← hResult] at h ⊢
                exact executeInner_some h
            · rw [← hResult] at h
              cases h

/-- A success on a list of present debts commits a clearing, which deletes a row. -/
theorem shrinks_of_success (hRecorded : ClearingsRecorded db) (hDigest : ExecutionIdsInjective env)
    {debtIds : List Uuid} (hPresent : ∀ id ∈ debtIds, id ∈ db.debts.rows.map Debt.id)
    (h : (executeClearingWithAmount now order fate (debtIds.map some) allowedPids db).1 = .ok (some amount)) :
    (executeClearingWithAmount now order fate (debtIds.map some) allowedPids db).2.debts.rows.length <
        db.debts.rows.length ∧
      ClearingsRecorded (executeClearingWithAmount now order fate (debtIds.map some) allowedPids db).2 := by
  rcases execute_some h with ⟨ids, hIds, hReplay⟩ | hCommits
  · obtain rfl : debtIds = ids := Option.some.inj ((mapM_map_some debtIds).symm.trans hIds)
    rw [hRecorded.not_replayed hDigest hPresent] at hReplay
    cases hReplay
  · rcases executeClearingWithAmount_cases now order fate (debtIds.map some) allowedPids db with
      hDb | ⟨_, _, _, staged, hClears, hDb, _⟩
    · rw [hDb] at hCommits
      exact absurd hCommits (not_commitsClearing_self db)
    · rw [hDb]
      exact ⟨hClears.length_lt, clearingsRecorded_clears hRecorded hClears⟩

/-- A call that returns nothing leaves the database as it is. -/
theorem unchanged_of_skip (h : (executeClearingWithAmount now order fate cycle allowedPids db).1 = .ok none) :
    (executeClearingWithAmount now order fate cycle allowedPids db).2 = db := by
  rcases executeClearingWithAmount_cases now order fate cycle allowedPids db with
    hDb | ⟨_, _, _, staged, _, _, hEq⟩
  · exact hDb
  · rw [hEq] at h
    exact absurd h (resolveCommit_ne_none _ _ _ _ _ _)

/-- No call makes the table longer. -/
theorem length_execute_le (now : Time) (order : ReadOrder) (fate : CommitFate) (cycle : List (Option Uuid))
    (allowedPids : Option (List Pid)) (db : Db env) :
    (executeClearingWithAmount now order fate cycle allowedPids db).2.debts.rows.length ≤ db.debts.rows.length := by
  rcases executeClearingWithAmount_cases now order fate cycle allowedPids db with
    hDb | ⟨_, _, _, staged, hClears, hDb, _⟩
  · rw [hDb]
  · rw [hDb]
    exact hClears.length_lt.le

end Success

section Loop

variable {db db' : Db env} {round : ClearingRound} {cycles : List (List ClearingEdge)} {i : Nat}

/-- What the candidates of a round can do to the database. -/
theorem executeFirst_cases (hRecorded : ClearingsRecorded db) (hDigest : ExecutionIdsInjective env)
    (hPresent : ∀ cycle ∈ cycles, ∀ edge ∈ cycle, edge.debtId ∈ db.debts.rows.map Debt.id)
    {result : Except GeoError Bool} (h : executeFirst round i cycles db = (result, db')) :
    (result = .ok true ∧ db'.debts.rows.length < db.debts.rows.length ∧ ClearingsRecorded db') ∨
      (result = .ok false ∧ db' = db) ∨
      ∃ error, result = .error error ∧ db'.debts.rows.length ≤ db.debts.rows.length := by
  induction cycles generalizing i with
  | nil =>
      cases h
      exact Or.inr (Or.inl ⟨rfl, rfl⟩)
  | cons cycle rest ih =>
      have hIds : (cycle.map fun edge => some edge.debtId) = (cycle.map (·.debtId)).map some := by simp
      rw [executeFirst, hIds] at h
      have hLength := length_execute_le round.now round.order (round.fates i) ((cycle.map (·.debtId)).map some) none db
      split at h
      · next error after hCall =>
          cases h
          rw [hCall] at hLength
          exact Or.inr (Or.inr ⟨error, rfl, hLength⟩)
      · next after hCall =>
          have hSame := unchanged_of_skip (congrArg Prod.fst hCall)
          rw [hCall] at hSame
          rw [show after = db from hSame] at h
          exact ih (fun c hc => hPresent c (List.mem_cons_of_mem _ hc)) h
      · next amount after hCall =>
          cases h
          have hListed : ∀ id ∈ cycle.map (·.debtId), id ∈ db.debts.rows.map Debt.id := by
            intro id hId
            obtain ⟨edge, hEdge, rfl⟩ := List.mem_map.mp hId
            exact hPresent cycle List.mem_cons_self edge hEdge
          have hShrinks := shrinks_of_success hRecorded hDigest hListed (congrArg Prod.fst hCall)
          rw [hCall] at hShrinks
          exact Or.inl ⟨rfl, hShrinks⟩

/-- The debts of detected cycles are present. -/
theorem present_of_findCycles {now : Time} {order : ReadOrder} {sqlFails : Bool} {equivalentCode : String}
    {maxDepth : ℤ} {allowedPids : Option (List Pid)}
    (h : findCycles now order sqlFails equivalentCode maxDepth allowedPids db = .ok cycles) :
    ∀ cycle ∈ cycles, ∀ edge ∈ cycle, edge.debtId ∈ db.debts.rows.map Debt.id := by
  intro cycle hCycle edge hEdge
  obtain ⟨_, _, chosen, rfl, hFound, -⟩ := findCycles_cases h
  obtain ⟨debts, hDebts, rfl⟩ := List.mem_map.mp hCycle
  obtain ⟨d, hd, rfl⟩ := List.mem_map.mp hEdge
  exact List.mem_map_of_mem ((hFound debts hDebts).stored d hd)

variable {rounds : Nat → ClearingRound} {equivalentCode : String} {maxDepth : ℤ}

/-- Whatever its bound, the loop clears at most as many cycles as rows disappear. -/
theorem autoClearFrom_count (hRecorded : ClearingsRecorded db) (hDigest : ExecutionIdsInjective env)
    (left count : Nat) :
    (autoClearFrom rounds equivalentCode maxDepth left count db).2.1 +
        (autoClearFrom rounds equivalentCode maxDepth left count db).2.2.debts.rows.length ≤
      count + db.debts.rows.length := by
  induction left generalizing count db with
  | zero => rfl
  | succ left ih =>
      rw [autoClearFrom]
      split
      · rfl
      · next cycles hCycles =>
          split
          · next error after hFirst =>
              rcases executeFirst_cases hRecorded hDigest (present_of_findCycles hCycles) hFirst with
                ⟨hResult, _⟩ | ⟨hResult, _⟩ | ⟨_, _, hLength⟩
              · cases hResult
              · cases hResult
              · exact Nat.add_le_add_left hLength count
          · next after hFirst =>
              rcases executeFirst_cases hRecorded hDigest (present_of_findCycles hCycles) hFirst with
                ⟨hResult, _⟩ | ⟨_, rfl⟩ | ⟨_, hResult, _⟩
              · cases hResult
              · rfl
              · cases hResult
          · next after hFirst =>
              rcases executeFirst_cases hRecorded hDigest (present_of_findCycles hCycles) hFirst with
                ⟨_, hLess, hAfter⟩ | ⟨hResult, _⟩ | ⟨_, hResult, _⟩
              · have hRest := ih hAfter (count + 1)
                omega
              · cases hResult
              · cases hResult

/-- A bound above the number of rows never ends the loop. -/
theorem autoClearFrom_unbounded (hRecorded : ClearingsRecorded db) (hDigest : ExecutionIdsInjective env)
    {left more : Nat} (hLeft : db.debts.rows.length < left) (hMore : db.debts.rows.length < more) (count : Nat) :
    autoClearFrom rounds equivalentCode maxDepth left count db =
      autoClearFrom rounds equivalentCode maxDepth more count db := by
  induction left generalizing more count db with
  | zero => omega
  | succ left ih =>
      cases more with
      | zero => omega
      | succ more =>
          rw [autoClearFrom, autoClearFrom]
          split
          · rfl
          · next cycles hCycles =>
              split
              · rfl
              · rfl
              · next after hFirst =>
                  rcases executeFirst_cases hRecorded hDigest (present_of_findCycles hCycles) hFirst with
                    ⟨_, hLess, hAfter⟩ | ⟨hResult, _⟩ | ⟨_, hResult, _⟩
                  · exact ih hAfter (by omega) (by omega) (count + 1)
                  · cases hResult
                  · cases hResult

end Loop

/-- In every reachable state a clearing of a closed cycle of debts, none of them
reserved and each consented to, commits with the effect of one clearing, unless
a payment carries its execution id; a loop of calls commits at most as many
clearings as there are debts, whatever cycles it is handed; and the loop of
detections and clearings succeeds no more often and ends without a safety break. -/
theorem clearing_of_cycle (env : Env) (hDigest : ExecutionIdsInjective env) (ops : List LedgerOp) :
    let s := (Ledger.empty : Ledger env).run ops
    (∀ e debts order sawError allowedPids, ClearableCycle s.now s.db e debts →
      (∀ tx ∈ s.db.transactions.rows, tx.payload.isPayment = true →
        tx.txId ≠ executionTxId env (debts.map Debt.id)) →
      (∀ scope, resolveScopeIds env.directory allowedPids = some scope →
        ∀ d ∈ debts, d.debtorId ∈ scope ∧ d.creditorId ∈ scope) →
      ∃ amount db', executeClearingWithAmount s.now order (.durable sawError false)
          ((debts.map Debt.id).map some) allowedPids s.db = (.ok (some amount), db') ∧
        CycleCleared s.db e debts amount db') ∧
    (∀ loop, (∀ op ∈ loop, op.inClearingLoop = true) → s.clearings loop ≤ s.db.debts.rows.length) ∧
    ∀ rounds equivalentCode maxDepth,
      (autoClear rounds equivalentCode maxDepth s.db).2.1 ≤ s.db.debts.rows.length ∧
      ∀ left, s.db.debts.rows.length < left →
        (autoClearFrom rounds equivalentCode maxDepth left 0 s.db).2.1 ≤ s.db.debts.rows.length ∧
          ∀ more, left ≤ more → autoClearFrom rounds equivalentCode maxDepth more 0 s.db =
            autoClearFrom rounds equivalentCode maxDepth left 0 s.db := by
  intro s
  have hRecorded : ClearingsRecorded s.db := clearingsRecorded_run _ clearingsRecorded_empty ops
  refine ⟨?_, fun loop hLoop => (Nat.le_add_right _ _).trans (clearings_le s loop hLoop), ?_⟩
  swap
  · intro rounds equivalentCode maxDepth
    have hCount (left : Nat) :
        (autoClearFrom rounds equivalentCode maxDepth left 0 s.db).2.1 ≤ s.db.debts.rows.length := by
      have hLeft := @autoClearFrom_count _ _ rounds equivalentCode maxDepth hRecorded hDigest left 0
      omega
    exact ⟨hCount 101, fun left hLeft => ⟨hCount left, fun more hMore =>
      autoClearFrom_unbounded hRecorded hDigest (by omega) hLeft 0⟩⟩
  intro e debts order sawError allowedPids hCycle hPayments hInside
  refine hCycle.execute hRecorded ?_ hInside order sawError
  refine List.find?_eq_none.mpr fun tx hTx hId => ?_
  rw [decide_eq_true_eq] at hId
  cases hKind : tx.payload.isPayment with
  | true => exact hPayments tx hTx hKind hId
  | false =>
      obtain ⟨id, hIn, hOut⟩ := hRecorded.gone hDigest hTx hKind hId
      obtain ⟨d, hd, rfl⟩ := List.mem_map.mp hIn
      exact hOut (List.mem_map_of_mem (hCycle.stored d hd))

section Sample

/-- The three debts of the triangle are cleared. -/
theorem clearing_of_cycle_triangle :
    let s := (Ledger.empty : Ledger (Env.sample .numeric208 true)).run debtTriangle
    ∃ amount db', executeClearingWithAmount s.now .insertion (.durable false false)
        ((s.db.debts.rows.map Debt.id).map some) none s.db = (.ok (some amount), db') ∧
      CycleCleared s.db 1 s.db.debts.rows amount db' := by
  intro s
  refine (clearing_of_cycle (Env.sample .numeric208 true)
    (executionIdsInjective_of_uuid5 sampleUuid5_injective) debtTriangle).1 1 s.db.debts.rows .insertion false none
      ⟨fun d hd => hd, s.db.debts.id_unique, ?_, ?_, ?_, ?_, ?_⟩ ?_ ?_
  · decide +kernel
  · decide +kernel
  · decide +kernel
  · decide +kernel
  · decide +kernel
  · decide +kernel
  · intro scope hScope
    cases hScope

/-- A payment under the execution id of a cycle keeps it from being cleared. -/
theorem not_clearing_of_cycle :
    ¬∀ (env : Env), ExecutionIdsInjective env → ∀ (ops : List LedgerOp) (e : Uuid) (debts : List Debt),
      let s := (Ledger.empty : Ledger env).run ops
      ClearableCycle s.now s.db e debts → ∃ amount db',
        executeClearingWithAmount s.now .insertion (.durable false false) ((debts.map Debt.id).map some) none s.db =
          (.ok (some amount), db') ∧ CycleCleared s.db e debts amount db' := by
  intro h
  obtain ⟨amount, db', hEq, -⟩ := h (Env.sample .numeric208 true)
    (executionIdsInjective_of_uuid5 sampleUuid5_injective) claimedTriangle 1
    ((Ledger.empty : Ledger (Env.sample .numeric208 true)).run claimedTriangle).db.debts.rows
    ⟨fun d hd => hd, DebtTable.id_unique _, by decide +kernel, by decide +kernel, by decide +kernel,
      by decide +kernel, by decide +kernel⟩
  have hRefused : (executeClearingWithAmount
      ((Ledger.empty : Ledger (Env.sample .numeric208 true)).run claimedTriangle).now .insertion
      (.durable false false)
      ((((Ledger.empty : Ledger (Env.sample .numeric208 true)).run claimedTriangle).db.debts.rows.map Debt.id).map
        some) none ((Ledger.empty : Ledger (Env.sample .numeric208 true)).run claimedTriangle).db).1.toBool =
      false := by decide +kernel
  rw [hEq] at hRefused
  cases hRefused

end Sample

end GeoLedger

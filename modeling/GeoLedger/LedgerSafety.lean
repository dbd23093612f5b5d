import Mathlib
import GeoLedger.Steps

/-! Safety of the debts over whole runs. Every operation keeps the debts one-way
and within the limits of the active trust lines, whatever the others did. -/
namespace GeoLedger

variable {env : Env}

/-- The debts of a committed state: one positive row at most for an ordered
pair of different participants, never in both directions, and never above the
limit of the creditor's active line. -/
structure LedgerSafe (db : Db env) : Prop where
  single : ∀ a b e, (db.debts.rows.filter (·.key = (a, b, e))).length ≤ 1
  positive : ∀ d ∈ db.debts.rows, 0 < d.amount
  distinct : ∀ d ∈ db.debts.rows, d.debtorId ≠ d.creditorId
  oneWay : ∀ d ∈ db.debts.rows, ∀ d' ∈ db.debts.rows,
    d'.key ≠ (d.creditorId, d.debtorId, d.equivalentId)
  withinLimit : ∀ d ∈ db.debts.rows,
    d.amount ≤ db.trustLines.limit d.creditorId d.debtorId d.equivalentId

/-- The two conditions that the schema does not enforce, on the amounts owed. -/
structure Bounded (db : Db env) : Prop where
  oneWay : ∀ a b e, db.debts.owed a b e = 0 ∨ db.debts.owed b a e = 0
  withinLimit : ∀ a b e, db.debts.owed a b e ≤ db.trustLines.limit b a e

theorem Bounded.safe {db : Db env} (h : Bounded db) : LedgerSafe db where
  single a b e := by
    have hUnique := db.debts.key_unique.sublist
      ((List.filter_sublist (p := fun d => d.key = (a, b, e))).map Debt.key)
    have hSame : ∀ k ∈ (db.debts.rows.filter (·.key = (a, b, e))).map Debt.key, k = (a, b, e) := by
      intro k hk
      obtain ⟨d, hd, rfl⟩ := List.mem_map.mp hk
      simpa using (List.mem_filter.mp hd).2
    rw [← List.length_map (f := Debt.key), List.eq_replicate_of_mem hSame, List.length_replicate]
    rw [List.eq_replicate_of_mem hSame, List.nodup_replicate] at hUnique
    exact hUnique
  positive := db.debts.amount_positive
  distinct := db.debts.no_self_loop
  oneWay d hd d' hd' hKey := by
    rcases h.oneWay d.debtorId d.creditorId d.equivalentId with hZero | hZero
    · exact DebtTable.owed_eq_zero_iff.mp hZero d hd rfl
    · exact DebtTable.owed_eq_zero_iff.mp hZero d' hd' hKey
  withinLimit d hd := by
    rw [← DebtTable.owed_of_mem hd rfl]
    exact h.withinLimit _ _ _

theorem bounded_empty : Bounded (Db.empty : Db env) where
  oneWay _ _ _ := Or.inl rfl
  withinLimit _ _ _ := le_refl (0 : Amount)

section Preservation

variable {now : Time} {db db' : Db env}

theorem Bounded.congr (h : Bounded db) (hDebts : db'.debts = db.debts)
    (hLines : db'.trustLines = db.trustLines) : Bounded db' := by
  refine ⟨?_, ?_⟩
  · rw [hDebts]
    exact h.oneWay
  · rw [hDebts, hLines]
    exact h.withinLimit

/-- Debts that only shrink stay bounded. -/
theorem Bounded.shrink (h : Bounded db) (hLe : ∀ a b e, db'.debts.owed a b e ≤ db.debts.owed a b e)
    (hLines : db'.trustLines = db.trustLines) : Bounded db' where
  oneWay a b e := by
    rcases h.oneWay a b e with hZero | hZero
    · exact Or.inl (le_antisymm (hZero ▸ hLe a b e) (db'.debts.owed_nonneg a b e))
    · exact Or.inr (le_antisymm (hZero ▸ hLe b a e) (db'.debts.owed_nonneg b a e))
  withinLimit a b e := by
    rw [hLines]
    exact (hLe a b e).trans (h.withinLimit a b e)

/-- Limits that cover what is owed keep the debts bounded. -/
theorem Bounded.relimit (h : Bounded db) (hDebts : db'.debts = db.debts)
    (hLimits : ∀ a b e, db.debts.owed a b e ≤ db'.trustLines.limit b a e) : Bounded db' where
  oneWay := by
    rw [hDebts]
    exact h.oneWay
  withinLimit := by
    rw [hDebts]
    exact hLimits

theorem bounded_abort (h : Bounded db) (txId : TxId) (reason : String) (code : Option ErrorCode)
    (details : Option (List (String × String))) :
    Bounded (abort now txId reason code details db).2 := by
  rw [abort_eq]
  exact h.congr rfl rfl

/-- A commit checks the pairs it touches and leaves the others alone. -/
theorem Commits.checked_or_same {tx : Transaction} (hCommit : Commits now db db' tx) (a b e : Uuid) :
    (db'.debts.owed a b e ≤ db.trustLines.limit b a e ∧
      (db'.debts.owed a b e = 0 ∨ db'.debts.owed b a e = 0)) ∨
    (db'.debts.owed a b e = db.debts.owed a b e ∧ db'.debts.owed b a e = db.debts.owed b a e) := by
  by_cases hTouched : ∃ f ∈ Commits.flows db tx.txId, f.equivalentId = e ∧
      ((a, b) = (f.fromId, f.toId) ∨ (a, b) = (f.toId, f.fromId))
  · obtain ⟨f, hf, rfl, hEnds⟩ := hTouched
    exact Or.inl (hCommit.touched hf hEnds)
  · have hAway : ∀ f ∈ Commits.flows db tx.txId, f.equivalentId = e →
        (a, b) ≠ (f.fromId, f.toId) ∧ (a, b) ≠ (f.toId, f.fromId) := by
      intro f hf he
      refine ⟨fun hEnds => hTouched ⟨f, hf, he, Or.inl hEnds⟩, fun hEnds => hTouched ⟨f, hf, he, Or.inr hEnds⟩⟩
    have hAway' : ∀ f ∈ Commits.flows db tx.txId, f.equivalentId = e →
        (b, a) ≠ (f.fromId, f.toId) ∧ (b, a) ≠ (f.toId, f.fromId) := by
      intro f hf he
      obtain ⟨h₁, h₂⟩ := hAway f hf he
      simp only [ne_eq, Prod.mk.injEq] at h₁ h₂ ⊢
      exact ⟨fun hEnds => h₂ ⟨hEnds.2, hEnds.1⟩, fun hEnds => h₁ ⟨hEnds.2, hEnds.1⟩⟩
    exact Or.inr ⟨hCommit.untouched.2 a b e hAway, hCommit.untouched.2 b a e hAway'⟩

theorem bounded_commits {tx : Transaction} (h : Bounded db) (hCommit : Commits now db db' tx) :
    Bounded db' := by
  have hPair (a b e : Uuid) :
      db'.debts.owed a b e ≤ db.trustLines.limit b a e ∧
        (db'.debts.owed a b e = 0 ∨ db'.debts.owed b a e = 0) := by
    rcases hCommit.checked_or_same a b e with hChecked | ⟨hSame, hSame'⟩
    · exact hChecked
    · rw [hSame, hSame']
      exact ⟨h.withinLimit a b e, h.oneWay a b e⟩
  refine ⟨fun a b e => (hPair a b e).2, fun a b e => ?_⟩
  rw [hCommit.trustLines]
  exact (hPair a b e).1

theorem bounded_createTrustLine (h : Bounded db) {fromParticipantId : Uuid}
    {data : TrustLineCreateRequest} (hOk : createTrustLine fromParticipantId data db = .ok db') :
    Bounded db' := by
  obtain ⟨toId, e, _, tl, _, _, _, _, hInsert, rfl⟩ := createTrustLine_effect hOk
  obtain ⟨hNone, hLimit⟩ := TrustTable.limit_insert hInsert
  refine h.relimit rfl fun a b w => ?_
  refine (h.withinLimit a b w).trans ?_
  show db.trustLines.limit b a w ≤ tl.limit b a w
  rw [hLimit]
  split
  · next hKey =>
      simp only [Prod.mk.injEq] at hKey
      obtain ⟨rfl, rfl, rfl⟩ := hKey
      rw [hNone]
      have hNew := tl.zero_le_limit fromParticipantId toId e.id
      rwa [hLimit, if_pos rfl] at hNew
  · exact le_rfl

/-- An update never takes the limit below the used amount: rounding is monotone
and the used amount is already a value of the column. -/
theorem bounded_updateTrustLine (h : Bounded db) {trustlineId userId : Uuid}
    {data : TrustLineUpdateRequest} (hOk : updateTrustLine trustlineId userId data db = .ok db') :
    Bounded db' := by
  obtain ⟨l, hMem, _, hLive, hUsed, policy, _, tl, hWrite, rfl⟩ := updateTrustLine_effect hOk
  refine h.relimit rfl fun a b w => ?_
  show db.debts.owed a b w ≤ tl.limit b a w
  rw [TrustTable.limit_write hMem hWrite]
  split
  · next hLine =>
      obtain ⟨hActive, hKey⟩ := hLine
      have hOwed : usedAmount db.debts l = db.debts.owed a b w := by
        simp only [TrustLine.key, Prod.mk.injEq] at hKey
        rw [usedAmount, if_neg hLive, hKey.1, hKey.2.1, hKey.2.2]
      cases hLimit : data.limit with
      | none =>
          rw [Option.getD_none, env.column.round_of_mem _ (db.trustLines.stored l hMem),
            ← TrustTable.limit_of_active hMem hActive hKey]
          exact h.withinLimit a b w
      | some x =>
          have hLe := hUsed x hLimit
          rw [hOwed] at hLe
          have hRound := env.column.round_mono hLe
          rwa [env.column.round_of_mem _ (db.debts.owed_mem_grid a b w)] at hRound
  · exact h.withinLimit a b w

theorem bounded_closeTrustLine (h : Bounded db) {trustlineId userId : Uuid}
    {data : TrustLineCloseRequest} (hOk : closeTrustLine trustlineId userId data db = .ok db') :
    Bounded db' := by
  obtain ⟨l, hMem, _, hLive, hUsed, _, _, rfl⟩ := closeTrustLine_effect hOk
  refine h.relimit rfl fun a b w => ?_
  show db.debts.owed a b w ≤ (db.trustLines.close l.id).limit b a w
  rw [TrustTable.limit_close hMem hLive]
  split
  · next hKey =>
      simp only [TrustLine.key, Prod.mk.injEq] at hKey
      rw [usedAmount, if_neg hLive, hKey.1, hKey.2.1, hKey.2.2] at hUsed
      exact hUsed
  · exact h.withinLimit a b w

/-- Every committed transaction keeps the debts bounded. -/
theorem bounded_change {op : LedgerOp} (h : Bounded db) (hChange : Change now db op db') :
    Bounded db' := by
  cases hChange with
  | inserted => exact h.congr rfl rfl
  | prepared _ hPrepares => exact h.congr hPrepares.debts hPrepares.trustLines
  | preparedRoutes _ _ hPrepares => exact h.congr hPrepares.debts hPrepares.trustLines
  | committed _ hCommit => exact bounded_commits h hCommit
  | aborted txId reason code details => exact bounded_abort h txId reason code details
  | cleared hClears => exact h.shrink hClears.owed_le (stageClearing_eq_ok hClears.staged).2.2.2.1
  | opened hOk => exact bounded_createTrustLine h hOk
  | updated hOk => exact bounded_updateTrustLine h hOk
  | closed hOk => exact bounded_closeTrustLine h hOk

end Preservation

theorem bounded_run (ops : List LedgerOp) : Bounded ((Ledger.empty : Ledger env).run ops).db :=
  run_invariant _ bounded_empty (fun _ _ _ _ h hChange => bounded_change h hChange) ops

/-- The debts are safe in every state that any sequence of operations reaches
from the empty ledger. -/
theorem ledger_safe (env : Env) (ops : List LedgerOp) :
    LedgerSafe ((Ledger.empty : Ledger env).run ops).db :=
  (bounded_run ops).safe

end GeoLedger

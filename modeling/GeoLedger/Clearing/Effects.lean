import Mathlib
import GeoLedger.Library.Outcomes
import GeoLedger.Clearing.Execute

/-! What a clearing can do: nothing, or reduce all listed debts by the smallest
of their amounts, which deletes at least one of them. -/
namespace GeoLedger
open Outcomes

variable {env : Env}

section Minimum

theorem clearAmount_le (first : Debt) (rest : List Debt) :
    ∀ d ∈ first :: rest, clearAmount first rest ≤ d.amount := by
  unfold clearAmount
  induction rest using List.reverseRecOn with
  | nil => simp
  | append_singleton rest last ih =>
      intro d hd
      rw [List.foldl_append, List.foldl_cons, List.foldl_nil]
      rw [← List.cons_append, List.mem_append, List.mem_singleton] at hd
      rcases hd with hd | rfl
      · exact (min_le_left _ _).trans (ih d hd)
      · exact min_le_right _ _

theorem clearAmount_mem (first : Debt) (rest : List Debt) :
    ∃ d ∈ first :: rest, d.amount = clearAmount first rest := by
  unfold clearAmount
  induction rest using List.reverseRecOn with
  | nil => simp
  | append_singleton rest last ih =>
      obtain ⟨d, hd, hAmount⟩ := ih
      rw [List.foldl_append, List.foldl_cons, List.foldl_nil, ← hAmount, ← List.cons_append]
      rcases min_choice d.amount last.amount with h | h
      · exact ⟨d, List.mem_append_left _ hd, h.symm⟩
      · exact ⟨last, List.mem_append_right _ (List.mem_singleton.mpr rfl), h.symm⟩

end Minimum

section Reduce

variable {t t' : DebtTable env} {amount : Amount}

/-- Saving a row of one table leaves out its id when the amount is zero. -/
theorem DebtTable.not_mem_of_save_zero {id : Uuid} (h : t.save id 0 = .ok t') :
    id ∉ t'.rows.map Debt.id := by
  rw [DebtTable.save, if_pos rfl] at h
  cases h
  intro hIn
  obtain ⟨d, hd, hId⟩ := List.mem_map.mp hIn
  exact (Rows.mem_delete_iff.mp hd).2 hId

/-- The effect of the reductions on the amounts owed and on the row ids. -/
theorem reduceDebts_effect {debts : List Debt} (hMem : ∀ d ∈ debts, d ∈ t.rows)
    (hUnique : (debts.map Debt.id).Nodup) (hGrid : amount ∈ env.column.grid)
    (h : reduceDebts amount debts t = .ok t') :
    t.Retires t' ∧
      (∀ d ∈ debts, d.amount = amount → d.id ∉ t'.rows.map Debt.id) ∧
      ∀ a b e, t'.owed a b e =
        if ∃ d ∈ debts, d.key = (a, b, e) then t.owed a b e - amount else t.owed a b e := by
  induction debts generalizing t with
  | nil =>
      cases h
      exact ⟨.refl _, by simp, by simp⟩
  | cons d rest ih =>
      rw [reduceDebts] at h
      split at h
      · cases h
      · obtain ⟨t₁, hSave, hRest⟩ := bind_eq_ok_iff.mp h
        rw [List.map_cons, List.nodup_cons] at hUnique
        have hd : d ∈ t.rows := hMem d List.mem_cons_self
        have hMem₁ : ∀ d' ∈ rest, d' ∈ t₁.rows := by
          intro d' hd'
          refine DebtTable.mem_save_of_ne (hMem d' (List.mem_cons_of_mem _ hd')) ?_ hSave
          intro hId
          exact hUnique.1 (hId ▸ List.mem_map_of_mem hd')
        obtain ⟨hRetires, hGone, hOwed⟩ := ih hMem₁ hUnique.2 hRest
        have hOwed₁ := DebtTable.owed_save hd hSave
        refine ⟨(DebtTable.retires_save hSave).trans hRetires, ?_, ?_⟩
        · intro d' hd' hAmount
          rcases List.mem_cons.mp hd' with rfl | hd'
          · rw [hAmount, sub_self] at hSave
            obtain ⟨n, hn, hId⟩ := t.issued d' hd
            rw [hId]
            refine hRetires.2 n (hn.trans_le (DebtTable.retires_save hSave).1) ?_
            rw [← hId]
            exact DebtTable.not_mem_of_save_zero hSave
          · exact hGone d' hd' hAmount
        · intro a b e
          rw [hOwed, hOwed₁, env.column.round_of_mem _ (env.column.grid.sub_mem (t.stored d hd) hGrid)]
          by_cases hKey : d.key = (a, b, e)
          · have hOther : ¬∃ d' ∈ rest, d'.key = (a, b, e) := by
              rintro ⟨d', hd', hKey'⟩
              have hEq := Rows.eq_of_column t.key_unique (hMem d' (List.mem_cons_of_mem _ hd')) hd
                (hKey'.trans hKey.symm)
              exact hUnique.1 (hEq ▸ List.mem_map_of_mem hd')
            rw [if_neg hOther, if_pos hKey, if_pos ⟨d, List.mem_cons_self, hKey⟩,
              DebtTable.owed_of_mem hd hKey]
          · have hIff : (∃ d' ∈ d :: rest, d'.key = (a, b, e)) ↔ ∃ d' ∈ rest, d'.key = (a, b, e) := by
              simp [hKey]
            rw [if_neg hKey]
            simp only [hIff]

/-- Reductions by an amount that no debt falls short of are all flushed. -/
theorem reduceDebts_eq_ok {debts : List Debt} (hMem : ∀ d ∈ debts, d ∈ t.rows)
    (hUnique : (debts.map Debt.id).Nodup) (hGrid : amount ∈ env.column.grid) (hPos : 0 ≤ amount)
    (hLe : ∀ d ∈ debts, amount ≤ d.amount) : ∃ t', reduceDebts amount debts t = .ok t' := by
  induction debts generalizing t with
  | nil => exact ⟨t, rfl⟩
  | cons d rest ih =>
      rw [List.map_cons, List.nodup_cons] at hUnique
      have hd : d ∈ t.rows := hMem d List.mem_cons_self
      have hNonneg : 0 ≤ d.amount - amount := sub_nonneg.mpr (hLe d List.mem_cons_self)
      have hSave : ∃ t₁, t.save d.id (d.amount - amount) = .ok t₁ := by
        unfold DebtTable.save
        split
        · exact ⟨_, rfl⟩
        · next hZero =>
            rw [DebtTable.write_eq_ok_iff,
              env.column.round_of_mem _ (env.column.grid.sub_mem (t.stored d hd) hGrid)]
            refine ⟨env.column.fits_of_abs_le _ d.amount ?_ (t.amount_fits d hd),
              lt_of_le_of_ne hNonneg (Ne.symm hZero)⟩
            rw [abs_of_nonneg hNonneg, abs_of_pos (t.amount_positive d hd)]
            exact sub_le_self _ hPos
      obtain ⟨t₁, hSave⟩ := hSave
      have hMem₁ : ∀ d' ∈ rest, d' ∈ t₁.rows := by
        intro d' hd'
        refine DebtTable.mem_save_of_ne (hMem d' (List.mem_cons_of_mem _ hd')) ?_ hSave
        intro hId
        exact hUnique.1 (hId ▸ List.mem_map_of_mem hd')
      obtain ⟨t', hRest⟩ := ih hMem₁ hUnique.2 (fun d' hd' => hLe d' (List.mem_cons_of_mem _ hd'))
      refine ⟨t', ?_⟩
      rw [reduceDebts, if_neg (not_lt.mpr (hLe d List.mem_cons_self)), hSave]
      exact hRest

end Reduce

section Cases

variable {now : Time} {order : ReadOrder} {fate : CommitFate} {cycle : List (Option Uuid)}
  {allowedPids : Option (List Pid)} {db db' : Db env}

/-- The rows that a clearing reads are the listed rows of the table. -/
theorem mem_debtsByIds {t : DebtTable env} {debtIds : List Uuid} {d : Debt} :
    d ∈ debtsByIds order t debtIds ↔ d ∈ t.rows ∧ d.id ∈ debtIds := by
  rw [debtsByIds, (order.debts_perm _).mem_iff, List.mem_filter]
  simp

theorem nodup_debtsByIds (t : DebtTable env) (debtIds : List Uuid) :
    ((debtsByIds order t debtIds).map Debt.id).Nodup := by
  rw [debtsByIds, ((order.debts_perm _).map Debt.id).nodup_iff]
  exact t.id_unique.sublist (List.filter_sublist.map Debt.id)

/-- What a read of listed debts returns is in the table, once each. -/
theorem debtsByIds_rows {t : DebtTable env} {debtIds : List Uuid} {debts : List Debt}
    (hRead : debtsByIds order t debtIds = debts) :
    (∀ d ∈ debts, d ∈ t.rows) ∧ (debts.map Debt.id).Nodup := by
  rw [← hRead]
  exact ⟨fun d hd => (mem_debtsByIds.mp hd).1, nodup_debtsByIds t debtIds⟩

/-- The smallest amount of rows of a table is one of its stored amounts. -/
theorem clearAmount_stored {t : DebtTable env} {first : Debt} {rest : List Debt}
    (hMem : ∀ d ∈ first :: rest, d ∈ t.rows) :
    0 < clearAmount first rest ∧ clearAmount first rest ∈ env.column.grid := by
  obtain ⟨d, hd, hAmount⟩ := clearAmount_mem first rest
  rw [← hAmount]
  exact ⟨t.amount_positive d (hMem d hd), t.stored d (hMem d hd)⟩

/-- The writes of a clearing that is committed. -/
structure Clears (now : Time) (order : ReadOrder) (cycle : List (Option Uuid))
    (allowedPids : Option (List Pid)) (db staged : Db env) (debtIds : List Uuid) (first : Debt)
    (rest : List Debt) : Prop where
  ids : cycle.mapM id = some debtIds
  fresh : readCommittedExecutionAmount db (executionTxId env debtIds) allowedPids = .ok none
  read : debtsByIds order db.debts debtIds = first :: rest
  complete : (first :: rest).length = debtIds.length
  unlocked : (first :: rest).any
    (pairLocked (lockedPairsForEquivalent db now first.equivalentId)) = false
  consents : cycleRespectsAutoClearing db.trustLines (first :: rest) = true
  interlocked : env.postgres = true → ∀ d ∈ first :: rest, d.equivalentId = first.equivalentId
  inside : ∀ scope, resolveScopeIds env.directory allowedPids = some scope →
    ∀ d ∈ first :: rest, d.debtorId ∈ scope ∧ d.creditorId ∈ scope
  staged : stageClearing now debtIds first (first :: rest) (clearAmount first rest) db = .ok staged

theorem resolveCommit_cases (fate : CommitFate) (txId : TxId) (amount : Amount)
    (allowedPids : Option (List Pid)) (db staged : Db env) :
    (resolveCommit fate txId amount allowedPids db staged).2 = staged ∨
      (resolveCommit fate txId amount allowedPids db staged).2 = db ∧
        ∃ error, (resolveCommit fate txId amount allowedPids db staged).1 = .error error := by
  unfold resolveCommit
  split
  · exact Or.inl rfl
  · exact Or.inl rfl
  · split <;> exact Or.inl rfl
  · exact Or.inr ⟨rfl, _, rfl⟩
  · exact Or.inr ⟨rfl, _, rfl⟩

/-- Once the debts are read, a clearing is skipped, lost, or staged and resolved. -/
theorem clearDebts_cases (now : Time) (fate : CommitFate) (debtIds : List Uuid) (first : Debt)
    (rest : List Debt) (allowedPids : Option (List Pid)) (db : Db env) :
    (clearDebts now fate debtIds (first :: rest) allowedPids db).2 = db ∨
      (first :: rest).any (pairLocked (lockedPairsForEquivalent db now first.equivalentId)) = false ∧
      cycleRespectsAutoClearing db.trustLines (first :: rest) = true ∧
      ∃ staged, stageClearing now debtIds first (first :: rest) (clearAmount first rest) db = .ok staged ∧
        (clearDebts now fate debtIds (first :: rest) allowedPids db).2 = staged ∧
        clearDebts now fate debtIds (first :: rest) allowedPids db =
          resolveCommit fate (executionTxId env debtIds) (clearAmount first rest) allowedPids db staged := by
  generalize hResult : clearDebts now fate debtIds (first :: rest) allowedPids db = result
  simp only [clearDebts] at hResult
  split at hResult
  · exact Or.inl (by rw [← hResult])
  · split at hResult
    · exact Or.inl (by rw [← hResult])
    · next hUnlocked =>
        split at hResult
        · exact Or.inl (by rw [← hResult])
        · next hConsents =>
            split at hResult
            · exact Or.inl (by rw [← hResult])
            · next staged hStaged =>
                rcases resolveCommit_cases fate (executionTxId env debtIds) (clearAmount first rest)
                  allowedPids db staged with hKept | ⟨hLost, _⟩
                · exact Or.inr ⟨by simpa using hUnlocked, by simpa using hConsents, staged, hStaged,
                    by rw [← hResult, hKept], hResult.symm⟩
                · exact Or.inl (by rw [← hResult, hLost])

/-- The inner call keeps the database, or commits a clearing and resolves its outcome. -/
theorem executeClearingInner_cases {interlocked : Option Uuid}
    (hInterlocked : env.postgres = true → interlocked = none → cycle ≠ [] →
      ∀ debtIds, cycle.mapM id = some debtIds →
        (debtsByIds order db.debts debtIds).length ≠ debtIds.length) :
    (executeClearingInner now order fate cycle interlocked allowedPids db).2 = db ∨
      ∃ debtIds first rest staged, Clears now order cycle allowedPids db staged debtIds first rest ∧
        (executeClearingInner now order fate cycle interlocked allowedPids db).2 = staged ∧
        executeClearingInner now order fate cycle interlocked allowedPids db =
          resolveCommit fate (executionTxId env debtIds) (clearAmount first rest) allowedPids db staged := by
  generalize hResult : executeClearingInner now order fate cycle interlocked allowedPids db = result
  unfold executeClearingInner at hResult
  split at hResult
  · exact Or.inl (by rw [← hResult])
  · split at hResult
    · exact Or.inl (by rw [← hResult])
    · next debtIds hIds =>
        split at hResult
        · exact Or.inl (by rw [← hResult])
        · exact Or.inl (by rw [← hResult])
        · next hFresh =>
            simp only at hResult
            split at hResult
            · exact Or.inl (by rw [← hResult])
            · next hComplete =>
                rw [ne_eq, not_not] at hComplete
                split at hResult
                · exact Or.inl (by rw [← hResult])
                · next hSame =>
                    split at hResult
                    · exact Or.inl (by rw [← hResult])
                    · next hInside =>
                        cases hRead : debtsByIds order db.debts debtIds with
                        | nil =>
                            rw [hRead] at hResult
                            exact Or.inl (by rw [← hResult]; rfl)
                        | cons first rest =>
                            rw [hRead] at hResult hComplete hSame hInside
                            rcases clearDebts_cases now fate debtIds first rest allowedPids db with
                              hKept | ⟨hUnlocked, hConsents, staged, hStaged, hDb, hEq⟩
                            · exact Or.inl (by rw [← hResult, hKept])
                            · refine Or.inr ⟨debtIds, first, rest, staged, ⟨hIds, hFresh, hRead, hComplete,
                                hUnlocked, hConsents, ?_, ?_, hStaged⟩, by rw [← hResult, hDb],
                                by rw [← hResult, hEq]⟩
                              · intro hPostgres d hd
                                cases hE : interlocked with
                                | none =>
                                    refine absurd ?_ (hInterlocked hPostgres hE (by simp) debtIds hIds)
                                    rw [hRead]
                                    exact hComplete
                                | some e =>
                                    simp only [hE, Option.any_some, decide_eq_true_eq, not_exists, not_and,
                                      not_not] at hSame
                                    rw [hSame d hd, hSame first List.mem_cons_self]
                              · intro scope hScope d hd
                                simp only [hScope, Option.any_some, decide_eq_true_eq, not_exists, not_and,
                                  not_or, not_not] at hInside
                                exact hInside d hd

/-- A call keeps the database, or commits a clearing and resolves its outcome. -/
theorem executeClearingWithAmount_cases (now : Time) (order : ReadOrder) (fate : CommitFate)
    (cycle : List (Option Uuid)) (allowedPids : Option (List Pid)) (db : Db env) :
    (executeClearingWithAmount now order fate cycle allowedPids db).2 = db ∨
      ∃ debtIds first rest staged, Clears now order cycle allowedPids db staged debtIds first rest ∧
        (executeClearingWithAmount now order fate cycle allowedPids db).2 = staged ∧
        executeClearingWithAmount now order fate cycle allowedPids db =
          resolveCommit fate (executionTxId env debtIds) (clearAmount first rest) allowedPids db staged := by
  unfold executeClearingWithAmount
  split
  · exact Or.inl rfl
  · split
    · next hDirect =>
        refine executeClearingInner_cases fun hPostgres _ hCycle => ?_
        rcases hDirect with h | h
        · rw [h] at hPostgres
          cases hPostgres
        · exact absurd h hCycle
    · split
      · next hIds =>
          refine executeClearingInner_cases fun _ _ _ debtIds hSome => ?_
          rw [hIds] at hSome
          cases hSome
      · next debtIds hIds =>
          unfold executeClearingInterlocked
          simp only
          split
          · next hMissing =>
              split
              · exact Or.inl rfl
              · exact Or.inl rfl
              · refine executeClearingInner_cases fun _ _ _ others hSome => ?_
                rw [hIds, Option.some.injEq] at hSome
                rw [← hSome]
                exact hMissing
          · split
            · next e _ =>
                split
                · exact Or.inl rfl
                · refine executeClearingInner_cases fun _ hNone => ?_
                  cases hNone
            · exact Or.inl rfl

/-- The tables after a staged clearing. -/
theorem stageClearing_eq_ok {debtIds : List Uuid} {first : Debt} {debts : List Debt} {amount : Amount}
    (h : stageClearing now debtIds first debts amount db = .ok db') :
    db.transactions.insert (clearingTransaction env now debtIds first debts amount) =
        .ok db'.transactions ∧
      reduceDebts amount debts db.debts = .ok db'.debts ∧
      (∀ p ∈ cycleParticipants debts,
        db.debts.netPosition p first.equivalentId = db'.debts.netPosition p first.equivalentId) ∧
      db'.trustLines = db.trustLines ∧ db'.prepareLocks = db.prepareLocks := by
  unfold stageClearing at h
  obtain ⟨transactions, hInsert, h⟩ := bind_eq_ok_iff.mp h
  obtain ⟨reduced, hReduce, h⟩ := bind_eq_ok_iff.mp h
  obtain ⟨_, hNeutral, h⟩ := bind_eq_ok_iff.mp h
  cases h
  refine ⟨hInsert, hReduce, ?_, rfl, rfl⟩
  unfold verifyClearingNeutrality at hNeutral
  split at hNeutral
  · next hAll => exact hAll
  · cases hNeutral

namespace Clears

variable {debtIds : List Uuid} {first : Debt} {rest : List Debt}

theorem mem_rows (h : Clears now order cycle allowedPids db db' debtIds first rest) :
    ∀ d ∈ first :: rest, d ∈ db.debts.rows :=
  (debtsByIds_rows h.read).1

theorem ids_unique (h : Clears now order cycle allowedPids db db' debtIds first rest) :
    ((first :: rest).map Debt.id).Nodup :=
  (debtsByIds_rows h.read).2

theorem amount_pos (h : Clears now order cycle allowedPids db db' debtIds first rest) :
    0 < clearAmount first rest :=
  (clearAmount_stored h.mem_rows).1

theorem amount_mem_grid (h : Clears now order cycle allowedPids db db' debtIds first rest) :
    clearAmount first rest ∈ env.column.grid :=
  (clearAmount_stored h.mem_rows).2

/-- Every listed debt loses the smallest amount, and no other debt changes. -/
theorem effect (h : Clears now order cycle allowedPids db db' debtIds first rest) :
    db.debts.Retires db'.debts ∧
      (∀ d ∈ first :: rest, d.amount = clearAmount first rest → d.id ∉ db'.debts.rows.map Debt.id) ∧
      ∀ a b e, db'.debts.owed a b e =
        if ∃ d ∈ first :: rest, d.key = (a, b, e) then
          db.debts.owed a b e - clearAmount first rest
        else db.debts.owed a b e :=
  reduceDebts_effect h.mem_rows h.ids_unique h.amount_mem_grid (stageClearing_eq_ok h.staged).2.1

/-- No amount owed grows. -/
theorem owed_le (h : Clears now order cycle allowedPids db db' debtIds first rest) (a b e : Uuid) :
    db'.debts.owed a b e ≤ db.debts.owed a b e := by
  rw [h.effect.2.2]
  split
  · exact sub_le_self _ h.amount_pos.le
  · exact le_rfl

end Clears

end Cases

end GeoLedger

import Mathlib
import GeoLedger.Clearing.Identity
import GeoLedger.Clearing.Neutrality

/-! The effect of one clearing on a closed cycle of debts, row by row, and a
bound on how often a loop of calls can clear. Every clearing deletes a row and
adds none, so a loop ends after as many clearings as there are rows. -/
namespace GeoLedger
open Outcomes

variable {env : Env}

section Rows

variable {t t' : DebtTable env} {amount : Amount}

/-- What is left of a row that loses an amount. -/
def Debt.less (amount : Amount) (d : Debt) : Option Debt :=
  if d.amount = amount then none else some { d with amount := d.amount - amount }

/-- The rows after every listed row has lost an amount, in their old order. -/
def rowsCleared (debtIds : List Uuid) (amount : Amount) (rows : List Debt) : List Debt :=
  rows.filterMap fun d => if d.id ∈ debtIds then d.less amount else some d

theorem rowsCleared_nil (amount : Amount) (rows : List Debt) : rowsCleared [] amount rows = rows := by
  simp [rowsCleared]

theorem id_of_less {d d' : Debt} (h : d.less amount = some d') : d'.id = d.id := by
  unfold Debt.less at h
  split at h
  · cases h
  · cases h
    rfl

/-- Clearing one id and then the others is clearing all of them. -/
theorem rowsCleared_cons {id : Uuid} {rest : List Uuid} (hNew : id ∉ rest) (rows : List Debt) :
    rowsCleared rest amount (rowsCleared [id] amount rows) = rowsCleared (id :: rest) amount rows := by
  simp only [rowsCleared, List.filterMap_filterMap]
  refine List.filterMap_congr fun d _ => ?_
  by_cases hId : d.id = id
  · rw [if_pos (by simp [hId]), if_pos (by simp [hId])]
    cases hLess : d.less amount with
    | none => rfl
    | some d' =>
        rw [Option.bind_some, if_neg]
        rw [id_of_less hLess, hId]
        exact hNew
  · have hOr : d.id ∈ id :: rest ↔ d.id ∈ rest := by simp [hId]
    rw [if_neg (by simpa using hId), Option.bind_some]
    simp only [hOr]

/-- Saving a row less an amount clears its id. -/
theorem DebtTable.rows_save_less {d : Debt} (hMem : d ∈ t.rows) (hGrid : amount ∈ env.column.grid)
    (h : t.save d.id (d.amount - amount) = .ok t') : t'.rows = rowsCleared [d.id] amount t.rows := by
  have hSame : ∀ r ∈ t.rows, r.id = d.id → r = d := fun r hr hId =>
    Rows.eq_of_column t.id_unique hr hMem hId
  unfold save at h
  split at h
  · next hZero =>
      cases h
      simp only [delete, Rows.delete, rowsCleared, ← List.filterMap_eq_filter]
      refine List.filterMap_congr fun r hr => ?_
      by_cases hId : r.id = d.id
      · rw [hSame r hr hId]
        simp [Debt.less, sub_eq_zero.mp hZero]
      · simp [Option.guard, hId]
  · next hLeft =>
      rw [(rows_of_write h).1, env.column.round_of_mem _ (env.column.grid.sub_mem (t.stored d hMem) hGrid)]
      simp only [Rows.update, rowsCleared, ← List.filterMap_eq_map]
      refine List.filterMap_congr fun r hr => ?_
      by_cases hId : r.id = d.id
      · rw [hSame r hr hId]
        simp [Debt.less, sub_ne_zero.mp hLeft]
      · simp [hId]

/-- The rows after a list of debts is reduced. -/
theorem rows_reduceDebts {debts : List Debt} (hMem : ∀ d ∈ debts, d ∈ t.rows)
    (hUnique : (debts.map Debt.id).Nodup) (hGrid : amount ∈ env.column.grid)
    (h : reduceDebts amount debts t = .ok t') : t'.rows = rowsCleared (debts.map Debt.id) amount t.rows := by
  induction debts generalizing t with
  | nil =>
      cases h
      exact (rowsCleared_nil amount _).symm
  | cons d rest ih =>
      rw [reduceDebts] at h
      split at h
      · cases h
      · obtain ⟨t₁, hSave, hRest⟩ := bind_eq_ok_iff.mp h
        rw [List.map_cons, List.nodup_cons] at hUnique
        have hd : d ∈ t.rows := hMem d List.mem_cons_self
        have hMem₁ : ∀ d' ∈ rest, d' ∈ t₁.rows := by
          intro d' hd'
          refine DebtTable.mem_save_of_ne (hMem d' (List.mem_cons_of_mem _ hd')) ?_ hSave
          intro hId
          exact hUnique.1 (hId ▸ List.mem_map_of_mem hd')
        rw [ih hMem₁ hUnique.2 hRest, DebtTable.rows_save_less hd hGrid hSave, List.map_cons,
          rowsCleared_cons hUnique.1]

/-- Ids that are listed in another order clear the same rows. -/
theorem rowsCleared_perm {debtIds others : List Uuid} (h : debtIds.Perm others) (rows : List Debt) :
    rowsCleared debtIds amount rows = rowsCleared others amount rows := by
  simp only [rowsCleared, h.mem_iff]

/-- A listed row that holds exactly the amount makes the table shorter. -/
theorem length_rowsCleared_lt {debtIds : List Uuid} {rows : List Debt} {d : Debt} (hMem : d ∈ rows)
    (hId : d.id ∈ debtIds) (hAmount : d.amount = amount) :
    (rowsCleared debtIds amount rows).length < rows.length := by
  refine List.length_filterMap_lt_length_iff_exists.mpr ⟨d, hMem, ?_⟩
  rw [if_pos hId, Debt.less, if_pos hAmount]

/-- The sum of the debts of an equivalent. -/
def outstanding (e : Uuid) (rows : List Debt) : Amount :=
  ((rows.filter (·.equivalentId = e)).map (·.amount)).sum

theorem outstanding_cons (e : Uuid) (d : Debt) (rows : List Debt) :
    outstanding e (d :: rows) = (if d.equivalentId = e then d.amount else 0) + outstanding e rows := by
  unfold outstanding
  by_cases hE : d.equivalentId = e
  · rw [List.filter_cons_of_pos (by simpa using hE), if_pos hE, List.map_cons, List.sum_cons]
  · rw [List.filter_cons_of_neg (by simpa using hE), if_neg hE, zero_add]

/-- An equivalent loses the amount once for each of its listed rows. -/
theorem outstanding_rowsCleared (debtIds : List Uuid) (e : Uuid) (rows : List Debt) :
    outstanding e (rowsCleared debtIds amount rows) =
      outstanding e rows - amount * rows.countP fun d => d.id ∈ debtIds ∧ d.equivalentId = e := by
  induction rows with
  | nil => simp [outstanding, rowsCleared]
  | cons d rest ih =>
      rw [rowsCleared] at ih ⊢
      rw [outstanding_cons, List.countP_cons]
      by_cases hId : d.id ∈ debtIds
      · cases hLess : d.less amount with
        | none =>
            have hAmount : d.amount = amount := by
              by_contra hNe
              rw [Debt.less, if_neg hNe] at hLess
              cases hLess
            rw [List.filterMap_cons_none (by rw [if_pos hId, hLess]), ih]
            by_cases hE : d.equivalentId = e
            · simp only [hId, hE, hAmount, and_self, decide_true, if_true, Nat.cast_add, Nat.cast_one]
              ring
            · simp [hE]
        | some d' =>
            have hLeft : d' = { d with amount := d.amount - amount } := by
              unfold Debt.less at hLess
              split at hLess
              · cases hLess
              · exact (Option.some.inj hLess).symm
            rw [List.filterMap_cons_some (by rw [if_pos hId, hLess]), outstanding_cons, ih, hLeft]
            by_cases hE : d.equivalentId = e
            · simp only [hId, hE, and_self, decide_true, if_true, Nat.cast_add, Nat.cast_one]
              ring
            · simp [hE]
      · rw [List.filterMap_cons_some (by rw [if_neg hId]), outstanding_cons, ih]
        simp only [hId, false_and, decide_false, Bool.false_eq_true, if_false, add_zero]
        ring

end Rows

section Cycle

variable {now : Time} {order : ReadOrder} {fate : CommitFate} {cycle : List (Option Uuid)}
  {allowedPids : Option (List Pid)} {db db' : Db env} {debtIds : List Uuid} {first : Debt}
  {rest debts : List Debt} {e : Uuid}

/-- Debts of one equivalent that follow each other around a closed cycle, none of
them reserved and each one consented to. -/
structure ClearableCycle (now : Time) (db : Db env) (e : Uuid) (debts : List Debt) : Prop where
  stored : ∀ d ∈ debts, d ∈ db.debts.rows
  distinct : (debts.map Debt.id).Nodup
  nonempty : debts ≠ []
  equivalent : ∀ d ∈ debts, d.equivalentId = e
  closed : debts.map Debt.creditorId = (debts.map Debt.debtorId).rotate 1
  unlocked : ∀ d ∈ debts, pairLocked (lockedPairsForEquivalent db now e) d = false
  consents : ∀ d ∈ debts, edgeConsents db.trustLines e d = true

/-- What is left after a cycle is cleared: its rows lose the smallest of their
amounts, the rows that held no more are gone, the other rows and the lines are
as they were, and the transaction names every listed debt. -/
structure CycleCleared (db : Db env) (e : Uuid) (debts : List Debt) (amount : Amount) (db' : Db env) :
    Prop where
  positive : 0 < amount
  least : (∃ d ∈ debts, d.amount = amount) ∧ ∀ d ∈ debts, amount ≤ d.amount
  rows : db'.debts.rows = rowsCleared (debts.map Debt.id) amount db.debts.rows
  deletes : db'.debts.rows.length < db.debts.rows.length
  lines : db'.trustLines = db.trustLines
  twoWay : ∀ a b w, 0 < db'.debts.owed a b w → 0 < db'.debts.owed b a w →
    0 < db.debts.owed a b w ∧ 0 < db.debts.owed b a w
  limits : ∀ a b w, db'.trustLines.limit b a w < db'.debts.owed a b w →
    db.trustLines.limit b a w < db.debts.owed a b w
  recorded : ∃ tx ∈ db'.transactions.rows, tx ∉ db.transactions.rows ∧ tx.state = .COMMITTED ∧
    tx.payload = .clearing (debts.map Debt.id) amount (env.directory.codeText e) (debts.map fun d =>
      ⟨d.id, env.directory.pidText d.debtorId, env.directory.pidText d.creditorId, amount⟩)
  outstanding : outstanding e db'.debts.rows = outstanding e db.debts.rows - amount * debts.length
  decreases : GeoLedger.outstanding e db'.debts.rows < GeoLedger.outstanding e db.debts.rows

/-- Around a closed cycle everybody owes as often as they are owed. -/
theorem balanced_of_closed (hClosed : debts.map Debt.creditorId = (debts.map Debt.debtorId).rotate 1)
    (hOne : ∀ d ∈ debts, d.equivalentId = e) : Balanced debts e := by
  intro p
  have hSide (side : Debt → Uuid) : (debts.countP fun d => side d = p ∧ d.equivalentId = e) =
      (debts.map side).count p := by
    rw [List.count, List.countP_map]
    refine List.countP_congr fun d hd => ?_
    simp [hOne d hd]
  rw [hSide, hSide, hClosed]
  exact ((List.rotate_perm _ 1).count_eq p).symm

/-- The rows a clearing reads are the debts of the cycle, in some order. -/
theorem ClearableCycle.read_perm (h : ClearableCycle now db e debts) (order : ReadOrder) :
    (debtsByIds order db.debts (debts.map Debt.id)).Perm debts := by
  refine (List.perm_ext_iff_of_nodup (.of_map _ (nodup_debtsByIds _ _)) (.of_map _ h.distinct)).mpr ?_
  intro d
  rw [mem_debtsByIds]
  constructor
  · rintro ⟨hd, hId⟩
    obtain ⟨d', hd', hSame⟩ := List.mem_map.mp hId
    rwa [← Rows.eq_of_column db.debts.id_unique (h.stored d' hd') hd hSame]
  · intro hd
    exact ⟨h.stored d hd, List.mem_map_of_mem hd⟩

theorem mapM_map_some (ids : List Uuid) : (ids.map some).mapM id = some ids := by
  induction ids with
  | nil => rfl
  | cons x rest ih => simp [List.mapM_cons, ih]

/-- A call accepts a clearable cycle that its perimeter holds, unless a
transaction has its execution id. -/
theorem ClearableCycle.accepts (h : ClearableCycle now db e debts) (order : ReadOrder)
    {sawError cancelled : Bool}
    (hFree : db.transactions.get? (executionTxId env (debts.map Debt.id)) = none)
    (hInside : ∀ scope, resolveScopeIds env.directory allowedPids = some scope →
      ∀ d ∈ debts, d.debtorId ∈ scope ∧ d.creditorId ∈ scope) :
    ∃ first rest, (first :: rest).Perm debts ∧ Accepts now order (.durable sawError cancelled)
      ((debts.map Debt.id).map some) allowedPids db (debts.map Debt.id) first rest := by
  have hPerm := h.read_perm order
  cases hRead : debtsByIds order db.debts (debts.map Debt.id) with
  | nil =>
      rw [hRead] at hPerm
      exact absurd hPerm.nil_eq.symm h.nonempty
  | cons first rest =>
      rw [hRead] at hPerm
      have hOne : ∀ d ∈ first :: rest, d.equivalentId = e := fun d hd => h.equivalent d (hPerm.mem_iff.mp hd)
      have hFirst : first.equivalentId = e := hOne first List.mem_cons_self
      refine ⟨first, rest, hPerm, mapM_map_some _, hFree, hRead, ?_, ?_, ?_, ?_, ?_, ?_, ?_, ⟨_, _, rfl⟩⟩
      · rw [hPerm.length_eq, List.length_map]
      · intro _ d hd
        rw [hOne d hd, hFirst]
      · intro hEmpty
        have hNone := (hInside [] hEmpty first (hPerm.mem_iff.mp List.mem_cons_self)).1
        cases hNone
      · intro scope hScope d hd
        exact hInside scope hScope d (hPerm.mem_iff.mp hd)
      · rw [hFirst, List.any_eq_false]
        intro d hd
        rw [h.unlocked d (hPerm.mem_iff.mp hd)]
        exact Bool.false_ne_true
      · rw [cycleRespectsAutoClearing, hFirst, List.all_eq_true]
        exact fun d hd => h.consents d (hPerm.mem_iff.mp hd)
      · intro p
        rw [hFirst, hPerm.countP_eq, hPerm.countP_eq]
        exact balanced_of_closed h.closed h.equivalent p

/-- The rows after a clearing. -/
theorem Clears.rows (h : Clears now order cycle allowedPids db db' debtIds first rest) :
    db'.debts.rows = rowsCleared ((first :: rest).map Debt.id) (clearAmount first rest) db.debts.rows :=
  rows_reduceDebts h.mem_rows h.ids_unique h.amount_mem_grid (stageClearing_eq_ok h.staged).2.1

/-- A clearing deletes a row and adds none. -/
theorem Clears.length_lt (h : Clears now order cycle allowedPids db db' debtIds first rest) :
    db'.debts.rows.length < db.debts.rows.length := by
  obtain ⟨d, hd, hAmount⟩ := clearAmount_mem first rest
  rw [h.rows]
  exact length_rowsCleared_lt (h.mem_rows d hd) (List.mem_map_of_mem hd) hAmount

/-- The payload lists every debt of the cycle, in the order of the request. -/
theorem edgesPayload_perm (directory : Directory) (amount : Amount) (hPerm : (first :: rest).Perm debts)
    (hDistinct : (debts.map Debt.id).Nodup) :
    edgesPayload directory (first :: rest) amount (debts.map Debt.id) = debts.map fun d =>
      ⟨d.id, directory.pidText d.debtorId, directory.pidText d.creditorId, amount⟩ := by
  rw [edgesPayload, List.filterMap_map, ← List.filterMap_eq_map]
  refine List.filterMap_congr fun d hd => ?_
  have hFound : (first :: rest).find? (·.id = d.id) = some d :=
    (Rows.find?_eq_some_iff ((hPerm.map Debt.id).nodup_iff.mpr hDistinct)).mpr ⟨hPerm.mem_iff.mpr hd, rfl⟩
  simp only [Function.comp_apply, hFound, Option.map_some]

/-- The number of listed rows in the equivalent of the cycle. -/
theorem ClearableCycle.countP_rows (h : ClearableCycle now db e debts) :
    (db.debts.rows.countP fun d => d.id ∈ debts.map Debt.id ∧ d.equivalentId = e) = debts.length := by
  have hPerm := h.read_perm .insertion
  rw [← hPerm.length_eq, debtsByIds, (ReadOrder.insertion.debts_perm _).length_eq,
    ← List.countP_eq_length_filter]
  refine List.countP_congr fun d hd => ?_
  simp only [decide_eq_true_eq, and_iff_left_iff_imp]
  intro hId
  refine h.equivalent d (hPerm.mem_iff.mp ?_)
  exact mem_debtsByIds.mpr ⟨hd, hId⟩

/-- A committed clearing of a clearable cycle has the effect of one clearing. -/
theorem ClearableCycle.cleared (h : ClearableCycle now db e debts) (hPerm : (first :: rest).Perm debts)
    (hClears : Clears now order cycle allowedPids db db' (debts.map Debt.id) first rest) :
    CycleCleared db e debts (clearAmount first rest) db' := by
  have hFirst : first.equivalentId = e := h.equivalent first (hPerm.mem_iff.mp List.mem_cons_self)
  have hRows : db'.debts.rows = rowsCleared (debts.map Debt.id) (clearAmount first rest) db.debts.rows := by
    rw [hClears.rows, rowsCleared_perm (hPerm.map Debt.id)]
  have hLines := (stageClearing_eq_ok hClears.staged).2.2.2.1
  have hSum : outstanding e db'.debts.rows =
      outstanding e db.debts.rows - clearAmount first rest * debts.length := by
    rw [hRows, outstanding_rowsCleared, h.countP_rows]
  refine ⟨hClears.amount_pos, ⟨?_, ?_⟩, hRows, hClears.length_lt, hLines, ?_, ?_, ?_, hSum, ?_⟩
  · obtain ⟨d, hd, hAmount⟩ := clearAmount_mem first rest
    exact ⟨d, hPerm.mem_iff.mp hd, hAmount⟩
  · exact fun d hd => clearAmount_le first rest d (hPerm.mem_iff.mpr hd)
  · intro a b w hTo hBack
    exact ⟨hTo.trans_le (hClears.owed_le a b w), hBack.trans_le (hClears.owed_le b a w)⟩
  · intro a b w hOver
    rw [hLines] at hOver
    exact hOver.trans_le (hClears.owed_le a b w)
  · refine ⟨_, hClears.transactions ▸ List.mem_append_right _ (List.mem_singleton.mpr rfl), ?_, rfl, ?_⟩
    · intro hOld
      exact (TxTable.insert_eq_ok_iff.mp (stageClearing_eq_ok hClears.staged).1).1 _ hOld rfl
    · simp only [clearingTransaction, hFirst, edgesPayload_perm _ _ hPerm h.distinct]
  · rw [hSum]
    refine sub_lt_self _ (mul_pos hClears.amount_pos ?_)
    exact_mod_cast List.length_pos_iff.mpr h.nonempty

end Cycle

section Loop

/-- Clearing calls and the passing of time: what a loop of detections and
clearings does to the ledger. -/
def LedgerOp.inClearingLoop : LedgerOp → Bool
  | .clear .. | .tick _ => true
  | _ => false

instance (db db' : Db env) : Decidable (CommitsClearing db db') :=
  inferInstanceAs (Decidable (∃ tx ∈ db'.transactions.rows, tx.payload.isPayment = false ∧
    tx ∉ db.transactions.rows))

/-- How many operations of a run commit a clearing. -/
def Ledger.clearings (s : Ledger env) : List LedgerOp → Nat
  | [] => 0
  | op :: rest => (if CommitsClearing s.db (s.step op).db then 1 else 0) + (s.step op).clearings rest

/-- A step of the loop deletes a row for a clearing that it commits. -/
theorem length_rows_step (s : Ledger env) {op : LedgerOp} (hLoop : op.inClearingLoop = true) :
    (if CommitsClearing s.db (s.step op).db then 1 else 0) + (s.step op).db.debts.rows.length ≤
      s.db.debts.rows.length := by
  have hSame (h : (s.step op).db = s.db) :
      (if CommitsClearing s.db (s.step op).db then 1 else 0) + (s.step op).db.debts.rows.length ≤
        s.db.debts.rows.length := by
    rw [h, if_neg (not_commitsClearing_self s.db), zero_add]
  cases op with
  | clear order fate cycle allowedPids =>
      rcases executeClearingWithAmount_cases s.now order fate cycle allowedPids s.db with
        hDb | ⟨_, _, _, staged, hClears, hDb, _⟩
      · exact hSame hDb
      · have hLess := hClears.length_lt
        have hAfter : (s.step (.clear order fate cycle allowedPids)).db = staged := hDb
        rw [hAfter]
        split <;> omega
  | tick seconds => exact hSame rfl
  | newPayment | prepare | prepareRoutes | commit | commitStaged | abort | recovery | createTrustLine
  | updateTrustLine | closeTrustLine => cases hLoop

/-- A loop commits at most as many clearings as there are debts. -/
theorem clearings_le (s : Ledger env) (ops : List LedgerOp) (hLoop : ∀ op ∈ ops, op.inClearingLoop = true) :
    s.clearings ops + (s.run ops).db.debts.rows.length ≤ s.db.debts.rows.length := by
  induction ops generalizing s with
  | nil => simp [Ledger.clearings, Ledger.run]
  | cons op rest ih =>
      have hStep := length_rows_step s (hLoop op List.mem_cons_self)
      have hRest := ih (s.step op) fun op hOp => hLoop op (List.mem_cons_of_mem _ hOp)
      have hRun : s.run (op :: rest) = (s.step op).run rest := rfl
      rw [Ledger.clearings, hRun]
      omega

end Loop

section Reachable

variable {now : Time} {allowedPids : Option (List Pid)} {db : Db env} {debts : List Debt} {e : Uuid}

/-- The texts of participants inside a perimeter are in its list. -/
theorem pidText_mem_of_scope {directory : Directory} {pids : List Pid} {scope : List Uuid} {id : Uuid}
    (hScope : resolveScopeIds directory (some pids) = some scope) (hId : id ∈ scope) :
    directory.pidText id ∈ pids := by
  simp only [resolveScopeIds, Option.map_some, Option.some.injEq] at hScope
  rw [← hScope] at hId
  obtain ⟨p, hp, rfl⟩ := List.mem_map.mp hId
  obtain ⟨hMem, hPid⟩ := List.mem_filter.mp hp
  have hFound : directory.participantById p.id = some p :=
    (Rows.find?_eq_some_iff directory.participant_id_unique).mpr ⟨hMem, rfl⟩
  simpa [Directory.pidText, hFound] using hPid

/-- A perimeter that holds the cycle covers the recorded edges. -/
theorem ClearableCycle.perimeterCovers (h : ClearableCycle now db e debts) (amount : Amount)
    (hInside : ∀ scope, resolveScopeIds env.directory allowedPids = some scope →
      ∀ d ∈ debts, d.debtorId ∈ scope ∧ d.creditorId ∈ scope) :
    PerimeterCovers env.directory allowedPids (debts.map fun d =>
      ⟨d.id, env.directory.pidText d.debtorId, env.directory.pidText d.creditorId, amount⟩) := by
  rintro pids rfl
  refine ⟨fun hEmpty => ?_, by simpa using h.nonempty, ?_⟩
  · obtain ⟨d, hd⟩ := List.exists_mem_of_ne_nil _ h.nonempty
    cases (hInside [] hEmpty d hd).1
  · intro edge hEdge
    obtain ⟨d, hd, rfl⟩ := List.mem_map.mp hEdge
    obtain ⟨hDebtor, hCreditor⟩ := hInside _ rfl d hd
    exact ⟨pidText_mem_of_scope rfl hDebtor, pidText_mem_of_scope rfl hCreditor⟩

/-- A call on a clearable cycle whose commit is durable returns the amount it cleared. -/
theorem ClearableCycle.execute (h : ClearableCycle now db e debts) (hRecorded : ClearingsRecorded db)
    (hFree : db.transactions.get? (executionTxId env (debts.map Debt.id)) = none)
    (hInside : ∀ scope, resolveScopeIds env.directory allowedPids = some scope →
      ∀ d ∈ debts, d.debtorId ∈ scope ∧ d.creditorId ∈ scope) (order : ReadOrder) (sawError : Bool) :
    ∃ amount db', executeClearingWithAmount now order (.durable sawError false)
        ((debts.map Debt.id).map some) allowedPids db = (.ok (some amount), db') ∧
      CycleCleared db e debts amount db' := by
  obtain ⟨first, rest, hPerm, hAccepts⟩ := @accepts _ _ _ _ _ _ h order sawError false hFree hInside
  have hCommits := executeClearing_commits_iff.mpr ⟨_, _, _, hAccepts⟩
  rcases executeClearingWithAmount_cases now order (.durable sawError false)
    ((debts.map Debt.id).map some) allowedPids db with hDb | ⟨ids, first', rest', staged, hClears, _, hEq⟩
  · rw [hDb] at hCommits
    exact absurd hCommits (not_commitsClearing_self db)
  · obtain rfl : debts.map Debt.id = ids := Option.some.inj ((mapM_map_some _).symm.trans hClears.ids)
    have hPerm' : (first' :: rest').Perm debts := hClears.read ▸ h.read_perm order
    have hCleared := h.cleared hPerm' hClears
    refine ⟨_, staged, ?_, hCleared⟩
    rw [hEq]
    cases sawError with
    | false => rfl
    | true =>
        obtain ⟨tx, hTx, hNew, -, hPayload⟩ := hCleared.recorded
        have hStaged := clearingsRecorded_clears hRecorded hClears tx hTx _ _ _ _ hPayload
        rcases readCommitted_of_recorded allowedPids hTx hPayload hStaged with ⟨_, _, hNot⟩ | hRead
        · exact absurd (h.perimeterCovers _ hInside) hNot
        · rw [hStaged.identity] at hRead
          simp only [resolveCommit, hRead]
          rfl

end Reachable

section Sample

/-- Three payments around a triangle. -/
def debtTriangle : List LedgerOp :=
  [openLine 2 "A" .uah 10, openLine 3 "B" .uah 10, openLine 1 "C" .uah 10] ++
    payAlong "p1" 1 ["A", "B"] 5 .uah ++ payAlong "p2" 2 ["B", "C"] 5 .uah ++
    payAlong "p3" 3 ["C", "A"] 4 .uah

/-- The triangle, and a payment whose sender chose the id of its clearing. -/
def claimedTriangle : List LedgerOp :=
  debtTriangle ++ [.newPayment "b0dda9b1-c435-5a0e-8ff3-0c53919ba0a2" 1 "A" "B" 1 "UAH" [⟨["A", "B"], 1⟩] none]

end Sample

end GeoLedger

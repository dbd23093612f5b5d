import Mathlib
import GeoLedger.Balance

/-! The repairs an administrator can run: netting mutual debts, and capping
debts to the limits of the active lines. Both decide on the rows as they were
loaded; the session writes the changed rows and then deletes the others. -/
namespace GeoLedger

variable {env : Env}

section Session

/-- The changed rows of a session, by identifier. -/
structure RowChanges where
  updates : List (Uuid × Amount)
  deletes : List Uuid

/-- The flush writes the changed amounts before it deletes rows. -/
def DebtTable.flush (t : DebtTable env) (changes : RowChanges) : Except GeoError (DebtTable env) := do
  let t' ← changes.updates.foldlM (fun t u => t.write u.1 u.2) t
  return changes.deletes.foldl DebtTable.delete t'

end Session

section Netting

/-- `(equivalent_id, debtor_id, creditor_id)`. -/
def Debt.edge (d : Debt) : Uuid × Uuid × Uuid := (d.equivalentId, d.debtorId, d.creditorId)

/-- The loop variables of `repair_net_mutual_debts`. -/
structure Netting where
  processedPairs : List (Uuid × Uuid × Uuid)
  affectedEquivalentIds : List Uuid
  nettedPairs : Nat
  changes : RowChanges

def Netting.start : Netting := ⟨[], [], 0, [], []⟩

/-- An undirected pair in an equivalent. -/
def undirected (edge : Uuid × Uuid × Uuid) : Uuid × Uuid × Uuid :=
  (edge.1, min edge.2.1 edge.2.2, max edge.2.1 edge.2.2)

/-- The two rows of a pair become one, or none. -/
def netPair (dAb dBa : Debt) (changes : RowChanges) : RowChanges :=
  let a := dAb.amount
  let b := dBa.amount
  if a = b then ⟨changes.updates, changes.deletes ++ [dAb.id, dBa.id]⟩
  else if b < a then ⟨changes.updates ++ [(dAb.id, a - b)], changes.deletes ++ [dBa.id]⟩
  else ⟨changes.updates ++ [(dBa.id, b - a)], changes.deletes ++ [dAb.id]⟩

/-- The body of the loop for one row. -/
def netStep (byKey : Dict (Uuid × Uuid × Uuid) Debt) (s : Netting) (entry : (Uuid × Uuid × Uuid) × Debt) : Netting :=
  let (eqId, debtorId, creditorId) := entry.1
  let pair := undirected entry.1
  if debtorId = creditorId then s
  else if pair ∈ s.processedPairs then s
  else match byKey.get? (eqId, creditorId, debtorId) with
    | none => s
    | some dBa =>
        { processedPairs := pair :: s.processedPairs
          affectedEquivalentIds := eqId :: s.affectedEquivalentIds
          nettedPairs := s.nettedPairs + 1
          changes := netPair entry.2 dBa s.changes }

/-- The loop over the rows in the order in which they were read. -/
def nettingLoop (order : ReadOrder) (t : DebtTable env) : Netting :=
  let byKey := Dict.ofList ((order.debts t.rows).map fun d => (d.edge, d))
  byKey.items.foldl (netStep byKey) .start

/-- What a repair reports. -/
structure RepairReport where
  scanned : Nat
  nettedPairs : Nat
  updated : Nat
  deleted : Nat
  affectedEquivalents : List String

/-- The sorted codes of the equivalents that a repair changed. -/
def affectedCodes (d : Directory) (ids : List Uuid) : List String :=
  (ids.dedup.filterMap d.codeOf).insertionSort (· ≤ ·)

def Netting.report (s : Netting) (t : DebtTable env) : RepairReport where
  scanned := t.rows.length
  nettedPairs := s.nettedPairs
  updated := s.changes.updates.length
  deleted := s.changes.deletes.length
  affectedEquivalents := affectedCodes env.directory s.affectedEquivalentIds

def repairNetMutualDebts (order : ReadOrder) (t : DebtTable env) :
    Except GeoError (DebtTable env × RepairReport) := do
  let s := nettingLoop order t
  let t' ← t.flush s.changes
  return (t', s.report t)

end Netting

section Capping

/-- `tol`. -/
def limitTolerance : Amount := 1 / 1000000000

/-- The limits of the active lines, by the edge of the debt they allow. -/
def limitByEdge (order : ReadOrder) (tl : TrustTable env) : Dict (Uuid × Uuid × Uuid) Amount :=
  Dict.ofList ((order.trustLines (tl.rows.filter (·.status = .active))).map fun l =>
    ((l.equivalentId, l.toParticipantId, l.fromParticipantId), l.limit))

/-- The loop variables of `repair_cap_debts_to_trust_limits`. -/
structure Capping where
  affectedEquivalentIds : List Uuid
  changes : RowChanges

/-- The body of the loop for one row. -/
def capStep (limits : Dict (Uuid × Uuid × Uuid) Amount) (s : Capping) (d : Debt) : Capping :=
  let limit := limits.getD d.edge 0
  if d.amount ≤ limit + limitTolerance then s
  else if limit ≤ limitTolerance then
    ⟨d.equivalentId :: s.affectedEquivalentIds, s.changes.updates, s.changes.deletes ++ [d.id]⟩
  else ⟨d.equivalentId :: s.affectedEquivalentIds, s.changes.updates ++ [(d.id, limit)], s.changes.deletes⟩

def capDebts (order : ReadOrder) (tl : TrustTable env) (t : DebtTable env) : Capping :=
  (order.debts t.rows).foldl (capStep (limitByEdge order tl)) ⟨[], [], []⟩

def Capping.report (s : Capping) (t : DebtTable env) : RepairReport where
  scanned := t.rows.length
  nettedPairs := 0
  updated := s.changes.updates.length
  deleted := s.changes.deletes.length
  affectedEquivalents := affectedCodes env.directory s.affectedEquivalentIds

def repairCapDebtsToTrustLimits (order : ReadOrder) (tl : TrustTable env) (t : DebtTable env) :
    Except GeoError (DebtTable env × RepairReport) := do
  let s := capDebts order tl t
  let t' ← t.flush s.changes
  return (t', s.report t)

end Capping

section Flush

namespace DebtTable

variable {t t' : DebtTable env}

/-- Deleting a list of ids leaves exactly the rows of other ids. -/
theorem foldl_delete_rows (t : DebtTable env) (ids : List Uuid) :
    (ids.foldl DebtTable.delete t).rows = t.rows.filter (·.id ∉ ids) ∧
      (ids.foldl DebtTable.delete t).generated = t.generated := by
  induction ids generalizing t with
  | nil => simp
  | cons id rest ih =>
      obtain ⟨hRows, hGenerated⟩ := ih (t.delete id)
      refine ⟨?_, hGenerated⟩
      have hDelete : (t.delete id).rows = t.rows.filter fun d => d.id ≠ id := rfl
      rw [List.foldl_cons, hRows, hDelete, List.filter_filter]
      refine List.filter_congr fun d _ => ?_
      simp [Bool.and_comm]

/-- A value that a flush stores as it is. -/
structure Storable (env : Env) (x : Amount) : Prop where
  stored : x ∈ env.column.grid
  fits : env.column.fits x = true
  positive : 0 < x

/-- Writing an amount that may be stored succeeds, and stores it as it is. -/
theorem write_storable {id : Uuid} {x : Amount} (h : Storable env x) : ∃ t', t.write id x = .ok t' ∧
    t'.rows = Rows.update Debt.id id (fun d => { d with amount := x }) t.rows ∧ t'.generated = t.generated := by
  have hRound := env.column.round_of_mem x h.stored
  have hFits : env.column.fits (env.column.round x) = true := by
    rw [hRound]
    exact h.fits
  have hPositive : 0 < env.column.round x := by
    rw [hRound]
    exact h.positive
  obtain ⟨t', hWrite⟩ := (@write_eq_ok_iff _ t id _).mpr ⟨hFits, hPositive⟩
  obtain ⟨hRows, hGenerated, _⟩ := rows_of_write hWrite
  rw [hRound] at hRows
  exact ⟨t', hWrite, hRows, hGenerated⟩

/-- Writes of one amount for each identifier. -/
theorem foldlM_write {updates : List (Uuid × Amount)} {amount : Uuid → Amount}
    (hUpdates : ∀ u ∈ updates, u.2 = amount u.1 ∧ Storable env u.2) (t : DebtTable env) :
    ∃ t', updates.foldlM (fun t u => t.write u.1 u.2) t = .ok t' ∧
      t'.rows = t.rows.map (fun d =>
        if d.id ∈ updates.map Prod.fst then { d with amount := amount d.id } else d) ∧
      t'.generated = t.generated := by
  induction updates generalizing t with
  | nil => exact ⟨t, rfl, by simp, rfl⟩
  | cons u rest ih =>
      obtain ⟨hAmount, hStorable⟩ := hUpdates u List.mem_cons_self
      obtain ⟨t₁, hWrite, hRows₁, hGenerated₁⟩ := @write_storable _ t u.1 _ hStorable
      obtain ⟨t', hRest, hRows, hGenerated⟩ := ih (fun v hv => hUpdates v (List.mem_cons_of_mem _ hv)) t₁
      refine ⟨t', ?_, ?_, hGenerated.trans hGenerated₁⟩
      · rw [List.foldlM_cons, hWrite]
        exact hRest
      · rw [hRows, hRows₁, Rows.update, List.map_map]
        refine List.map_congr_left fun d _ => ?_
        rw [Function.comp_apply, List.map_cons]
        by_cases hId : d.id = u.1
        · have hIn : d.id ∈ u.1 :: rest.map Prod.fst := hId ▸ List.mem_cons_self
          rw [if_pos hId, if_pos hIn, hAmount, ← hId]
          split
          · rfl
          · rfl
        · have hIff : d.id ∈ u.1 :: rest.map Prod.fst ↔ d.id ∈ rest.map Prod.fst := by
            rw [List.mem_cons, or_iff_right hId]
          rw [if_neg hId]
          simp only [hIff]

/-- A debt table is determined by its rows and its number of issued ids. -/
theorem eq_of_rows (hRows : t'.rows = t.rows) (hGenerated : t'.generated = t.generated) : t' = t := by
  cases t
  cases t'
  cases hRows
  cases hGenerated
  rfl

/-- What is left of every row, or nothing. -/
def keep (left : Debt → Amount) (d : Debt) : Option Debt :=
  if 0 < left d then some { d with amount := left d } else none

/-- A flush that leaves an amount of every row: rows of which nothing is left are
deleted, rows of which less is left are written. -/
theorem flush_eq {changes : RowChanges} {left : Debt → Amount} (t : DebtTable env)
    (hUpdates : ∀ u ∈ changes.updates, ∃ d ∈ t.rows, d.id = u.1 ∧ u.2 = left d ∧ Storable env u.2)
    (hDeletes : ∀ d ∈ t.rows, d.id ∈ changes.deletes ↔ ¬0 < left d)
    (hKept : ∀ d ∈ t.rows, 0 < left d → d.id ∉ changes.updates.map Prod.fst → left d = d.amount) :
    ∃ t', t.flush changes = .ok t' ∧ t'.rows = t.rows.filterMap (keep left) ∧ t'.generated = t.generated := by
  obtain ⟨t₁, hWrites, hRows₁, hGenerated₁⟩ := @foldlM_write _ changes.updates
    (fun id => ((t.rows.find? (·.id = id)).map left).getD 0) (by
      intro u hu
      obtain ⟨d, hd, hId, hLeft, hStorable⟩ := hUpdates u hu
      refine ⟨?_, hStorable⟩
      rw [(Rows.find?_eq_some_iff t.id_unique).mpr ⟨hd, hId⟩]
      exact hLeft) t
  obtain ⟨hRows, hGenerated⟩ := foldl_delete_rows t₁ changes.deletes
  refine ⟨changes.deletes.foldl DebtTable.delete t₁, ?_, ?_, hGenerated.trans hGenerated₁⟩
  · rw [flush, hWrites]
    rfl
  · rw [hRows, hRows₁, List.filter_map, ← List.filterMap_eq_map, List.filterMap_filter]
    refine List.filterMap_congr fun d hd => ?_
    have hFound : t.rows.find? (fun other => decide (other.id = d.id)) = some d :=
      (Rows.find?_eq_some_iff t.id_unique).mpr ⟨hd, rfl⟩
    have hSameId : (if d.id ∈ changes.updates.map Prod.fst then
        { d with amount := ((t.rows.find? (·.id = d.id)).map left).getD 0 } else d).id = d.id := by
      split
      · rfl
      · rfl
    by_cases hLeft : 0 < left d
    · have hNot : d.id ∉ changes.deletes := fun h => (hDeletes d hd).mp h hLeft
      rw [keep, if_pos hLeft]
      simp only [Function.comp_apply, hSameId, hNot, not_false_eq_true, decide_true, if_true]
      congr 1
      split
      · rw [hFound]
        rfl
      · next hKeep =>
          rw [hKept d hd hLeft hKeep]
    · have hIn : d.id ∈ changes.deletes := (hDeletes d hd).mpr hLeft
      rw [keep, if_neg hLeft]
      simp [hSameId, hIn]

end DebtTable

end Flush

section NetEffect

variable {t t' : DebtTable env} {order : ReadOrder}

/-- Two debts have the same edge exactly when they have the same key. -/
theorem edge_eq_iff {d d' : Debt} : d.edge = d'.edge ↔ d.key = d'.key := by
  simp only [Debt.edge, Debt.key, Prod.mk.injEq]
  tauto

/-- Two pairs have the same least and greatest members exactly when they are equal up to
their order. -/
theorem min_max_eq_iff {a b a' b' : Nat} :
    (min a b = min a' b' ∧ max a b = max a' b') ↔ (a = a' ∧ b = b') ∨ (a = b' ∧ b = a') := by
  omega

/-- Two edges have the same pair when they are the same or opposite. -/
theorem undirected_eq_iff {edge edge' : Uuid × Uuid × Uuid} :
    undirected edge = undirected edge' ↔ edge = edge' ∨ edge = (edge'.1, edge'.2.2, edge'.2.1) := by
  obtain ⟨e, a, b⟩ := edge
  obtain ⟨e', a', b'⟩ := edge'
  simp only [undirected, Prod.mk.injEq, min_max_eq_iff]
  tauto

/-- The edges of the rows that are read are all different. -/
theorem nodup_edges (order : ReadOrder) (t : DebtTable env) :
    (((order.debts t.rows).map fun d => (d.edge, d)).map Prod.fst).Nodup := by
  rw [List.map_map]
  refine List.Nodup.map_on (fun d hd d' hd' hSame => ?_)
    ((order.debts_perm t.rows).nodup_iff.mpr (List.Nodup.of_map _ t.id_unique))
  exact Rows.eq_of_column t.key_unique ((order.debts_perm t.rows).mem_iff.mp hd)
    ((order.debts_perm t.rows).mem_iff.mp hd') (edge_eq_iff.mp hSame)

/-- `by_key` finds the row of an edge. -/
theorem byKey_eq_some_iff {edge : Uuid × Uuid × Uuid} {d : Debt} :
    (Dict.ofList ((order.debts t.rows).map fun d => (d.edge, d))).get? edge = some d ↔
      d ∈ t.rows ∧ d.edge = edge := by
  rw [Dict.get?_ofList_eq_some_iff (nodup_edges order t), List.mem_map]
  constructor
  · rintro ⟨other, hOther, hEq⟩
    cases hEq
    exact ⟨(order.debts_perm t.rows).mem_iff.mp hOther, rfl⟩
  · rintro ⟨hd, rfl⟩
    exact ⟨d, (order.debts_perm t.rows).mem_iff.mpr hd, rfl⟩

/-- What the other direction leaves of a debt. -/
def netLeft (t : DebtTable env) (d : Debt) : Amount := d.amount - t.owed d.creditorId d.debtorId d.equivalentId

/-- Netting a pair updates the larger of its two debts, to the difference. -/
theorem mem_netPair_updates {dAb dBa : Debt} {changes : RowChanges} {u : Uuid × Amount} :
    u ∈ (netPair dAb dBa changes).updates ↔ u ∈ changes.updates ∨
      (dBa.amount < dAb.amount ∧ u = (dAb.id, dAb.amount - dBa.amount)) ∨
      (dAb.amount < dBa.amount ∧ u = (dBa.id, dBa.amount - dAb.amount)) := by
  rcases lt_trichotomy dAb.amount dBa.amount with hLess | hEq | hMore
  · simp [netPair, hLess.ne, hLess, hLess.not_gt]
  · simp [netPair, hEq]
  · simp [netPair, hMore.ne', hMore, hMore.not_gt]

/-- Netting a pair deletes its smaller debt, or both when they are equal. -/
theorem mem_netPair_deletes {dAb dBa : Debt} {changes : RowChanges} {id : Uuid} :
    id ∈ (netPair dAb dBa changes).deletes ↔ id ∈ changes.deletes ∨
      (dAb.amount ≤ dBa.amount ∧ id = dAb.id) ∨ (dBa.amount ≤ dAb.amount ∧ id = dBa.id) := by
  rcases lt_trichotomy dAb.amount dBa.amount with hLess | hEq | hMore
  · simp [netPair, hLess.ne, hLess.le, hLess.not_gt, hLess.not_ge]
  · simp [netPair, hEq]
  · simp [netPair, hMore.ne', hMore, hMore.le, hMore.not_ge]

/-- The loop of the netting after some rows: the pairs it has seen, and for the
rows of these pairs the change that leaves what the other direction leaves. -/
structure Netting.Nets (t : DebtTable env) (done : List Debt) (s : Netting) : Prop where
  pairs : ∀ pair, pair ∈ s.processedPairs ↔
    ∃ d ∈ done, undirected d.edge = pair ∧ t.owed d.creditorId d.debtorId d.equivalentId ≠ 0
  updates : ∀ u ∈ s.changes.updates, ∃ d ∈ t.rows, d.id = u.1 ∧ u.2 = netLeft t d ∧ 0 < netLeft t d
  updated : ∀ d ∈ t.rows, undirected d.edge ∈ s.processedPairs → 0 < netLeft t d →
    d.id ∈ s.changes.updates.map Prod.fst
  deletes : ∀ d ∈ t.rows, d.id ∈ s.changes.deletes ↔ undirected d.edge ∈ s.processedPairs ∧ ¬0 < netLeft t d

/-- Before the first row nothing is netted. -/
theorem Netting.Nets.start (t : DebtTable env) : Netting.Nets t [] Netting.start where
  pairs pair := by simp [Netting.start]
  updates u hu := absurd hu List.not_mem_nil
  updated d _ hd := absurd hd List.not_mem_nil
  deletes d _ := by simp [Netting.start]

/-- A pair that was seen before, or that has one direction only. -/
theorem Netting.Nets.skip {s : Netting} {done : List Debt} {d : Debt} (h : s.Nets t done)
    (hSkip : t.owed d.creditorId d.debtorId d.equivalentId ≠ 0 → undirected d.edge ∈ s.processedPairs) :
    s.Nets t (done ++ [d]) := by
  refine ⟨fun pair => ?_, h.updates, h.updated, h.deletes⟩
  rw [h.pairs]
  constructor
  · rintro ⟨other, hOther, hRest⟩
    exact ⟨other, List.mem_append_left _ hOther, hRest⟩
  · rintro ⟨other, hOther, rfl, hOwed⟩
    rcases List.mem_append.mp hOther with hOld | hNew
    · exact ⟨other, hOld, rfl, hOwed⟩
    · rw [List.mem_singleton.mp hNew] at hOwed ⊢
      exact (h.pairs _).mp (hSkip hOwed)

/-- A pair with both directions. -/
theorem Netting.Nets.pair {s : Netting} {done : List Debt} {dAb dBa : Debt} (h : s.Nets t done)
    (hAb : dAb ∈ t.rows) (hBa : dBa ∈ t.rows)
    (hEdge : dBa.edge = (dAb.equivalentId, dAb.creditorId, dAb.debtorId))
    (hNew : undirected dAb.edge ∉ s.processedPairs) :
    Netting.Nets t (done ++ [dAb])
      { processedPairs := undirected dAb.edge :: s.processedPairs
        affectedEquivalentIds := dAb.equivalentId :: s.affectedEquivalentIds
        nettedPairs := s.nettedPairs + 1
        changes := netPair dAb dBa s.changes } := by
  simp only [Debt.edge, Prod.mk.injEq] at hEdge
  have hOwedBa : t.owed dAb.creditorId dAb.debtorId dAb.equivalentId = dBa.amount :=
    DebtTable.owed_of_mem hBa (by simp [Debt.key, hEdge])
  have hOwedAb : t.owed dBa.creditorId dBa.debtorId dBa.equivalentId = dAb.amount :=
    DebtTable.owed_of_mem hAb (by simp [Debt.key, hEdge])
  have hLeftAb : netLeft t dAb = dAb.amount - dBa.amount := by rw [netLeft, hOwedBa]
  have hLeftBa : netLeft t dBa = dBa.amount - dAb.amount := by rw [netLeft, hOwedAb]
  -- the rows of the pair are these two
  have hRows : ∀ d ∈ t.rows, undirected d.edge = undirected dAb.edge ↔ d = dAb ∨ d = dBa := by
    intro d hd
    rw [undirected_eq_iff]
    constructor
    · rintro (hSame | hOpposite)
      · exact Or.inl (Rows.eq_of_column t.key_unique hd hAb (edge_eq_iff.mp hSame))
      · refine Or.inr (Rows.eq_of_column t.key_unique hd hBa (edge_eq_iff.mp (hOpposite.trans ?_)))
        simp [Debt.edge, hEdge]
    · rintro (rfl | rfl)
      · exact Or.inl rfl
      · exact Or.inr (by simp [Debt.edge, hEdge])
  have hId : ∀ d ∈ t.rows, ∀ d' ∈ t.rows, d.id = d'.id → d = d' := fun d hd d' hd' hSame =>
    Rows.eq_of_column t.id_unique hd hd' hSame
  refine ⟨fun pair => ?_, fun u hu => ?_, fun d hd hPair hLeft => ?_, fun d hd => ?_⟩
  · rw [List.mem_cons, h.pairs]
    constructor
    · rintro (rfl | ⟨other, hOther, hRest⟩)
      · refine ⟨dAb, List.mem_append_right _ (List.mem_singleton_self _), rfl, ?_⟩
        rw [hOwedBa]
        exact (t.amount_positive dBa hBa).ne'
      · exact ⟨other, List.mem_append_left _ hOther, hRest⟩
    · rintro ⟨other, hOther, hSame, hOwed⟩
      rcases List.mem_append.mp hOther with hOld | hLast
      · exact Or.inr ⟨other, hOld, hSame, hOwed⟩
      · rw [List.mem_singleton.mp hLast] at hSame
        exact Or.inl hSame.symm
  · rcases mem_netPair_updates.mp hu with hOld | ⟨hLess, rfl⟩ | ⟨hLess, rfl⟩
    · exact h.updates u hOld
    · exact ⟨dAb, hAb, rfl, hLeftAb.symm, hLeftAb ▸ sub_pos.mpr hLess⟩
    · exact ⟨dBa, hBa, rfl, hLeftBa.symm, hLeftBa ▸ sub_pos.mpr hLess⟩
  · rcases List.mem_cons.mp hPair with hSame | hOld
    · rcases (hRows d hd).mp hSame with rfl | rfl
      · rw [hLeftAb, sub_pos] at hLeft
        exact List.mem_map_of_mem (mem_netPair_updates.mpr (Or.inr (Or.inl ⟨hLeft, rfl⟩)))
      · rw [hLeftBa, sub_pos] at hLeft
        exact List.mem_map_of_mem (mem_netPair_updates.mpr (Or.inr (Or.inr ⟨hLeft, rfl⟩)))
    · obtain ⟨u, hu, hFst⟩ := List.mem_map.mp (h.updated d hd hOld hLeft)
      exact List.mem_map.mpr ⟨u, mem_netPair_updates.mpr (Or.inl hu), hFst⟩
  · rw [mem_netPair_deletes, h.deletes d hd, List.mem_cons, hRows d hd]
    constructor
    · rintro (⟨hOld, hLeft⟩ | ⟨hLe, hSame⟩ | ⟨hLe, hSame⟩)
      · exact ⟨Or.inr hOld, hLeft⟩
      · rw [hId d hd dAb hAb hSame, hLeftAb, sub_pos]
        exact ⟨Or.inl (Or.inl rfl), hLe.not_gt⟩
      · rw [hId d hd dBa hBa hSame, hLeftBa, sub_pos]
        exact ⟨Or.inl (Or.inr rfl), hLe.not_gt⟩
    · rintro ⟨(rfl | rfl) | hOld, hLeft⟩
      · rw [hLeftAb, sub_pos] at hLeft
        exact Or.inr (Or.inl ⟨not_lt.mp hLeft, rfl⟩)
      · rw [hLeftBa, sub_pos] at hLeft
        exact Or.inr (Or.inr ⟨not_lt.mp hLeft, rfl⟩)
      · exact Or.inl ⟨hOld, hLeft⟩

/-- One round of the netting loop skips self-loops, processed pairs and debts without a
counterpart, and nets all other pairs. -/
theorem netStep_eq (byKey : Dict (Uuid × Uuid × Uuid) Debt) (s : Netting) (d : Debt) :
    netStep byKey s (d.edge, d) =
      if d.debtorId = d.creditorId then s
      else if undirected d.edge ∈ s.processedPairs then s
      else match byKey.get? (d.equivalentId, d.creditorId, d.debtorId) with
        | none => s
        | some dBa =>
            { processedPairs := undirected d.edge :: s.processedPairs
              affectedEquivalentIds := d.equivalentId :: s.affectedEquivalentIds
              nettedPairs := s.nettedPairs + 1
              changes := netPair d dBa s.changes } := rfl

/-- The loop body on a loaded row. -/
theorem Netting.Nets.step {s : Netting} {done : List Debt} {d : Debt} (h : s.Nets t done) (hd : d ∈ t.rows) :
    Netting.Nets t (done ++ [d])
      (netStep (Dict.ofList ((order.debts t.rows).map fun d => (d.edge, d))) s (d.edge, d)) := by
  rw [netStep_eq, if_neg (t.no_self_loop d hd)]
  split
  · next hSeen => exact h.skip fun _ => hSeen
  · next hNew =>
      split
      · next hNone =>
          refine h.skip fun hOwed => ?_
          rcases t.owed_cases d.creditorId d.debtorId d.equivalentId with hZero | ⟨other, hOther, hKey, _⟩
          · exact absurd hZero hOwed
          · have hEdge : other.edge = (d.equivalentId, d.creditorId, d.debtorId) := by
              simp only [Debt.key, Prod.mk.injEq] at hKey
              simp [Debt.edge, hKey]
            have hSome := (@byKey_eq_some_iff _ _ order _ _).mpr ⟨hOther, hEdge⟩
            exact absurd (hSome.symm.trans hNone) (by simp)
      · next dBa hSome =>
          obtain ⟨hBa, hEdge⟩ := byKey_eq_some_iff.mp hSome
          exact h.pair hd hBa hEdge hNew

/-- The loop nets every pair of rows, in whatever order they are read. -/
theorem nettingLoop_nets (order : ReadOrder) (t : DebtTable env) :
    ∃ done, (nettingLoop order t).Nets t done ∧ ∀ d ∈ t.rows, d ∈ done := by
  have hFold : ∀ (entries : List ((Uuid × Uuid × Uuid) × Debt)) (done : List Debt) (s : Netting),
      (∀ entry ∈ entries, entry.2 ∈ t.rows ∧ entry.2.edge = entry.1) → s.Nets t done →
      Netting.Nets t (done ++ entries.map Prod.snd)
        (entries.foldl (netStep (Dict.ofList ((order.debts t.rows).map fun d => (d.edge, d)))) s) := by
    intro entries
    induction entries with
    | nil =>
        intro done s _ h
        simpa using h
    | cons entry rest ih =>
        intro done s hRows h
        obtain ⟨hd, hEdge⟩ := hRows entry List.mem_cons_self
        have hStep := @Netting.Nets.step _ _ order _ _ _ h hd
        rw [hEdge] at hStep
        have hRest := ih _ _ (fun other hOther => hRows other (List.mem_cons_of_mem _ hOther)) hStep
        rwa [List.append_assoc] at hRest
  have hItems : ∀ entry ∈ (Dict.ofList ((order.debts t.rows).map fun d => (d.edge, d))).items,
      entry.2 ∈ t.rows ∧ entry.2.edge = entry.1 := fun entry hEntry =>
    byKey_eq_some_iff.mp (Dict.get?_eq_some_iff.mpr hEntry)
  refine ⟨_, hFold _ [] .start hItems (Netting.Nets.start t), fun d hd => ?_⟩
  have hEntry := Dict.get?_eq_some_iff.mp ((@byKey_eq_some_iff _ _ order _ _).mpr ⟨hd, rfl⟩)
  exact List.mem_map_of_mem hEntry

/-- What is left of a debt fits the column. -/
theorem storable_netLeft {d : Debt} (hd : d ∈ t.rows) (hLeft : 0 < netLeft t d) :
    DebtTable.Storable env (netLeft t d) where
  stored := env.column.grid.sub_mem (t.stored d hd) (t.owed_mem_grid _ _ _)
  fits := by
    refine env.column.fits_of_abs_le _ d.amount ?_ (t.amount_fits d hd)
    have hOwed := t.owed_nonneg d.creditorId d.debtorId d.equivalentId
    rw [abs_of_pos hLeft, abs_of_pos (t.amount_positive d hd), netLeft]
    linarith
  positive := hLeft

/-- `repair_net_mutual_debts` leaves of every debt what the other direction leaves. -/
theorem repairNetMutualDebts_eq (order : ReadOrder) (t : DebtTable env) :
    ∃ t' report, repairNetMutualDebts order t = .ok (t', report) ∧
      t'.rows = t.rows.filterMap (DebtTable.keep (netLeft t)) ∧ t'.generated = t.generated := by
  obtain ⟨done, h, hDone⟩ := nettingLoop_nets order t
  have hSeen : ∀ d ∈ t.rows, t.owed d.creditorId d.debtorId d.equivalentId ≠ 0 →
      undirected d.edge ∈ (nettingLoop order t).processedPairs := fun d hd hOwed =>
    (h.pairs _).mpr ⟨d, hDone d hd, rfl, hOwed⟩
  obtain ⟨t', hFlush, hRows, hGenerated⟩ := @DebtTable.flush_eq _ (nettingLoop order t).changes
    (netLeft t) t
    (fun u hu => by
      obtain ⟨d, hd, hId, hLeft, hPos⟩ := h.updates u hu
      exact ⟨d, hd, hId, hLeft, hLeft ▸ storable_netLeft hd hPos⟩)
    (fun d hd => by
      rw [h.deletes d hd]
      refine ⟨fun hBoth => hBoth.2, fun hLeft => ⟨hSeen d hd fun hZero => hLeft ?_, hLeft⟩⟩
      rw [netLeft, hZero, sub_zero]
      exact t.amount_positive d hd)
    (fun d hd hLeft hKept => by
      by_cases hOwed : t.owed d.creditorId d.debtorId d.equivalentId = 0
      · rw [netLeft, hOwed, sub_zero]
      · exact absurd (h.updated d hd (hSeen d hd hOwed) hLeft) hKept)
  refine ⟨t', (nettingLoop order t).report t, ?_, hRows, hGenerated⟩
  simp only [repairNetMutualDebts, hFlush]
  rfl

end NetEffect

section CapEffect

variable {tl : TrustTable env} {t t' : DebtTable env} {order : ReadOrder}

/-- `limit_by_edge` holds the limits of the active lines. -/
theorem limitByEdge_eq (order : ReadOrder) (tl : TrustTable env) (d : Debt) :
    (limitByEdge order tl).getD d.edge 0 = tl.limit d.creditorId d.debtorId d.equivalentId := by
  have hMem : ∀ l, l ∈ order.trustLines (tl.rows.filter (·.status = .active)) ↔ l ∈ tl.rows ∧ l.status = .active := by
    intro l
    rw [(order.trustLines_perm _).mem_iff, List.mem_filter, decide_eq_true_eq]
  have hUnique : (((order.trustLines (tl.rows.filter (·.status = .active))).map fun l =>
      ((l.equivalentId, l.toParticipantId, l.fromParticipantId), l.limit)).map Prod.fst).Nodup := by
    rw [List.map_map]
    refine List.Nodup.map_on (fun l hl l' hl' hSame => ?_) ((order.trustLines_perm _).nodup_iff.mpr
      ((List.Nodup.of_map _ tl.id_unique).filter _))
    obtain ⟨hRow, hActive⟩ := (hMem l).mp hl
    obtain ⟨hRow', hActive'⟩ := (hMem l').mp hl'
    simp only [Function.comp_apply, Prod.mk.injEq] at hSame
    exact TrustTable.eq_of_live hRow hRow' (by simp [hActive]) (by simp [hActive'])
      (by simp [TrustLine.key, hSame])
  have hEntry : ∀ x, (d.edge, x) ∈ ((order.trustLines (tl.rows.filter (·.status = .active))).map fun l =>
      ((l.equivalentId, l.toParticipantId, l.fromParticipantId), l.limit)) ↔
      ∃ l ∈ tl.rows, l.status = .active ∧ l.key = (d.creditorId, d.debtorId, d.equivalentId) ∧ l.limit = x := by
    intro x
    rw [List.mem_map]
    constructor
    · rintro ⟨l, hl, hEq⟩
      simp only [Debt.edge, Prod.mk.injEq] at hEq
      obtain ⟨hRow, hActive⟩ := (hMem l).mp hl
      exact ⟨l, hRow, hActive, by simp [TrustLine.key, hEq], hEq.2⟩
    · rintro ⟨l, hRow, hActive, hKey, rfl⟩
      simp only [TrustLine.key, Prod.mk.injEq] at hKey
      exact ⟨l, (hMem l).mpr ⟨hRow, hActive⟩, by simp [Debt.edge, hKey]⟩
  rw [limitByEdge, Dict.getD]
  rcases tl.limit_cases d.creditorId d.debtorId d.equivalentId with hZero | ⟨l, hRow, hActive, hKey, hLimit⟩
  · cases hGet : (Dict.ofList ((order.trustLines (tl.rows.filter (·.status = .active))).map fun l =>
        ((l.equivalentId, l.toParticipantId, l.fromParticipantId), l.limit))).get? d.edge with
    | none => exact hZero.symm
    | some x =>
        obtain ⟨l, hRow, hActive, hKey, rfl⟩ := (hEntry x).mp ((Dict.get?_ofList_eq_some_iff hUnique).mp hGet)
        exact (TrustTable.limit_of_active hRow hActive hKey).symm
  · rw [(Dict.get?_ofList_eq_some_iff hUnique).mpr ((hEntry l.limit).mpr ⟨l, hRow, hActive, hKey, rfl⟩), hLimit]
    rfl

/-- A positive limit may be stored as the amount of a debt. -/
theorem storable_limit {a b e : Uuid} (h : 0 < tl.limit a b e) : DebtTable.Storable env (tl.limit a b e) := by
  rcases tl.limit_cases a b e with hZero | ⟨l, hRow, _, _, hLimit⟩
  · exact absurd hZero h.ne'
  · rw [hLimit] at h ⊢
    exact ⟨tl.stored l hRow, tl.limit_fits l hRow, h⟩

/-- What the limit leaves of a debt. -/
def capLeft (tl : TrustTable env) (d : Debt) : Amount :=
  let limit := tl.limit d.creditorId d.debtorId d.equivalentId
  if d.amount ≤ limit + limitTolerance then d.amount else if limit ≤ limitTolerance then 0 else limit

/-- The loop of the capping after some rows. -/
structure Capping.Caps (tl : TrustTable env) (done : List Debt) (s : Capping) : Prop where
  updates : ∀ u ∈ s.changes.updates, ∃ d ∈ done, d.id = u.1 ∧ u.2 = capLeft tl d ∧
    u.2 = tl.limit d.creditorId d.debtorId d.equivalentId ∧ 0 < u.2
  updated : ∀ d ∈ done, 0 < capLeft tl d → capLeft tl d ≠ d.amount → d.id ∈ s.changes.updates.map Prod.fst
  deletes : ∀ id, id ∈ s.changes.deletes ↔ ∃ d ∈ done, d.id = id ∧ capLeft tl d = 0

theorem limitTolerance_pos : 0 < limitTolerance := by norm_num [limitTolerance]

/-- One round of the capping loop caps one more row. -/
theorem Capping.Caps.step {s : Capping} {done : List Debt} {d : Debt} (h : s.Caps tl done) (hPos : 0 < d.amount) :
    Capping.Caps tl (done ++ [d]) (capStep (limitByEdge order tl) s d) := by
  have hTol := limitTolerance_pos
  simp only [capStep, limitByEdge_eq]
  split
  · next hWithin =>
      have hLeft : capLeft tl d = d.amount := by rw [capLeft, if_pos hWithin]
      refine ⟨fun u hu => ?_, fun other hOther hPositive hChanged => ?_, fun id => ?_⟩
      · obtain ⟨other, hOther, hRest⟩ := h.updates u hu
        exact ⟨other, List.mem_append_left _ hOther, hRest⟩
      · rcases List.mem_append.mp hOther with hOld | hNew
        · exact h.updated other hOld hPositive hChanged
        · rw [List.mem_singleton.mp hNew] at hChanged
          exact absurd hLeft hChanged
      · rw [h.deletes]
        constructor
        · rintro ⟨other, hOther, hRest⟩
          exact ⟨other, List.mem_append_left _ hOther, hRest⟩
        · rintro ⟨other, hOther, hId, hZero⟩
          rcases List.mem_append.mp hOther with hOld | hNew
          · exact ⟨other, hOld, hId, hZero⟩
          · rw [List.mem_singleton.mp hNew, hLeft] at hZero
            exact absurd hZero hPos.ne'
  · next hOver =>
      split
      · next hNone =>
          have hLeft : capLeft tl d = 0 := by
            rw [capLeft]
            simp only [if_neg hOver, if_pos hNone]
          refine ⟨fun u hu => ?_, fun other hOther hPositive hChanged => ?_, fun id => ?_⟩
          · obtain ⟨other, hOther, hRest⟩ := h.updates u hu
            exact ⟨other, List.mem_append_left _ hOther, hRest⟩
          · rcases List.mem_append.mp hOther with hOld | hNew
            · exact h.updated other hOld hPositive hChanged
            · rw [List.mem_singleton.mp hNew, hLeft] at hPositive
              exact absurd hPositive (lt_irrefl 0)
          · rw [List.mem_append, h.deletes, List.mem_singleton]
            constructor
            · rintro (⟨other, hOther, hRest⟩ | rfl)
              · exact ⟨other, List.mem_append_left _ hOther, hRest⟩
              · exact ⟨d, List.mem_append_right _ (List.mem_singleton_self d), rfl, hLeft⟩
            · rintro ⟨other, hOther, hId, hZero⟩
              rcases List.mem_append.mp hOther with hOld | hNew
              · exact Or.inl ⟨other, hOld, hId, hZero⟩
              · exact Or.inr (List.mem_singleton.mp hNew ▸ hId.symm)
      · next hSome =>
          have hLeft : capLeft tl d = tl.limit d.creditorId d.debtorId d.equivalentId := by
            rw [capLeft]
            simp only [if_neg hOver, if_neg hSome]
          have hLimit : 0 < tl.limit d.creditorId d.debtorId d.equivalentId := hTol.trans (not_le.mp hSome)
          refine ⟨fun u hu => ?_, fun other hOther hPositive hChanged => ?_, fun id => ?_⟩
          · rcases List.mem_append.mp hu with hOld | hNew
            · obtain ⟨other, hOther, hRest⟩ := h.updates u hOld
              exact ⟨other, List.mem_append_left _ hOther, hRest⟩
            · rw [List.mem_singleton.mp hNew]
              exact ⟨d, List.mem_append_right _ (List.mem_singleton_self d), rfl, hLeft.symm, rfl, hLimit⟩
          · rw [List.map_append, List.mem_append]
            rcases List.mem_append.mp hOther with hOld | hNew
            · exact Or.inl (h.updated other hOld hPositive hChanged)
            · rw [List.mem_singleton.mp hNew]
              exact Or.inr (List.mem_singleton_self _)
          · rw [h.deletes]
            constructor
            · rintro ⟨other, hOther, hRest⟩
              exact ⟨other, List.mem_append_left _ hOther, hRest⟩
            · rintro ⟨other, hOther, hId, hZero⟩
              rcases List.mem_append.mp hOther with hOld | hNew
              · exact ⟨other, hOld, hId, hZero⟩
              · rw [List.mem_singleton.mp hNew, hLeft] at hZero
                exact absurd hZero hLimit.ne'

/-- The loop caps every row that it reads. -/
theorem capDebts_caps (order : ReadOrder) (tl : TrustTable env) (t : DebtTable env) :
    (capDebts order tl t).Caps tl (order.debts t.rows) := by
  have hFold : ∀ (rest done : List Debt) (s : Capping), (∀ d ∈ rest, 0 < d.amount) → s.Caps tl done →
      Capping.Caps tl (done ++ rest) (rest.foldl (capStep (limitByEdge order tl)) s) := by
    intro rest
    induction rest with
    | nil =>
        intro done s _ h
        simpa using h
    | cons d rest ih =>
        intro done s hPos h
        have hRest := ih _ _ (fun other hOther => hPos other (List.mem_cons_of_mem _ hOther))
          (@Capping.Caps.step _ _ order _ _ _ h (hPos d List.mem_cons_self))
        rwa [List.append_assoc] at hRest
  refine hFold (order.debts t.rows) [] ⟨[], [], []⟩ (fun d hd => ?_) ⟨?_, ?_, ?_⟩
  · exact t.amount_positive d ((order.debts_perm t.rows).mem_iff.mp hd)
  · simp
  · simp
  · simp

/-- `repair_cap_debts_to_trust_limits` leaves of every debt what its limit leaves. -/
theorem repairCapDebtsToTrustLimits_eq (order : ReadOrder) (tl : TrustTable env) (t : DebtTable env) :
    ∃ t' report, repairCapDebtsToTrustLimits order tl t = .ok (t', report) ∧
      t'.rows = t.rows.filterMap (DebtTable.keep (capLeft tl)) ∧ t'.generated = t.generated := by
  have h := capDebts_caps order tl t
  have hMem : ∀ d, d ∈ order.debts t.rows ↔ d ∈ t.rows := fun d => (order.debts_perm t.rows).mem_iff
  have hNonneg : ∀ d ∈ t.rows, 0 ≤ capLeft tl d := by
    intro d hd
    simp only [capLeft]
    split
    · exact (t.amount_positive d hd).le
    · split
      · exact le_rfl
      · exact tl.zero_le_limit _ _ _
  obtain ⟨t', hFlush, hRows, hGenerated⟩ := @DebtTable.flush_eq _ (capDebts order tl t).changes
    (capLeft tl) t
    (fun u hu => by
      obtain ⟨d, hd, hId, hLeft, hLimit, hPos⟩ := h.updates u hu
      rw [hLimit] at hPos
      exact ⟨d, (hMem d).mp hd, hId, hLeft, hLimit ▸ storable_limit hPos⟩)
    (fun d hd => by
      rw [h.deletes, not_lt]
      constructor
      · rintro ⟨other, hOther, hId, hZero⟩
        rw [Rows.eq_of_column t.id_unique ((hMem other).mp hOther) hd hId] at hZero
        exact hZero.le
      · exact fun hLe => ⟨d, (hMem d).mpr hd, rfl, le_antisymm hLe (hNonneg d hd)⟩)
    (fun d hd hPos hKept => by
      by_contra hChanged
      exact hKept (h.updated d ((hMem d).mpr hd) hPos hChanged))
  refine ⟨t', (capDebts order tl t).report t, ?_, hRows, hGenerated⟩
  simp only [repairCapDebtsToTrustLimits, hFlush]
  rfl

end CapEffect

section Amounts

variable {tl : TrustTable env} {t t' : DebtTable env} {left : Debt → Amount}

/-- The rows that are kept are those with something left, with what is left of them. -/
theorem mem_keep_iff {d : Debt} : d ∈ t.rows.filterMap (DebtTable.keep left) ↔
    ∃ old ∈ t.rows, 0 < left old ∧ d = { old with amount := left old } := by
  rw [List.mem_filterMap]
  refine exists_congr fun old => and_congr_right fun _ => ?_
  rw [DebtTable.keep]
  split
  · next hLeft =>
      rw [Option.some.injEq]
      exact ⟨fun h => ⟨hLeft, h.symm⟩, fun h => h.2.symm⟩
  · next hLeft => exact ⟨fun h => (nomatch h), fun h => absurd h.1 hLeft⟩

/-- The amount owed after a repair is what it leaves of the row. -/
theorem owed_keep (hRows : t'.rows = t.rows.filterMap (DebtTable.keep left)) {d : Debt} (hd : d ∈ t.rows) :
    t'.owed d.debtorId d.creditorId d.equivalentId = max 0 (left d) := by
  by_cases hLeft : 0 < left d
  · rw [max_eq_right hLeft.le]
    refine DebtTable.owed_of_mem (d := { d with amount := left d }) ?_ rfl
    rw [hRows]
    exact mem_keep_iff.mpr ⟨d, hd, hLeft, rfl⟩
  · rw [max_eq_left (not_lt.mp hLeft), DebtTable.owed_eq_zero_iff]
    intro other hOther hKey
    rw [hRows] at hOther
    obtain ⟨old, hOld, hPos, rfl⟩ := mem_keep_iff.mp hOther
    have hSame : old = d := Rows.eq_of_column t.key_unique hOld hd hKey
    exact hLeft (hSame ▸ hPos)

/-- Where nothing was owed, nothing is owed after a repair. -/
theorem owed_keep_of_zero (hRows : t'.rows = t.rows.filterMap (DebtTable.keep left)) {a b e : Uuid}
    (hZero : t.owed a b e = 0) : t'.owed a b e = 0 := by
  rw [DebtTable.owed_eq_zero_iff] at hZero ⊢
  intro other hOther hKey
  rw [hRows] at hOther
  obtain ⟨old, hOld, -, rfl⟩ := mem_keep_iff.mp hOther
  exact hZero old hOld hKey

/-- A repair that leaves everything changes nothing. -/
theorem keep_eq_self (h : ∀ d ∈ t.rows, left d = d.amount) : t.rows.filterMap (DebtTable.keep left) = t.rows := by
  refine (List.filterMap_congr fun d hd => ?_).trans List.filterMap_some
  rw [DebtTable.keep, h d hd, if_pos (t.amount_positive d hd)]

/-- After netting each side owes what it owed more than the other. -/
theorem owed_net (hRows : t'.rows = t.rows.filterMap (DebtTable.keep (netLeft t))) (a b e : Uuid) :
    t'.owed a b e = max 0 (t.owed a b e - t.owed b a e) := by
  rcases t.owed_cases a b e with hZero | ⟨d, hd, hKey, hOwed⟩
  · have hNonneg := t.owed_nonneg b a e
    rw [owed_keep_of_zero hRows hZero, hZero, max_eq_left (by linarith)]
  · simp only [Debt.key, Prod.mk.injEq] at hKey
    obtain ⟨rfl, rfl, rfl⟩ := hKey
    rw [owed_keep hRows hd, hOwed]
    rfl

/-- Values on the grid that differ by less than a quantum. -/
theorem le_of_le_add_tolerance {x y : Amount} (hx : x ∈ AmountColumn.numeric208.grid)
    (hy : y ∈ AmountColumn.numeric208.grid) (h : x ≤ y + limitTolerance) : x ≤ y := by
  obtain ⟨n, hn⟩ := Grid.mem_multiples_iff.mp (AmountColumn.numeric208.grid.sub_mem hx hy)
  by_contra hLess
  have hPos : 0 < (n : ℚ) * AmountColumn.storageQuantum := by
    rw [hn]
    linarith [not_le.mp hLess]
  have hOne : (1 : ℚ) ≤ n := by
    have hInt : (0 : ℚ) < n := (pos_iff_pos_of_mul_pos hPos).mpr AmountColumn.storageQuantum_pos
    exact_mod_cast hInt
  have hQuantum : AmountColumn.storageQuantum ≤ (n : ℚ) * AmountColumn.storageQuantum :=
    le_mul_of_one_le_left AmountColumn.storageQuantum_pos.le hOne
  rw [hn] at hQuantum
  have hTolerance : limitTolerance < AmountColumn.storageQuantum := by
    norm_num [limitTolerance, AmountColumn.storageQuantum]
  linarith

/-- A limit is an amount of the column. -/
theorem limit_mem_grid (tl : TrustTable env) (a b e : Uuid) : tl.limit a b e ∈ env.column.grid := by
  rcases tl.limit_cases a b e with hZero | ⟨l, hRow, _, _, hLimit⟩
  · rw [hZero]
    exact env.column.grid.zero_mem
  · rw [hLimit]
    exact tl.stored l hRow

/-- On the grid of the column the tolerance makes no difference. -/
theorem capLeft_eq (hColumn : env.column = .numeric208) {d : Debt} (hd : d ∈ t.rows) :
    capLeft tl d = min d.amount (tl.limit d.creditorId d.debtorId d.equivalentId) := by
  have hAmount : d.amount ∈ AmountColumn.numeric208.grid := hColumn ▸ t.stored d hd
  have hLimit : tl.limit d.creditorId d.debtorId d.equivalentId ∈ AmountColumn.numeric208.grid :=
    hColumn ▸ limit_mem_grid tl _ _ _
  have hNonneg := tl.zero_le_limit d.creditorId d.debtorId d.equivalentId
  simp only [capLeft]
  split
  · next hWithin => exact (min_eq_left (le_of_le_add_tolerance hAmount hLimit hWithin)).symm
  · next hOver =>
      have hTol := limitTolerance_pos
      have hLess : tl.limit d.creditorId d.debtorId d.equivalentId ≤ d.amount := by linarith [not_le.mp hOver]
      rw [min_eq_right hLess]
      split
      · next hNone =>
          have hZero := le_of_le_add_tolerance hLimit AmountColumn.numeric208.grid.zero_mem
            (hNone.trans (zero_add limitTolerance).ge)
          exact le_antisymm hNonneg hZero
      · rfl

/-- After capping each debt is the lesser of itself and the limit of its line. -/
theorem owed_cap (hColumn : env.column = .numeric208)
    (hRows : t'.rows = t.rows.filterMap (DebtTable.keep (capLeft tl))) (a b e : Uuid) :
    t'.owed a b e = min (t.owed a b e) (tl.limit b a e) := by
  have hNonneg := tl.zero_le_limit b a e
  rcases t.owed_cases a b e with hZero | ⟨d, hd, hKey, hOwed⟩
  · rw [owed_keep_of_zero hRows hZero, hZero, min_eq_left hNonneg]
  · simp only [Debt.key, Prod.mk.injEq] at hKey
    obtain ⟨rfl, rfl, rfl⟩ := hKey
    rw [owed_keep hRows hd, capLeft_eq hColumn hd, hOwed,
      max_eq_right (le_min (t.amount_positive d hd).le hNonneg)]

end Amounts

section Health

/-- No two participants owe each other in one equivalent. -/
def NoMutualDebts (t : DebtTable env) : Prop := ∀ a b e, t.owed a b e = 0 ∨ t.owed b a e = 0

/-- Every debt is within the limit of the active line. -/
def WithinLimits (tl : TrustTable env) (t : DebtTable env) : Prop := ∀ a b e, t.owed a b e ≤ tl.limit b a e

/-- Every row of a table was a row before, with at least this amount. -/
def OnlyReduces (t t' : DebtTable env) : Prop :=
  ∀ d ∈ t'.rows, ∃ old ∈ t.rows, d.amount ≤ old.amount ∧ d = { old with amount := d.amount }

/-- What netting does to the debts. -/
structure Nets (tl : TrustTable env) (t t' : DebtTable env) : Prop where
  noMutualDebts : NoMutualDebts t'
  netPosition : ∀ p e, t'.netPosition p e = t.netPosition p e
  reduces : OnlyReduces t t'
  untouched : ∀ d ∈ t.rows, t.owed d.creditorId d.debtorId d.equivalentId = 0 → d ∈ t'.rows
  withinLimits : WithinLimits tl t → WithinLimits tl t'

/-- What capping does to the debts. -/
structure Caps (tl : TrustTable env) (t t' : DebtTable env) : Prop where
  withinLimits : WithinLimits tl t'
  reduces : OnlyReduces t t'
  untouched : ∀ d ∈ t.rows, d.amount ≤ tl.limit d.creditorId d.debtorId d.equivalentId → d ∈ t'.rows
  noMutualDebts : NoMutualDebts t → NoMutualDebts t'

variable {tl : TrustTable env} {t t' : DebtTable env}

/-- A table that keeps of every debt what netting leaves is a netting of the old one. -/
theorem nets_of_rows (tl : TrustTable env) (hRows : t'.rows = t.rows.filterMap (DebtTable.keep (netLeft t))) :
    Nets tl t t' where
  noMutualDebts a b e := by
    rw [owed_net hRows, owed_net hRows]
    rcases le_total (t.owed a b e) (t.owed b a e) with hLe | hLe
    · exact Or.inl (max_eq_left (by linarith))
    · exact Or.inr (max_eq_left (by linarith))
  netPosition p e := by
    have hSub := @DebtTable.netPosition_sub _ t t' (t.participants ∪ t'.participants)
      Finset.subset_union_left Finset.subset_union_right p e
    refine sub_eq_zero.mp (hSub.trans (Finset.sum_eq_zero fun q _ => ?_))
    rw [owed_net hRows, owed_net hRows]
    rcases le_total (t.owed q p e) (t.owed p q e) with hLe | hLe
    · rw [max_eq_left (by linarith), max_eq_right (by linarith)]
      ring
    · rw [max_eq_right (by linarith), max_eq_left (by linarith)]
      ring
  reduces d hd := by
    rw [hRows] at hd
    obtain ⟨old, hOld, -, rfl⟩ := mem_keep_iff.mp hd
    have hOwed := t.owed_nonneg old.creditorId old.debtorId old.equivalentId
    exact ⟨old, hOld, by simp only [netLeft]; linarith, rfl⟩
  untouched d hd hZero := by
    have hLeft : netLeft t d = d.amount := by rw [netLeft, hZero, sub_zero]
    rw [hRows]
    exact mem_keep_iff.mpr ⟨d, hd, hLeft ▸ t.amount_positive d hd, by rw [hLeft]⟩
  withinLimits h a b e := by
    rw [owed_net hRows]
    exact max_le (tl.zero_le_limit b a e) (by linarith [h a b e, t.owed_nonneg b a e])

/-- A table that keeps of every debt what capping leaves is a capping of the old one. -/
theorem caps_of_rows (hColumn : env.column = .numeric208)
    (hRows : t'.rows = t.rows.filterMap (DebtTable.keep (capLeft tl))) : Caps tl t t' where
  withinLimits a b e := by
    rw [owed_cap hColumn hRows]
    exact min_le_right _ _
  reduces d hd := by
    rw [hRows] at hd
    obtain ⟨old, hOld, -, rfl⟩ := mem_keep_iff.mp hd
    refine ⟨old, hOld, ?_, rfl⟩
    rw [capLeft_eq hColumn hOld]
    exact min_le_left _ _
  untouched d hd hWithin := by
    have hLeft : capLeft tl d = d.amount := by rw [capLeft_eq hColumn hd, min_eq_left hWithin]
    rw [hRows]
    exact mem_keep_iff.mpr ⟨d, hd, hLeft ▸ t.amount_positive d hd, by rw [hLeft]⟩
  noMutualDebts h a b e := by
    rw [owed_cap hColumn hRows, owed_cap hColumn hRows]
    rcases h a b e with hZero | hZero
    · exact Or.inl (by rw [hZero, min_eq_left (tl.zero_le_limit b a e)])
    · exact Or.inr (by rw [hZero, min_eq_left (tl.zero_le_limit a b e)])

/-- Netting a table without mutual debts changes nothing. -/
theorem repairNetMutualDebts_self (order : ReadOrder) (h : NoMutualDebts t) :
    ∃ report, repairNetMutualDebts order t = .ok (t, report) := by
  obtain ⟨t', report, hRepair, hRows, hGenerated⟩ := repairNetMutualDebts_eq order t
  have hSelf : ∀ d ∈ t.rows, netLeft t d = d.amount := by
    intro d hd
    rcases h d.debtorId d.creditorId d.equivalentId with hZero | hZero
    · rw [DebtTable.owed_of_mem hd rfl] at hZero
      exact absurd hZero (t.amount_positive d hd).ne'
    · rw [netLeft, hZero, sub_zero]
  have hSame := DebtTable.eq_of_rows (hRows.trans (keep_eq_self hSelf)) hGenerated
  exact ⟨report, hSame ▸ hRepair⟩

/-- Capping a table within the limits changes nothing. -/
theorem repairCapDebtsToTrustLimits_self (hColumn : env.column = .numeric208) (order : ReadOrder)
    (h : WithinLimits tl t) : ∃ report, repairCapDebtsToTrustLimits order tl t = .ok (t, report) := by
  obtain ⟨t', report, hRepair, hRows, hGenerated⟩ := repairCapDebtsToTrustLimits_eq order tl t
  have hSelf : ∀ d ∈ t.rows, capLeft tl d = d.amount := by
    intro d hd
    have hWithin := h d.debtorId d.creditorId d.equivalentId
    rw [DebtTable.owed_of_mem hd rfl] at hWithin
    rw [capLeft_eq hColumn hd, min_eq_left hWithin]
  have hSame := DebtTable.eq_of_rows (hRows.trans (keep_eq_self hSelf)) hGenerated
  exact ⟨report, hSame ▸ hRepair⟩

/-- Debts within the limits and in one direction pass every check. -/
theorem checkpoint_passed (hLimits : WithinLimits tl t) (hMutual : NoMutualDebts t) (e : Uuid) :
    (computeIntegrityCheckpoint tl t e).passed = true := by
  have hTrust : trustLimitViolations tl t e [] = [] := by
    refine List.filter_eq_nil_iff.mpr fun d hd => ?_
    have hWithin := hLimits d.debtorId d.creditorId d.equivalentId
    rw [DebtTable.owed_of_mem hd rfl] at hWithin
    simp [hWithin]
  have hSymmetry : debtSymmetryViolations t e [] = [] := by
    refine List.filter_eq_nil_iff.mpr ?_
    rintro ⟨d, d'⟩ hPair
    obtain ⟨hd, hd'⟩ := List.mem_product.mp hPair
    simp only [decide_eq_true_eq]
    rintro ⟨hDebtor, hCreditor, hEquivalent, hPos, hPos', _⟩
    have hOwed : t.owed d.debtorId d.creditorId d.equivalentId = d.amount := DebtTable.owed_of_mem hd rfl
    have hOwed' : t.owed d.creditorId d.debtorId d.equivalentId = d'.amount :=
      DebtTable.owed_of_mem hd' (by simp [Debt.key, hDebtor, hCreditor, hEquivalent])
    rcases hMutual d.debtorId d.creditorId d.equivalentId with hZero | hZero
    · exact hPos.ne' (hOwed.symm.trans hZero)
    · exact hPos'.ne' (hOwed'.symm.trans hZero)
  simp [Checkpoint.passed, computeIntegrityCheckpoint, computeImbalance_eq_zero, hTrust, hSymmetry]

/-- Each repair restores its invariant, changes nothing else, and leaves nothing
to do for a second run; after both, in either order, every checkpoint passes. -/
theorem repairs_restore_health (hColumn : env.column = .numeric208) (order order' : ReadOrder)
    (tl : TrustTable env) (t : DebtTable env) :
    (∃ netted report, repairNetMutualDebts order t = .ok (netted, report) ∧ Nets tl t netted ∧
      (∃ report', repairNetMutualDebts order' netted = .ok (netted, report')) ∧
      ∃ healthy report', repairCapDebtsToTrustLimits order' tl netted = .ok (healthy, report') ∧
        ∀ e, (computeIntegrityCheckpoint tl healthy e).passed = true) ∧
    ∃ capped report, repairCapDebtsToTrustLimits order tl t = .ok (capped, report) ∧ Caps tl t capped ∧
      (∃ report', repairCapDebtsToTrustLimits order' tl capped = .ok (capped, report')) ∧
      ∃ healthy report', repairNetMutualDebts order' capped = .ok (healthy, report') ∧
        ∀ e, (computeIntegrityCheckpoint tl healthy e).passed = true := by
  constructor
  · obtain ⟨netted, report, hRepair, hRows, -⟩ := repairNetMutualDebts_eq order t
    have hNets := nets_of_rows tl hRows
    obtain ⟨healthy, report', hRepair', hRows', -⟩ := repairCapDebtsToTrustLimits_eq order' tl netted
    have hCaps := caps_of_rows hColumn hRows'
    exact ⟨netted, report, hRepair, hNets, repairNetMutualDebts_self order' hNets.noMutualDebts, healthy, report',
      hRepair', checkpoint_passed hCaps.withinLimits (hCaps.noMutualDebts hNets.noMutualDebts)⟩
  · obtain ⟨capped, report, hRepair, hRows, -⟩ := repairCapDebtsToTrustLimits_eq order tl t
    have hCaps := caps_of_rows hColumn hRows
    obtain ⟨healthy, report', hRepair', hRows', -⟩ := repairNetMutualDebts_eq order' capped
    have hNets := nets_of_rows tl hRows'
    exact ⟨capped, report, hRepair, hCaps, repairCapDebtsToTrustLimits_self hColumn order' hCaps.withinLimits,
      healthy, report', hRepair', checkpoint_passed (hNets.withinLimits hCaps.withinLimits) hNets.noMutualDebts⟩

/-- One participant owes seven and is owed five. -/
def mutualDebts : DebtTable (Env.sample .numeric208 true) :=
  let owing (t : DebtTable (Env.sample .numeric208 true)) (a b : Uuid) (amount : Amount) :=
    ((t.insert a b 1 amount).toOption).getD t
  owing (owing .empty 1 2 7) 2 1 5

/-- Netting leaves two of the seven; without a line nothing is allowed and capping
deletes what is left. -/
theorem repairs_restore_health_mutual :
    mutualDebts.rows.map (·.amount) = [7, 5] ∧
    ∃ netted report, repairNetMutualDebts .insertion mutualDebts = .ok (netted, report) ∧
      Nets (.empty : TrustTable (Env.sample .numeric208 true)) mutualDebts netted := by
  obtain ⟨⟨netted, report, hRepair, hNets, -⟩, -⟩ := @repairs_restore_health (Env.sample .numeric208 true) rfl
    .insertion .insertion .empty mutualDebts
  exact ⟨by decide +kernel, netted, report, hRepair, hNets⟩

end Health

end GeoLedger

import Mathlib
import GeoLedger.Clearing.Detection
import GeoLedger.Clearing.CycleEffect

/-! Soundness of the detection: whatever the graph, every cycle that
`find_cycles` returns is a simple closed cycle of debts that may be cleared,
and no set of debts is returned twice. -/
namespace GeoLedger
open Trails

variable {env : Env} {now : Time} {db : Db env} {e : Uuid} {maxDepth : ℤ} {scope : Option (List Uuid)}
  {cycle : List Debt} {cycles : List (List Debt)}

/-- A cycle that the detectors may propose: a circuit of debts of one equivalent,
inside the perimeter and not reserved. -/
structure Candidate (now : Time) (db : Db env) (e : Uuid) (maxDepth : ℤ) (scope : Option (List Uuid))
    (cycle : List Debt) : Prop where
  stored : ∀ d ∈ cycle, d ∈ db.debts.rows
  circuit : Circuit Debt.debtorId Debt.creditorId cycle
  equivalent : ∀ d ∈ cycle, d.equivalentId = e
  positive : ∀ d ∈ cycle, 0 < d.amount
  short : (cycle.length : ℤ) ≤ maxDepth
  unlocked : ∀ d ∈ cycle, pairLocked (lockedPairsForEquivalent db now e) d = false
  inside : ∀ allowed, scope = some allowed → ∀ d ∈ cycle, d.debtorId ∈ allowed ∧ d.creditorId ∈ allowed

/-- A candidate whose every edge consents to clearing. -/
structure FoundCycle (now : Time) (db : Db env) (e : Uuid) (maxDepth : ℤ) (scope : Option (List Uuid))
    (cycle : List Debt) : Prop extends Candidate now db e maxDepth scope cycle where
  consents : ∀ d ∈ cycle, edgeConsents db.trustLines e d = true

/-- Debts of a circuit have different debtors, so their ids differ. -/
theorem Candidate.distinct (h : Candidate now db e maxDepth scope cycle) : (cycle.map Debt.id).Nodup := by
  refine List.Nodup.map_on (fun d hd d' hd' hId => ?_) (List.Nodup.of_map _ h.circuit.simple)
  exact Rows.eq_of_column db.debts.id_unique (h.stored d hd) (h.stored d' hd') hId

/-- A found cycle may be cleared. -/
theorem FoundCycle.clearable (h : FoundCycle now db e maxDepth scope cycle) : ClearableCycle now db e cycle where
  stored := h.stored
  distinct := h.distinct
  nonempty := h.circuit.nonempty
  equivalent := h.equivalent
  closed := h.circuit.closed
  unlocked := h.unlocked
  consents := h.consents

section Filters

theorem insideScope_iff {ids : List Uuid} :
    insideScope scope ids = true ↔ ∀ allowed, scope = some allowed → ∀ id ∈ ids, id ∈ allowed := by
  cases scope <;> simp [insideScope]

/-- Reading the debts of a candidate again gives the candidate. -/
theorem Candidate.reread (h : Candidate now db e maxDepth scope cycle) :
    (cycle.mapM fun d => db.debts.rows.find? (·.id = d.id)) = some cycle := by
  have hStored := h.stored
  clear h
  induction cycle with
  | nil => rfl
  | cons d rest ih =>
      have hFound : db.debts.rows.find? (·.id = d.id) = some d :=
        (Rows.find?_eq_some_iff db.debts.id_unique).mpr ⟨hStored d List.mem_cons_self, rfl⟩
      rw [List.mapM_cons, hFound, ih fun d' hd' => hStored d' (List.mem_cons_of_mem _ hd')]
      rfl

/-- What passes the policy filter consents on every edge. -/
theorem found_of_filter (hCandidates : ∀ c ∈ cycles, Candidate now db e maxDepth scope c)
    (hMem : cycle ∈ filterCyclesByAutoClearingPolicy db e cycles) : FoundCycle now db e maxDepth scope cycle := by
  obtain ⟨hIn, hPasses⟩ := List.mem_filter.mp hMem
  have hCandidate := hCandidates cycle hIn
  rw [hCandidate.reread] at hPasses
  refine ⟨hCandidate, fun d hd => ?_⟩
  cases hShape : cycle with
  | nil => exact absurd hShape hCandidate.circuit.nonempty
  | cons first rest =>
      rw [hShape] at hPasses hd
      simp only [Bool.and_eq_true, decide_eq_true_eq, cycleRespectsAutoClearing, List.all_eq_true] at hPasses
      rw [← hPasses.1]
      exact hPasses.2 d hd

/-- Cycles with different keys use different sets of debts. -/
theorem key_ne_iff {c c' : List Debt} (h : Candidate now db e maxDepth scope c)
    (h' : Candidate now db e maxDepth scope c') (hNe : cycleKey c ≠ cycleKey c') :
    ¬∀ id, id ∈ c.map Debt.id ↔ id ∈ c'.map Debt.id := by
  intro hSame
  refine hNe (List.Perm.eq_of_sortedLE List.sortedLE_insertionSort List.sortedLE_insertionSort ?_)
  have hPerm := (List.perm_ext_iff_of_nodup h.distinct h'.distinct).mpr hSame
  exact (List.perm_insertionSort _ _).trans (hPerm.trans (List.perm_insertionSort _ _).symm)

end Filters

section Joins

/-- The conditions of a query make a circuit of rows a candidate when none of it is reserved. -/
theorem candidate_of_sqlWhere (hStored : ∀ d ∈ cycle, d ∈ db.debts.rows)
    (hCircuit : Circuit Debt.debtorId Debt.creditorId cycle) (hOne : ∀ d ∈ cycle, ∀ d' ∈ cycle, d.equivalentId = d'.equivalentId)
    (hShort : (cycle.length : ℤ) ≤ maxDepth) (hWhere : sqlWhere db.trustLines e scope cycle = true)
    (hUnlocked : ∀ d ∈ cycle, pairLocked (lockedPairsForEquivalent db now e) d = false) :
    Candidate now db e maxDepth scope cycle := by
  cases cycle with
  | nil => cases hWhere
  | cons first rest =>
      simp only [sqlWhere, decide_eq_true_eq] at hWhere
      obtain ⟨hE, hPositive, -, hScope, -⟩ := hWhere
      refine ⟨hStored, hCircuit, fun d hd => (hOne d hd first List.mem_cons_self).trans hE, hPositive, hShort,
        hUnlocked, fun allowed hAllowed => ?_⟩
      have hIn := insideScope_iff.mp hScope allowed hAllowed
      have hVertices : first.debtorId :: (first :: rest).dropLast.map Debt.creditorId =
          (first :: rest).map Debt.debtorId := by
        rw [List.map_dropLast, hCircuit.closed, List.map_cons, List.rotate_cons_succ, List.rotate_zero,
          List.dropLast_concat]
      rw [hVertices] at hIn
      intro d hd
      refine ⟨hIn _ (List.mem_map_of_mem hd), hIn _ ?_⟩
      have hCreditor : d.creditorId ∈ (first :: rest).map Debt.creditorId := List.mem_map_of_mem hd
      rw [hCircuit.closed] at hCreditor
      exact List.mem_rotate.mp hCreditor

theorem mem_orderByClearAmount {order : ReadOrder} {limit : Nat}
    (h : cycle ∈ orderByClearAmount order limit cycles) : cycle ∈ cycles := by
  have hSorted := List.mem_of_mem_take h
  rw [List.mem_insertionSort] at hSorted
  exact (order.cycles_perm _).mem_iff.mp hSorted

theorem mem_followers {t : DebtTable env} {d next : Debt} :
    next ∈ followers t d ↔ next ∈ t.rows ∧ d.creditorId = next.debtorId ∧ d.equivalentId = next.equivalentId := by
  simp [followers]

/-- A row of the triangle query is a circuit of three debts. -/
theorem mem_findTrianglesSql {order : ReadOrder} (h : cycle ∈ findTrianglesSql order db e scope) :
    (∀ d ∈ cycle, d ∈ db.debts.rows) ∧ Circuit Debt.debtorId Debt.creditorId cycle ∧
      (∀ d ∈ cycle, ∀ d' ∈ cycle, d.equivalentId = d'.equivalentId) ∧ cycle.length = 3 ∧
      sqlWhere db.trustLines e scope cycle = true := by
  obtain ⟨hJoined, hWhere⟩ := List.mem_filter.mp (mem_orderByClearAmount h)
  simp only [List.mem_flatMap, List.mem_map, List.mem_filter, mem_followers, decide_eq_true_eq] at hJoined
  obtain ⟨d₁, h₁, d₂, ⟨h₂, hLink₁, hSame₁⟩, d₃, ⟨⟨h₃, hLink₂, hSame₂⟩, hBack⟩, rfl⟩ := hJoined
  have hNe₁ := db.debts.no_self_loop d₁ h₁
  have hNe₂ := db.debts.no_self_loop d₂ h₂
  have hNe₃ := db.debts.no_self_loop d₃ h₃
  have hTrail : Trail Debt.debtorId Debt.creditorId d₁.debtorId [d₁, d₂, d₃] d₁.debtorId :=
    ⟨rfl, hLink₁.symm, hLink₂.symm, hBack⟩
  refine ⟨by simp [h₁, h₂, h₃], hTrail.circuit (by simp) ?_, by simp [hSame₁, hSame₂], rfl, hWhere⟩
  simp only [List.map_cons, List.map_nil, List.nodup_cons, List.mem_cons, List.not_mem_nil, or_false, not_or]
  grind

/-- A row of the quadrangle query is a circuit of four debts. -/
theorem mem_findQuadranglesSql {order : ReadOrder} (h : cycle ∈ findQuadranglesSql order db e scope) :
    (∀ d ∈ cycle, d ∈ db.debts.rows) ∧ Circuit Debt.debtorId Debt.creditorId cycle ∧
      (∀ d ∈ cycle, ∀ d' ∈ cycle, d.equivalentId = d'.equivalentId) ∧ cycle.length = 4 ∧
      sqlWhere db.trustLines e scope cycle = true := by
  obtain ⟨hJoined, hWhere⟩ := List.mem_filter.mp (mem_orderByClearAmount h)
  simp only [List.mem_flatMap, List.mem_map, List.mem_filter, mem_followers, decide_eq_true_eq] at hJoined
  obtain ⟨d₁, h₁, d₂, ⟨h₂, hLink₁, hSame₁⟩, d₃, ⟨h₃, hLink₂, hSame₂⟩, d₄, ⟨⟨h₄, hLink₃, hSame₃⟩, hBack, hSides⟩,
    rfl⟩ := hJoined
  have hNe₁ := db.debts.no_self_loop d₁ h₁
  have hNe₂ := db.debts.no_self_loop d₂ h₂
  have hNe₃ := db.debts.no_self_loop d₃ h₃
  have hNe₄ := db.debts.no_self_loop d₄ h₄
  have hTrail : Trail Debt.debtorId Debt.creditorId d₁.debtorId [d₁, d₂, d₃, d₄] d₁.debtorId :=
    ⟨rfl, hLink₁.symm, hLink₂.symm, hLink₃.symm, hBack⟩
  refine ⟨by simp [h₁, h₂, h₃, h₄], hTrail.circuit (by simp) ?_, by simp [hSame₁, hSame₂, hSame₃], rfl, hWhere⟩
  simp only [List.map_cons, List.map_nil, List.nodup_cons, List.mem_cons, List.not_mem_nil, or_false, not_or]
  grind

/-- What the filters leave of circuits of debts is found. -/
theorem found_of_candidates (hShort : ∀ c ∈ cycles, (c.length : ℤ) ≤ maxDepth)
    (hRows : ∀ c ∈ cycles, (∀ d ∈ c, d ∈ db.debts.rows) ∧ Circuit Debt.debtorId Debt.creditorId c ∧
      (∀ d ∈ c, ∀ d' ∈ c, d.equivalentId = d'.equivalentId) ∧ sqlWhere db.trustLines e scope c = true)
    (hMem : cycle ∈ filterCyclesByAutoClearingPolicy db e
      (deduplicateCycles (filterLocked (lockedPairsForEquivalent db now e) cycles))) :
    FoundCycle now db e maxDepth scope cycle := by
  refine found_of_filter (fun c hc => ?_) hMem
  have hFiltered := List.mem_of_mem_filter ((Rows.distinctOn_sublist _ _ _).subset hc)
  obtain ⟨hIn, hUnlocked⟩ := List.mem_filter.mp hFiltered
  obtain ⟨hStored, hCircuit, hOne, hWhere⟩ := hRows c hIn
  simp only [Bool.not_eq_true', List.any_eq_false] at hUnlocked
  exact candidate_of_sqlWhere hStored hCircuit hOne (hShort c hIn) hWhere fun d hd => by
    simpa using hUnlocked d hd

/-- Every cycle of the SQL detectors is a found cycle. -/
theorem searchSql_found {order : ReadOrder} (hDepth : 3 ≤ maxDepth)
    (hMem : cycle ∈ searchSql order now db e maxDepth scope) : FoundCycle now db e maxDepth scope cycle := by
  simp only [searchSql] at hMem
  split at hMem
  · next hFour =>
      refine found_of_candidates (fun c hc => ?_) (fun c hc => ?_) hMem
      · rw [(mem_findQuadranglesSql hc).2.2.2.1]
        exact hFour.1
      · obtain ⟨hStored, hCircuit, hOne, -, hWhere⟩ := mem_findQuadranglesSql hc
        exact ⟨hStored, hCircuit, hOne, hWhere⟩
  · refine found_of_candidates (fun c hc => ?_) (fun c hc => ?_) hMem
    · rw [(mem_findTrianglesSql hc).2.2.2.1]
      exact hDepth
    · obtain ⟨hStored, hCircuit, hOne, -, hWhere⟩ := mem_findTrianglesSql hc
      exact ⟨hStored, hCircuit, hOne, hWhere⟩

end Joins

section Search

variable {start current : Uuid} {path edges : List Debt} {visited : List Uuid} {descend : Debt → List (List Debt)}
  {adjacency : Dict Uuid (List Debt)} {depth : Nat}

/-- A cycle recorded in the loop closes with one of the debts, or is found behind one of them. -/
theorem mem_scanEdges (h : cycle ∈ scanEdges start path visited descend edges) :
    (∃ edge ∈ edges, edge.creditorId = start ∧ cycle = path ++ [edge]) ∨
      ∃ edge ∈ edges, edge.creditorId ∉ visited ∧ cycle ∈ descend edge := by
  induction edges with
  | nil => cases h
  | cons edge rest ih =>
      rw [scanEdges] at h
      split at h
      · next hBack => exact Or.inl ⟨edge, List.mem_cons_self, hBack, List.mem_singleton.mp h⟩
      · rcases List.mem_append.mp h with hHere | hLater
        · split at hHere
          · cases hHere
          · next hNew => exact Or.inr ⟨edge, List.mem_cons_self, hNew, hHere⟩
        · rcases ih hLater with ⟨other, hOther, hClosed⟩ | ⟨other, hOther, hBehind⟩
          · exact Or.inl ⟨other, List.mem_cons_of_mem _ hOther, hClosed⟩
          · exact Or.inr ⟨other, List.mem_cons_of_mem _ hOther, hBehind⟩

/-- A path of the search: debts that lead from the start to the current
participant and visit nobody twice. -/
structure SearchPath (all : List Debt) (start current : Uuid) (path : List Debt) (visited : List Uuid) : Prop where
  trail : Trail Debt.debtorId Debt.creditorId start path current
  simple : (start :: path.map Debt.creditorId).Nodup
  visited : ∀ x, x ∈ start :: path.map Debt.creditorId → x ∈ visited
  stored : ∀ d ∈ path, d ∈ all

theorem SearchPath.extend {all : List Debt} {edge : Debt} (h : SearchPath all start edge.debtorId path visited)
    (hEdge : edge ∈ all) (hNew : edge.creditorId ∉ visited) :
    SearchPath all start edge.creditorId (path ++ [edge]) (edge.creditorId :: visited) where
  trail := h.trail.concat
  simple := by
    rw [List.map_append, ← List.cons_append]
    refine List.nodup_append.mpr ⟨h.simple, List.nodup_singleton _, ?_⟩
    intro x hx y hy
    rw [List.map_singleton, List.mem_singleton] at hy
    rw [hy]
    exact fun hEq => hNew (hEq ▸ h.visited x hx)
  visited x hx := by
    rw [List.map_append, ← List.cons_append] at hx
    rcases List.mem_append.mp hx with hOld | hEnd
    · exact List.mem_cons_of_mem _ (h.visited x hOld)
    · rw [List.map_singleton, List.mem_singleton] at hEnd
      exact hEnd ▸ List.mem_cons_self
  stored d hd := by
    rcases List.mem_append.mp hd with hOld | hEnd
    · exact h.stored d hOld
    · exact List.mem_singleton.mp hEnd ▸ hEdge

/-- A path closed by a debt to its start is a circuit. -/
theorem SearchPath.close {all : List Debt} {edge : Debt} (h : SearchPath all start edge.debtorId path visited)
    (hBack : edge.creditorId = start) : Circuit Debt.debtorId Debt.creditorId (path ++ [edge]) := by
  have hTrail := h.trail.concat
  rw [hBack] at hTrail
  refine hTrail.circuit (by simp) ?_
  rw [List.map_append, List.map_singleton, h.trail.map_source]
  exact h.simple

/-- Everything the search records is a circuit of the debts it runs on, within its depth. -/
theorem dfs_sound {all : List Debt} (hAdjacency : ∀ k, ∀ d ∈ adjacency.getD k [], d ∈ all ∧ d.debtorId = k)
    (hPath : SearchPath all start current path visited)
    (hMem : cycle ∈ dfs adjacency start depth current path visited) :
    Circuit Debt.debtorId Debt.creditorId cycle ∧ (∀ d ∈ cycle, d ∈ all) ∧ cycle.length ≤ path.length + depth := by
  induction depth generalizing current path visited with
  | zero => cases hMem
  | succ depth ih =>
      rw [dfs] at hMem
      rcases mem_scanEdges hMem with ⟨edge, hEdge, hBack, rfl⟩ | ⟨edge, hEdge, hNew, hBehind⟩
      · obtain ⟨hAll, rfl⟩ := hAdjacency current edge hEdge
        refine ⟨hPath.close hBack, ?_, by simp⟩
        intro d hd
        rcases List.mem_append.mp hd with hOld | hEnd
        · exact hPath.stored d hOld
        · exact List.mem_singleton.mp hEnd ▸ hAll
      · obtain ⟨hAll, rfl⟩ := hAdjacency current edge hEdge
        obtain ⟨hCircuit, hStored, hLength⟩ := ih (hPath.extend hAll hNew) hBehind
        refine ⟨hCircuit, hStored, ?_⟩
        rw [List.length_append, List.length_singleton] at hLength
        omega

/-- The same holds of everything that is listed from all starts. -/
theorem searchFromNodes_sound {all : List Debt}
    (hAdjacency : ∀ k, ∀ d ∈ adjacency.getD k [], d ∈ all ∧ d.debtorId = k)
    (hMem : cycle ∈ searchFromNodes adjacency maxDepth) :
    Circuit Debt.debtorId Debt.creditorId cycle ∧ (∀ d ∈ cycle, d ∈ all) ∧ (cycle.length : ℤ) ≤ maxDepth := by
  have hFrom (start : Uuid) (hFound : cycle ∈ dfs adjacency start maxDepth.toNat start [] [start]) :
      Circuit Debt.debtorId Debt.creditorId cycle ∧ (∀ d ∈ cycle, d ∈ all) ∧ (cycle.length : ℤ) ≤ maxDepth := by
    have hStart : SearchPath all start start [] [start] := ⟨rfl, by simp, by simp, by simp⟩
    obtain ⟨hCircuit, hStored, hLength⟩ := dfs_sound hAdjacency hStart hFound
    refine ⟨hCircuit, hStored, ?_⟩
    have hPos := List.length_pos_iff.mpr hCircuit.nonempty
    rw [List.length_nil] at hLength
    omega
  unfold searchFromNodes at hMem
  generalize adjacency.keys = starts at hMem
  induction starts using List.reverseRecOn with
  | nil => cases hMem
  | append_singleton starts start ih =>
      rw [List.foldl_append, List.foldl_cons, List.foldl_nil] at hMem
      split at hMem
      · exact ih hMem
      · rcases List.mem_append.mp hMem with hOld | hNew
        · exact ih hOld
        · exact hFrom start hNew

theorem mem_searchedDebts {order : ReadOrder} {d : Debt} :
    d ∈ searchedDebts order now db e scope ↔ d ∈ db.debts.rows ∧ d.equivalentId = e ∧ 0 < d.amount ∧
      insideScope scope [d.debtorId, d.creditorId] = true ∧
      pairLocked (lockedPairsForEquivalent db now e) d = false := by
  rw [searchedDebts, List.mem_filter, (order.debts_perm _).mem_iff, List.mem_filter]
  simp [and_assoc]

/-- Every cycle of the depth-first search is a found cycle. -/
theorem searchDfs_found {order : ReadOrder} (hMem : cycle ∈ searchDfs order now db e maxDepth scope) :
    FoundCycle now db e maxDepth scope cycle := by
  refine found_of_filter (fun c hc => ?_) hMem
  rw [List.mem_insertionSort] at hc
  have hAdjacency : ∀ k, ∀ d ∈ (Dict.groupBy Debt.debtorId (searchedDebts order now db e scope)).getD k [],
      d ∈ searchedDebts order now db e scope ∧ d.debtorId = k := by
    intro k d hd
    rw [Dict.getD, Dict.get?_groupBy] at hd
    split at hd
    · cases hd
    · rw [Option.getD_some, List.mem_filter, decide_eq_true_eq] at hd
      exact hd
  obtain ⟨hCircuit, hAll, hShort⟩ :=
    searchFromNodes_sound hAdjacency ((Rows.distinctOn_sublist _ _ _).subset hc)
  refine ⟨fun d hd => (mem_searchedDebts.mp (hAll d hd)).1, hCircuit,
    fun d hd => (mem_searchedDebts.mp (hAll d hd)).2.1, fun d hd => (mem_searchedDebts.mp (hAll d hd)).2.2.1, hShort,
    fun d hd => (mem_searchedDebts.mp (hAll d hd)).2.2.2.2, fun allowed hAllowed d hd => ?_⟩
  have hIn := insideScope_iff.mp (mem_searchedDebts.mp (hAll d hd)).2.2.2.1 allowed hAllowed
  exact ⟨hIn _ (by simp), hIn _ (by simp)⟩

end Search

section Result

/-- The candidates of the joins have different keys. -/
theorem searchSql_pairwise (order : ReadOrder) (now : Time) (db : Db env) (e : Uuid) (maxDepth : ℤ)
    (scope : Option (List Uuid)) :
    (searchSql order now db e maxDepth scope).Pairwise fun c c' => cycleKey c ≠ cycleKey c' := by
  have hCandidates (cycles : List (List Debt)) :
      (filterCyclesByAutoClearingPolicy db e (deduplicateCycles cycles)).Pairwise fun c c' =>
        cycleKey c ≠ cycleKey c' :=
    (Rows.distinctOn_pairwise _ _ _).sublist List.filter_sublist
  simp only [searchSql]
  split
  · exact hCandidates _
  · exact hCandidates _

/-- The depth-first search finds no cycle twice. -/
theorem searchDfs_pairwise (order : ReadOrder) (now : Time) (db : Db env) (e : Uuid) (maxDepth : ℤ)
    (scope : Option (List Uuid)) :
    (searchDfs order now db e maxDepth scope).Pairwise fun c c' => cycleKey c ≠ cycleKey c' := by
  refine List.Pairwise.sublist List.filter_sublist ?_
  exact ((List.perm_insertionSort _ _).pairwise_iff fun h => h.symm).mpr (Rows.distinctOn_pairwise _ _ _)

/-- The debts of a returned cycle. -/
theorem debtId_cycleData (directory : Directory) (cycle : List Debt) :
    (cycleData directory cycle).map (·.debtId) = cycle.map Debt.id := by
  simp [cycleData]

/-- The cycles that are chosen, before they are written out. -/
theorem findCycles_cases {order : ReadOrder} {sqlFails : Bool} {equivalentCode : String}
    {allowedPids : Option (List Pid)} {result : List (List ClearingEdge)}
    (hOk : findCycles now order sqlFails equivalentCode maxDepth allowedPids db = .ok result) :
    ∃ e, env.directory.equivalentByCode equivalentCode = some e ∧ ∃ chosen : List (List Debt),
      result = chosen.map (cycleData env.directory) ∧
      (∀ c ∈ chosen, FoundCycle now db e.id maxDepth (resolveScopeIds env.directory allowedPids) c) ∧
      chosen.Pairwise fun c c' => cycleKey c ≠ cycleKey c' := by
  unfold findCycles at hOk
  split at hOk
  · cases hOk
  · next e hE =>
      refine ⟨e, hE, ?_⟩
      simp only at hOk
      split at hOk
      · cases hOk
        exact ⟨[], rfl, by simp, List.Pairwise.nil⟩
      · cases hOk
        refine ⟨_, rfl, ?_⟩
        split
        · next hDepth =>
            split
            · exact ⟨fun c hc => searchDfs_found hc, searchDfs_pairwise _ _ _ _ _ _⟩
            · exact ⟨fun c hc => searchSql_found hDepth.1 hc, searchSql_pairwise _ _ _ _ _ _⟩
        · rw [if_pos rfl]
          exact ⟨fun c hc => searchDfs_found hc, searchDfs_pairwise _ _ _ _ _ _⟩

/-- Every cycle that is returned is a simple closed cycle of debts that may be
cleared, its participants are in the perimeter, and no two cycles use the same
set of debts. -/
theorem findCycles_sound {order : ReadOrder} {sqlFails : Bool} {equivalentCode : String}
    {allowedPids : Option (List Pid)} {result : List (List ClearingEdge)}
    (hOk : findCycles now order sqlFails equivalentCode maxDepth allowedPids db = .ok result) :
    ∃ e, env.directory.equivalentByCode equivalentCode = some e ∧
      (∀ returned ∈ result, ∃ cycle, returned = cycleData env.directory cycle ∧
        FoundCycle now db e.id maxDepth (resolveScopeIds env.directory allowedPids) cycle ∧
        ∀ pids, allowedPids = some pids → ∀ edge ∈ returned, edge.debtor ∈ pids ∧ edge.creditor ∈ pids) ∧
      result.Pairwise fun c c' => ¬∀ id, id ∈ c.map (·.debtId) ↔ id ∈ c'.map (·.debtId) := by
  obtain ⟨e, hE, chosen, rfl, hFound, hKeys⟩ := findCycles_cases hOk
  refine ⟨e, hE, fun returned hReturned => ?_, ?_⟩
  · obtain ⟨c, hc, rfl⟩ := List.mem_map.mp hReturned
    refine ⟨c, rfl, hFound c hc, fun pids hPids edge hEdge => ?_⟩
    obtain ⟨d, hd, rfl⟩ := List.mem_map.mp hEdge
    have hIn := (hFound c hc).inside _ (by rw [hPids]; rfl) d hd
    exact ⟨pidText_mem_of_scope rfl hIn.1, pidText_mem_of_scope rfl hIn.2⟩
  · rw [List.pairwise_map]
    refine hKeys.imp_of_mem fun hc hc' hNe => ?_
    simp only [debtId_cycleData]
    exact key_ne_iff (hFound _ hc).toCandidate (hFound _ hc').toCandidate hNe

/-- The triangle is found, and it is sound. -/
theorem findCycles_sound_triangle :
    let s := (Ledger.empty : Ledger (Env.sample .numeric208 true)).run debtTriangle
    findCycles s.now .insertion false "UAH" 6 none s.db =
        .ok [[⟨0, "A", "B", 5⟩, ⟨1, "B", "C", 5⟩, ⟨2, "C", "A", 4⟩]] ∧
      ∃ e, Directory.sample.equivalentByCode "UAH" = some e ∧ ∃ cycle,
        [⟨0, "A", "B", 5⟩, ⟨1, "B", "C", 5⟩, ⟨2, "C", "A", 4⟩] = cycleData Directory.sample cycle ∧
        FoundCycle s.now s.db e.id 6 none cycle := by
  intro s
  have hOk : findCycles s.now .insertion false "UAH" 6 none s.db =
      .ok [[⟨0, "A", "B", 5⟩, ⟨1, "B", "C", 5⟩, ⟨2, "C", "A", 4⟩]] := by
    decide +kernel
  obtain ⟨e, hE, hFound, -⟩ := findCycles_sound hOk
  obtain ⟨cycle, hCycle, hSound, -⟩ := hFound _ (List.mem_singleton.mpr rfl)
  exact ⟨hOk, e, hE, cycle, hCycle, hSound⟩

end Result

end GeoLedger

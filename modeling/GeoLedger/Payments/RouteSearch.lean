import Mathlib
import GeoLedger.Payments.Locks
import GeoLedger.Payments.Router

/-! What a route search returns. Paths are simple and follow edges of positive
capacity. While the decimal context keeps all digits, the residual graph keeps, for
every edge, at most what the routes found so far leave of its capacity, and the
amounts of the routes sum to the request. -/
namespace GeoLedger

namespace PaymentRouter

variable {r : PaymentRouter} {q : PathQuery} {graph : CapacityGraph}

section Paths

/-- A simple path from one node to another along edges of positive capacity. -/
structure PathIn (graph : CapacityGraph) (fromPid toPid : Pid) (path : List Pid) : Prop where
  first : path.head? = some fromPid
  last : path.getLast? = some toPid
  simple : path.Nodup
  open_edges : ∀ hop ∈ hops path, 0 < graph.getD₂ hop.1 hop.2 0

theorem getD₂_of_mem_items {graph : CapacityGraph} {u : Pid} {edge : Pid × Amount}
    (h : edge ∈ (graph.getD u Dict.empty).items) : graph.getD₂ u edge.1 0 = edge.2 := by
  rw [Dict.getD₂, Dict.getD, Dict.get?_eq_some_iff.mpr h]
  rfl

/-- What holds of zero and of all capacities that a graph lists holds of every capacity. -/
theorem getD₂_of_items {P : Amount → Prop} (hZero : P 0) (h : ∀ row ∈ graph.items, ∀ edge ∈ row.2.items, P edge.2)
    (u v : Pid) : P (graph.getD₂ u v 0) := by
  cases hRow : graph.get? u with
  | none => simpa [Dict.getD₂, Dict.getD, hRow] using hZero
  | some row =>
      cases hEdge : row.get? v with
      | none => simpa [Dict.getD₂, Dict.getD, hRow, hEdge] using hZero
      | some capacity =>
          have hListed := h (u, row) (Dict.get?_eq_some_iff.mp hRow) (v, capacity) (Dict.get?_eq_some_iff.mp hEdge)
          simpa [Dict.getD₂, Dict.getD, hRow, hEdge] using hListed

/-- A positive capacity stands in the items of its row. -/
theorem mem_items_of_pos {graph : CapacityGraph} {u v : Pid} (h : 0 < graph.getD₂ u v 0) :
    (v, graph.getD₂ u v 0) ∈ (graph.getD u Dict.empty).items := by
  rw [← Dict.get?_eq_some_iff]
  have hRow : graph.getD₂ u v 0 = ((graph.getD u Dict.empty).get? v).getD 0 := rfl
  cases hEdge : (graph.getD u Dict.empty).get? v with
  | none =>
      rw [hRow, hEdge] at h
      exact absurd h (lt_irrefl _)
  | some capacity =>
      rw [hRow, hEdge]
      rfl

/-- Two hops that meet in a simple path join three different nodes. -/
theorem hops_distinct {path : List Pid} (hSimple : path.Nodup) {w x y : Pid} (hIn : (w, x) ∈ hops path)
    (hOut : (x, y) ∈ hops path) : w ≠ x ∧ x ≠ y ∧ w ≠ y := by
  induction path with
  | nil => cases hIn
  | cons a rest ih =>
      cases rest with
      | nil => cases hIn
      | cons b tail =>
          obtain ⟨hHead, hTail⟩ := List.nodup_cons.mp hSimple
          have hHeadNe : ∀ z ∈ b :: tail, a ≠ z := fun z hz hSame => hHead (hSame ▸ hz)
          rw [hops_cons_cons] at hIn hOut
          rcases List.mem_cons.mp hIn with hFirst | hRest
          · obtain ⟨rfl, rfl⟩ := Prod.mk.inj hFirst
            rcases List.mem_cons.mp hOut with hAgain | hNext
            · exact absurd (Prod.mk.inj hAgain).1.symm (hHeadNe x List.mem_cons_self)
            · have hy : y ∈ tail := (List.of_mem_zip hNext).2
              refine ⟨hHeadNe x List.mem_cons_self, fun hSame => ?_, hHeadNe y (List.mem_cons_of_mem _ hy)⟩
              exact (List.nodup_cons.mp hTail).1 (hSame ▸ hy)
          · rcases List.mem_cons.mp hOut with hFirst | hNext
            · have hx : x ∈ tail := (List.of_mem_zip hRest).2
              exact absurd (Prod.mk.inj hFirst).1.symm (hHeadNe x (List.mem_cons_of_mem _ hx))
            · exact ih hTail hRest hNext

/-- Extending a path along an admitted edge. -/
theorem expand_pathIn {entry : SearchEntry} (h : PathIn graph q.fromPid entry.current entry.path) :
    ∀ entry' ∈ expand r q graph entry, PathIn graph q.fromPid entry'.current entry'.path := by
  intro entry' hEntry
  obtain ⟨⟨neighbor, capacity⟩, hEdge, rfl⟩ := List.mem_map.mp hEntry
  obtain ⟨hItem, hAdmits⟩ := List.mem_filter.mp hEdge
  simp only [admits, decide_eq_true_eq] at hAdmits
  obtain ⟨_, _, hPos, _, hFresh, _⟩ := hAdmits
  have hCapacity : graph.getD₂ entry.current neighbor 0 = capacity := getD₂_of_mem_items hItem
  refine ⟨?_, by simp, ?_, ?_⟩
  · rw [List.head?_append, h.first]
    rfl
  · refine List.nodup_append.mpr ⟨h.simple, List.nodup_singleton _, ?_⟩
    intro x hx y hy hEq
    rw [hEq, List.mem_singleton.mp hy] at hx
    exact hFresh hx
  · intro hop hHop
    rw [hops_append_singleton h.last, List.mem_append, List.mem_singleton] at hHop
    rcases hHop with hOld | rfl
    · exact h.open_edges hop hOld
    · exact hCapacity ▸ hPos

/-- Every path that the loop returns leads to the target. -/
theorem bfsLoop_pathIn {deadline left : Nat} {queue : List SearchEntry} {path : List Pid}
    (hQueue : ∀ entry ∈ queue, PathIn graph q.fromPid entry.current entry.path)
    (h : bfsLoop r q graph deadline queue = .ok (some path, left)) :
    PathIn graph q.fromPid q.toPid path := by
  induction deadline generalizing queue with
  | zero =>
      cases queue with
      | nil => cases h
      | cons entry queue => cases h
  | succ deadline ih =>
      cases queue with
      | nil => cases h
      | cons entry queue =>
          have hEntry := hQueue entry List.mem_cons_self
          have hRest : ∀ e ∈ queue, PathIn graph q.fromPid e.current e.path := fun e he =>
            hQueue e (List.mem_cons_of_mem _ he)
          rw [bfsLoop] at h
          split at h
          · next hTarget =>
              cases h
              exact hTarget ▸ hEntry
          · split at h
            · exact ih hRest h
            · refine ih (fun e he => ?_) h
              rcases List.mem_append.mp he with hOld | hNew
              · exact hRest e hOld
              · exact expand_pathIn hEntry e hNew

theorem bfsSinglePath_pathIn {deadline left : Nat} {path : List Pid}
    (h : bfsSinglePath r q graph deadline = .ok (some path, left)) :
    PathIn graph q.fromPid q.toPid path ∧ q.fromPid ∈ graph.keys := by
  unfold bfsSinglePath at h
  split at h
  · cases h
  · next hKeys =>
      rw [not_or, not_not] at hKeys
      split at h
      · cases h
      · refine ⟨bfsLoop_pathIn (fun entry hEntry => ?_) h, hKeys.1⟩
        rw [List.mem_singleton.mp hEntry]
        exact ⟨rfl, rfl, List.nodup_singleton _, fun hop hHop => by cases hHop⟩

theorem foldl_narrow_le {edges : List (Pid × Pid)} {acc : Option Amount} {b : Amount}
    (h : edges.foldl (narrow graph) acc = some b) :
    (∀ x, acc = some x → b ≤ x) ∧ ∀ hop ∈ edges, b ≤ graph.getD₂ hop.1 hop.2 0 := by
  induction edges generalizing acc with
  | nil =>
      rw [List.foldl_nil] at h
      refine ⟨fun x hx => ?_, fun hop hHop => by cases hHop⟩
      rw [h, Option.some.injEq] at hx
      exact hx.le
  | cons hop rest ih =>
      obtain ⟨hAcc, hRest⟩ := ih h
      cases acc with
      | none =>
          refine ⟨fun x hx => (by cases hx), fun other hOther => ?_⟩
          rcases List.mem_cons.mp hOther with rfl | hOther
          · exact hAcc _ rfl
          · exact hRest other hOther
      | some x =>
          have hMin := hAcc _ rfl
          refine ⟨fun y hy => ?_, fun other hOther => ?_⟩
          · rw [← Option.some.inj hy]
            exact hMin.trans (min_le_left _ _)
          · rcases List.mem_cons.mp hOther with rfl | hOther
            · exact hMin.trans (min_le_right _ _)
            · exact hRest other hOther

/-- No edge of a path has less than its bottleneck. -/
theorem pathBottleneck_le {path : List Pid} {b : Amount} (h : pathBottleneck path graph = some b) :
    ∀ hop ∈ hops path, b ≤ graph.getD₂ hop.1 hop.2 0 :=
  (foldl_narrow_le h).2

theorem foldl_narrow_mem {edges : List (Pid × Pid)} {acc : Option Amount} {b : Amount} {G : AddSubgroup Amount}
    (hGraph : ∀ u v, graph.getD₂ u v 0 ∈ G) (hAcc : ∀ x, acc = some x → x ∈ G)
    (h : edges.foldl (narrow graph) acc = some b) : b ∈ G := by
  induction edges generalizing acc with
  | nil => exact hAcc b h
  | cons hop rest ih =>
      refine ih (fun x hx => ?_) h
      cases acc with
      | none =>
          cases hx
          exact hGraph _ _
      | some y =>
          cases hx
          rcases min_choice y (graph.getD₂ hop.1 hop.2 0) with hMin | hMin
          · rw [hMin]
            exact hAcc y rfl
          · rw [hMin]
            exact hGraph _ _

/-- Only a path without hops has no bottleneck. -/
theorem hops_of_pathBottleneck_none {path : List Pid} (h : pathBottleneck path graph = none) :
    hops path = [] := by
  have hSome (edges : List (Pid × Pid)) (x : Amount) : edges.foldl (narrow graph) (some x) ≠ none := by
    induction edges generalizing x with
    | nil => exact Option.some_ne_none x
    | cons hop rest ih => exact ih _
  unfold pathBottleneck at h
  cases hHops : hops path with
  | nil => rfl
  | cons hop rest =>
      rw [hHops] at h
      exact absurd h (hSome rest _)

end Paths

section Residual

variable {residual : CapacityGraph} {alloc : Amount}

theorem reduceEdge_capacity {hop : Pid × Pid} (hLe : alloc ≤ residual.getD₂ hop.1 hop.2 0)
    (u v : Pid) : (reduceEdge alloc residual hop).getD₂ u v 0 =
      if hop = (u, v) then decimalSub (residual.getD₂ u v 0) alloc else residual.getD₂ u v 0 := by
  obtain ⟨x, y⟩ := hop
  simp only [reduceEdge, Prod.mk.injEq]
  split
  · next hNone =>
      have hZero : decimalSub (residual.getD₂ x y 0) alloc = 0 := le_antisymm hNone (decimalSub_nonneg hLe)
      by_cases hSame : x = u ∧ y = v
      · obtain ⟨rfl, rfl⟩ := hSame
        rw [if_pos ⟨rfl, rfl⟩, hZero]
        cases hEdges : residual.get? x with
        | none => simp [Dict.getD₂, Dict.getD, hEdges]
        | some edges => simp [Dict.getD₂, Dict.getD, Dict.get?_set, Dict.get?_pop]
      · rw [if_neg hSame]
        cases hEdges : residual.get? x with
        | none => rfl
        | some edges =>
            by_cases hu : u = x
            · have hv : v ≠ y := fun hv => hSame ⟨hu.symm, hv.symm⟩
              simp [Dict.getD₂, Dict.getD, Dict.get?_set, Dict.get?_pop, hu, hv, hEdges]
            · simp [Dict.getD₂, Dict.getD, Dict.get?_set, hu]
  · rw [Dict.getD₂_set₂]
    by_cases hSame : u = x ∧ v = y
    · rw [if_pos hSame, if_pos ⟨hSame.1.symm, hSame.2.symm⟩, hSame.1, hSame.2]
    · rw [if_neg hSame, if_neg fun h => hSame ⟨h.1.symm, h.2.symm⟩]

/-- Reducing different edges takes the amount off each of them, once. -/
theorem foldl_reduceEdge_capacity {edges : List (Pid × Pid)} (hUnique : edges.Nodup)
    (hLe : ∀ hop ∈ edges, alloc ≤ residual.getD₂ hop.1 hop.2 0) (u v : Pid) :
    (edges.foldl (reduceEdge alloc) residual).getD₂ u v 0 =
      if (u, v) ∈ edges then decimalSub (residual.getD₂ u v 0) alloc else residual.getD₂ u v 0 := by
  induction edges generalizing residual with
  | nil => simp
  | cons hop rest ih =>
      rw [List.nodup_cons] at hUnique
      have hHead := hLe hop List.mem_cons_self
      have hRest : ∀ other ∈ rest, alloc ≤ (reduceEdge alloc residual hop).getD₂ other.1 other.2 0 := by
        intro other hOther
        have hNe : hop ≠ (other.1, other.2) := fun h => hUnique.1 (h ▸ hOther)
        rw [reduceEdge_capacity hHead, if_neg hNe]
        exact hLe other (List.mem_cons_of_mem _ hOther)
      rw [List.foldl_cons, ih hUnique.2 hRest, reduceEdge_capacity hHead]
      by_cases hFirst : hop = (u, v)
      · subst hFirst
        rw [if_neg hUnique.1, if_pos rfl, if_pos List.mem_cons_self]
      · have hMem : (u, v) ∈ hop :: rest ↔ (u, v) ∈ rest := by simp [Ne.symm hFirst]
        simp only [if_neg hFirst, hMem]

theorem getD₂_eq_zero_of_not_mem {u v : Pid} (h : u ∉ residual.keys) : residual.getD₂ u v 0 = 0 := by
  simp [Dict.getD₂, Dict.getD, Dict.get?_eq_none_iff.mpr h]

/-- Reductions add no nodes. -/
theorem mem_keys_reduceEdge {hop : Pid × Pid} (hPos : 0 < alloc) {u : Pid}
    (h : u ∈ (reduceEdge alloc residual hop).keys) : u ∈ residual.keys := by
  unfold reduceEdge at h
  simp only at h
  split at h
  · cases hEdges : residual.get? hop.1 with
    | none => rwa [hEdges] at h
    | some edges =>
        rw [hEdges, Dict.mem_keys_set] at h
        rcases h with rfl | h
        · exact Dict.mem_keys_iff.mpr ⟨edges, hEdges⟩
        · exact h
  · next hSome =>
      rw [Dict.set₂, Dict.mem_keys_set] at h
      rcases h with rfl | h
      · by_contra hOut
        rw [getD₂_eq_zero_of_not_mem hOut, not_le] at hSome
        exact absurd (lt_of_decimalSub_pos hSome) (not_lt.mpr hPos.le)
      · exact h

theorem mem_keys_foldl_reduceEdge {edges : List (Pid × Pid)} (hPos : 0 < alloc) {u : Pid}
    (h : u ∈ (edges.foldl (reduceEdge alloc) residual).keys) : u ∈ residual.keys := by
  induction edges generalizing residual with
  | nil => exact h
  | cons hop rest ih => exact mem_keys_reduceEdge hPos (ih h)

/-- An edge that is open after a reduction was open before it. -/
theorem foldl_reduceEdge_pos {edges : List (Pid × Pid)} (hUnique : edges.Nodup)
    (hLe : ∀ hop ∈ edges, alloc ≤ residual.getD₂ hop.1 hop.2 0) (hPos : 0 < alloc) {u v : Pid}
    (h : 0 < (edges.foldl (reduceEdge alloc) residual).getD₂ u v 0) : 0 < residual.getD₂ u v 0 := by
  rw [foldl_reduceEdge_capacity hUnique hLe] at h
  split at h
  · exact hPos.trans (lt_of_decimalSub_pos h)
  · exact h

/-- A reduction by no more than each edge has leaves no edge below zero. -/
theorem foldl_reduceEdge_nonneg {edges : List (Pid × Pid)} (hUnique : edges.Nodup)
    (hLe : ∀ hop ∈ edges, alloc ≤ residual.getD₂ hop.1 hop.2 0) (hResidual : ∀ u v, 0 ≤ residual.getD₂ u v 0)
    (u v : Pid) : 0 ≤ (edges.foldl (reduceEdge alloc) residual).getD₂ u v 0 := by
  rw [foldl_reduceEdge_capacity hUnique hLe]
  split
  · next hIn => exact decimalSub_nonneg (hLe (u, v) hIn)
  · exact hResidual u v

/-- Capacities and an amount of so many decimals leave capacities of as many. -/
theorem foldl_reduceEdge_mem {edges : List (Pid × Pid)} (hUnique : edges.Nodup)
    (hLe : ∀ hop ∈ edges, alloc ≤ residual.getD₂ hop.1 hop.2 0) {e : ℤ}
    (hResidual : ∀ u v, residual.getD₂ u v 0 ∈ digitsTo e) (hAlloc : alloc ∈ digitsTo e) (u v : Pid) :
    (edges.foldl (reduceEdge alloc) residual).getD₂ u v 0 ∈ digitsTo e := by
  rw [foldl_reduceEdge_capacity hUnique hLe]
  split
  · exact decimalSub_mem (hResidual u v) hAlloc
  · exact hResidual u v

end Residual

section Routes

/-- What routes send along an edge. -/
def usedBy (routes : List Route) (u v : Pid) : Amount :=
  (routes.map fun route =>
    ((hops route.path).map fun hop => if hop = (u, v) then route.amount else 0).sum).sum

theorem usedBy_nonneg {routes : List Route} (h : ∀ route ∈ routes, 0 < route.amount) (u v : Pid) :
    0 ≤ usedBy routes u v := by
  refine List.sum_nonneg fun x hx => ?_
  obtain ⟨route, hRoute, rfl⟩ := List.mem_map.mp hx
  refine List.sum_nonneg fun y hy => ?_
  obtain ⟨hop, _, rfl⟩ := List.mem_map.mp hy
  split
  · exact (h route hRoute).le
  · exact le_rfl

/-- The amount and the capacities, written with one number of decimals, have no more
digits than the decimal context keeps. -/
def FitsContext (graph : CapacityGraph) (amount : Amount) : Prop :=
  ∃ e, decimalContext.Fits e amount ∧ ∀ u v, decimalContext.Fits e (graph.getD₂ u v 0)

/-- The state of the search between two routes. -/
structure SearchSound (graph : CapacityGraph) (q : PathQuery) (amount : Amount) (s : FlowSearch) :
    Prop where
  within : FitsContext graph amount → ∀ u v, usedBy s.routes u v + s.residual.getD₂ u v 0 ≤ graph.getD₂ u v 0
  opened : ∀ u v, 0 < s.residual.getD₂ u v 0 → 0 < graph.getD₂ u v 0
  nonneg : ∀ u v, 0 ≤ s.residual.getD₂ u v 0
  nodes : ∀ u ∈ s.residual.keys, u ∈ graph.keys
  paths : ∀ route ∈ s.routes, 0 < route.amount ∧ PathIn graph q.fromPid q.toPid route.path ∧
    q.fromPid ∈ graph.keys
  total : FitsContext graph amount → (s.routes.map (·.amount)).sum + s.remaining = amount
  left : 0 ≤ s.remaining
  direct : q.fromPid = q.toPid → s.routes = [] ∨ (s.remaining = 0 ∧ s.routes.length = 1)
  stored : ∀ e, amount ∈ digitsTo e → (∀ u v, graph.getD₂ u v 0 ∈ digitsTo e) →
    (∀ u v, s.residual.getD₂ u v 0 ∈ digitsTo e) ∧ s.remaining ∈ digitsTo e ∧
      ∀ route ∈ s.routes, route.amount ∈ digitsTo e

/-- What a sum of amounts that are not negative holds besides one of them fits when the sum does. -/
theorem fits_of_add_le {x y z : Amount} {e : ℤ} (hz : decimalContext.Fits e z) (hSum : x + y ≤ z) (hx : 0 ≤ x)
    (hy : 0 ≤ y) (hMem : y ∈ digitsTo e) : decimalContext.Fits e y := by
  refine hz.of_abs_le hMem ?_
  rw [abs_of_nonneg hy]
  exact le_trans (by linarith) (le_abs_self z)

theorem amounts_nonneg {routes : List Route} (h : ∀ route ∈ routes, 0 < route.amount) :
    0 ≤ (routes.map (·.amount)).sum := by
  refine List.sum_nonneg fun x hx => ?_
  obtain ⟨route, hRoute, rfl⟩ := List.mem_map.mp hx
  exact (h route hRoute).le

/-- One more route is part of the amount, which fits the decimal context, and leaves the rest of it. -/
theorem sum_append_route {routes : List Route} {path : List Pid} {alloc remaining amount : Amount} {e : ℤ}
    (hAmount : decimalContext.Fits e amount) (hTotal : (routes.map (·.amount)).sum + remaining = amount)
    (hRoutes : ∀ route ∈ routes, 0 < route.amount) (hRemaining : remaining ∈ digitsTo e)
    (hAlloc : alloc ∈ digitsTo e) (hPos : 0 < alloc) (hLe : alloc ≤ remaining) :
    ((routes ++ [(⟨path, alloc⟩ : Route)]).map (·.amount)).sum + decimalSub remaining alloc = amount := by
  have hRest := fits_of_add_le hAmount hTotal.le (amounts_nonneg hRoutes) (hPos.le.trans hLe) hRemaining
  rw [decimalSub_eq hRest hAlloc hPos.le hLe, List.map_append, List.sum_append, ← hTotal]
  simp

/-- A simple path from a node to itself has no hops. -/
theorem PathIn.hops_eq_nil {graph : CapacityGraph} {fromPid : Pid} {path : List Pid}
    (h : PathIn graph fromPid fromPid path) : hops path = [] := by
  cases path with
  | nil => rfl
  | cons x rest =>
      cases rest with
      | nil => rfl
      | cons y tail =>
          have hFirst := h.first
          have hLast := h.last
          rw [List.head?_cons, Option.some.injEq] at hFirst
          rw [List.getLast?_cons_cons] at hLast
          have hIn : x ∈ y :: tail := hFirst ▸ List.mem_of_getLast? hLast
          exact absurd hIn (List.nodup_cons.mp h.simple).1

/-- What a route takes off the edges: its amount off each edge of its path. -/
theorem usedBy_append {routes : List Route} {path : List Pid} {alloc : Amount} (hSimple : path.Nodup) (u v : Pid) :
    usedBy (routes ++ [⟨path, alloc⟩]) u v = usedBy routes u v + if (u, v) ∈ hops path then alloc else 0 := by
  have hUnique : (hops path).Nodup := (nodup_hops_fst hSimple).of_map _
  have hAlone : ((hops path).map fun hop => if hop = (u, v) then alloc else 0).sum =
      if (u, v) ∈ hops path then alloc else 0 := by
    rw [Rows.sum_ite_eq hUnique (u, v) alloc]
    congr
  simp [usedBy, ← hAlone]

/-- One more route keeps the search sound. -/
theorem SearchSound.step {amount : Amount} {s : FlowSearch} {path : List Pid} {alloc : Amount}
    (h : SearchSound graph q amount s) (hPath : PathIn s.residual q.fromPid q.toPid path)
    (hFrom : q.fromPid ∈ s.residual.keys) (hRemaining : 0 < s.remaining) (hPos : 0 < alloc)
    (hLe : alloc ≤ s.remaining) (hCapacity : ∀ hop ∈ hops path, alloc ≤ s.residual.getD₂ hop.1 hop.2 0)
    (hWhole : hops path = [] → alloc = s.remaining)
    (hStored : ∀ e, (∀ u v, s.residual.getD₂ u v 0 ∈ digitsTo e) → s.remaining ∈ digitsTo e → alloc ∈ digitsTo e) :
    SearchSound graph q amount
      { residual := (hops path).foldl (reduceEdge alloc) s.residual
        remaining := decimalSub s.remaining alloc
        routes := s.routes ++ [⟨path, alloc⟩] } := by
  have hUnique : (hops path).Nodup := (nodup_hops_fst hPath.simple).of_map _
  have hPositive : ∀ route ∈ s.routes, 0 < route.amount := fun route hRoute => (h.paths route hRoute).1
  have hReduced := foldl_reduceEdge_capacity hUnique hCapacity
  have hOpen : PathIn graph q.fromPid q.toPid path :=
    ⟨hPath.first, hPath.last, hPath.simple, fun hop hHop => h.opened hop.1 hop.2 (hPath.open_edges hop hHop)⟩
  refine ⟨?_, fun u v hOpened => ?_, fun u v => ?_, fun u hu => ?_, fun route hRoute => ?_, ?_, ?_,
    fun hSame => ?_, fun e hAmount hGraph => ?_⟩
  · rintro hFits u v
    have hWithin := h.within hFits u v
    obtain ⟨e, hAmount, hGraph⟩ := hFits
    obtain ⟨hResidual, hLeft, -⟩ := h.stored e hAmount.mem fun u v => (hGraph u v).mem
    rw [usedBy_append hPath.simple, hReduced]
    split
    · next hIn =>
        have hUsed := usedBy_nonneg hPositive u v
        have hEdge := fits_of_add_le (hGraph u v) hWithin hUsed (h.nonneg u v) (hResidual u v)
        rw [decimalSub_eq hEdge (hStored e hResidual hLeft) hPos.le (hCapacity (u, v) hIn)]
        linarith
    · linarith
  · exact h.opened u v (foldl_reduceEdge_pos hUnique hCapacity hPos hOpened)
  · exact foldl_reduceEdge_nonneg hUnique hCapacity h.nonneg u v
  · exact h.nodes u (mem_keys_foldl_reduceEdge hPos hu)
  · rcases List.mem_append.mp hRoute with hOld | hNew
    · exact h.paths route hOld
    · rw [List.mem_singleton.mp hNew]
      exact ⟨hPos, hOpen, h.nodes _ hFrom⟩
  · intro hFits
    have hTotal := h.total hFits
    obtain ⟨e, hAmount, hGraph⟩ := hFits
    obtain ⟨hResidual, hLeft, -⟩ := h.stored e hAmount.mem fun u v => (hGraph u v).mem
    exact sum_append_route hAmount hTotal hPositive hLeft (hStored e hResidual hLeft) hPos hLe
  · exact decimalSub_nonneg hLe
  · rcases h.direct hSame with hNil | ⟨hZero, _⟩
    · rw [hSame] at hPath
      refine Or.inr ⟨?_, by simp [hNil]⟩
      show decimalSub s.remaining alloc = 0
      rw [hWhole hPath.hops_eq_nil, decimalSub_self]
    · exact absurd hZero hRemaining.ne'
  · obtain ⟨hResidual, hLeft, hOld⟩ := h.stored e hAmount hGraph
    have hAlloc := hStored e hResidual hLeft
    refine ⟨foldl_reduceEdge_mem hUnique hCapacity hResidual hAlloc, decimalSub_mem hLeft hAlloc, fun route hRoute => ?_⟩
    rcases List.mem_append.mp hRoute with hRoute | hRoute
    · exact hOld route hRoute
    · rw [List.mem_singleton.mp hRoute]
      exact hAlloc

/-- What one more route may take: the bottleneck of its path, up to what is asked for. -/
def allocation (path : List Pid) (s : FlowSearch) : Amount :=
  match pathBottleneck path s.residual with
  | none => s.remaining
  | some bottleneck => min s.remaining bottleneck

/-- What every further route keeps holds at the end of the loop. -/
theorem searchRoutes_invariant {P : FlowSearch → Prop} {paths deadline : Nat} {s s' : FlowSearch}
    (hStep : ∀ s path deadline left, P s → 0 < s.remaining →
      bfsSinglePath r q s.residual deadline = .ok (some path, left) → 0 < allocation path s →
      P { residual := (hops path).foldl (reduceEdge (allocation path s)) s.residual
          remaining := decimalSub s.remaining (allocation path s)
          routes := s.routes ++ [⟨path, allocation path s⟩] })
    (hStart : P s) (h : searchRoutes r q paths deadline s = .ok s') : P s' := by
  induction paths generalizing deadline s with
  | zero =>
      cases h
      exact hStart
  | succ paths ih =>
      unfold searchRoutes at h
      split at h
      · cases h
        exact hStart
      · next hRemaining =>
          rw [not_le] at hRemaining
          split at h
          · cases h
          · split at h
            · cases h
            · cases h
              exact hStart
            · next path left hFound =>
                change (if path = [] ∨ allocation path s ≤ 0 then Except.ok s
                  else searchRoutes r q paths left
                    { residual := (hops path).foldl (reduceEdge (allocation path s)) s.residual
                      remaining := decimalSub s.remaining (allocation path s)
                      routes := s.routes ++ [⟨path, allocation path s⟩] }) = .ok s' at h
                split at h
                · cases h
                  exact hStart
                · next hAlloc =>
                    rw [not_or, not_le] at hAlloc
                    exact ih (hStep s path _ left hStart hRemaining hFound hAlloc.2) h

/-- One more turn of the loop keeps the search sound. -/
theorem SearchSound.next {amount : Amount} {s : FlowSearch} {path : List Pid} {deadline left : Nat}
    (hSound : SearchSound graph q amount s) (hRemaining : 0 < s.remaining)
    (hFound : bfsSinglePath r q s.residual deadline = .ok (some path, left)) (hPos : 0 < allocation path s) :
    SearchSound graph q amount
      { residual := (hops path).foldl (reduceEdge (allocation path s)) s.residual
        remaining := decimalSub s.remaining (allocation path s)
        routes := s.routes ++ [⟨path, allocation path s⟩] } := by
  obtain ⟨hPath, hFrom⟩ := bfsSinglePath_pathIn hFound
  unfold allocation at hPos ⊢
  cases hBottleneck : pathBottleneck path s.residual with
  | none =>
      have hNoHops := hops_of_pathBottleneck_none hBottleneck
      refine hSound.step hPath hFrom hRemaining hRemaining le_rfl ?_ (fun _ => rfl) fun _ _ hLeft => hLeft
      intro hop hHop
      rw [hNoHops] at hHop
      cases hHop
  | some bottleneck =>
      rw [hBottleneck] at hPos
      refine hSound.step hPath hFrom hRemaining hPos (min_le_left _ _) ?_ ?_ ?_
      · intro hop hHop
        exact (min_le_right _ _).trans (pathBottleneck_le hBottleneck hop hHop)
      · intro hNil
        rw [pathBottleneck, hNil] at hBottleneck
        cases hBottleneck
      · intro e hResidual hLeft
        change min s.remaining bottleneck ∈ digitsTo e
        rcases min_choice s.remaining bottleneck with hMin | hMin
        · rw [hMin]
          exact hLeft
        · rw [hMin]
          exact foldl_narrow_mem hResidual (fun x hx => by cases hx) hBottleneck

/-- The search keeps its routes sound, by induction on the paths that are left. -/
theorem searchRoutes_sound {amount : Amount} {paths deadline : Nat} {s s' : FlowSearch}
    (hSound : SearchSound graph q amount s) (h : searchRoutes r q paths deadline s = .ok s') :
    SearchSound graph q amount s' :=
  searchRoutes_invariant (fun _ _ _ _ hSound hRemaining hFound hPos => hSound.next hRemaining hFound hPos)
    hSound h

/-- The search before its first route. -/
theorem SearchSound.start {amount : Amount} (hGraph : ∀ u v, 0 ≤ graph.getD₂ u v 0) (hAmount : 0 ≤ amount) :
    SearchSound graph q amount ⟨graph, amount, []⟩ := by
  refine ⟨fun _ u v => ?_, fun _ _ hOpen => hOpen, hGraph, fun _ hu => hu, fun _ hRoute => (by cases hRoute),
    fun _ => ?_, hAmount, fun _ => Or.inl rfl, fun e hAmount hCapacities => ⟨hCapacities, hAmount, by simp⟩⟩
  · simp [usedBy]
  · simp

/-- What `find_flow_routes` promises of a list that is not empty. -/
structure FlowRoutes (graph : CapacityGraph) (fromPid toPid : Pid) (amount : Amount)
    (routes : List Route) : Prop where
  paths : ∀ route ∈ routes, 0 < route.amount ∧ PathIn graph fromPid toPid route.path
  start : fromPid ∈ graph.keys
  within : FitsContext graph amount → ∀ u v, usedBy routes u v ≤ graph.getD₂ u v 0
  total : FitsContext graph amount → (routes.map (·.amount)).sum = amount
  direct : fromPid = toPid → routes.length = 1
  stored : ∀ e, amount ∈ digitsTo e → (∀ u v, graph.getD₂ u v 0 ∈ digitsTo e) →
    ∀ route ∈ routes, route.amount ∈ digitsTo e

/-- The routes that are found are paths of the graph, and where the sums fit the context
they carry the amount within its capacities. -/
theorem findFlowRoutes_sound {fromPid toPid : Pid} {amount : Amount} {maxHops maxPaths : ℤ}
    {deadline : Nat} {avoid : List Pid} {routes : List Route}
    (hGraph : ∀ u v, 0 ≤ r.graph.getD₂ u v 0)
    (h : findFlowRoutes r fromPid toPid amount maxHops maxPaths deadline avoid = .ok routes)
    (hRoutes : routes ≠ []) : FlowRoutes r.graph fromPid toPid amount routes := by
  unfold findFlowRoutes at h
  split at h
  · cases h
    exact absurd rfl hRoutes
  · next hArgs =>
      rw [not_or, not_le, not_le] at hArgs
      simp only at h
      obtain ⟨s, hSearch, hOk⟩ := Outcomes.bind_eq_ok_iff.mp h
      have hSound := searchRoutes_sound (SearchSound.start hGraph hArgs.1.le) hSearch
      have hOk := Except.ok.inj hOk
      split at hOk
      · exact absurd hOk.symm hRoutes
      · next hDone =>
          subst hOk
          have hZero : s.remaining = 0 := le_antisymm (not_lt.mp hDone) hSound.left
          obtain ⟨route, hRoute⟩ := List.exists_mem_of_ne_nil _ hRoutes
          refine ⟨fun route hRoute => ⟨(hSound.paths route hRoute).1, (hSound.paths route hRoute).2.1⟩,
            (hSound.paths route hRoute).2.2, fun hFits u v => ?_, fun hFits => ?_, fun hSame => ?_,
            fun e hAmount hCapacities => (hSound.stored e hAmount hCapacities).2.2⟩
          · linarith [hSound.within hFits u v, hSound.nonneg u v]
          · have hTotal := hSound.total hFits
            rwa [hZero, add_zero] at hTotal
          · exact (hSound.direct hSame).elim (fun hNil => absurd hNil hRoutes) fun h => h.2

end Routes

end PaymentRouter

end GeoLedger

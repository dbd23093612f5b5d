import Mathlib
import GeoLedger.Library.FlowPaths
import GeoLedger.Library.ShortestAugmentation
import GeoLedger.Payments.MaxFlow

/-! `calculate_max_flow` ends, since it augments along shortest paths. What it finds
is a flow while the decimal context keeps all digits, and when no way to send more is
left, no routes send more than it. -/
namespace GeoLedger.PaymentRouter
open Flows Trails ShortestAugmentation

variable {graph residual : CapacityGraph} {maxHops : Nat} {fromPid toPid : Pid} {nodes : Finset Pid}

section Paths

theorem joins_hops {path : List Pid} {first last : Pid} (hFirst : path.head? = some first)
    (hLast : path.getLast? = some last) : Joins first (hops path) last := by
  induction path generalizing first with
  | nil => cases hFirst
  | cons x rest ih =>
      cases hFirst
      cases rest with
      | nil =>
          cases hLast
          exact rfl
      | cons y tail =>
          rw [List.getLast?_cons_cons] at hLast
          exact ⟨rfl, ih rfl hLast⟩

/-- A simple path does not go back over a hop. -/
theorem hops_no_return {path : List Pid} (hSimple : path.Nodup) {hop : Pid × Pid} (hHop : hop ∈ hops path) :
    (hop.2, hop.1) ∉ hops path := fun hBack => (hops_distinct hSimple hHop hBack).2.2 rfl

/-- Hops that never turn back lead to another node. -/
theorem ne_of_no_return {edges : List (Pid × Pid)} (hReturn : ∀ hop ∈ edges, (hop.2, hop.1) ∉ edges)
    {hop : Pid × Pid} (hHop : hop ∈ edges) : hop.1 ≠ hop.2 := by
  intro hSame
  have hBack : (hop.2, hop.1) = hop := Prod.ext hSame.symm hSame
  exact hReturn hop hHop (hBack ▸ hHop)

theorem nodup_hops_snd {path : List Pid} (hSimple : path.Nodup) : ((hops path).map Prod.snd).Nodup := by
  rw [hops, List.map_snd_zip (by simp)]
  exact hSimple.tail

end Paths

section Shift

variable {flow : Amount}

theorem takeEdge_capacity {hop : Pid × Pid} (u v : Pid) : (takeEdge flow residual hop).getD₂ u v 0 =
    if hop = (u, v) then decimalSub (residual.getD₂ u v 0) flow else residual.getD₂ u v 0 := by
  obtain ⟨x, y⟩ := hop
  simp only [takeEdge, Prod.mk.injEq]
  split
  · next hZero =>
      by_cases hSame : x = u ∧ y = v
      · obtain ⟨rfl, rfl⟩ := hSame
        rw [if_pos ⟨rfl, rfl⟩, hZero]
        cases hEdges : residual.get? x with
        | none => simp [Dict.getD₂, Dict.getD, hEdges]
        | some edges => simp [Dict.getD₂, Dict.getD, Dict.get?_set, Dict.get?_pop]
      · rw [if_neg hSame]
        cases hEdges : residual.get? x with
        | none => rfl
        | some edges =>
            by_cases hu : u = x
            · have hv : v ≠ y := fun hv => hSame ⟨hu.symm, hv.symm⟩
              simp [Dict.getD₂, Dict.getD, Dict.get?_set, Dict.get?_pop, hu, hv, hEdges]
            · simp [Dict.getD₂, Dict.getD, Dict.get?_set, hu]
  · rw [Dict.getD₂_set₂]
    by_cases hSame : u = x ∧ v = y
    · rw [if_pos hSame, if_pos ⟨hSame.1.symm, hSame.2.symm⟩, hSame.1, hSame.2]
    · rw [if_neg hSame, if_neg fun h => hSame ⟨h.1.symm, h.2.symm⟩]

theorem shiftEdge_capacity {hop : Pid × Pid} (hNe : hop.1 ≠ hop.2) (u v : Pid) :
    (shiftEdge flow residual hop).getD₂ u v 0 =
      if hop = (u, v) then decimalSub (residual.getD₂ u v 0) flow
      else if hop = (v, u) then decimalAdd (residual.getD₂ u v 0) flow else residual.getD₂ u v 0 := by
  obtain ⟨x, y⟩ := hop
  simp only [shiftEdge]
  rw [Dict.getD₂_set₂]
  by_cases hBack : u = y ∧ v = x
  · obtain ⟨rfl, rfl⟩ := hBack
    have hForward : (v, u) ≠ (u, v) := fun h => hNe (Prod.mk.inj h).1
    rw [if_pos ⟨rfl, rfl⟩, takeEdge_capacity, if_neg hForward, if_neg hForward, if_pos rfl]
  · have hOther : (x, y) ≠ (v, u) := fun h => hBack ⟨(Prod.mk.inj h).2.symm, (Prod.mk.inj h).1.symm⟩
    rw [if_neg hBack, takeEdge_capacity, if_neg hOther]

/-- Shifting along hops that never turn back takes the amount off each of them and adds it to its reverse. -/
theorem foldl_shiftEdge_capacity {edges : List (Pid × Pid)} (hUnique : edges.Nodup)
    (hReturn : ∀ hop ∈ edges, (hop.2, hop.1) ∉ edges) (u v : Pid) :
    (edges.foldl (shiftEdge flow) residual).getD₂ u v 0 =
      if (u, v) ∈ edges then decimalSub (residual.getD₂ u v 0) flow
      else if (v, u) ∈ edges then decimalAdd (residual.getD₂ u v 0) flow else residual.getD₂ u v 0 := by
  induction edges generalizing residual with
  | nil => simp
  | cons hop rest ih =>
      obtain ⟨hOut, hRest⟩ := List.nodup_cons.mp hUnique
      have hEnds := ne_of_no_return hReturn List.mem_cons_self
      have hLater : ∀ other ∈ rest, (other.2, other.1) ∉ rest := fun other hOther hBack =>
        hReturn other (List.mem_cons_of_mem _ hOther) (List.mem_cons_of_mem _ hBack)
      rw [List.foldl_cons, ih hRest hLater, shiftEdge_capacity hEnds]
      by_cases hFirst : hop = (u, v)
      · subst hFirst
        have hBack : (v, u) ∉ rest := fun hIn => hReturn (u, v) List.mem_cons_self (List.mem_cons_of_mem _ hIn)
        simp [hOut, hBack]
      · by_cases hSecond : hop = (v, u)
        · subst hSecond
          have hBack : (u, v) ∉ rest := fun hIn => hReturn (v, u) List.mem_cons_self (List.mem_cons_of_mem _ hIn)
          have hNe : (u, v) ≠ (v, u) := fun hSame => hFirst hSame.symm
          simp [hOut, hBack, hNe, hFirst]
        · simp [hFirst, hSecond, Ne.symm hFirst, Ne.symm hSecond]

variable {edges : List (Pid × Pid)} (hUnique : edges.Nodup) (hReturn : ∀ hop ∈ edges, (hop.2, hop.1) ∉ edges)
  (hFlow : 0 < flow) (hLe : ∀ hop ∈ edges, flow ≤ residual.getD₂ hop.1 hop.2 0)

include hUnique hReturn hFlow

/-- Only the reverses of the hops are opened. -/
theorem foldl_shiftEdge_opens {u v : Pid} (hOpen : 0 < (edges.foldl (shiftEdge flow) residual).getD₂ u v 0) :
    0 < residual.getD₂ u v 0 ∨ (v, u) ∈ edges := by
  rw [foldl_shiftEdge_capacity hUnique hReturn] at hOpen
  split at hOpen
  · exact Or.inl (hFlow.trans (lt_of_decimalSub_pos hOpen))
  · split at hOpen
    · next hBack => exact Or.inr hBack
    · exact Or.inl hOpen

include hLe

/-- Shifting what the hops can carry leaves no capacity below zero. -/
theorem foldl_shiftEdge_nonneg (hNonneg : ∀ u v, 0 ≤ residual.getD₂ u v 0) (u v : Pid) :
    0 ≤ (edges.foldl (shiftEdge flow) residual).getD₂ u v 0 := by
  rw [foldl_shiftEdge_capacity hUnique hReturn]
  split
  · next hIn => exact decimalSub_nonneg (hLe (u, v) hIn)
  · split
    · exact decimalAdd_nonneg (hNonneg u v) hFlow.le
    · exact hNonneg u v

/-- When the sums fit the context, the capacities lose what the hops carry net. -/
theorem foldl_shiftEdge_exact {e : ℤ} (hMem : flow ∈ digitsTo e) {total : Amount} (hTotal : decimalContext.Fits e total)
    (hResidual : ∀ u v, residual.getD₂ u v 0 ∈ digitsTo e) (hNonneg : ∀ u v, 0 ≤ residual.getD₂ u v 0)
    (hPairs : ∀ hop ∈ edges, residual.getD₂ hop.1 hop.2 0 + residual.getD₂ hop.2 hop.1 0 ≤ total) (u v : Pid) :
    (edges.foldl (shiftEdge flow) residual).getD₂ u v 0 = residual.getD₂ u v 0 - carried flow edges u v := by
  rw [foldl_shiftEdge_capacity hUnique hReturn, carried_eq, sentAlong_of_nodup hUnique, sentAlong_of_nodup hUnique]
  have hFits {x : Amount} (hx : x ∈ digitsTo e) (hPos : 0 ≤ x) (hBound : x ≤ total) : decimalContext.Fits e x := by
    refine hTotal.of_abs_le hx ?_
    rw [abs_of_nonneg hPos]
    exact hBound.trans (le_abs_self total)
  split
  · next hIn =>
      have hPair := hPairs (u, v) hIn
      have hBack := hNonneg v u
      simp only at hPair
      rw [if_neg (hReturn (u, v) hIn), sub_zero]
      exact decimalSub_eq (hFits (hResidual u v) (hNonneg u v) (by linarith)) hMem hFlow.le (hLe (u, v) hIn)
  · split
    · next hBack =>
        have hPair := hPairs (v, u) hBack
        have hEdge := hLe (v, u) hBack
        have hOld := hNonneg u v
        simp only at hPair hEdge
        rw [decimalAdd_eq (hFits ((digitsTo e).add_mem (hResidual u v) hMem) (by linarith) (by linarith))]
        ring
    · rw [sub_zero, sub_zero]

end Shift

section Sums

/-- The capacities of all edges, added up. -/
def totalCapacity (graph : CapacityGraph) : Amount := (graph.items.flatMap fun row => row.2.items.map Prod.snd).sum

/-- The capacities, written with one number of decimals, sum to no more digits than the
decimal context keeps. -/
def SumsFit (graph : CapacityGraph) : Prop :=
  ∃ e, decimalContext.Fits e (totalCapacity graph) ∧ ∀ u v, graph.getD₂ u v 0 ∈ digitsTo e

/-- The edges that a graph lists. -/
def listedEdges (graph : CapacityGraph) : List (Pid × Pid) :=
  graph.items.flatMap fun row => row.2.items.map fun edge => (row.1, edge.1)

theorem nodup_listedEdges (graph : CapacityGraph) : (listedEdges graph).Nodup := by
  refine List.nodup_flatMap.mpr ⟨fun row _ => ?_, ?_⟩
  · refine List.Nodup.of_map Prod.snd ?_
    rw [List.map_map]
    exact row.2.nodup
  · refine (List.pairwise_map.mp graph.nodup).imp fun {row other} hRows edge hEdge hOther => ?_
    obtain ⟨_, _, rfl⟩ := List.mem_map.mp hEdge
    obtain ⟨_, _, hSame⟩ := List.mem_map.mp hOther
    exact hRows (Prod.mk.inj hSame).1.symm

theorem getD₂_of_listed {row : Pid × Dict Pid Amount} (hRow : row ∈ graph.items) {edge : Pid × Amount}
    (hEdge : edge ∈ row.2.items) : graph.getD₂ row.1 edge.1 0 = edge.2 := by
  have hGet := Dict.get?_eq_some_iff.mpr hRow
  have hValue := Dict.get?_eq_some_iff.mpr hEdge
  simp [Dict.getD₂, Dict.getD, hGet, hValue]

theorem totalCapacity_eq (graph : CapacityGraph) :
    totalCapacity graph = ∑ p ∈ (listedEdges graph).toFinset, graph.getD₂ p.1 p.2 0 := by
  rw [List.sum_toFinset _ (nodup_listedEdges graph), totalCapacity, listedEdges, List.map_flatMap]
  refine congrArg List.sum (List.flatMap_congr fun row hRow => ?_)
  rw [List.map_map]
  exact List.map_congr_left fun edge hEdge => (getD₂_of_listed hRow hEdge).symm

/-- No edges together have more than all of them. -/
theorem sum_le_totalCapacity (hGraph : ∀ u v, 0 ≤ graph.getD₂ u v 0) (pairs : Finset (Pid × Pid)) :
    ∑ p ∈ pairs, graph.getD₂ p.1 p.2 0 ≤ totalCapacity graph := by
  rw [totalCapacity_eq]
  have hListed : ∀ p ∈ pairs, p ∉ (listedEdges graph).toFinset → graph.getD₂ p.1 p.2 0 = 0 := by
    intro p _ hOut
    by_contra hNe
    have hOpen := lt_of_le_of_ne (hGraph p.1 p.2) (Ne.symm hNe)
    refine hOut (List.mem_toFinset.mpr ?_)
    have hItem := mem_items_of_pos hOpen
    cases hRow : graph.get? p.1 with
    | none =>
        rw [Dict.getD, hRow] at hItem
        cases hItem
    | some row =>
        rw [Dict.getD, hRow] at hItem
        exact List.mem_flatMap.mpr ⟨(p.1, row), Dict.get?_eq_some_iff.mp hRow, List.mem_map.mpr ⟨_, hItem, rfl⟩⟩
  calc ∑ p ∈ pairs, graph.getD₂ p.1 p.2 0
      = ∑ p ∈ pairs.filter (· ∈ (listedEdges graph).toFinset), graph.getD₂ p.1 p.2 0 := by
        refine (Finset.sum_subset (Finset.filter_subset _ _) fun p hp hOut => hListed p hp fun hIn => ?_).symm
        exact hOut (Finset.mem_filter.mpr ⟨hp, hIn⟩)
    _ ≤ ∑ p ∈ (listedEdges graph).toFinset, graph.getD₂ p.1 p.2 0 :=
        Finset.sum_le_sum_of_subset_of_nonneg (fun p hp => (Finset.mem_filter.mp hp).2) fun p _ _ => hGraph p.1 p.2

theorem pair_le_totalCapacity (hGraph : ∀ u v, 0 ≤ graph.getD₂ u v 0) {u v : Pid} (hNe : u ≠ v) :
    graph.getD₂ u v 0 + graph.getD₂ v u 0 ≤ totalCapacity graph := by
  have hPair := sum_le_totalCapacity hGraph {(u, v), (v, u)}
  rwa [Finset.sum_pair fun hSame => hNe (Prod.mk.inj hSame).1] at hPair

/-- What leaves one node is part of the total. -/
theorem sum_from_le_totalCapacity (hGraph : ∀ u v, 0 ≤ graph.getD₂ u v 0) (u : Pid) :
    ∑ v ∈ nodes, graph.getD₂ u v 0 ≤ totalCapacity graph := by
  have hRow := sum_le_totalCapacity hGraph (nodes.map ⟨fun v => (u, v), Prod.mk_right_injective u⟩)
  rwa [Finset.sum_map] at hRow

end Sums

section Flow

/-- The state of the computation. No residual capacity is negative, and while the sums fit the
decimal context the residual capacities are what a flow of the computed value leaves. -/
structure FlowSound (graph : CapacityGraph) (nodes : Finset Pid) (fromPid toPid : Pid) (s : MaxFlow) : Prop where
  value : 0 ≤ s.maxFlow
  net : SumsFit graph → NetFlow nodes fromPid toPid s.maxFlow fun u v => graph.getD₂ u v 0 - s.residual.getD₂ u v 0
  nonneg : ∀ u v, 0 ≤ s.residual.getD₂ u v 0
  within : ∀ u v, 0 < s.residual.getD₂ u v 0 → u ∈ nodes ∧ v ∈ nodes
  stored : ∀ e, (∀ u v, graph.getD₂ u v 0 ∈ digitsTo e) →
    (∀ u v, s.residual.getD₂ u v 0 ∈ digitsTo e) ∧ s.maxFlow ∈ digitsTo e

/-- Before the first search nothing flows. -/
theorem FlowSound.start (hGraph : ∀ u v, 0 ≤ graph.getD₂ u v 0)
    (hNodes : ∀ u v, 0 < graph.getD₂ u v 0 → u ∈ nodes ∧ v ∈ nodes) :
    FlowSound graph nodes fromPid toPid ⟨graph, 0, []⟩ := by
  refine ⟨le_rfl, fun _ => ?_, hGraph, hNodes, fun e hMem => ⟨hMem, (digitsTo e).zero_mem⟩⟩
  simp only [sub_self]
  exact NetFlow.zero _ _ _

variable {s : MaxFlow} {entry : FlowEntry} {visited : List Pid} {flow : Amount}

/-- One augmentation keeps the state sound. -/
theorem FlowSound.augment (h : FlowSound graph nodes fromPid toPid s) (hNe : fromPid ≠ toPid)
    (hGraph : ∀ u v, 0 ≤ graph.getD₂ u v 0) (hTarget : entry.current = toPid)
    (hEntry : EntrySound s.residual fromPid visited entry) (hFlow : entry.flow = some flow) :
    FlowSound graph nodes fromPid toPid
      { residual := (hops entry.path).foldl (shiftEdge flow) s.residual
        maxFlow := decimalAdd s.maxFlow flow
        paths := s.paths ++ [⟨entry.path, flow⟩] } := by
  obtain ⟨hPos, hLe⟩ := hEntry.flow flow hFlow
  have hPath := hEntry.path
  rw [hTarget] at hPath
  have hReturn : ∀ hop ∈ hops entry.path, (hop.2, hop.1) ∉ hops entry.path := fun _ => hops_no_return hPath.simple
  have hUnique : (hops entry.path).Nodup := (nodup_hops_fst hPath.simple).of_map _
  have hNodes : ∀ hop ∈ hops entry.path, hop.1 ∈ nodes ∧ hop.2 ∈ nodes := fun hop hHop =>
    h.within hop.1 hop.2 (hPath.open_edges hop hHop)
  have hNonneg := foldl_shiftEdge_nonneg hUnique hReturn hPos hLe h.nonneg
  refine ⟨decimalAdd_nonneg h.value hPos.le, fun hFits => ?_, hNonneg, fun u v hOpen => ?_, fun e hMem => ?_⟩
  · have hNet := h.net hFits
    obtain ⟨e, hTotal, hMem⟩ := hFits
    obtain ⟨hResidual, hValueMem⟩ := h.stored e hMem
    have hFlowMem := hEntry.stored _ hResidual flow hFlow
    have hPairs : ∀ hop ∈ hops entry.path,
        s.residual.getD₂ hop.1 hop.2 0 + s.residual.getD₂ hop.2 hop.1 0 ≤ totalCapacity graph := by
      intro hop hHop
      have hSkew := hNet.skew hop.1 hop.2
      linarith [pair_le_totalCapacity hGraph (ne_of_no_return hReturn hHop)]
    have hExact := foldl_shiftEdge_exact hUnique hReturn hPos hLe hFlowMem hTotal hResidual h.nonneg hPairs
    have hAugmented := hNet.augment flow hNe (joins_hops hPath.first hPath.last) hNodes
    have hSame (u v : Pid) :
        graph.getD₂ u v 0 - s.residual.getD₂ u v 0 + carried flow (hops entry.path) u v =
          graph.getD₂ u v 0 - ((hops entry.path).foldl (shiftEdge flow) s.residual).getD₂ u v 0 := by
      rw [hExact]
      ring
    simp only [hSame] at hAugmented
    have hValue : s.maxFlow + flow ≤ totalCapacity graph := by
      rw [← hAugmented.source]
      exact (Finset.sum_le_sum fun v _ => sub_le_self _ (hNonneg fromPid v)).trans
        (sum_from_le_totalCapacity hGraph fromPid)
    have hSum : 0 ≤ s.maxFlow + flow := add_nonneg h.value hPos.le
    have hFit : decimalContext.Fits e (s.maxFlow + flow) := by
      refine hTotal.of_abs_le ((digitsTo e).add_mem hValueMem hFlowMem) ?_
      rw [abs_of_nonneg hSum]
      exact hValue.trans (le_abs_self _)
    rw [decimalAdd_eq hFit]
    exact hAugmented
  · rcases foldl_shiftEdge_opens hUnique hReturn hPos hOpen with hOld | hBack
    · exact h.within u v hOld
    · exact (hNodes (v, u) hBack).symm
  · obtain ⟨hResidual, hValueMem⟩ := h.stored e hMem
    have hFlowMem := hEntry.stored _ hResidual flow hFlow
    refine ⟨fun u v => ?_, decimalAdd_mem hValueMem hFlowMem⟩
    rw [foldl_shiftEdge_capacity hUnique hReturn]
    split
    · exact decimalSub_mem (hResidual u v) hFlowMem
    · split
      · exact decimalAdd_mem (hResidual u v) hFlowMem
      · exact hResidual u v

/-- The edges with something left. -/
def Open (residual : CapacityGraph) (u v : Pid) : Prop := 0 < residual.getD₂ u v 0

/-- A search finds a shortest path, and the hop that gave the amount its size is left with nothing. -/
theorem FlowSound.augmentation (h : FlowSound graph nodes fromPid toPid s) (hTarget : entry.current = toPid)
    (hEntry : EntrySound s.residual fromPid visited entry) (hFlow : entry.flow = some flow)
    (hLeast : ∀ edges, Augmenting s.residual fromPid toPid edges → (hops entry.path).length ≤ edges.length) :
    Augmentation nodes fromPid toPid (Open s.residual)
      (Open ((hops entry.path).foldl (shiftEdge flow) s.residual)) (hops entry.path) := by
  have hPath := hEntry.path
  rw [hTarget] at hPath
  have hUnique : (hops entry.path).Nodup := (nodup_hops_fst hPath.simple).of_map _
  have hReturn : ∀ hop ∈ hops entry.path, (hop.2, hop.1) ∉ hops entry.path := fun _ => hops_no_return hPath.simple
  refine ⟨⟨joins_hops hPath.first hPath.last, hPath.open_edges, fun hop hHop => ?_, nodup_hops_snd hPath.simple,
    fun n hReach => ?_⟩, fun u v hOpen => ?_, ?_⟩
  · exact h.within hop.1 hop.2 (hPath.open_edges hop hHop)
  · obtain ⟨edges, hJoins, hOpen, rfl⟩ := hReach.exists_walk
    exact hLeast edges ⟨hJoins, hOpen⟩
  · exact foldl_shiftEdge_opens hUnique hReturn (hEntry.flow flow hFlow).1 hOpen
  · obtain ⟨hop, hHop, hIs⟩ := hEntry.attained flow hFlow
    refine ⟨hop, hHop, ?_⟩
    rw [Open, foldl_shiftEdge_capacity hUnique hReturn, if_pos hHop, hIs, decimalSub_self]
    exact lt_irrefl 0

/-- The loop ends, since it augments along shortest paths. -/
theorem maxFlowLoop_ends (hNe : fromPid ≠ toPid) (hGraph : ∀ u v, 0 ≤ graph.getD₂ u v 0) {s : MaxFlow}
    (hSound : FlowSound graph nodes fromPid toPid s) :
    ∃ rounds s', maxFlowLoop maxHops fromPid toPid rounds s = some s' ∧ FlowSound graph nodes fromPid toPid s' ∧
      ∀ edges, Augmenting s'.residual fromPid toPid edges → maxHops < edges.length := by
  generalize hOpen : Open s.residual = edges
  induction edges using (augmentation_wellFounded nodes fromPid toPid).induction generalizing s with
  | h edges ih =>
      subst hOpen
      rcases augmentingPath_cases maxHops fromPid toPid s.residual with
        ⟨entry, visited, hFound, hTarget, hEntry, hLeast⟩ | ⟨hFound, hNone⟩
      · cases hFlow : entry.flow with
        | none =>
            have hNoHops := hEntry.start hFlow
            have hJoins := joins_hops hEntry.path.first hEntry.path.last
            rw [hNoHops, hTarget] at hJoins
            exact absurd hJoins hNe
        | some flow =>
            have hStep := hSound.augmentation hTarget hEntry hFlow hLeast
            obtain ⟨rounds, s', hRest⟩ := ih _ ⟨_, hStep⟩ (hSound.augment hNe hGraph hTarget hEntry hFlow) rfl
            refine ⟨rounds + 1, s', ?_, hRest.2⟩
            rw [maxFlowLoop, hFound]
            simp only [hFlow]
            exact hRest.1
      · refine ⟨1, s, ?_, hSound, hNone⟩
        rw [maxFlowLoop, hFound]

end Flow

section Bound

/-- Why a search ends although more can be sent: something is left, and every way
to send it has more hops than the limit. -/
structure CutOff (s : MaxFlow) (maxHops : Nat) (fromPid toPid : Pid) : Prop where
  left : ∃ edges, Augmenting s.residual fromPid toPid edges
  long : ∀ edges, Augmenting s.residual fromPid toPid edges → maxHops < edges.length

/-- All nodes of a graph, with two more. -/
def graphNodes (graph : CapacityGraph) (fromPid toPid : Pid) : Finset Pid :=
  (fromPid :: toPid :: (graph.keys ++ edgeEnds graph)).toFinset

theorem mem_graphNodes {u v : Pid} (h : 0 < graph.getD₂ u v 0) :
    u ∈ graphNodes graph fromPid toPid ∧ v ∈ graphNodes graph fromPid toPid := by
  have hItem := mem_items_of_pos h
  cases hRow : graph.get? u with
  | none =>
      rw [Dict.getD, hRow] at hItem
      cases hItem
  | some row =>
      rw [Dict.getD, hRow] at hItem
      have hKey : u ∈ graph.keys := Dict.mem_keys_iff.mpr ⟨row, hRow⟩
      have hEnd : v ∈ edgeEnds graph := List.mem_flatMap.mpr
        ⟨(u, row), Dict.get?_eq_some_iff.mp hRow, List.mem_map_of_mem hItem⟩
      simp [graphNodes, hKey, hEnd]

/-- With nothing left to augment, nothing is left on the edges out of the nodes that the source still reaches. -/
theorem exists_full_cut (hFrom : fromPid ∈ nodes) (hDone : ∀ edges, ¬Augmenting residual fromPid toPid edges) :
    ∃ inside ⊆ nodes, fromPid ∈ inside ∧ toPid ∉ inside ∧
      ∀ u ∈ inside, ∀ v ∈ nodes \ inside, residual.getD₂ u v 0 ≤ 0 := by
  classical
  refine ⟨nodes.filter fun x => ∃ edges, Augmenting residual fromPid x edges, Finset.filter_subset _ _, ?_, ?_,
    fun u hu v hv => ?_⟩
  · exact Finset.mem_filter.mpr ⟨hFrom, [], rfl, fun _ hHop => by cases hHop⟩
  · intro hTo
    obtain ⟨edges, hEdges⟩ := (Finset.mem_filter.mp hTo).2
    exact hDone edges hEdges
  · obtain ⟨_, edges, hReached⟩ := Finset.mem_filter.mp hu
    obtain ⟨hIn, hOut⟩ := Finset.mem_sdiff.mp hv
    by_contra hOpen
    refine hOut (Finset.mem_filter.mpr ⟨hIn, edges ++ [(u, v)], ?_, fun hop hHop => ?_⟩)
    · exact hReached.joins.append (trail_singleton (u, v))
    · rcases List.mem_append.mp hHop with hOld | hNew
      · exact hReached.positive hop hOld
      · rw [List.mem_singleton.mp hNew]
        exact not_le.mp hOpen

/-- Routes within the capacities send no more than a flow that leaves nothing to augment. -/
theorem FlowSound.routes_le {s : MaxFlow} (h : FlowSound graph nodes fromPid toPid s) (hSums : SumsFit graph)
    (hFrom : fromPid ∈ nodes) (hNodes : ∀ u v, 0 < graph.getD₂ u v 0 → u ∈ nodes ∧ v ∈ nodes)
    (hDone : ∀ edges, ¬Augmenting s.residual fromPid toPid edges) {routes : List Route}
    (hPaths : ∀ route ∈ routes, 0 < route.amount ∧ PathIn graph fromPid toPid route.path)
    (hWithin : ∀ u v, usedBy routes u v ≤ graph.getD₂ u v 0) : (routes.map (·.amount)).sum ≤ s.maxFlow := by
  obtain ⟨inside, hInside, hSource, hSink, hFull⟩ := exists_full_cut hFrom hDone
  refine (h.net hSums).total_le (fun u v => graph.getD₂ u v 0) inside hInside hSource hSink
    (fun u hu v hv => by linarith [hFull u hu v hv]) (fun route : Route => hops route.path) (fun route hRoute => ?_) hWithin
  obtain ⟨hPos, hPath⟩ := hPaths route hRoute
  exact ⟨joins_hops hPath.first hPath.last, hPos.le, fun hop hHop =>
    hNodes hop.1 hop.2 (hPath.open_edges hop hHop)⟩

/-- The computation ends, with a flow, when no way to send more is left that the hop limit allows. -/
theorem calculateMaxFlow_ends (r : PaymentRouter) (maxFlowMaxHops : Nat) {fromPid toPid : Pid}
    (hNe : fromPid ≠ toPid) (hGraph : ∀ u v, 0 ≤ r.graph.getD₂ u v 0) :
    ∃ rounds s, calculateMaxFlow r maxFlowMaxHops rounds fromPid toPid = some s ∧
      FlowSound r.graph (graphNodes r.graph fromPid toPid) fromPid toPid s ∧
      ∀ edges, Augmenting s.residual fromPid toPid edges → maxFlowMaxHops < edges.length :=
  maxFlowLoop_ends hNe hGraph (FlowSound.start hGraph fun _ _ => mem_graphNodes)

/-- The maximum that is advertised bounds what routes can pay as long as the decimal
context keeps all digits, unless the hop limit cut the search for it off: then more is
left, and only along ways of more hops than the limit. -/
theorem max_flow_bounds_routes (r : PaymentRouter) (maxFlowMaxHops : Nat) {fromPid toPid : Pid}
    (hNe : fromPid ≠ toPid) (hGraph : ∀ u v, 0 ≤ r.graph.getD₂ u v 0) :
    ∃ rounds s, calculateMaxFlow r maxFlowMaxHops rounds fromPid toPid = some s ∧
      (SumsFit r.graph → ∀ amount maxHops maxPaths deadline avoid routes, FitsContext r.graph amount →
        findFlowRoutes r fromPid toPid amount maxHops maxPaths deadline avoid = .ok routes → routes ≠ [] →
          amount ≤ s.maxFlow ∨ CutOff s maxFlowMaxHops fromPid toPid) := by
  obtain ⟨rounds, s, hResult, hSound, hLong⟩ := calculateMaxFlow_ends r maxFlowMaxHops hNe hGraph
  refine ⟨rounds, s, hResult, fun hSums amount maxHops maxPaths deadline avoid routes hFits hFound hSome => ?_⟩
  by_cases hLeft : ∃ edges, Augmenting s.residual fromPid toPid edges
  · exact Or.inr ⟨hLeft, hLong⟩
  · have hRoutes := findFlowRoutes_sound hGraph hFound hSome
    refine Or.inl (hRoutes.total hFits ▸ hSound.routes_le hSums ?_ (fun _ _ => mem_graphNodes)
      (fun edges hEdges => hLeft ⟨edges, hEdges⟩) hRoutes.paths (hRoutes.within hFits))
    simp [graphNodes]

/-- Two participants connected at once and over two detours: the short path passes
the edge from U to V, which does not admit V as an intermediate. -/
def detours : PaymentRouter where
  graph := Dict.ofList [
    ("S", Dict.ofList [("U", 1), ("B1", 1)]), ("U", Dict.ofList [("V", 1), ("A1", 1)]),
    ("V", Dict.ofList [("T", 1)]), ("A1", Dict.ofList [("A2", 1)]), ("A2", Dict.ofList [("A3", 1)]),
    ("A3", Dict.ofList [("T", 1)]), ("B1", Dict.ofList [("B2", 1)]), ("B2", Dict.ofList [("V", 1)]),
    ("T", Dict.empty)]
  edgeCanBeIntermediate := Dict.ofList [("U", Dict.ofList [("V", false)])]
  edgeBlockedParticipants := Dict.empty

theorem detours_nonneg (u v : Pid) : 0 ≤ detours.graph.getD₂ u v 0 := by
  have hItems : ∀ row ∈ detours.graph.items, ∀ edge ∈ row.2.items, 0 ≤ edge.2 := by decide +kernel
  exact getD₂_of_items le_rfl hItems u v

/-- The capacities of the detours are whole numbers that the context keeps, and so are the sums. -/
theorem max_flow_bounds_routes_detours :
    SumsFit detours.graph ∧ FitsContext detours.graph 2 ∧
    ∃ rounds s, calculateMaxFlow detours 7 rounds "S" "T" = some s ∧
      (SumsFit detours.graph → ∀ amount maxHops maxPaths deadline avoid routes, FitsContext detours.graph amount →
        findFlowRoutes detours "S" "T" amount maxHops maxPaths deadline avoid = .ok routes → routes ≠ [] →
          amount ≤ s.maxFlow ∨ CutOff s 7 "S" "T") := by
  have hItems : ∀ row ∈ detours.graph.items, ∀ edge ∈ row.2.items, decimalContext.Fits 0 edge.2 := by decide +kernel
  have hFits := getD₂_of_items (by decide +kernel) hItems
  exact ⟨⟨0, by decide +kernel, fun u v => (hFits u v).mem⟩, ⟨0, by decide +kernel, hFits⟩,
    max_flow_bounds_routes detours 7 (by decide) detours_nonneg⟩

/-- A direct line and a detour, of a hundred billion each. -/
def wideLines : PaymentRouter where
  graph := Dict.ofList [
    ("A", Dict.ofList [("B", 100000000000), ("C", 100000000000)]), ("C", Dict.ofList [("B", 100000000000)]),
    ("B", Dict.empty)]
  edgeCanBeIntermediate := Dict.empty
  edgeBlockedParticipants := Dict.empty

/-- The policy-free search takes the short path first, and what it then leaves can only
be sent back along that path, by a way of eight hops. And an amount with thirty digits is
taken for two hundred billion, which is all that the sender's edges have. -/
theorem not_max_flow_bounds_routes :
    (¬∀ (r : PaymentRouter) (fromPid toPid : Pid) (amount : Amount) (maxHops maxPaths : ℤ) (deadline : Nat)
      (routes : List Route) (rounds : Nat) (s : MaxFlow), fromPid ≠ toPid → maxHops ≤ 7 →
        findFlowRoutes r fromPid toPid amount maxHops maxPaths deadline [] = .ok routes → routes ≠ [] →
          calculateMaxFlow r 7 rounds fromPid toPid = some s → amount ≤ s.maxFlow) ∧
    findFlowRoutes wideLines "A" "B" (200000000000 + 1 / 10 ^ 18) 6 3 50 [] =
      .ok [⟨["A", "B"], 100000000000⟩, ⟨["A", "C", "B"], 100000000000⟩] ∧
    (calculateMaxFlow wideLines 7 3 "A" "B").map (fun s => (s.maxFlow, (s.residual.getD "A" Dict.empty).items)) =
      some (200000000000, []) := by
  refine ⟨fun h => ?_, by decide +kernel, by decide +kernel⟩
  have hRoutes : ∃ routes, findFlowRoutes detours "S" "T" 2 6 3 100 [] = .ok routes ∧ routes ≠ [] :=
    ⟨[⟨["S", "B1", "B2", "V", "T"], 1⟩, ⟨["S", "U", "A1", "A2", "A3", "T"], 1⟩], by decide +kernel, by decide⟩
  obtain ⟨routes, hFound, hSome⟩ := hRoutes
  have hFlow : (calculateMaxFlow detours 7 2 "S" "T").map (·.maxFlow) = some 1 := by decide +kernel
  obtain ⟨s, hResult, hValue⟩ := Option.map_eq_some_iff.mp hFlow
  have hLe := h detours "S" "T" 2 6 3 100 routes 2 s (by decide) (by decide) hFound hSome hResult
  rw [hValue] at hLe
  norm_num at hLe

end Bound

end GeoLedger.PaymentRouter

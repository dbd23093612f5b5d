import Mathlib
import GeoLedger.Library.FlowPaths
import GeoLedger.Payments.MaxFlowBound

/-! When `calculate_max_flow` ends, and what it then returns: the least capacity
of all cuts between the two participants, which is the most that paths can send. -/
namespace GeoLedger.PaymentRouter
open Flows Trails

variable {graph residual : CapacityGraph} {maxHops : Nat} {fromPid toPid : Pid} {nodes : Finset Pid}

section Termination

/-- From a participant to itself every search finds the path without hops. -/
theorem augmentingPath_self (maxHops : Nat) (pid : Pid) (residual : CapacityGraph) :
    augmentingPath maxHops pid pid residual = some (some ⟨pid, [pid], none⟩) := by
  rw [augmentingPath, augmentingLoop, if_pos rfl]

theorem maxFlowLoop_self (maxHops rounds : Nat) (pid : Pid) (s : MaxFlow) :
    maxFlowLoop maxHops pid pid rounds s = none := by
  induction rounds with
  | zero => rfl
  | succ rounds ih =>
      rw [maxFlowLoop, augmentingPath_self]
      exact ih

/-- The computation ends unless it is asked for the flow from a participant to itself. -/
theorem calculateMaxFlow_ends_iff (r : PaymentRouter) (maxFlowMaxHops : Nat) (fromPid toPid : Pid)
    (hGraph : ∀ u v, 0 ≤ r.graph.getD₂ u v 0) :
    (∃ rounds s, calculateMaxFlow r maxFlowMaxHops rounds fromPid toPid = some s) ↔ fromPid ≠ toPid := by
  constructor
  · rintro ⟨rounds, s, hResult⟩ rfl
    rw [calculateMaxFlow, maxFlowLoop_self] at hResult
    cases hResult
  · intro hNe
    obtain ⟨rounds, s, hResult, -⟩ := calculateMaxFlow_ends r maxFlowMaxHops hNe hGraph
    exact ⟨rounds, s, hResult⟩

/-- Two participants, of whom one trusts the other. -/
def oneLine : PaymentRouter where
  graph := Dict.ofList [("alice", Dict.ofList [("bob", 10)]), ("bob", Dict.empty)]
  edgeCanBeIntermediate := Dict.empty
  edgeBlockedParticipants := Dict.empty

theorem oneLine_nonneg (u v : Pid) : 0 ≤ oneLine.graph.getD₂ u v 0 := by
  have hItems : ∀ row ∈ oneLine.graph.items, ∀ edge ∈ row.2.items, 0 ≤ edge.2 := by decide +kernel
  exact getD₂_of_items le_rfl hItems u v

/-- Along one line from Alice to Bob the loop ends, as the two are different. -/
theorem calculateMaxFlow_ends_oneLine :
    (∃ rounds s, calculateMaxFlow oneLine 7 rounds "alice" "bob" = some s) ↔ "alice" ≠ "bob" :=
  calculateMaxFlow_ends_iff oneLine 7 "alice" "bob" oneLine_nonneg

/-- A participant who asks for the flow to itself waits for ever. -/
theorem not_calculateMaxFlow_ends :
    ¬∀ (r : PaymentRouter) (maxFlowMaxHops : Nat) (fromPid toPid : Pid), (∀ u v, 0 ≤ r.graph.getD₂ u v 0) →
      ∃ rounds s, calculateMaxFlow r maxFlowMaxHops rounds fromPid toPid = some s := by
  intro h
  obtain ⟨rounds, s, hResult⟩ := h oneLine 7 "alice" "alice" oneLine_nonneg
  rw [calculateMaxFlow, maxFlowLoop_self] at hResult
  cases hResult

end Termination

section States

/-- The states between two searches of one computation. -/
inductive Searched (graph : CapacityGraph) (maxHops : Nat) (fromPid toPid : Pid) : MaxFlow → Prop where
  | start : Searched graph maxHops fromPid toPid ⟨graph, 0, []⟩
  | augmented {s : MaxFlow} {entry : FlowEntry} {flow : Amount} (prior : Searched graph maxHops fromPid toPid s)
      (hFound : augmentingPath maxHops fromPid toPid s.residual = some (some entry))
      (hFlow : entry.flow = some flow) :
      Searched graph maxHops fromPid toPid
        { residual := (hops entry.path).foldl (shiftEdge flow) s.residual
          maxFlow := decimalAdd s.maxFlow flow
          paths := s.paths ++ [⟨entry.path, flow⟩] }

/-- The entry that a search finds is sound. -/
theorem augmentingPath_found {entry : FlowEntry}
    (h : augmentingPath maxHops fromPid toPid residual = some (some entry)) :
    entry.current = toPid ∧ ∃ visited, EntrySound residual fromPid visited entry := by
  rcases augmentingPath_cases maxHops fromPid toPid residual with
    ⟨other, visited, hFound, hTarget, hEntry, -⟩ | ⟨hFound, -⟩
  · rw [hFound, Option.some.injEq, Option.some.injEq] at h
    cases h
    exact ⟨hTarget, visited, hEntry⟩
  · rw [hFound] at h
    cases h

theorem Searched.sound {s : MaxFlow} (h : Searched graph maxHops fromPid toPid s) (hNe : fromPid ≠ toPid)
    (hGraph : ∀ u v, 0 ≤ graph.getD₂ u v 0) (hNodes : ∀ u v, 0 < graph.getD₂ u v 0 → u ∈ nodes ∧ v ∈ nodes) :
    FlowSound graph nodes fromPid toPid s := by
  induction h with
  | start => exact FlowSound.start hGraph hNodes
  | augmented prior hFound hFlow ih =>
      obtain ⟨hTarget, visited, hEntry⟩ := augmentingPath_found hFound
      exact ih.augment hNe hGraph hTarget hEntry hFlow

theorem maxFlowLoop_searched {rounds : Nat} {s s' : MaxFlow} (hSearched : Searched graph maxHops fromPid toPid s)
    (h : maxFlowLoop maxHops fromPid toPid rounds s = some s') : Searched graph maxHops fromPid toPid s' := by
  induction rounds generalizing s with
  | zero => cases h
  | succ rounds ih =>
      rw [maxFlowLoop] at h
      split at h
      · cases h
      · cases h
        exact hSearched
      · next entry hFound =>
          split at h
          · exact ih hSearched h
          · next flow hFlow => exact ih (hSearched.augmented hFound hFlow) h

/-- No residual capacity falls below zero, between searches and while a path is booked hop by hop. -/
theorem Searched.nonneg {s : MaxFlow} (h : Searched graph maxHops fromPid toPid s) (hNe : fromPid ≠ toPid)
    (hGraph : ∀ u v, 0 ≤ graph.getD₂ u v 0) {entry : FlowEntry} {flow : Amount}
    (hFound : augmentingPath maxHops fromPid toPid s.residual = some (some entry)) (hFlow : entry.flow = some flow)
    {booked : List (Pid × Pid)} (hBooked : booked <+: hops entry.path) (u v : Pid) :
    0 ≤ (booked.foldl (shiftEdge flow) s.residual).getD₂ u v 0 := by
  obtain ⟨-, visited, hEntry⟩ := augmentingPath_found hFound
  obtain ⟨hPos, hLe⟩ := hEntry.flow flow hFlow
  have hSound : FlowSound graph (graphNodes graph fromPid toPid) fromPid toPid s :=
    h.sound hNe hGraph fun _ _ => mem_graphNodes
  have hSimple := hEntry.path.simple
  exact foldl_shiftEdge_nonneg (((nodup_hops_fst hSimple).of_map _).sublist hBooked.sublist)
    (fun hop hHop hBack => hops_no_return hSimple (hBooked.subset hHop) (hBooked.subset hBack)) hPos
    (fun hop hHop => hLe hop (hBooked.subset hHop)) hSound.nonneg u v

end States

section Cuts

/-- The nodes of a graph. -/
def nodesOf (graph : CapacityGraph) : Finset Pid := (graph.keys ++ edgeEnds graph).toFinset

theorem mem_nodesOf {u v : Pid} (h : 0 < graph.getD₂ u v 0) : u ∈ nodesOf graph ∧ v ∈ nodesOf graph := by
  have hItem := mem_items_of_pos h
  cases hRow : graph.get? u with
  | none =>
      rw [Dict.getD, hRow] at hItem
      cases hItem
  | some row =>
      rw [Dict.getD, hRow] at hItem
      have hKey : u ∈ graph.keys := Dict.mem_keys_iff.mpr ⟨row, hRow⟩
      have hEnd : v ∈ edgeEnds graph := List.mem_flatMap.mpr
        ⟨(u, row), Dict.get?_eq_some_iff.mp hRow, List.mem_map_of_mem hItem⟩
      simp [nodesOf, hKey, hEnd]

/-- The capacities of the cuts that separate two participants. -/
def cutCapacities (graph : CapacityGraph) (fromPid toPid : Pid) : Set Amount :=
  {capacity | ∃ inside ⊆ graphNodes graph fromPid toPid, fromPid ∈ inside ∧ toPid ∉ inside ∧
    capacity = cutCapacity (fun u v => graph.getD₂ u v 0) (graphNodes graph fromPid toPid) inside}

/-- Paths that together send an amount within the capacities. -/
structure PathSplit (graph : CapacityGraph) (fromPid toPid : Pid) (amount : Amount) (routes : List Route) :
    Prop where
  paths : ∀ route ∈ routes, 0 < route.amount ∧ PathIn graph fromPid toPid route.path
  within : ∀ u v, usedBy routes u v ≤ graph.getD₂ u v 0
  total : (routes.map (·.amount)).sum = amount

/-- The amounts that paths can send. -/
def splitAmounts (graph : CapacityGraph) (fromPid toPid : Pid) : Set Amount :=
  {amount | ∃ routes, PathSplit graph fromPid toPid amount routes}

/-- A way to send more visits every node at most once and so is short enough for a small graph. -/
theorem no_augmenting {s : MaxFlow} (hSound : FlowSound graph (nodesOf graph) fromPid toPid s) (hNe : fromPid ≠ toPid)
    (hSmall : (nodesOf graph).card ≤ maxHops + 1)
    (hLong : ∀ edges, Augmenting s.residual fromPid toPid edges → maxHops < edges.length) :
    ∀ edges, ¬Augmenting s.residual fromPid toPid edges := by
  intro edges hEdges
  obtain ⟨direct, hSubset, hJoins, hSimple⟩ := hEdges.joins.exists_simple
  have hPositive : ∀ hop ∈ direct, 0 < s.residual.getD₂ hop.1 hop.2 0 := fun hop hHop =>
    hEdges.positive hop (hSubset hHop)
  have hLength := hLong direct ⟨hJoins, hPositive⟩
  have hNodes : ∀ x ∈ fromPid :: direct.map Prod.snd, x ∈ nodesOf graph := by
    intro x hx
    rcases List.mem_cons.mp hx with rfl | hLater
    · cases direct with
      | nil => exact absurd hJoins hNe
      | cons hop rest =>
          rw [← hJoins.1]
          exact (hSound.within hop.1 hop.2 (hPositive hop List.mem_cons_self)).1
    · obtain ⟨hop, hHop, rfl⟩ := List.mem_map.mp hLater
      exact (hSound.within hop.1 hop.2 (hPositive hop hHop)).2
  have hCount : (fromPid :: direct.map Prod.snd).length ≤ (nodesOf graph).card := by
    rw [← List.toFinset_card_of_nodup hSimple]
    exact Finset.card_le_card fun x hx => hNodes x (List.mem_toFinset.mp hx)
  rw [List.length_cons, List.length_map] at hCount
  omega

/-- The hops of the nodes that a path of hops visits. -/
theorem hops_of_joins {edges : List (Pid × Pid)} {first last : Pid} (h : Joins first edges last) :
    hops (first :: edges.map Prod.snd) = edges ∧ (first :: edges.map Prod.snd).getLast? = some last := by
  induction edges generalizing first with
  | nil => exact ⟨rfl, congrArg some h⟩
  | cons hop rest ih =>
      obtain ⟨rfl, hRest⟩ := h
      obtain ⟨hHops, hLast⟩ := ih hRest
      rw [List.map_cons, hops_cons_cons, hHops, List.getLast?_cons_cons, hLast]
      exact ⟨rfl, rfl⟩

/-- The route of a share of the flow. -/
def shareRoute (share : PathShare fromPid toPid Amount) : Route :=
  ⟨fromPid :: share.edges.map Prod.snd, share.amount⟩

/-- A flow can be sent along paths. -/
theorem FlowSound.exists_pathSplit {s : MaxFlow} (h : FlowSound graph nodes fromPid toPid s) (hSums : SumsFit graph)
    (hNe : fromPid ≠ toPid) (hFrom : fromPid ∈ nodes)
    (hNodes : ∀ u v, 0 < graph.getD₂ u v 0 → u ∈ nodes ∧ v ∈ nodes) (hGraph : ∀ u v, 0 ≤ graph.getD₂ u v 0) :
    ∃ routes, PathSplit graph fromPid toPid s.maxFlow routes := by
  have hOpen : ∀ u v, 0 < graph.getD₂ u v 0 - s.residual.getD₂ u v 0 → u ∈ nodes ∧ v ∈ nodes := fun u v hCarries =>
    hNodes u v (by linarith [h.nonneg u v])
  obtain ⟨shares, hTotal, hEdges⟩ := (h.net hSums).exists_split hNe hFrom hOpen h.value
  have hUsed (u v : Pid) : usedBy (shares.map shareRoute) u v =
      (shares.map fun share => sentAlong share.amount share.edges u v).sum := by
    rw [usedBy, List.map_map]
    refine congrArg List.sum (List.map_congr_left fun share _ => ?_)
    simp only [Function.comp_apply, shareRoute, (hops_of_joins share.joins).1]
    rfl
  have hWithin (u v : Pid) : usedBy (shares.map shareRoute) u v ≤ graph.getD₂ u v 0 := by
    rw [hUsed]
    exact (hEdges u v).trans (max_le (by linarith [h.nonneg u v]) (hGraph u v))
  have hPositive : ∀ route ∈ shares.map shareRoute, 0 < route.amount := by
    intro route hRoute
    obtain ⟨share, _, rfl⟩ := List.mem_map.mp hRoute
    exact share.positive
  refine ⟨shares.map shareRoute, fun route hRoute => ⟨hPositive route hRoute, ?_⟩, hWithin, ?_⟩
  · obtain ⟨share, hShare, rfl⟩ := List.mem_map.mp hRoute
    obtain ⟨hHops, hLast⟩ := hops_of_joins share.joins
    refine ⟨rfl, hLast, share.simple, fun hop hHop => ?_⟩
    -- The edge carries at least this share.
    have hUnique : share.edges.Nodup := (List.nodup_cons.mp share.simple).2.of_map _
    have hShareLe : share.amount ≤ usedBy (shares.map shareRoute) hop.1 hop.2 := by
      rw [hUsed]
      have hTerm : sentAlong share.amount share.edges hop.1 hop.2 ∈
          shares.map fun other => sentAlong other.amount other.edges hop.1 hop.2 := List.mem_map_of_mem hShare
      rw [sentAlong_of_nodup hUnique, if_pos (by rw [← hHops]; exact hHop)] at hTerm
      refine List.single_le_sum (fun x hx => ?_) _ hTerm
      obtain ⟨other, _, rfl⟩ := List.mem_map.mp hx
      rw [sentAlong_of_nodup (List.nodup_cons.mp other.simple).2.of_map]
      split
      · exact other.positive.le
      · exact le_rfl
    exact share.positive.trans_le (hShareLe.trans (hWithin hop.1 hop.2))
  · rw [List.map_map]
    exact hTotal

/-- In a graph that is small for the hop limit, and while the decimal context keeps all digits, the
advertised maximum is the least capacity of a cut and the most that paths can send; and no residual
capacity falls below zero on the way. -/
theorem max_flow_eq_min_cut (r : PaymentRouter) (maxFlowMaxHops : Nat) {fromPid toPid : Pid} (hNe : fromPid ≠ toPid)
    (hGraph : ∀ u v, 0 ≤ r.graph.getD₂ u v 0) (hSmall : (nodesOf r.graph).card ≤ maxFlowMaxHops + 1) :
    (∃ rounds s, calculateMaxFlow r maxFlowMaxHops rounds fromPid toPid = some s ∧
      (SumsFit r.graph → IsLeast (cutCapacities r.graph fromPid toPid) s.maxFlow ∧
        IsGreatest (splitAmounts r.graph fromPid toPid) s.maxFlow)) ∧
    ∀ s, Searched r.graph maxFlowMaxHops fromPid toPid s → (∀ u v, 0 ≤ s.residual.getD₂ u v 0) ∧
      ∀ entry flow, augmentingPath maxFlowMaxHops fromPid toPid s.residual = some (some entry) →
        entry.flow = some flow → ∀ booked, booked <+: hops entry.path →
          ∀ u v, 0 ≤ (booked.foldl (shiftEdge flow) s.residual).getD₂ u v 0 := by
  have hNodes : ∀ u v, 0 < r.graph.getD₂ u v 0 →
      u ∈ graphNodes r.graph fromPid toPid ∧ v ∈ graphNodes r.graph fromPid toPid := fun _ _ => mem_graphNodes
  refine ⟨?_, fun s hs => ⟨(hs.sound hNe hGraph hNodes).nonneg, fun entry flow hFound hFlow booked hBooked =>
    hs.nonneg hNe hGraph hFound hFlow hBooked⟩⟩
  obtain ⟨rounds, s, hResult, hSound, hLong⟩ := calculateMaxFlow_ends r maxFlowMaxHops hNe hGraph
  have hSearched : Searched r.graph maxFlowMaxHops fromPid toPid s := maxFlowLoop_searched .start hResult
  have hDone : ∀ edges, ¬Augmenting s.residual fromPid toPid edges :=
    no_augmenting (hSearched.sound hNe hGraph fun _ _ => mem_nodesOf) hNe hSmall hLong
  have hFrom : fromPid ∈ graphNodes r.graph fromPid toPid := by simp [graphNodes]
  obtain ⟨inside, hInside, hSource, hSink, hFull⟩ := exists_full_cut hFrom hDone
  refine ⟨rounds, s, hResult, fun hSums => ?_⟩
  have hNet := hSound.net hSums
  have hLower : ∀ capacity ∈ cutCapacities r.graph fromPid toPid, s.maxFlow ≤ capacity := by
    rintro capacity ⟨other, hOther, hOtherSource, hOtherSink, rfl⟩
    exact hNet.value_le_cut (fun u v => sub_le_self _ (hSound.nonneg u v)) hOther hOtherSource hOtherSink
  refine ⟨⟨⟨inside, hInside, hSource, hSink, ?_⟩, hLower⟩, ?_, ?_⟩
  · exact le_antisymm (hLower _ ⟨inside, hInside, hSource, hSink, rfl⟩)
      (hNet.cut_le_value (fun u hu v hv => by linarith [hFull u hu v hv]) hInside hSource hSink)
  · exact hSound.exists_pathSplit hSums hNe hFrom hNodes hGraph
  · rintro amount ⟨routes, hSplit⟩
    exact hSplit.total ▸ hSound.routes_le hSums hFrom hNodes hDone hSplit.paths hSplit.within

/-- One line of ten: the sum of its capacities fits the context, and two nodes are few for the hop limit. -/
theorem max_flow_eq_min_cut_oneLine :
    SumsFit oneLine.graph ∧
    (∃ rounds s, calculateMaxFlow oneLine 7 rounds "alice" "bob" = some s ∧
      (SumsFit oneLine.graph → IsLeast (cutCapacities oneLine.graph "alice" "bob") s.maxFlow ∧
        IsGreatest (splitAmounts oneLine.graph "alice" "bob") s.maxFlow)) ∧
    ∀ s, Searched oneLine.graph 7 "alice" "bob" s → (∀ u v, 0 ≤ s.residual.getD₂ u v 0) ∧
      ∀ entry flow, augmentingPath 7 "alice" "bob" s.residual = some (some entry) →
        entry.flow = some flow → ∀ booked, booked <+: hops entry.path →
          ∀ u v, 0 ≤ (booked.foldl (shiftEdge flow) s.residual).getD₂ u v 0 := by
  have hItems : ∀ row ∈ oneLine.graph.items, ∀ edge ∈ row.2.items, edge.2 ∈ digitsTo 0 := by
    intro row hRow edge hEdge
    have hFits : ∀ row ∈ oneLine.graph.items, ∀ edge ∈ row.2.items, decimalContext.Fits 0 edge.2 := by decide +kernel
    exact (hFits row hRow edge hEdge).mem
  exact ⟨⟨0, by decide +kernel, getD₂_of_items (digitsTo 0).zero_mem hItems⟩,
    max_flow_eq_min_cut oneLine 7 (by decide) oneLine_nonneg (by decide +kernel)⟩

/-- Four participants whose lines have up to twenty-nine digits. -/
def longDigitsLines : PaymentRouter where
  graph := Dict.ofList [
    ("S", Dict.ofList [("A", 100000000000), ("B", 100000000000 + 1 / 10 ^ 16), ("T", 5 / 10 ^ 17)]),
    ("A", Dict.ofList [("S", 100000000000), ("T", 150000000000 - 1 / 10 ^ 8)]),
    ("B", Dict.ofList [("S", 1 / 10 ^ 16), ("A", 5 / 10 ^ 17)]),
    ("T", Dict.ofList [("S", 1 / 10 ^ 16), ("A", 6 / 10 ^ 17)])]
  edgeCanBeIntermediate := Dict.empty
  edgeBlockedParticipants := Dict.empty

/-- The three amounts that go from S to T sum to a number of twenty-eight digits, but each of the two
small ones is rounded away when it is added, so the maximum is less than every cut. -/
theorem not_max_flow_eq_min_cut :
    ¬∀ (r : PaymentRouter) (fromPid toPid : Pid) (rounds : Nat) (s : MaxFlow), fromPid ≠ toPid →
      (∀ u v, 0 ≤ r.graph.getD₂ u v 0) → (nodesOf r.graph).card ≤ 8 →
        calculateMaxFlow r 7 rounds fromPid toPid = some s → IsLeast (cutCapacities r.graph fromPid toPid) s.maxFlow := by
  intro h
  have hFlow : (calculateMaxFlow longDigitsLines 7 4 "S" "T").map (·.maxFlow) = some 100000000000 := by decide +kernel
  obtain ⟨s, hResult, hValue⟩ := Option.map_eq_some_iff.mp hFlow
  have hItems : ∀ row ∈ longDigitsLines.graph.items, ∀ edge ∈ row.2.items, 0 ≤ edge.2 := by decide +kernel
  have hLeast := h longDigitsLines "S" "T" 4 s (by decide) (getD₂_of_items le_rfl hItems) (by decide +kernel) hResult
  obtain ⟨inside, hInside, hSource, hSink, hCapacity⟩ := hLeast.1
  have hCut : ∀ inside ∈ (graphNodes longDigitsLines.graph "S" "T").powerset, "S" ∈ inside → "T" ∉ inside →
      100000000000 < cutCapacity (fun u v => longDigitsLines.graph.getD₂ u v 0)
        (graphNodes longDigitsLines.graph "S" "T") inside := by decide +kernel
  have hMore := hCut inside (Finset.mem_powerset.mpr hInside) hSource hSink
  rw [← hCapacity, hValue] at hMore
  exact lt_irrefl _ hMore
end Cuts

end GeoLedger.PaymentRouter

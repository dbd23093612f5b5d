import Mathlib
import GeoLedger.Library.LevelOrder
import GeoLedger.Payments.RouteSearch

/-! The route search is complete and minimal. It takes the paths that capacities
and policies admit level by level, so the path it returns has the fewest edges,
and without a path none is admitted. -/
namespace GeoLedger

namespace PaymentRouter

variable {r : PaymentRouter} {q : PathQuery} {graph : CapacityGraph}

section Admitted

/-- The entry that the edge to a neighbor makes of an entry. -/
def extend (r : PaymentRouter) (entry : SearchEntry) (neighbor : Pid) : SearchEntry :=
  ⟨neighbor, entry.path ++ [neighbor],
    entry.blockedSoFar ++ r.edgeBlockedParticipants.getD₂ entry.current neighbor []⟩

/-- The paths from the sender that the search may take: every edge is admitted
after the ones before it, no path goes on from the receiver, and none has more
edges than hops are allowed. -/
inductive Admitted (r : PaymentRouter) (q : PathQuery) (graph : CapacityGraph) : SearchEntry → Prop where
  | start : Admitted r q graph ⟨q.fromPid, [q.fromPid], []⟩
  | step {entry : SearchEntry} {neighbor : Pid} (prior : Admitted r q graph entry)
      (hInner : entry.current ≠ q.toPid) (hHops : (entry.path.length : ℤ) - 1 < q.maxHops)
      (hAdmits : r.admits q entry neighbor (graph.getD₂ entry.current neighbor 0) = true) :
      Admitted r q graph (r.extend entry neighbor)

/-- The search goes on to a neighbour that is not forbidden, has enough capacity, is not on
the path and consents to it. -/
theorem admits_iff {entry : SearchEntry} {neighbor : Pid} {capacity : Amount} :
    r.admits q entry neighbor capacity = true ↔
      (entry.current, neighbor) ∉ q.forbiddenEdges ∧ neighbor ∉ q.forbiddenNodes ∧
      0 < capacity ∧ q.amount ≤ capacity ∧ neighbor ∉ entry.path ∧
      ((neighbor = q.fromPid ∨ neighbor = q.toPid) ∨ neighbor ∉ entry.blockedSoFar) ∧
      ((neighbor = q.fromPid ∨ neighbor = q.toPid) ∨
        neighbor ∉ r.edgeBlockedParticipants.getD₂ entry.current neighbor []) ∧
      (2 < entry.path.length → ∀ p ∈ entry.path.tail.dropLast,
        p ∉ r.edgeBlockedParticipants.getD₂ entry.current neighbor []) ∧
      ((neighbor = q.fromPid ∨ neighbor = q.toPid) ∨
        r.edgeCanBeIntermediate.getD₂ entry.current neighbor true = true) := decide_eq_true_iff

theorem admits_pos {entry : SearchEntry} {neighbor : Pid} {capacity : Amount}
    (h : r.admits q entry neighbor capacity = true) : 0 < capacity := (admits_iff.mp h).2.2.1

/-- The entries after a node are its extensions by the admitted neighbours. -/
theorem mem_expand_iff {entry entry' : SearchEntry} : entry' ∈ expand r q graph entry ↔
    ∃ neighbor, r.admits q entry neighbor (graph.getD₂ entry.current neighbor 0) = true ∧
      entry' = r.extend entry neighbor := by
  constructor
  · intro h
    obtain ⟨edge, hEdge, rfl⟩ := List.mem_map.mp h
    obtain ⟨hItem, hAdmits⟩ := List.mem_filter.mp hEdge
    exact ⟨edge.1, getD₂_of_mem_items hItem ▸ hAdmits, rfl⟩
  · rintro ⟨neighbor, hAdmits, rfl⟩
    refine List.mem_map.mpr ⟨(neighbor, graph.getD₂ entry.current neighbor 0), ?_, rfl⟩
    exact List.mem_filter.mpr ⟨mem_items_of_pos (admits_pos hAdmits), hAdmits⟩

/-- The entries that are searched after one that is not at the receiver. -/
def searchChildren (r : PaymentRouter) (q : PathQuery) (graph : CapacityGraph) (entry : SearchEntry) :
    List SearchEntry :=
  if q.maxHops ≤ (entry.path.length : ℤ) - 1 then [] else expand r q graph entry

/-- An entry has children only below the hop limit. -/
theorem mem_searchChildren_iff {entry entry' : SearchEntry} : entry' ∈ searchChildren r q graph entry ↔
    (entry.path.length : ℤ) - 1 < q.maxHops ∧ entry' ∈ expand r q graph entry := by
  unfold searchChildren
  split
  · next hHops => simp [not_lt.mpr hHops]
  · next hHops => simp [not_le.mp hHops]

def atReceiver (q : PathQuery) (entry : SearchEntry) : Bool := entry.current = q.toPid

/-- The admitted paths are those of the tree that the search goes through. -/
theorem admitted_iff_below {entry : SearchEntry} : Admitted r q graph entry ↔
    LevelOrder.Below (atReceiver q) (searchChildren r q graph) ⟨q.fromPid, [q.fromPid], []⟩ entry := by
  constructor
  · intro h
    induction h with
    | start => exact LevelOrder.Below.refl
    | step prior hInner hHops hAdmits ih =>
        refine ih.child (decide_eq_false hInner) (mem_searchChildren_iff.mpr ⟨hHops, ?_⟩)
        exact mem_expand_iff.mpr ⟨_, hAdmits, rfl⟩
  · intro h
    induction h with
    | refl => exact Admitted.start
    | child prior hInner hChild ih =>
        obtain ⟨hHops, hExpand⟩ := mem_searchChildren_iff.mp hChild
        obtain ⟨neighbor, hAdmits, rfl⟩ := mem_expand_iff.mp hExpand
        exact ih.step (of_decide_eq_false hInner) hHops hAdmits

/-- Admitted paths are simple, open, and lead to their last node. -/
theorem Admitted.pathIn {entry : SearchEntry} (h : Admitted r q graph entry) :
    PathIn graph q.fromPid entry.current entry.path := by
  induction h with
  | start => exact ⟨rfl, rfl, List.nodup_singleton _, fun hop hHop => by cases hHop⟩
  | step prior hInner hHops hAdmits ih => exact expand_pathIn ih _ (mem_expand_iff.mpr ⟨_, hAdmits, rfl⟩)

/-- What an admitted path needs of the graph are its open edges. -/
theorem Admitted.mono {more : CapacityGraph} {entry : SearchEntry} (h : Admitted r q graph entry)
    (hFree : q.amount ≤ 0) (hOpen : ∀ u v, 0 < graph.getD₂ u v 0 → 0 < more.getD₂ u v 0) :
    Admitted r q more entry := by
  induction h with
  | start => exact Admitted.start
  | step prior hInner hHops hAdmits ih =>
      have hPos := hOpen _ _ (admits_pos hAdmits)
      obtain ⟨hEdge, hNode, -, -, hRest⟩ := admits_iff.mp hAdmits
      exact ih.step hInner hHops (admits_iff.mpr ⟨hEdge, hNode, hPos, hFree.trans hPos.le, hRest⟩)

end Admitted

section Search

/-- One round of the search takes the first entry, and either returns its path or appends
its children. -/
theorem bfsLoop_succ (deadline : Nat) (entry : SearchEntry) (queue : List SearchEntry) :
    bfsLoop r q graph (deadline + 1) (entry :: queue) =
      if entry.current = q.toPid then .ok (some entry.path, deadline)
      else bfsLoop r q graph deadline (queue ++ searchChildren r q graph entry) := by
  rw [bfsLoop, searchChildren]
  by_cases hHops : q.maxHops ≤ (entry.path.length : ℤ) - 1
  · rw [if_pos hHops, if_pos hHops, List.append_nil]
  · rw [if_neg hHops, if_neg hHops]

/-- The loop of the source is the level-order search of the admitted paths. -/
theorem bfsLoop_eq_search (deadline : Nat) (queue : List SearchEntry) : bfsLoop r q graph deadline queue =
    match LevelOrder.search (atReceiver q) (searchChildren r q graph) deadline queue with
    | none => .error (.timeout "Routing timed out")
    | some (none, left) => .ok (none, left)
    | some (some entry, left) => .ok (some entry.path, left) := by
  induction deadline generalizing queue with
  | zero =>
      cases queue with
      | nil => rw [bfsLoop, LevelOrder.search]
      | cons entry queue => rw [bfsLoop, LevelOrder.search]
  | succ deadline ih =>
      cases queue with
      | nil => rw [bfsLoop, LevelOrder.search]
      | cons entry queue =>
          rw [bfsLoop_succ, LevelOrder.search]
          by_cases hTarget : entry.current = q.toPid
          · have hAt : atReceiver q entry = true := decide_eq_true hTarget
            rw [if_pos hTarget, if_pos hAt]
          · have hAt : ¬atReceiver q entry = true := by simpa [atReceiver] using hTarget
            rw [if_neg hTarget, if_neg hAt]
            exact ih _

/-- A child is one node longer. -/
theorem length_searchChildren {entry entry' : SearchEntry} (h : entry' ∈ searchChildren r q graph entry) :
    entry'.path.length = entry.path.length + 1 := by
  obtain ⟨neighbor, -, rfl⟩ := mem_expand_iff.mp (mem_searchChildren_iff.mp h).2
  exact List.length_append

/-- A shortest admitted path to the receiver. -/
structure Shortest (r : PaymentRouter) (q : PathQuery) (graph : CapacityGraph) (path : List Pid) : Prop where
  admitted : ∃ entry, Admitted r q graph entry ∧ entry.current = q.toPid ∧ entry.path = path
  least : ∀ entry, Admitted r q graph entry → entry.current = q.toPid → path.length ≤ entry.path.length

/-- Both ends are nodes of the graph that the request does not avoid. -/
structure Endpoints (q : PathQuery) (graph : CapacityGraph) : Prop where
  sender : q.fromPid ∈ graph.keys
  receiver : q.toPid ∈ graph.keys
  senderAllowed : q.fromPid ∉ q.forbiddenNodes
  receiverAllowed : q.toPid ∉ q.forbiddenNodes

/-- Between two nodes of the graph the search runs its loop from the sender. -/
theorem bfsSinglePath_of_endpoints (h : Endpoints q graph) (deadline : Nat) :
    bfsSinglePath r q graph deadline = bfsLoop r q graph deadline [⟨q.fromPid, [q.fromPid], []⟩] := by
  unfold bfsSinglePath
  rw [if_neg (by simp [h.sender, h.receiver]), if_neg (by simp [h.senderAllowed, h.receiverAllowed])]

/-- Where an endpoint is missing, nothing is found. -/
theorem bfsSinglePath_of_not_endpoints (h : ¬Endpoints q graph) (deadline : Nat) :
    bfsSinglePath r q graph deadline = .ok (none, deadline) := by
  unfold bfsSinglePath
  split
  · rfl
  · next hKeys =>
      split
      · rfl
      · next hForbidden =>
          rw [not_or, not_not, not_not] at hKeys
          rw [not_or] at hForbidden
          exact absurd ⟨hKeys.1, hKeys.2, hForbidden.1, hForbidden.2⟩ h

/-- The path that `_bfs_single_path` returns is a shortest admitted one. -/
theorem bfsSinglePath_shortest {deadline left : Nat} {path : List Pid}
    (h : bfsSinglePath r q graph deadline = .ok (some path, left)) :
    Endpoints q graph ∧ Shortest r q graph path := by
  by_cases hEnds : Endpoints q graph
  · refine ⟨hEnds, ?_⟩
    rw [bfsSinglePath_of_endpoints hEnds, bfsLoop_eq_search] at h
    split at h
    · cases h
    · cases h
    · next entry left' hSearch =>
        cases h
        have hLevelled : LevelOrder.Levelled (fun e : SearchEntry => e.path.length)
            [⟨q.fromPid, [q.fromPid], []⟩] :=
          ⟨List.pairwise_singleton _ _, fun a ha b hb => by
            rw [List.mem_singleton.mp ha, List.mem_singleton.mp hb]
            exact Nat.le_succ _⟩
        obtain ⟨hGoal, ⟨start, hStart, hBelow⟩, hLeast⟩ :=
          LevelOrder.search_found (fun _ _ hc => length_searchChildren hc) hLevelled hSearch
        rw [List.mem_singleton.mp hStart] at hBelow
        refine ⟨⟨entry, admitted_iff_below.mpr hBelow, of_decide_eq_true hGoal, rfl⟩, ?_⟩
        intro other hOther hAt
        exact hLeast _ List.mem_cons_self other (admitted_iff_below.mp hOther) (decide_eq_true hAt)
  · rw [bfsSinglePath_of_not_endpoints hEnds] at h
    cases h

/-- Without a path, no path to the receiver is admitted. -/
theorem bfsSinglePath_none {deadline left : Nat} (hEnds : Endpoints q graph)
    (h : bfsSinglePath r q graph deadline = .ok (none, left)) :
    ∀ entry, Admitted r q graph entry → entry.current ≠ q.toPid := by
  rw [bfsSinglePath_of_endpoints hEnds, bfsLoop_eq_search] at h
  split at h
  · cases h
  · next left' hSearch =>
      intro entry hEntry
      exact of_decide_eq_false
        (LevelOrder.search_none hSearch _ List.mem_cons_self entry (admitted_iff_below.mp hEntry))
  · cases h

/-- The number of entries of a tree of the given degree and height, at most. -/
def treeSize (degree : Nat) : Nat → Nat
  | 0 => 1
  | height + 1 => 1 + degree * treeSize degree height

theorem one_le_treeSize (degree height : Nat) : 1 ≤ treeSize degree height := by
  cases height with
  | zero => exact le_rfl
  | succ height => exact Nat.le_add_right _ _

/-- The number of edges of a graph. -/
def edgeCount (graph : CapacityGraph) : Nat := (graph.items.map fun row => row.2.items.length).sum

/-- An entry has at most as many extensions as the graph has edges. -/
theorem length_expand_le (entry : SearchEntry) : (expand r q graph entry).length ≤ edgeCount graph := by
  unfold expand
  rw [List.length_map]
  refine (List.length_filter_le _ _).trans ?_
  cases hRow : graph.get? entry.current with
  | none =>
      rw [Dict.getD, hRow]
      exact Nat.zero_le _
  | some row =>
      rw [Dict.getD, hRow]
      exact List.single_le_sum (fun _ _ => Nat.zero_le _) _
        (List.mem_map.mpr ⟨(entry.current, row), Dict.get?_eq_some_iff.mp hRow, rfl⟩)

/-- How many entries a search takes from its queue, at most. -/
def searchCost (graph : CapacityGraph) (maxHops : ℤ) : Nat := treeSize (edgeCount graph) maxHops.toNat

/-- A search with enough time ends. -/
theorem bfsSinglePath_ends {deadline : Nat} (hTime : searchCost graph q.maxHops ≤ deadline) :
    ∃ result, bfsSinglePath r q graph deadline = .ok result := by
  by_cases hEnds : Endpoints q graph
  · let weight (e : SearchEntry) : Nat := treeSize (edgeCount graph) (q.maxHops - ((e.path.length : ℤ) - 1)).toNat
    have hWeight : ∀ e : SearchEntry, atReceiver q e = false →
        1 + ((searchChildren r q graph e).map weight).sum ≤ weight e := by
      intro e _
      by_cases hHops : q.maxHops ≤ (e.path.length : ℤ) - 1
      · rw [searchChildren, if_pos hHops]
        exact one_le_treeSize _ _
      · obtain ⟨height, hHeight⟩ : ∃ height : Nat, (q.maxHops - ((e.path.length : ℤ) - 1)).toNat = height + 1 :=
          ⟨(q.maxHops - (e.path.length : ℤ)).toNat, by omega⟩
        have hChildren : ∀ c ∈ (searchChildren r q graph e).map weight, c ≤ treeSize (edgeCount graph) height := by
          intro c hc
          obtain ⟨child, hChild, rfl⟩ := List.mem_map.mp hc
          have hLength := length_searchChildren hChild
          have hSame : (q.maxHops - ((child.path.length : ℤ) - 1)).toNat = height := by omega
          exact (congrArg _ hSame).le
        have hSum := List.sum_le_card_nsmul _ _ hChildren
        have hCount : (searchChildren r q graph e).length ≤ edgeCount graph := by
          rw [searchChildren, if_neg hHops]
          exact length_expand_le e
        rw [List.length_map, smul_eq_mul] at hSum
        change _ ≤ treeSize _ _
        rw [hHeight, treeSize]
        exact Nat.add_le_add_left (hSum.trans (Nat.mul_le_mul_right _ hCount)) 1
    have hFuel : ([⟨q.fromPid, [q.fromPid], []⟩].map weight).sum ≤ deadline := by
      simpa [weight, searchCost] using hTime
    obtain ⟨result, hSearch⟩ :=
      LevelOrder.search_ends hWeight (fun e => one_le_treeSize _ _) hFuel
    rw [bfsSinglePath_of_endpoints hEnds, bfsLoop_eq_search, hSearch]
    obtain ⟨found, left⟩ := result
    cases found with
    | none => exact ⟨_, rfl⟩
    | some entry => exact ⟨_, rfl⟩
  · exact ⟨_, bfsSinglePath_of_not_endpoints hEnds deadline⟩

end Search

section Routes

/-- What `find_flow_routes` asks of every search. -/
def routeQuery (fromPid toPid : Pid) (maxHops : ℤ) (avoidParticipants : List Pid) : PathQuery where
  fromPid := fromPid
  toPid := toPid
  amount := 0
  maxHops := maxHops
  forbiddenEdges := []
  forbiddenNodes := avoidParticipants.filter fun x => pyStrip x.toList ≠ []

variable {fromPid toPid : Pid} {amount : Amount} {maxHops maxPaths : ℤ} {avoid : List Pid}

/-- What is found without an error is nothing, or the allocations of the search for the
amount. -/
theorem findFlowRoutes_eq_ok {deadline : Nat} {routes : List Route}
    (h : findFlowRoutes r fromPid toPid amount maxHops maxPaths deadline avoid = .ok routes) :
    routes = [] ∨ 0 < amount ∧ ∃ s, searchRoutes r (routeQuery fromPid toPid maxHops avoid) maxPaths.toNat
      deadline ⟨r.graph, amount, []⟩ = .ok s ∧ routes = s.routes := by
  unfold findFlowRoutes at h
  split at h
  · cases h
    exact Or.inl rfl
  · next hArgs =>
      rw [not_or, not_le, not_le] at hArgs
      obtain ⟨s, hSearch, hOk⟩ := Outcomes.bind_eq_ok_iff.mp h
      have hOk := Except.ok.inj hOk
      split at hOk
      · exact Or.inl hOk.symm
      · exact Or.inr ⟨hArgs.1, s, hSearch, hOk.symm⟩

/-- Every route that is found is an admitted path of the whole graph. -/
theorem findFlowRoutes_admitted {deadline : Nat} {routes : List Route} (hGraph : ∀ u v, 0 ≤ r.graph.getD₂ u v 0)
    (h : findFlowRoutes r fromPid toPid amount maxHops maxPaths deadline avoid = .ok routes) :
    ∀ route ∈ routes, ∃ entry, Admitted r (routeQuery fromPid toPid maxHops avoid) r.graph entry ∧
      entry.current = toPid ∧ entry.path = route.path := by
  rcases findFlowRoutes_eq_ok h with rfl | ⟨hAmount, s, hSearch, rfl⟩
  · exact fun route hRoute => absurd hRoute List.not_mem_nil
  · let P (s : FlowSearch) : Prop :=
      SearchSound r.graph (routeQuery fromPid toPid maxHops avoid) amount s ∧
        ∀ route ∈ s.routes, ∃ entry, Admitted r (routeQuery fromPid toPid maxHops avoid) r.graph entry ∧
          entry.current = toPid ∧ entry.path = route.path
    have hStart : P ⟨r.graph, amount, []⟩ :=
      ⟨SearchSound.start hGraph hAmount.le, fun route hRoute => absurd hRoute List.not_mem_nil⟩
    have hStep : ∀ s path deadline left, P s → 0 < s.remaining →
        bfsSinglePath r (routeQuery fromPid toPid maxHops avoid) s.residual deadline = .ok (some path, left) →
        0 < allocation path s →
        P { residual := (hops path).foldl (reduceEdge (allocation path s)) s.residual
            remaining := decimalSub s.remaining (allocation path s)
            routes := s.routes ++ [⟨path, allocation path s⟩] } := by
      intro s path deadline left hs hRemaining hFound hPos
      obtain ⟨-, hShortest⟩ := bfsSinglePath_shortest hFound
      obtain ⟨entry, hAdmitted, hAt, rfl⟩ := hShortest.admitted
      refine ⟨hs.1.next hRemaining hFound hPos, fun route hRoute => ?_⟩
      rcases List.mem_append.mp hRoute with hOld | hNew
      · exact hs.2 route hOld
      · -- The residual capacities stay below those of the graph.
        rw [List.mem_singleton.mp hNew]
        exact ⟨entry, hAdmitted.mono le_rfl hs.1.opened, hAt, rfl⟩
    exact (searchRoutes_invariant hStep hStart hSearch).2

/-- A path without hops ends where it starts. -/
theorem PathIn.eq_of_hops_eq_nil {path : List Pid} (h : PathIn graph fromPid toPid path) (hNone : hops path = []) :
    fromPid = toPid := by
  have hFirst := h.first
  have hLast := h.last
  cases path with
  | nil => cases hFirst
  | cons x rest =>
      cases rest with
      | nil => exact (Option.some.inj hFirst).symm.trans (Option.some.inj hLast)
      | cons y tail => cases hNone

/-- The narrowest capacity along edges of positive capacities is positive. -/
theorem foldl_narrow_pos {edges : List (Pid × Pid)} {acc : Option Amount} {b : Amount}
    (hGraph : ∀ hop ∈ edges, 0 < graph.getD₂ hop.1 hop.2 0) (hAcc : ∀ x, acc = some x → 0 < x)
    (h : edges.foldl (narrow graph) acc = some b) : 0 < b := by
  induction edges generalizing acc with
  | nil => exact hAcc b h
  | cons hop rest ih =>
      refine ih (fun other hOther => hGraph other (List.mem_cons_of_mem _ hOther)) (fun x hx => ?_) h
      have hPos := hGraph hop List.mem_cons_self
      cases acc with
      | none =>
          cases hx
          exact hPos
      | some y =>
          cases hx
          exact lt_min (hAcc y rfl) hPos

/-- Once nothing remains, the search is over. -/
theorem searchRoutes_done {paths deadline : Nat} {s : FlowSearch} (h : s.remaining ≤ 0) :
    searchRoutes r q paths deadline s = .ok s := by
  cases paths with
  | zero => rfl
  | succ paths =>
      unfold searchRoutes
      rw [if_pos h]

/-- One round of the search allocates what its shortest path carries. -/
theorem searchRoutes_succ {paths deadline left : Nat} {s : FlowSearch} {path : List Pid} (h : 0 < s.remaining)
    (hFound : bfsSinglePath r q s.residual deadline = .ok (some path, left)) (hPath : path ≠ [])
    (hPos : 0 < allocation path s) :
    searchRoutes r q (paths + 1) (deadline + 1) s = searchRoutes r q paths left
      { residual := (hops path).foldl (reduceEdge (allocation path s)) s.residual
        remaining := decimalSub s.remaining (allocation path s)
        routes := s.routes ++ [⟨path, allocation path s⟩] } := by
  rw [searchRoutes.eq_def]
  simp only
  rw [if_neg (not_le.mpr h), hFound]
  exact if_neg (by rw [not_or, not_le]; exact ⟨hPath, hPos⟩)

/-- A search that leaves nothing of the amount gives the routes. -/
theorem findFlowRoutes_of_search {deadline : Nat} {s : FlowSearch} (hAmount : 0 < amount) (hPaths : 0 < maxPaths)
    (h : searchRoutes r (routeQuery fromPid toPid maxHops avoid) maxPaths.toNat deadline ⟨r.graph, amount, []⟩ = .ok s)
    (hDone : s.remaining = 0) :
    findFlowRoutes r fromPid toPid amount maxHops maxPaths deadline avoid = .ok s.routes := by
  rw [findFlowRoutes, if_neg (by rw [not_or, not_le, not_le]; exact ⟨hAmount, hPaths⟩)]
  change (do
    let s ← searchRoutes r (routeQuery fromPid toPid maxHops avoid) maxPaths.toNat deadline ⟨r.graph, amount, []⟩
    return if 0 < s.remaining then [] else s.routes : Except GeoError (List Route)) = _
  rw [h]
  change Except.ok (if 0 < s.remaining then [] else s.routes) = _
  rw [hDone, if_neg (lt_irrefl 0)]

/-- When a path is admitted, the search finds a route for its bottleneck, and
the route has the fewest edges. -/
theorem findFlowRoutes_of_admitted {entry : SearchEntry} (hPaths : 0 < maxPaths) (hDistinct : fromPid ≠ toPid)
    (hEnds : Endpoints (routeQuery fromPid toPid maxHops avoid) r.graph)
    (hAdmitted : Admitted r (routeQuery fromPid toPid maxHops avoid) r.graph entry) (hAt : entry.current = toPid) :
    ∃ amount > 0, ∃ deadline path,
      findFlowRoutes r fromPid toPid amount maxHops maxPaths deadline avoid = .ok [⟨path, amount⟩] ∧
      Shortest r (routeQuery fromPid toPid maxHops avoid) r.graph path := by
  obtain ⟨⟨found, left⟩, hFound⟩ := @bfsSinglePath_ends r (routeQuery fromPid toPid maxHops avoid) r.graph _ le_rfl
  cases found with
  | none => exact absurd hAt (bfsSinglePath_none hEnds hFound entry hAdmitted)
  | some path =>
      obtain ⟨-, hShortest⟩ := bfsSinglePath_shortest hFound
      obtain ⟨hPath, -⟩ := bfsSinglePath_pathIn hFound
      cases hBottleneck : pathBottleneck path r.graph with
      | none =>
          exact absurd (hPath.eq_of_hops_eq_nil (hops_of_pathBottleneck_none hBottleneck)) hDistinct
      | some b =>
          have hPos : 0 < b := foldl_narrow_pos hPath.open_edges (fun x hx => by cases hx) hBottleneck
          refine ⟨b, hPos, searchCost r.graph maxHops + 1, path, ?_, hShortest⟩
          obtain ⟨paths, hCount⟩ : ∃ paths : Nat, maxPaths.toNat = paths + 1 := ⟨maxPaths.toNat - 1, by omega⟩
          have hAlloc : allocation path ⟨r.graph, b, []⟩ = b := by simp [allocation, hBottleneck]
          have hNonempty : path ≠ [] := fun hNil => by simpa [hNil] using hPath.first
          have hSearch : searchRoutes r (routeQuery fromPid toPid maxHops avoid) maxPaths.toNat
              (searchCost r.graph maxHops + 1) ⟨r.graph, b, []⟩ =
              .ok ⟨(hops path).foldl (reduceEdge b) r.graph, 0, [⟨path, b⟩]⟩ := by
            rw [hCount, searchRoutes_succ hPos hFound hNonempty (hAlloc.symm ▸ hPos), hAlloc,
              searchRoutes_done (by simp)]
            simp
          exact findFlowRoutes_of_search hPos hPaths hSearch rfl

end Routes

end PaymentRouter

end GeoLedger

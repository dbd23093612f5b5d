import Mathlib
import GeoLedger.Library.RowRefs
import GeoLedger.Payments.ShortestRoutes

/-! A list of routes splits the request: while the decimal context keeps all digits,
the amounts sum to it, and together the routes keep within every capacity, whatever
edges they share. -/
namespace GeoLedger

namespace PaymentRouter

variable {r : PaymentRouter} {q : PathQuery} {graph : CapacityGraph} {fromPid toPid : Pid}

section Search

/-- The routes of a search against the graph it started from: what they use and
what is left make up every capacity, and no edge of theirs is overdrawn. -/
structure SplitSound (r : PaymentRouter) (q : PathQuery) (graph : CapacityGraph) (amount : Amount)
    (s : FlowSearch) : Prop where
  balance : FitsContext graph amount → ∀ u v, usedBy s.routes u v + s.residual.getD₂ u v 0 = graph.getD₂ u v 0
  opened : ∀ u v, 0 < s.residual.getD₂ u v 0 → 0 < graph.getD₂ u v 0
  spare : ∀ route ∈ s.routes, ∀ hop ∈ hops route.path, 0 ≤ s.residual.getD₂ hop.1 hop.2 0
  nodes : ∀ u ∈ s.residual.keys, u ∈ graph.keys
  positive : ∀ route ∈ s.routes, 0 < route.amount
  total : FitsContext graph amount → (s.routes.map (·.amount)).sum + s.remaining = amount
  left : 0 ≤ s.remaining
  stored : ∀ e, amount ∈ digitsTo e → (∀ u v, graph.getD₂ u v 0 ∈ digitsTo e) →
    (∀ u v, s.residual.getD₂ u v 0 ∈ digitsTo e) ∧ s.remaining ∈ digitsTo e
  admitted : ∀ route ∈ s.routes, Endpoints q graph ∧
    ∃ entry, Admitted r q graph entry ∧ entry.current = q.toPid ∧ entry.path = route.path

theorem SplitSound.start {amount : Amount} (hAmount : 0 ≤ amount) :
    SplitSound r q graph amount ⟨graph, amount, []⟩ :=
  ⟨fun _ u v => zero_add _, fun _ _ hOpen => hOpen, fun _ hRoute => (by cases hRoute), fun _ hu => hu,
    fun _ hRoute => (by cases hRoute), fun _ => zero_add _, hAmount, fun _ hAmount hGraph => ⟨hGraph, hAmount⟩,
    fun _ hRoute => (by cases hRoute)⟩

/-- A route takes at most what each edge of its path has left. -/
theorem allocation_le {s : FlowSearch} {path : List Pid} :
    ∀ hop ∈ hops path, allocation path s ≤ s.residual.getD₂ hop.1 hop.2 0 := by
  intro hop hHop
  unfold allocation
  split
  · next hNone =>
      rw [hops_of_pathBottleneck_none hNone] at hHop
      cases hHop
  · next bottleneck hSome => exact (min_le_right _ _).trans (pathBottleneck_le hSome hop hHop)

theorem allocation_le_remaining {s : FlowSearch} {path : List Pid} : allocation path s ≤ s.remaining := by
  unfold allocation
  split
  · exact le_rfl
  · exact min_le_left _ _

/-- A route takes no more digits than the edges and the rest of the amount have. -/
theorem allocation_mem {s : FlowSearch} {path : List Pid} {e : ℤ} (hResidual : ∀ u v, s.residual.getD₂ u v 0 ∈ digitsTo e)
    (hLeft : s.remaining ∈ digitsTo e) : allocation path s ∈ digitsTo e := by
  unfold allocation
  split
  · exact hLeft
  · next bottleneck hSome =>
      rcases min_choice s.remaining bottleneck with hMin | hMin
      · rw [hMin]
        exact hLeft
      · rw [hMin]
        exact foldl_narrow_mem hResidual (fun x hx => by cases hx) hSome

theorem foldl_reduceEdge_simple {residual : CapacityGraph} {path : List Pid} {alloc : Amount}
    (hSimple : path.Nodup) (hLe : ∀ hop ∈ hops path, alloc ≤ residual.getD₂ hop.1 hop.2 0) (u v : Pid) :
    ((hops path).foldl (reduceEdge alloc) residual).getD₂ u v 0 =
      if (u, v) ∈ hops path then decimalSub (residual.getD₂ u v 0) alloc else residual.getD₂ u v 0 :=
  foldl_reduceEdge_capacity ((nodup_hops_fst hSimple).of_map _) hLe u v

/-- One more route keeps the split. -/
theorem SplitSound.next {amount : Amount} {s : FlowSearch} {path : List Pid} {deadline left : Nat}
    (h : SplitSound r q graph amount s) (hFree : q.amount ≤ 0)
    (hFound : bfsSinglePath r q s.residual deadline = .ok (some path, left)) (hPos : 0 < allocation path s) :
    SplitSound r q graph amount
      { residual := (hops path).foldl (reduceEdge (allocation path s)) s.residual
        remaining := decimalSub s.remaining (allocation path s)
        routes := s.routes ++ [⟨path, allocation path s⟩] } := by
  obtain ⟨hEnds, hShortest⟩ := bfsSinglePath_shortest hFound
  obtain ⟨hPath, -⟩ := bfsSinglePath_pathIn hFound
  have hUnique : (hops path).Nodup := (nodup_hops_fst hPath.simple).of_map _
  have hReduced := foldl_reduceEdge_capacity hUnique (allocation_le (s := s))
  refine ⟨fun hFits u v => ?_, fun u v hOpen => ?_, fun route hRoute hop hHop => ?_,
    fun u hu => h.nodes u (mem_keys_foldl_reduceEdge hPos hu), fun route hRoute => ?_, fun hFits => ?_,
    decimalSub_nonneg allocation_le_remaining, fun e hAmount hGraph => ?_, fun route hRoute => ?_⟩
  · have hBalance := h.balance hFits u v
    obtain ⟨e, hAmount, hGraph⟩ := hFits
    obtain ⟨hResidual, hLeft⟩ := h.stored e hAmount.mem fun u v => (hGraph u v).mem
    rw [usedBy_append hPath.simple, hReduced]
    split
    · next hIn =>
        have hEdge : allocation path s ≤ s.residual.getD₂ u v 0 := allocation_le (u, v) hIn
        have hRest := fits_of_add_le (hGraph u v) hBalance.le (usedBy_nonneg h.positive u v) (hPos.le.trans hEdge)
          (hResidual u v)
        rw [decimalSub_eq hRest (allocation_mem hResidual hLeft) hPos.le hEdge, ← hBalance]
        ring
    · rw [add_zero, hBalance]
  · exact h.opened u v (foldl_reduceEdge_pos hUnique allocation_le hPos hOpen)
  · rw [hReduced]
    by_cases hShared : hop ∈ hops path
    · rw [if_pos hShared]
      exact decimalSub_nonneg (allocation_le hop hShared)
    · rw [if_neg hShared]
      rcases List.mem_append.mp hRoute with hOld | hNew
      · exact h.spare route hOld hop hHop
      · rw [List.mem_singleton.mp hNew] at hHop
        exact absurd hHop hShared
  · rcases List.mem_append.mp hRoute with hOld | hNew
    · exact h.positive route hOld
    · rw [List.mem_singleton.mp hNew]
      exact hPos
  · have hTotal := h.total hFits
    obtain ⟨e, hAmount, hGraph⟩ := hFits
    obtain ⟨hResidual, hLeft⟩ := h.stored e hAmount.mem fun u v => (hGraph u v).mem
    exact sum_append_route hAmount hTotal h.positive hLeft (allocation_mem hResidual hLeft) hPos allocation_le_remaining
  · obtain ⟨hResidual, hLeft⟩ := h.stored e hAmount hGraph
    have hAlloc : allocation path s ∈ digitsTo e := allocation_mem hResidual hLeft
    exact ⟨foldl_reduceEdge_mem hUnique allocation_le hResidual hAlloc, decimalSub_mem hLeft hAlloc⟩
  · rcases List.mem_append.mp hRoute with hOld | hNew
    · exact h.admitted route hOld
    · rw [List.mem_singleton.mp hNew]
      obtain ⟨entry, hAdmitted, hAt, hIs⟩ := hShortest.admitted
      exact ⟨⟨h.nodes _ hEnds.sender, h.nodes _ hEnds.receiver, hEnds.senderAllowed, hEnds.receiverAllowed⟩,
        entry, hAdmitted.mono hFree h.opened, hAt, hIs⟩

theorem searchRoutes_split {amount : Amount} {paths deadline : Nat} {s s' : FlowSearch} (hFree : q.amount ≤ 0)
    (hSound : SplitSound r q graph amount s) (h : searchRoutes r q paths deadline s = .ok s') :
    SplitSound r q graph amount s' :=
  searchRoutes_invariant (fun _ _ _ _ hSound _ hFound hPos => hSound.next hFree hFound hPos) hSound h

/-- A turn of the loop ends it, or adds a route. -/
theorem searchRoutes_succ_cases {paths deadline : Nat} {s s' : FlowSearch}
    (h : searchRoutes r q (paths + 1) deadline s = .ok s') :
    s' = s ∨ ∃ path left, searchRoutes r q paths left
      { residual := (hops path).foldl (reduceEdge (allocation path s)) s.residual
        remaining := decimalSub s.remaining (allocation path s)
        routes := s.routes ++ [⟨path, allocation path s⟩] } = .ok s' := by
  unfold searchRoutes at h
  split at h
  · exact Or.inl (Except.ok.inj h).symm
  · split at h
    · cases h
    · split at h
      · cases h
      · exact Or.inl (Except.ok.inj h).symm
      · next path left hFound =>
          change (if path = [] ∨ allocation path s ≤ 0 then Except.ok s else searchRoutes r q paths left _) = _ at h
          split at h
          · exact Or.inl (Except.ok.inj h).symm
          · exact Or.inr ⟨path, left, h⟩

/-- The loop adds at most one route a turn. -/
theorem searchRoutes_length {paths deadline : Nat} {s s' : FlowSearch}
    (h : searchRoutes r q paths deadline s = .ok s') : s'.routes.length ≤ s.routes.length + paths := by
  induction paths generalizing deadline s with
  | zero =>
      cases h
      exact le_rfl
  | succ paths ih =>
      obtain rfl | ⟨path, left, hRest⟩ := searchRoutes_succ_cases h
      · exact Nat.le_add_right _ _
      · have hRest := ih hRest
        rw [List.length_append, List.length_singleton] at hRest
        omega

end Search

section Routes

variable {amount : Amount} {maxHops maxPaths : ℤ} {deadline : Nat} {avoid : List Pid} {routes : List Route}

/-- What the routes of a call are: admitted paths that split the amount. -/
theorem findFlowRoutes_split (h : findFlowRoutes r fromPid toPid amount maxHops maxPaths deadline avoid = .ok routes)
    (hRoutes : routes ≠ []) :
    ∃ s, SplitSound r (routeQuery fromPid toPid maxHops avoid) r.graph amount s ∧ s.remaining = 0 ∧
      s.routes = routes ∧ (routes.length : ℤ) ≤ maxPaths := by
  unfold findFlowRoutes at h
  split at h
  · cases h
    exact absurd rfl hRoutes
  · next hArgs =>
      rw [not_or, not_le, not_le] at hArgs
      obtain ⟨s, hSearch, hOk⟩ := Outcomes.bind_eq_ok_iff.mp h
      have hOk := Except.ok.inj hOk
      split at hOk
      · exact absurd hOk.symm hRoutes
      · next hDone =>
          have hSound := @searchRoutes_split r _ r.graph _ _ _ _ _ le_rfl (SplitSound.start hArgs.1.le) hSearch
          have hLength := searchRoutes_length hSearch
          rw [List.length_nil, Nat.zero_add, hOk] at hLength
          exact ⟨s, hSound, le_antisymm (not_lt.mp hDone) hSound.left, hOk, by omega⟩

/-- A split of the amount over routes from the sender to the receiver. -/
structure FeasibleSplit (graph : CapacityGraph) (fromPid toPid : Pid) (amount : Amount) (maxHops maxPaths : ℤ)
    (avoided : List Pid) (routes : List Route) : Prop where
  simple : ∀ route ∈ routes, PathIn graph fromPid toPid route.path
  hopCount : ∀ route ∈ routes, 1 ≤ (hops route.path).length ∧ ((hops route.path).length : ℤ) ≤ maxHops
  avoids : ∀ route ∈ routes, ∀ x ∈ route.path, x ∉ avoided
  positive : ∀ route ∈ routes, 0 < route.amount
  count : (routes.length : ℤ) ≤ maxPaths
  total : FitsContext graph amount → (routes.map (·.amount)).sum = amount
  within : FitsContext graph amount → ∀ u v, 0 ≤ graph.getD₂ u v 0 → usedBy routes u v ≤ graph.getD₂ u v 0

/-- No admitted path goes through a node that the request avoids. -/
theorem Admitted.allowed {entry : SearchEntry} (h : Admitted r q graph entry) (hSender : q.fromPid ∉ q.forbiddenNodes) :
    ∀ x ∈ entry.path, x ∉ q.forbiddenNodes := by
  induction h with
  | start =>
      intro x hx
      rw [List.mem_singleton.mp hx]
      exact hSender
  | step prior hInner hHops hAdmits ih =>
      intro x hx
      rcases List.mem_append.mp hx with hOld | hNew
      · exact ih x hOld
      · rw [List.mem_singleton.mp hNew]
        exact (admits_iff.mp hAdmits).2.1

theorem usedBy_eq_zero {u v : Pid} (h : ∀ route ∈ routes, (u, v) ∉ hops route.path) : usedBy routes u v = 0 := by
  refine List.sum_eq_zero fun x hx => ?_
  obtain ⟨route, hRoute, rfl⟩ := List.mem_map.mp hx
  refine List.sum_eq_zero fun y hy => ?_
  obtain ⟨hop, hHop, rfl⟩ := List.mem_map.mp hy
  refine if_neg fun hSame => h route hRoute ?_
  rw [← hSame]
  exact hHop

/-- An edge that some route takes keeps what is spare, any other what it had. -/
theorem SplitSound.within {s : FlowSearch} (h : SplitSound r q graph amount s) (hFits : FitsContext graph amount)
    {u v : Pid} (hEdge : 0 ≤ graph.getD₂ u v 0) : usedBy s.routes u v ≤ graph.getD₂ u v 0 := by
  by_cases hTaken : ∃ route ∈ s.routes, (u, v) ∈ hops route.path
  · obtain ⟨route, hRoute, hHop⟩ := hTaken
    have hSpare := h.spare route hRoute (u, v) hHop
    rw [← h.balance hFits u v]
    exact le_add_of_nonneg_right hSpare
  · have hZero : usedBy s.routes u v = 0 := usedBy_eq_zero fun route hRoute hHop => hTaken ⟨route, hRoute, hHop⟩
    rw [hZero]
    exact hEdge

theorem findFlowRoutes_feasible (hDistinct : fromPid ≠ toPid)
    (h : findFlowRoutes r fromPid toPid amount maxHops maxPaths deadline avoid = .ok routes) (hRoutes : routes ≠ []) :
    FeasibleSplit r.graph fromPid toPid amount maxHops maxPaths
      (avoid.filter fun x => pyStrip x.toList ≠ []) routes := by
  obtain ⟨s, hSound, hDone, rfl, hCount⟩ := findFlowRoutes_split h hRoutes
  have hPath : ∀ route ∈ s.routes, PathIn r.graph fromPid toPid route.path := by
    intro route hRoute
    obtain ⟨-, entry, hAdmitted, hAt, hIs⟩ := hSound.admitted route hRoute
    have hPath := hAdmitted.pathIn
    rw [hAt, hIs] at hPath
    exact hPath
  refine ⟨hPath, fun route hRoute => ?_, fun route hRoute => ?_, hSound.positive, hCount, fun hFits => ?_,
    fun hFits u v hEdge => hSound.within hFits hEdge⟩
  · obtain ⟨-, entry, hAdmitted, hAt, hIs⟩ := hSound.admitted route hRoute
    have hSome : hops route.path ≠ [] := fun hNone => hDistinct ((hPath route hRoute).eq_of_hops_eq_nil hNone)
    have hPositive := List.length_pos_iff.mpr hSome
    refine ⟨hPositive, ?_⟩
    rw [← hIs, length_hops] at hPositive ⊢
    cases hAdmitted with
    | start => exact absurd hPositive (by simp)
    | @step prior neighbor _ hInner hHops hAdmits =>
        rw [extend, List.length_append, List.length_singleton]
        change (prior.path.length : ℤ) - 1 < maxHops at hHops
        omega
  · obtain ⟨hEnds, entry, hAdmitted, hAt, hIs⟩ := hSound.admitted route hRoute
    rw [← hIs]
    exact hAdmitted.allowed hEnds.senderAllowed
  · have hTotal := hSound.total hFits
    rwa [hDone, add_zero] at hTotal

end Routes

section Caller

open RowRefs

instance : Inhabited (Dict Pid Amount) := ⟨Dict.empty⟩

/-- The rows of adjacency dictionaries, which the search writes in place. -/
abbrev RowMemory := List (Dict Pid Amount)

/-- Take an amount off one edge, in the row that the residual graph refers to. -/
def reduceEdgeIn (alloc : Amount) (residual : Dict Pid Nat) (memory : RowMemory) (hop : Pid × Pid) : RowMemory :=
  match residual.get? hop.1 with
  | none => memory
  | some ref =>
      let row := memory.getD ref default
      let newCap := decimalSub (row.getD hop.2 0) alloc
      memory.set ref (if newCap ≤ 0 then row.pop hop.2 else row.set hop.2 newCap)

/-- The loop of `find_flow_routes` over the rows that the residual graph refers to. -/
def searchRoutesIn (r : PaymentRouter) (q : PathQuery) (residual : Dict Pid Nat) :
    Nat → Nat → Amount → List Route → RowMemory → Except GeoError (Amount × List Route) × RowMemory
  | 0, _, remaining, routes, memory => (.ok (remaining, routes), memory)
  | paths + 1, deadline, remaining, routes, memory =>
      if remaining ≤ 0 then (.ok (remaining, routes), memory)
      else match deadline with
        | 0 => (.error (.timeout "Routing timed out"), memory)
        | deadline + 1 =>
            match bfsSinglePath r q (view memory residual) deadline with
            | .error error => (.error error, memory)
            | .ok (none, _) => (.ok (remaining, routes), memory)
            | .ok (some path, left) =>
                let alloc := match pathBottleneck path (view memory residual) with
                  | none => remaining
                  | some bottleneck => min remaining bottleneck
                if path = [] ∨ alloc ≤ 0 then (.ok (remaining, routes), memory)
                else searchRoutesIn r q residual paths left (decimalSub remaining alloc) (routes ++ [⟨path, alloc⟩])
                  ((hops path).foldl (reduceEdgeIn alloc residual) memory)

/-- `find_flow_routes` for a caller whose graph refers to rows of a memory. The
residual graph is a copy of the dictionary and of every row. -/
def findFlowRoutesIn (r : PaymentRouter) (memory : RowMemory) (graph : Dict Pid Nat) (fromPid toPid : Pid)
    (amount : Amount) (maxHops maxPaths : ℤ) (deadline : Nat) (avoidParticipants : List Pid) :
    Except GeoError (List Route) × RowMemory :=
  if amount ≤ 0 ∨ maxPaths ≤ 0 then (.ok [], memory)
  else
    let q : PathQuery := {
      fromPid := fromPid
      toPid := toPid
      amount := 0
      maxHops := maxHops
      forbiddenEdges := []
      forbiddenNodes := avoidParticipants.filter fun x => pyStrip x.toList ≠ [] }
    let copied := copy memory graph
    let searched := searchRoutesIn r q copied.2 maxPaths.toNat deadline amount [] copied.1
    (searched.1.map fun found => if 0 < found.1 then [] else found.2, searched.2)

/-- The residual graph of a search: its rows are its own, and in the memory. -/
structure OwnRows (bound : Nat) (residual : Dict Pid Nat) (memory : RowMemory) : Prop where
  unshared : Unshared bound residual
  placed : ∀ entry ∈ residual.items, entry.2 < memory.length

variable {bound : Nat} {residual : Dict Pid Nat} {memory : RowMemory} {alloc : Amount}

theorem length_reduceEdgeIn (hop : Pid × Pid) : (reduceEdgeIn alloc residual memory hop).length = memory.length := by
  unfold reduceEdgeIn
  split
  · rfl
  · exact List.length_set

/-- Updating the row is updating the value of the residual graph. -/
theorem view_reduceEdgeIn (hOwn : OwnRows bound residual memory) (hPos : 0 < alloc) (hop : Pid × Pid) :
    view (reduceEdgeIn alloc residual memory hop) residual = reduceEdge alloc (view memory residual) hop := by
  have hRow : (view memory residual).get? hop.1 = (residual.get? hop.1).map fun ref => memory.getD ref default :=
    Dict.get?_map _ _ _
  unfold reduceEdgeIn reduceEdge
  cases hRef : residual.get? hop.1 with
  | none =>
      rw [hRef, Option.map_none] at hRow
      have hZero : (view memory residual).getD₂ hop.1 hop.2 0 = 0 := by simp [Dict.getD₂, Dict.getD, hRow]
      have hNone : decimalSub 0 alloc ≤ 0 :=
        not_lt.mp fun hSome => absurd (lt_of_decimalSub_pos hSome) (not_lt.mpr hPos.le)
      simp [hZero, hNone, hRow]
  | some ref =>
      rw [hRef, Option.map_some] at hRow
      have hCap : (view memory residual).getD₂ hop.1 hop.2 0 = (memory.getD ref default).getD hop.2 0 := by
        simp [Dict.getD₂, Dict.getD, hRow]
      have hPlaced := hOwn.placed _ (Dict.get?_eq_some_iff.mp hRef)
      simp only [hCap, hRow]
      rw [view_set hOwn.unshared hRef hPlaced]
      split
      · rfl
      · simp [Dict.set₂, Dict.getD, hRow]

theorem reduceEdgeIn_below (hOwn : OwnRows bound residual memory) {place : Nat} (hPlace : place < bound)
    (hop : Pid × Pid) : (reduceEdgeIn alloc residual memory hop).getD place default = memory.getD place default := by
  unfold reduceEdgeIn
  split
  · rfl
  · next ref hRef =>
      have hGe := hOwn.unshared.ge _ (Dict.get?_eq_some_iff.mp hRef)
      have hNe : ref ≠ place := by omega
      simp [List.getD_eq_getElem?_getD, List.getElem?_set_ne hNe]

theorem OwnRows.reduce (hOwn : OwnRows bound residual memory) (hop : Pid × Pid) :
    OwnRows bound residual (reduceEdgeIn alloc residual memory hop) :=
  ⟨hOwn.unshared, fun entry hEntry => by
    rw [length_reduceEdgeIn]
    exact hOwn.placed entry hEntry⟩

/-- Taking a route off the rows keeps the caller's, and is the update of the residual graph. -/
theorem foldl_reduceEdgeIn (hOwn : OwnRows bound residual memory) (hPos : 0 < alloc) (edges : List (Pid × Pid)) :
    OwnRows bound residual (edges.foldl (reduceEdgeIn alloc residual) memory) ∧
    view (edges.foldl (reduceEdgeIn alloc residual) memory) residual =
      edges.foldl (reduceEdge alloc) (view memory residual) ∧
    ∀ place < bound, (edges.foldl (reduceEdgeIn alloc residual) memory).getD place default =
      memory.getD place default := by
  induction edges generalizing memory with
  | nil => exact ⟨hOwn, rfl, fun _ _ => rfl⟩
  | cons hop rest ih =>
      obtain ⟨hRest, hView, hBelow⟩ := ih (hOwn.reduce hop)
      refine ⟨hRest, ?_, fun place hPlace => ?_⟩
      · rw [List.foldl_cons, List.foldl_cons, hView, view_reduceEdgeIn hOwn hPos]
      · rw [List.foldl_cons, hBelow place hPlace, reduceEdgeIn_below hOwn hPlace]

/-- The turn of the loop that has found a path. -/
theorem searchRoutesIn_found {paths deadline left : Nat} {remaining : Amount} {routes : List Route} {path : List Pid}
    (hMore : ¬remaining ≤ 0) (hFound : bfsSinglePath r q (view memory residual) deadline = .ok (some path, left)) :
    searchRoutesIn r q residual (paths + 1) (deadline + 1) remaining routes memory =
      if path = [] ∨ allocation path ⟨view memory residual, remaining, routes⟩ ≤ 0 then
        (.ok (remaining, routes), memory)
      else searchRoutesIn r q residual paths left
        (decimalSub remaining (allocation path ⟨view memory residual, remaining, routes⟩))
        (routes ++ [⟨path, allocation path ⟨view memory residual, remaining, routes⟩⟩])
        ((hops path).foldl (reduceEdgeIn (allocation path ⟨view memory residual, remaining, routes⟩) residual)
          memory) := by
  rw [searchRoutesIn.eq_def]
  simp only
  rw [if_neg hMore, hFound]
  rfl

theorem searchRoutes_found {paths deadline left : Nat} {s : FlowSearch} {path : List Pid}
    (hMore : ¬s.remaining ≤ 0) (hFound : bfsSinglePath r q s.residual deadline = .ok (some path, left)) :
    searchRoutes r q (paths + 1) (deadline + 1) s =
      if path = [] ∨ allocation path s ≤ 0 then .ok s
      else searchRoutes r q paths left
        { residual := (hops path).foldl (reduceEdge (allocation path s)) s.residual
          remaining := decimalSub s.remaining (allocation path s)
          routes := s.routes ++ [⟨path, allocation path s⟩] } := by
  rw [searchRoutes.eq_def]
  simp only
  rw [if_neg hMore, hFound]
  rfl

/-- The loop over rows does what the loop over values does, and writes no row of the caller. -/
theorem searchRoutesIn_eq {paths deadline : Nat} {remaining : Amount} {routes : List Route}
    (hOwn : OwnRows bound residual memory) :
    (searchRoutesIn r q residual paths deadline remaining routes memory).1 =
      (searchRoutes r q paths deadline ⟨view memory residual, remaining, routes⟩).map
        (fun s => (s.remaining, s.routes)) ∧
    ∀ place < bound, (searchRoutesIn r q residual paths deadline remaining routes memory).2.getD place default =
      memory.getD place default := by
  induction paths generalizing deadline remaining routes memory with
  | zero => exact ⟨rfl, fun _ _ => rfl⟩
  | succ paths ih =>
      by_cases hDone : remaining ≤ 0
      · rw [searchRoutesIn.eq_def, searchRoutes_done hDone]
        simp only [if_pos hDone]
        exact ⟨rfl, fun _ _ => trivial⟩
      · cases deadline with
        | zero =>
            rw [searchRoutesIn.eq_def, searchRoutes.eq_def]
            simp only [if_neg hDone]
            exact ⟨rfl, fun _ _ => trivial⟩
        | succ deadline =>
            cases hFound : bfsSinglePath r q (view memory residual) deadline with
            | error error =>
                rw [searchRoutesIn.eq_def, searchRoutes.eq_def]
                simp only [if_neg hDone, hFound]
                exact ⟨rfl, fun _ _ => trivial⟩
            | ok found =>
                obtain ⟨found, left⟩ := found
                cases found with
                | none =>
                    rw [searchRoutesIn.eq_def, searchRoutes.eq_def]
                    simp only [if_neg hDone, hFound]
                    exact ⟨rfl, fun _ _ => trivial⟩
                | some path =>
                    rw [searchRoutesIn_found hDone hFound, searchRoutes_found hDone hFound]
                    split
                    · exact ⟨rfl, fun _ _ => rfl⟩
                    · next hAlloc =>
                        rw [not_or, not_le] at hAlloc
                        obtain ⟨hNext, hView, hBelow⟩ := foldl_reduceEdgeIn hOwn hAlloc.2 (hops path)
                        obtain ⟨hSame, hKept⟩ := ih hNext
                        refine ⟨?_, fun place hPlace => ?_⟩
                        · rw [hSame, hView]
                        · rw [hKept place hPlace, hBelow place hPlace]

/-- `find_flow_routes` returns what the search over values returns, and whatever it
returns the caller's graph is what it was. -/
theorem findFlowRoutesIn_eq {graph : Dict Pid Nat} {amount : Amount} {maxHops maxPaths : ℤ} {deadline : Nat}
    {avoid : List Pid} (hGraph : view memory graph = r.graph)
    (hPlaced : ∀ entry ∈ graph.items, entry.2 < memory.length) :
    (findFlowRoutesIn r memory graph fromPid toPid amount maxHops maxPaths deadline avoid).1 =
      findFlowRoutes r fromPid toPid amount maxHops maxPaths deadline avoid ∧
    view (findFlowRoutesIn r memory graph fromPid toPid amount maxHops maxPaths deadline avoid).2 graph =
      r.graph := by
  have hOwn : OwnRows memory.length (copy memory graph).2 (copy memory graph).1 := ⟨unshared_copy, copy_placed⟩
  unfold findFlowRoutesIn findFlowRoutes
  split
  · exact ⟨rfl, hGraph⟩
  · obtain ⟨hSame, hKept⟩ := @searchRoutesIn_eq r (routeQuery fromPid toPid maxHops avoid) _ _ _ maxPaths.toNat
      deadline amount [] hOwn
    rw [view_copy, hGraph] at hSame
    have hView : ∀ memory' : RowMemory, (∀ place < memory.length, memory'.getD place default =
        (copy memory graph).1.getD place default) → view memory' graph = r.graph := by
      intro memory' hAgree
      rw [← hGraph]
      refine view_congr fun entry hEntry => ?_
      rw [hAgree _ (hPlaced entry hEntry), copy_below (hPlaced entry hEntry)]
    refine ⟨?_, hView _ hKept⟩
    change Except.map _ (searchRoutesIn r (routeQuery fromPid toPid maxHops avoid) _ _ _ _ _ _).1 = (do
      let s ← searchRoutes r (routeQuery fromPid toPid maxHops avoid) maxPaths.toNat deadline ⟨r.graph, amount, []⟩
      return if 0 < s.remaining then [] else s.routes : Except GeoError (List Route))
    rw [hSame]
    cases searchRoutes r (routeQuery fromPid toPid maxHops avoid) maxPaths.toNat deadline
        ⟨r.graph, amount, []⟩ with
    | error error => rfl
    | ok s => rfl

/-- The participants that an avoid list keeps off routes: entries that are blank name none. -/
def avoidedParticipants (avoidParticipants : List Pid) : List Pid :=
  avoidParticipants.filter fun x => pyStrip x.toList ≠ []

/-- Routes that `find_flow_routes` returns are a feasible split of the amount that
no participant to avoid is on, and no call changes the caller's graph. -/
theorem findFlowRoutesIn_feasible {graph : Dict Pid Nat} {amount : Amount} {maxHops maxPaths : ℤ} {deadline : Nat}
    {avoid : List Pid} (hGraph : view memory graph = r.graph)
    (hPlaced : ∀ entry ∈ graph.items, entry.2 < memory.length) (hDistinct : fromPid ≠ toPid) :
    (∀ routes, (findFlowRoutesIn r memory graph fromPid toPid amount maxHops maxPaths deadline avoid).1 = .ok routes →
      routes ≠ [] →
      FeasibleSplit r.graph fromPid toPid amount maxHops maxPaths (avoidedParticipants avoid) routes) ∧
    view (findFlowRoutesIn r memory graph fromPid toPid amount maxHops maxPaths deadline avoid).2 graph = r.graph := by
  refine ⟨fun routes hFound hRoutes => ?_, (findFlowRoutesIn_eq hGraph hPlaced).2⟩
  rw [(findFlowRoutesIn_eq hGraph hPlaced).1] at hFound
  exact findFlowRoutes_feasible hDistinct hFound hRoutes

section Example

/-- One line from one participant over another to a third, in two rows and an empty one. -/
def lineMemory (through : Pid) : RowMemory :=
  [Dict.ofList [(through, 5)], Dict.ofList [("carol", 3)], Dict.empty]

def lineRefs (through : Pid) : Dict Pid Nat := Dict.ofList [("alice", 0), (through, 1), ("carol", 2)]

def lineRouter (through : Pid) : PaymentRouter := ⟨view (lineMemory through) (lineRefs through), Dict.empty, Dict.empty⟩

/-- A line with an edge of seventeen decimals and an edge of twelve digits before the point. -/
def longDigitsMemory : RowMemory :=
  [Dict.ofList [("alice", 4 / 10 ^ 17), ("bob", 150000000000)], Dict.ofList [("carol", 150000000000)],
    Dict.ofList [("carol", 150000000000)], Dict.ofList [("dave", 150000000000)], Dict.empty]

def longDigitsRefs : Dict Pid Nat :=
  Dict.ofList [("erin", 0), ("alice", 1), ("bob", 2), ("carol", 3), ("dave", 4)]

def longDigitsRouter : PaymentRouter := ⟨view longDigitsMemory longDigitsRefs, Dict.empty, Dict.empty⟩

/-- Over a line of two edges whose capacities the context keeps, two units go one way, to the
last digit, and the rows stay as they are. -/
theorem findFlowRoutesIn_feasible_line :
    (findFlowRoutesIn (lineRouter "bob") (lineMemory "bob") (lineRefs "bob") "alice" "carol" 2 6 3 10 ["dave"]).1 =
      .ok [⟨["alice", "bob", "carol"], 2⟩] ∧
    FeasibleSplit (lineRouter "bob").graph "alice" "carol" 2 6 3 (avoidedParticipants ["dave"])
      [⟨["alice", "bob", "carol"], 2⟩] ∧
    FitsContext (lineRouter "bob").graph 2 := by
  have hFound : (findFlowRoutesIn (lineRouter "bob") (lineMemory "bob") (lineRefs "bob") "alice" "carol" 2 6 3 10
      ["dave"]).1 = .ok [⟨["alice", "bob", "carol"], 2⟩] := by decide +kernel
  have hItems : ∀ row ∈ (lineRouter "bob").graph.items, ∀ edge ∈ row.2.items, decimalContext.Fits 0 edge.2 := by
    decide +kernel
  exact ⟨hFound, (findFlowRoutesIn_feasible rfl (by decide +kernel) (by decide)).1 _ hFound (List.cons_ne_nil _ _),
    0, by decide +kernel, getD₂_of_items (by decide +kernel) hItems⟩

/-- A node whose id is blank is on a route although the request lists it; and where the difference of
two amounts has more than 28 digits the routes send more than was asked for, over more than the capacity. -/
theorem not_findFlowRoutesIn_feasible :
    (∃ routes,
      (findFlowRoutesIn (lineRouter " ") (lineMemory " ") (lineRefs " ") "alice" "carol" 2 6 3 10 [" "]).1 =
        .ok routes ∧ routes ≠ [] ∧
      ¬FeasibleSplit (lineRouter " ").graph "alice" "carol" 2 6 3 [" "] routes) ∧
    ∃ routes,
      (findFlowRoutesIn longDigitsRouter longDigitsMemory longDigitsRefs "erin" "dave" 150000000000 6 3 50 []).1 =
        .ok routes ∧
      (routes.map (·.amount)).sum ≠ 150000000000 ∧
      longDigitsRouter.graph.getD₂ "carol" "dave" 0 < usedBy routes "carol" "dave" := by
  refine ⟨⟨[⟨["alice", " ", "carol"], 2⟩], by decide +kernel, List.cons_ne_nil _ _, fun hSplit => ?_⟩, ?_⟩
  · exact hSplit.avoids _ List.mem_cons_self " " (by decide) List.mem_cons_self
  · exact ⟨[⟨["erin", "alice", "carol", "dave"], 4 / 10 ^ 17⟩, ⟨["erin", "bob", "carol", "dave"], 150000000000⟩],
      by decide +kernel, by decide +kernel, by decide +kernel⟩

end Example

end Caller

end PaymentRouter

end GeoLedger

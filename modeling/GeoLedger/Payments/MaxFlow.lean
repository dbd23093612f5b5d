import Mathlib
import GeoLedger.Library.Flows
import GeoLedger.Payments.RouteSearch

/-! `PaymentRouter.calculate_max_flow`: augmenting paths are taken breadth-first
from a residual copy of the capacity graph, without regard to policies. A search
does not go on from a path of more than `MAX_FLOW_MAX_HOPS` nodes. -/
namespace GeoLedger
open Flows Trails

/-- An entry of the search queue: a node, the path to it, and the least residual
capacity along it; `none` is infinity. -/
structure FlowEntry where
  current : Pid
  path : List Pid
  flow : Option Amount

structure MaxFlowPath where
  path : List Pid
  capacity : Amount

/-- The state of `calculate_max_flow` between two searches. -/
structure MaxFlow where
  residual : CapacityGraph
  maxFlow : Amount
  paths : List MaxFlowPath

namespace PaymentRouter

section Model

/-- `min(flow, cap)`. -/
def narrowFlow (flow : Option Amount) (cap : Amount) : Amount :=
  match flow with
  | none => cap
  | some x => min x cap

/-- The neighbors that a node adds to the queue. They are different, so marking
one as visited does not keep another out. -/
def visitNeighbors (residual : CapacityGraph) (visited : List Pid) (entry : FlowEntry) : List FlowEntry :=
  ((residual.getD entry.current Dict.empty).items.filter fun edge => edge.1 ∉ visited ∧ 0 < edge.2).map
    fun edge => ⟨edge.1, entry.path ++ [edge.1], some (narrowFlow entry.flow edge.2)⟩

/-- The loop over the queue, which takes at most `steps` entries; the inner
result is the entry of `to_pid`, if it is reached. -/
def augmentingLoop (maxHops : Nat) (toPid : Pid) (residual : CapacityGraph) :
    Nat → List FlowEntry → List Pid → Option (Option FlowEntry)
  | _, [], _ => some none
  | 0, _ :: _, _ => none
  | steps + 1, entry :: queue, visited =>
      if entry.current = toPid then some (some entry)
      else if maxHops < entry.path.length then augmentingLoop maxHops toPid residual steps queue visited
      else
        let added := visitNeighbors residual visited entry
        augmentingLoop maxHops toPid residual steps (queue ++ added) (visited ++ added.map (·.current))

/-- The ends of all edges of a graph. -/
def edgeEnds (graph : CapacityGraph) : List Pid := graph.items.flatMap fun row => row.2.keys

/-- The search for an augmenting path. Every edge queues its end at most once. -/
def augmentingPath (maxHops : Nat) (fromPid toPid : Pid) (residual : CapacityGraph) : Option (Option FlowEntry) :=
  augmentingLoop maxHops toPid residual ((edgeEnds residual).length + 1) [⟨fromPid, [fromPid], none⟩] [fromPid]

/-- Take an amount off the residual capacity of an edge, which goes when nothing is left. -/
def takeEdge (flow : Amount) (residual : CapacityGraph) (hop : Pid × Pid) : CapacityGraph :=
  let left := decimalSub (residual.getD₂ hop.1 hop.2 0) flow
  if left = 0 then
    match residual.get? hop.1 with
    | none => residual
    | some edges => residual.set hop.1 (edges.pop hop.2)
  else residual.set₂ hop.1 hop.2 left

/-- Move an amount of residual capacity from an edge to its reverse. -/
def shiftEdge (flow : Amount) (residual : CapacityGraph) (hop : Pid × Pid) : CapacityGraph :=
  let taken := takeEdge flow residual hop
  taken.set₂ hop.2 hop.1 (decimalAdd (taken.getD₂ hop.2 hop.1 0) flow)

/-- The outer loop, for at most `rounds` searches. A path without hops, from a
participant to itself, has no bottleneck and is found again for ever. -/
def maxFlowLoop (maxHops : Nat) (fromPid toPid : Pid) : Nat → MaxFlow → Option MaxFlow
  | 0, _ => none
  | rounds + 1, s =>
      match augmentingPath maxHops fromPid toPid s.residual with
      | none => none
      | some none => some s
      | some (some entry) =>
          match entry.flow with
          | none => maxFlowLoop maxHops fromPid toPid rounds s
          | some flow =>
              maxFlowLoop maxHops fromPid toPid rounds {
                residual := (hops entry.path).foldl (shiftEdge flow) s.residual
                maxFlow := decimalAdd s.maxFlow flow
                paths := s.paths ++ [⟨entry.path, flow⟩] }

/-- `calculate_max_flow`, when it is done after `rounds` searches. -/
def calculateMaxFlow (r : PaymentRouter) (maxFlowMaxHops rounds : Nat) (fromPid toPid : Pid) : Option MaxFlow :=
  maxFlowLoop maxFlowMaxHops fromPid toPid rounds ⟨r.graph, 0, []⟩

end Model

variable {residual : CapacityGraph} {maxHops : Nat} {fromPid toPid : Pid}

/-- A way to send more: hops of positive residual capacity. -/
structure Augmenting (residual : CapacityGraph) (fromPid toPid : Pid) (edges : List (Pid × Pid)) : Prop where
  joins : Joins fromPid edges toPid
  positive : ∀ hop ∈ edges, 0 < residual.getD₂ hop.1 hop.2 0

section Search

/-- An entry of the queue: a simple path to a node, and a positive amount that
every edge of it can still carry. -/
structure EntrySound (residual : CapacityGraph) (fromPid : Pid) (visited : List Pid) (entry : FlowEntry) :
    Prop where
  path : PathIn residual fromPid entry.current entry.path
  seen : ∀ x ∈ entry.path, x ∈ visited
  start : entry.flow = none → hops entry.path = []
  flow : ∀ x, entry.flow = some x → 0 < x ∧ ∀ hop ∈ hops entry.path, x ≤ residual.getD₂ hop.1 hop.2 0
  attained : ∀ x, entry.flow = some x → ∃ hop ∈ hops entry.path, residual.getD₂ hop.1 hop.2 0 = x
  stored : ∀ G : AddSubgroup Amount, (∀ u v, residual.getD₂ u v 0 ∈ G) → ∀ x, entry.flow = some x → x ∈ G

theorem EntrySound.mono {visited more : List Pid} {entry : FlowEntry}
    (h : EntrySound residual fromPid visited entry) : EntrySound residual fromPid (visited ++ more) entry :=
  ⟨h.path, fun x hx => List.mem_append_left _ (h.seen x hx), h.start, h.flow, h.attained, h.stored⟩

theorem visitNeighbors_sound {visited : List Pid} {entry : FlowEntry}
    (h : EntrySound residual fromPid visited entry) :
    ∀ added ∈ visitNeighbors residual visited entry, EntrySound residual fromPid
      (visited ++ (visitNeighbors residual visited entry).map (·.current)) added := by
  intro added hAdded
  have hMarked : added.current ∈ visited ++ (visitNeighbors residual visited entry).map (·.current) :=
    List.mem_append_right _ (List.mem_map_of_mem hAdded)
  obtain ⟨edge, hEdge, rfl⟩ := List.mem_map.mp hAdded
  obtain ⟨hItem, hOpen⟩ := List.mem_filter.mp hEdge
  obtain ⟨hFresh, hPos⟩ := of_decide_eq_true hOpen
  have hCapacity := getD₂_of_mem_items hItem
  have hHops : hops (entry.path ++ [edge.1]) = hops entry.path ++ [(entry.current, edge.1)] :=
    hops_append_singleton h.path.last
  refine ⟨⟨?_, by simp, ?_, fun hop hHop => ?_⟩, fun x hx => ?_, ?_, fun x hx => ?_, fun x hx => ?_,
    fun G hG x hx => ?_⟩
  · rw [List.head?_append, h.path.first]
    rfl
  · refine List.nodup_append.mpr ⟨h.path.simple, List.nodup_singleton _, ?_⟩
    intro x hx y hy hEq
    rw [hEq, List.mem_singleton.mp hy] at hx
    exact hFresh (h.seen _ hx)
  · rw [hHops, List.mem_append, List.mem_singleton] at hHop
    rcases hHop with hOld | rfl
    · exact h.path.open_edges hop hOld
    · exact hCapacity ▸ hPos
  · rcases List.mem_append.mp hx with hOld | hNew
    · exact List.mem_append_left _ (h.seen x hOld)
    · exact List.mem_singleton.mp hNew ▸ hMarked
  · intro hNone
    cases hNone
  · cases hx
    rw [hHops]
    cases hFlow : entry.flow with
    | none =>
        refine ⟨hPos, fun hop hHop => ?_⟩
        rw [h.start hFlow, List.nil_append, List.mem_singleton] at hHop
        rw [hHop]
        exact hCapacity.ge
    | some y =>
        obtain ⟨hPosY, hLe⟩ := h.flow y hFlow
        refine ⟨lt_min hPosY hPos, fun hop hHop => ?_⟩
        rcases List.mem_append.mp hHop with hOld | hNew
        · exact (min_le_left _ _).trans (hLe hop hOld)
        · rw [List.mem_singleton.mp hNew]
          exact (min_le_right _ _).trans hCapacity.ge
  · cases hx
    rw [hHops]
    have hLast : (entry.current, edge.1) ∈ hops entry.path ++ [(entry.current, edge.1)] := by simp
    cases hFlow : entry.flow with
    | none => exact ⟨_, hLast, hCapacity⟩
    | some y =>
        rcases min_choice y edge.2 with hMin | hMin
        · obtain ⟨hop, hHop, hIs⟩ := h.attained y hFlow
          exact ⟨hop, List.mem_append_left _ hHop, hIs.trans hMin.symm⟩
        · exact ⟨_, hLast, hCapacity.trans hMin.symm⟩
  · have hEdge : edge.2 ∈ G := hCapacity ▸ hG _ _
    cases hx
    cases hFlow : entry.flow with
    | none => exact hEdge
    | some y =>
        show min y edge.2 ∈ G
        rcases min_choice y edge.2 with hMin | hMin
        · rw [hMin]
          exact h.stored G hG y hFlow
        · rw [hMin]
          exact hEdge

/-- The entry that a search returns is sound and at the target. -/
theorem augmentingLoop_sound {steps : Nat} {queue : List FlowEntry} {visited : List Pid} {found : FlowEntry}
    (hQueue : ∀ entry ∈ queue, EntrySound residual fromPid visited entry)
    (h : augmentingLoop maxHops toPid residual steps queue visited = some (some found)) :
    found.current = toPid ∧ ∃ visited, EntrySound residual fromPid visited found := by
  induction steps generalizing queue visited with
  | zero =>
      cases queue with
      | nil => cases h
      | cons entry queue => cases h
  | succ steps ih =>
      cases queue with
      | nil => cases h
      | cons entry queue =>
          have hEntry := hQueue entry List.mem_cons_self
          have hRest : ∀ e ∈ queue, EntrySound residual fromPid visited e := fun e he =>
            hQueue e (List.mem_cons_of_mem _ he)
          rw [augmentingLoop] at h
          split at h
          · next hTarget =>
              cases h
              exact ⟨hTarget, visited, hEntry⟩
          · split at h
            · exact ih hRest h
            · refine ih (fun e he => ?_) h
              rcases List.mem_append.mp he with hOld | hNew
              · exact (hRest e hOld).mono
              · exact visitNeighbors_sound hEntry e hNew

/-- Items that are marked leave the list of items that are not. -/
theorem length_filter_marked {items marked added : List Pid} (hUnique : added.Nodup)
    (hIn : ∀ x ∈ added, x ∈ items) (hFresh : ∀ x ∈ added, x ∉ marked) :
    added.length + (items.filter (· ∉ marked ++ added)).length ≤ (items.filter (· ∉ marked)).length := by
  have hAdded : added.length ≤ ((items.filter (· ∉ marked)).filter (· ∈ added)).length := by
    refine (List.subperm_of_subset hUnique fun x hx => ?_).length_le
    exact List.mem_filter.mpr ⟨List.mem_filter.mpr ⟨hIn x hx, by simpa using hFresh x hx⟩, by simpa using hx⟩
  have hLeft : items.filter (· ∉ marked ++ added) = (items.filter (· ∉ marked)).filter (¬· ∈ added) := by
    rw [List.filter_filter]
    apply List.filter_congr
    intro x _
    simp [Bool.and_comm]
  have hSplit := List.length_eq_length_filter_add (l := items.filter (· ∉ marked)) (· ∈ added)
  rw [hLeft]
  simp only [decide_not] at hSplit hAdded ⊢
  omega

theorem visitNeighbors_fresh {visited : List Pid} (entry : FlowEntry) :
    ((visitNeighbors residual visited entry).map (·.current)).Nodup ∧
      ∀ x ∈ (visitNeighbors residual visited entry).map (·.current), x ∈ edgeEnds residual ∧ x ∉ visited := by
  have hCurrents : (visitNeighbors residual visited entry).map (·.current) =
      ((residual.getD entry.current Dict.empty).items.filter fun edge =>
        edge.1 ∉ visited ∧ 0 < edge.2).map Prod.fst := by
    rw [visitNeighbors, List.map_map]
    rfl
  rw [hCurrents]
  refine ⟨(residual.getD entry.current Dict.empty).nodup.sublist (List.filter_sublist.map _), fun x hx => ?_⟩
  obtain ⟨edge, hEdge, rfl⟩ := List.mem_map.mp hx
  obtain ⟨hItem, hOpen⟩ := List.mem_filter.mp hEdge
  refine ⟨?_, (of_decide_eq_true hOpen).1⟩
  cases hRow : residual.get? entry.current with
  | none =>
      rw [Dict.getD, hRow] at hItem
      cases hItem
  | some row =>
      rw [Dict.getD, hRow] at hItem
      exact List.mem_flatMap.mpr ⟨(entry.current, row), Dict.get?_eq_some_iff.mp hRow,
        List.mem_map_of_mem hItem⟩

/-- The nodes that a search has not reached yet and the length of its queue
bound the number of its steps. -/
theorem augmentingLoop_isSome {steps : Nat} {queue : List FlowEntry} {visited : List Pid}
    (h : queue.length + ((edgeEnds residual).filter (· ∉ visited)).length ≤ steps) :
    ∃ result, augmentingLoop maxHops toPid residual steps queue visited = some result := by
  induction steps generalizing queue visited with
  | zero =>
      cases queue with
      | nil => exact ⟨none, rfl⟩
      | cons entry queue =>
          rw [List.length_cons] at h
          omega
  | succ steps ih =>
      cases queue with
      | nil => exact ⟨none, rfl⟩
      | cons entry queue =>
          rw [List.length_cons] at h
          rw [augmentingLoop]
          split
          · exact ⟨_, rfl⟩
          · split
            · exact ih (by omega)
            · refine ih ?_
              obtain ⟨hUnique, hAdded⟩ := @visitNeighbors_fresh residual visited entry
              have hShrinks := length_filter_marked hUnique (fun x hx => (hAdded x hx).1)
                fun x hx => (hAdded x hx).2
              rw [List.length_map] at hShrinks
              rw [List.length_append]
              omega

/-- The progress of a search: `done` are the entries taken from the queue. The
queue holds entries in the order of their path lengths, which differ by one at
most, and an entry that was expanded has all its open neighbors marked. -/
structure Progress (residual : CapacityGraph) (maxHops : Nat) (fromPid toPid : Pid) (done queue : List FlowEntry)
    (visited : List Pid) : Prop where
  start : ∃ entry ∈ done ++ queue, entry.current = fromPid ∧ entry.path.length ≤ 1
  marked : ∀ x ∈ visited, ∃ entry ∈ done ++ queue, entry.current = x
  sorted : queue.Pairwise fun e₁ e₂ => e₁.path.length ≤ e₂.path.length
  near : ∀ head ∈ queue.head?, ∀ entry ∈ done ++ queue, entry.path.length ≤ head.path.length + 1
  shallow : ∀ entry ∈ done ++ queue, entry.path.length ≤ maxHops + 1
  missed : ∀ entry ∈ done, entry.current ≠ toPid
  closed : ∀ entry ∈ done, entry.path.length ≤ maxHops → ∀ v, 0 < residual.getD₂ entry.current v 0 →
    ∃ next ∈ done ++ queue, next.current = v ∧ next.path.length ≤ entry.path.length + 1

theorem Progress.take {done queue : List FlowEntry} {visited : List Pid} {entry : FlowEntry}
    (h : Progress residual maxHops fromPid toPid done (entry :: queue) visited) (hMissed : entry.current ≠ toPid)
    {added : List FlowEntry} (hAdded : ∀ e ∈ added, e.path.length = entry.path.length + 1)
    (hShallow : ∀ e ∈ added, e.path.length ≤ maxHops + 1)
    (hClosed : entry.path.length ≤ maxHops → ∀ v, 0 < residual.getD₂ entry.current v 0 →
      v ∈ visited ∨ ∃ next ∈ added, next.current = v) :
    Progress residual maxHops fromPid toPid (done ++ [entry]) (queue ++ added)
      (visited ++ added.map (·.current)) := by
  have hMem {e : FlowEntry} (he : e ∈ done ++ entry :: queue) : e ∈ (done ++ [entry]) ++ (queue ++ added) := by
    simp only [List.mem_append, List.mem_cons, List.not_mem_nil, or_false] at he ⊢
    tauto
  have hNear : ∀ e ∈ done ++ entry :: queue, e.path.length ≤ entry.path.length + 1 := h.near entry rfl
  obtain ⟨hFirst, hSorted⟩ := List.pairwise_cons.mp h.sorted
  have hLonger : ∀ e ∈ queue ++ added, entry.path.length ≤ e.path.length := by
    intro e he
    rcases List.mem_append.mp he with hOld | hNew
    · exact hFirst e hOld
    · rw [hAdded e hNew]
      exact Nat.le_succ _
  have hCases {e : FlowEntry} (he : e ∈ (done ++ [entry]) ++ (queue ++ added)) :
      e ∈ done ++ entry :: queue ∨ e ∈ added := by
    simp only [List.mem_append, List.mem_cons, List.not_mem_nil, or_false] at he ⊢
    tauto
  refine ⟨?_, fun x hx => ?_, ?_, fun head hHead e he => ?_, fun e he => (hCases he).elim (h.shallow e) (hShallow e),
    fun e he => ?_, fun e he hExpanded v hv => ?_⟩
  · obtain ⟨e, he, hStart⟩ := h.start
    exact ⟨e, hMem he, hStart⟩
  · rcases List.mem_append.mp hx with hOld | hNew
    · obtain ⟨e, he, hCurrent⟩ := h.marked x hOld
      exact ⟨e, hMem he, hCurrent⟩
    · obtain ⟨e, he, rfl⟩ := List.mem_map.mp hNew
      exact ⟨e, List.mem_append_right _ (List.mem_append_right _ he), rfl⟩
  · refine List.pairwise_append.mpr ⟨hSorted, List.pairwise_of_forall_mem_list fun e₁ h₁ e₂ h₂ => ?_, ?_⟩
    · rw [hAdded e₁ h₁, hAdded e₂ h₂]
    · intro e₁ h₁ e₂ h₂
      rw [hAdded e₂ h₂]
      exact hNear e₁ (List.mem_append_right _ (List.mem_cons_of_mem _ h₁))
  · have hHeadLonger := hLonger head (List.mem_of_mem_head? hHead)
    rcases hCases he with hOld | hNew
    · have := hNear e hOld
      omega
    · rw [hAdded e hNew]
      omega
  · rcases List.mem_append.mp he with hOld | hNew
    · exact h.missed e hOld
    · rw [List.mem_singleton.mp hNew]
      exact hMissed
  · rcases List.mem_append.mp he with hOld | hNew
    · obtain ⟨next, hNext, hReached⟩ := h.closed e hOld hExpanded v hv
      exact ⟨next, hMem hNext, hReached⟩
    · obtain rfl := List.mem_singleton.mp hNew
      rcases hClosed hExpanded v hv with hVisited | ⟨next, hNext, hCurrent⟩
      · obtain ⟨next, hNext, hCurrent⟩ := h.marked v hVisited
        exact ⟨next, hMem hNext, hCurrent, hNear next hNext⟩
      · exact ⟨next, List.mem_append_right _ (List.mem_append_right _ hNext), hCurrent, (hAdded next hNext).le⟩

/-- A search ends at the head of its queue: the entry of the target, or nothing is left. -/
theorem augmentingLoop_progress {steps : Nat} {done queue : List FlowEntry} {visited : List Pid}
    {result : Option FlowEntry} (hProgress : Progress residual maxHops fromPid toPid done queue visited)
    (h : augmentingLoop maxHops toPid residual steps queue visited = some result) :
    ∃ done queue visited, Progress residual maxHops fromPid toPid done queue visited ∧ queue.head? = result := by
  induction steps generalizing done queue visited with
  | zero =>
      cases queue with
      | nil =>
          cases h
          exact ⟨done, [], visited, hProgress, rfl⟩
      | cons entry queue => cases h
  | succ steps ih =>
      cases queue with
      | nil =>
          cases h
          exact ⟨done, [], visited, hProgress, rfl⟩
      | cons entry queue =>
          rw [augmentingLoop] at h
          split at h
          · cases h
            exact ⟨done, entry :: queue, visited, hProgress, rfl⟩
          · next hMissed =>
              split at h
              · next hCut =>
                  have hNothing (P : FlowEntry → Prop) : ∀ e ∈ ([] : List FlowEntry), P e := fun _ he => (by cases he)
                  have hTaken := hProgress.take hMissed (hNothing _) (hNothing _)
                    fun hShort => absurd hShort (not_le.mpr hCut)
                  rw [List.append_nil, List.map_nil, List.append_nil] at hTaken
                  exact ih hTaken h
              · next hOpen =>
                  have hLength : ∀ e ∈ visitNeighbors residual visited entry,
                      e.path.length = entry.path.length + 1 := by
                    intro e he
                    obtain ⟨edge, _, rfl⟩ := List.mem_map.mp he
                    simp
                  refine ih (hProgress.take hMissed hLength (fun e he => ?_) fun _ v hv => ?_) h
                  · rw [hLength e he]
                    omega
                  · by_cases hVisited : v ∈ visited
                    · exact Or.inl hVisited
                    · refine Or.inr ⟨_, List.mem_map.mpr ⟨_, List.mem_filter.mpr ⟨mem_items_of_pos hv, ?_⟩, rfl⟩, rfl⟩
                      simpa using ⟨hVisited, hv⟩

/-- Hops from a node that was taken lead to nodes that were taken, as long as the hop limit allows and
the queue holds only longer paths. -/
theorem Progress.reached {done queue : List FlowEntry} {visited : List Pid}
    (h : Progress residual maxHops fromPid toPid done queue visited) {edges : List (Pid × Pid)} {x y : Pid}
    (hEdges : Augmenting residual x y edges) {entry : FlowEntry} (hEntry : entry ∈ done)
    (hCurrent : entry.current = x) (hShort : entry.path.length + edges.length ≤ maxHops + 1)
    (hQueue : ∀ e ∈ queue, entry.path.length + edges.length < e.path.length) :
    ∃ last ∈ done, last.current = y := by
  induction edges generalizing x entry with
  | nil => exact ⟨entry, hEntry, hCurrent.trans hEdges.joins⟩
  | cons hop rest ih =>
      obtain ⟨hFirst, hRest⟩ := hEdges.joins
      rw [List.length_cons] at hShort hQueue
      have hOpen := hEdges.positive hop List.mem_cons_self
      rw [hFirst, ← hCurrent] at hOpen
      obtain ⟨next, hNext, hNextCurrent, hLength⟩ := h.closed entry hEntry (by omega) hop.2 hOpen
      have hTaken : next ∈ done := (List.mem_append.mp hNext).resolve_right fun hIn => by
        have := hQueue next hIn
        omega
      refine ih ⟨hRest, fun other hOther => hEdges.positive other (List.mem_cons_of_mem _ hOther)⟩ hTaken
        hNextCurrent (by omega) fun e he => ?_
      have := hQueue e he
      omega

/-- While the queue holds only longer paths, there is no way to the target that the hop limit allows. -/
theorem Progress.missed_all {done queue : List FlowEntry} {visited : List Pid}
    (h : Progress residual maxHops fromPid toPid done queue visited) {edges : List (Pid × Pid)}
    (hShort : edges.length ≤ maxHops) (hQueue : ∀ e ∈ queue, edges.length + 1 < e.path.length) :
    ¬Augmenting residual fromPid toPid edges := by
  intro hEdges
  obtain ⟨first, hFirst, hCurrent, hLength⟩ := h.start
  have hTaken : first ∈ done := (List.mem_append.mp hFirst).resolve_right fun hIn => by
    have := hQueue first hIn
    omega
  obtain ⟨last, hLast, hTarget⟩ := h.reached hEdges hTaken hCurrent (by omega) fun e he => by
    have := hQueue e he
    omega
  exact h.missed last hLast hTarget

/-- The result of a search: a sound entry of the target, over as few hops as any way to send
more, or no way to send more that the hop limit allows. -/
theorem augmentingPath_cases (maxHops : Nat) (fromPid toPid : Pid) (residual : CapacityGraph) :
    (∃ entry visited, augmentingPath maxHops fromPid toPid residual = some (some entry) ∧
      entry.current = toPid ∧ EntrySound residual fromPid visited entry ∧
      ∀ edges, Augmenting residual fromPid toPid edges → (hops entry.path).length ≤ edges.length) ∨
    (augmentingPath maxHops fromPid toPid residual = some none ∧
      ∀ edges, Augmenting residual fromPid toPid edges → maxHops < edges.length) := by
  have hTotal : ∃ result, augmentingPath maxHops fromPid toPid residual = some result := by
    refine augmentingLoop_isSome ?_
    have hLe := List.length_filter_le (fun x => decide (x ∉ [fromPid])) (edgeEnds residual)
    rw [List.length_singleton]
    omega
  have hFirst : Progress residual maxHops fromPid toPid [] [⟨fromPid, [fromPid], none⟩] [fromPid] := by
    refine ⟨⟨_, List.mem_singleton.mpr rfl, rfl, le_rfl⟩, fun x hx => ?_, List.pairwise_singleton _ _, ?_, ?_,
      fun _ h => (by cases h), fun _ h => (by cases h)⟩
    · exact ⟨_, List.mem_singleton.mpr rfl, (List.mem_singleton.mp hx).symm⟩
    · intro head hHead entry hEntry
      cases hHead
      rw [List.mem_singleton.mp hEntry]
      exact Nat.le_succ _
    · intro entry hEntry
      rw [List.mem_singleton.mp hEntry]
      exact Nat.le_add_left 1 maxHops
  obtain ⟨result, hResult⟩ := hTotal
  obtain ⟨done, queue, visited, hProgress, hHead⟩ := augmentingLoop_progress hFirst hResult
  cases result with
  | some entry =>
      have hStart : ∀ e ∈ [(⟨fromPid, [fromPid], none⟩ : FlowEntry)], EntrySound residual fromPid [fromPid] e := by
        intro e he
        rw [List.mem_singleton.mp he]
        exact ⟨⟨rfl, rfl, List.nodup_singleton _, fun hop hHop => (by cases hHop)⟩, fun x hx => hx, fun _ => rfl,
          fun x hx => (by cases hx), fun x hx => (by cases hx), fun _ _ x hx => (by cases hx)⟩
      obtain ⟨hCurrent, seen, hSound⟩ := augmentingLoop_sound hStart hResult
      refine Or.inl ⟨entry, seen, hResult, hCurrent, hSound, fun edges hEdges => ?_⟩
      by_contra hShorter
      rw [length_hops] at hShorter
      obtain ⟨rest, rfl⟩ := List.head?_eq_some_iff.mp hHead
      have hShallow := hProgress.shallow entry (by simp)
      refine hProgress.missed_all (by omega) (fun e he => ?_) hEdges
      rcases List.mem_cons.mp he with rfl | hLater
      · omega
      · have := (List.pairwise_cons.mp hProgress.sorted).1 e hLater
        omega
  | none =>
      refine Or.inr ⟨hResult, fun edges hEdges => ?_⟩
      rw [List.head?_eq_none_iff] at hHead
      subst hHead
      by_contra hShort
      exact hProgress.missed_all (not_lt.mp hShort) (fun e he => by cases he) hEdges

end Search

end PaymentRouter

end GeoLedger

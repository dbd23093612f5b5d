import Mathlib
import GeoLedger.Library.HopSearch
import GeoLedger.Payments.RoutingCache

/-! `PaymentRouter.has_topology_path`: whether the trust lines alone, without their
capacities, lead from the sender to the receiver within the hop limit. -/
namespace GeoLedger.PaymentRouter
open HopSearch

section Source

variable (topologyAdj : Topology)

/-- `self.topology_adj.get(cur, set())`. -/
def topologyNext (cur : Pid) : List Pid := topologyAdj.getD cur []

/-- The loop over the neighbours of a node: `none` when it meets the receiver, or else
the nodes seen and the queue. -/
def visitTopologyNeighbors (dst : Pid) (hops : Nat) :
    List Pid → List Pid → List (Pid × Nat) → Option (List Pid × List (Pid × Nat))
  | [], seen, queue => some (seen, queue)
  | nxt :: rest, seen, queue =>
      if nxt = dst then none
      else if nxt ∈ seen then visitTopologyNeighbors dst hops rest seen queue
      else visitTopologyNeighbors dst hops rest (seen ++ [nxt]) (queue ++ [(nxt, hops + 1)])

/-- The loop over the queue; `none` means that the fuel, one unit a round, ran out. -/
def topologySearch (dst : Pid) (maxHops : ℤ) : Nat → List (Pid × Nat) → List Pid → Option Bool
  | _, [], _ => some false
  | 0, _ :: _, _ => none
  | fuel + 1, (cur, hops) :: queue, seen =>
      if maxHops ≤ hops then topologySearch dst maxHops fuel queue seen
      else
        match visitTopologyNeighbors dst hops (topologyNext topologyAdj cur) seen queue with
        | none => some true
        | some (seen, queue) => topologySearch dst maxHops fuel queue seen

def hasTopologyPath (fuel : Nat) (fromPid toPid : Pid) (maxHops : ℤ) : Option Bool :=
  let src := strip fromPid
  let dst := strip toPid
  if src = "" ∨ dst = "" then some false
  else if src = dst then some true
  else if maxHops ≤ 0 then some false
  else topologySearch topologyAdj dst maxHops fuel [(src, 0)] [src]

/-- The nodes that a search from `src` can mark. -/
def topologyNodes (src : Pid) : List Pid := src :: topologyAdj.items.flatMap fun row => row.2

/-- The number of rounds that every search of the topology gets by with. -/
def topologyCost : Nat := (topologyAdj.items.flatMap fun row => row.2).length + 1

end Source

section Search

variable {topologyAdj : Topology} {src dst : Pid} {hops : Nat} {maxHops : ℤ}

/-- What the loop over the neighbours does. -/
theorem visitTopologyNeighbors_spec (neighbors seen : List Pid) (queue : List (Pid × Nat)) :
    (dst ∈ neighbors ∧ visitTopologyNeighbors dst hops neighbors seen queue = none) ∨
    (dst ∉ neighbors ∧ ∃ fresh, visitTopologyNeighbors dst hops neighbors seen queue =
        some (seen ++ fresh, queue ++ fresh.map fun z => (z, hops + 1)) ∧
      (∀ z ∈ fresh, z ∈ neighbors) ∧ (∀ z ∈ neighbors, z ∈ seen ++ fresh) ∧
      (seen.Nodup → (seen ++ fresh).Nodup)) := by
  induction neighbors generalizing seen queue with
  | nil => exact Or.inr ⟨List.not_mem_nil, [], by simp [visitTopologyNeighbors], by simp, by simp, by simp⟩
  | cons nxt rest ih =>
      rw [visitTopologyNeighbors]
      by_cases hGoal : nxt = dst
      · rw [if_pos hGoal]
        exact Or.inl ⟨hGoal ▸ List.mem_cons_self, rfl⟩
      · rw [if_neg hGoal]
        have hOther : dst ∈ nxt :: rest ↔ dst ∈ rest := by
          rw [List.mem_cons, or_iff_right (Ne.symm hGoal)]
        by_cases hSeen : nxt ∈ seen
        · rw [if_pos hSeen, hOther]
          refine (ih seen queue).imp id ?_
          rintro ⟨hNone, fresh, hVisit, hFresh, hMarked, hNodup⟩
          refine ⟨hNone, fresh, hVisit, fun z hz => List.mem_cons_of_mem _ (hFresh z hz), fun z hz => ?_, hNodup⟩
          rcases List.mem_cons.mp hz with rfl | hz
          · exact List.mem_append_left _ hSeen
          · exact hMarked z hz
        · rw [if_neg hSeen, hOther]
          refine (ih (seen ++ [nxt]) (queue ++ [(nxt, hops + 1)])).imp id ?_
          rintro ⟨hNone, fresh, hVisit, hFresh, hMarked, hNodup⟩
          refine ⟨hNone, nxt :: fresh, ?_, fun z hz => ?_, fun z hz => ?_, fun hSeenNodup => ?_⟩
          · rw [hVisit]
            simp
          · rcases List.mem_cons.mp hz with rfl | hz
            · exact List.mem_cons_self
            · exact List.mem_cons_of_mem _ (hFresh z hz)
          · rcases List.mem_cons.mp hz with rfl | hz
            · exact List.mem_append_right _ List.mem_cons_self
            · simpa using hMarked z hz
          · have hNew : (seen ++ [nxt]).Nodup :=
              hSeenNodup.append (List.nodup_singleton _) (List.disjoint_singleton.mpr hSeen)
            simpa using hNodup hNew

theorem mem_topologyNodes {cur z : Pid} (hz : z ∈ topologyNext topologyAdj cur) :
    z ∈ topologyNodes topologyAdj src := by
  unfold topologyNext Dict.getD at hz
  cases hRow : topologyAdj.get? cur with
  | none =>
      rw [hRow] at hz
      cases hz
  | some row =>
      rw [hRow] at hz
      exact List.mem_cons_of_mem _ (List.mem_flatMap.mpr ⟨(cur, row), Dict.get?_eq_some_iff.mp hRow, hz⟩)

/-- From a state of the search the loop answers, with a round for every node that is
not done, whether the receiver is within reach. -/
theorem topologySearch_spec (hNe : src ≠ dst) {fuel : Nat} {done queue : List (Pid × Nat)}
    (h : Explored (topologyNext topologyAdj) src dst maxHops.toNat done queue)
    (hNodup : ((done ++ queue).map Prod.fst).Nodup)
    (hNodes : ∀ x ∈ (done ++ queue).map Prod.fst, x ∈ topologyNodes topologyAdj src)
    (hFuel : topologyCost topologyAdj ≤ fuel + done.length) :
    ∃ answer, topologySearch topologyAdj dst maxHops fuel queue ((done ++ queue).map Prod.fst) = some answer ∧
      (answer = true ↔ ∃ n, n ≤ maxHops.toNat ∧ Walk (topologyNext topologyAdj) src n dst) := by
  induction fuel generalizing done queue with
  | zero =>
      cases queue with
      | nil => exact ⟨false, rfl, by simpa using h.exhausted hNe⟩
      | cons a queue =>
          -- more marks than nodes
          have hLength := (hNodup.subperm hNodes).length_le
          have hCost : (topologyNodes topologyAdj src).length = topologyCost topologyAdj := rfl
          simp only [List.length_map, List.length_append, List.length_cons] at hLength
          omega
  | succ fuel ih =>
      cases queue with
      | nil => exact ⟨false, rfl, by simpa using h.exhausted hNe⟩
      | cons a queue =>
          obtain ⟨cur, hops⟩ := a
          have hShift : done ++ (cur, hops) :: queue = done ++ [(cur, hops)] ++ queue := by simp
          have hLeft : topologyCost topologyAdj ≤ fuel + (done ++ [(cur, hops)]).length := by
            rw [List.length_append, List.length_singleton]
            omega
          rw [topologySearch]
          by_cases hBound : maxHops ≤ hops
          · rw [if_pos hBound, hShift]
            have hSkip := h.skip (show maxHops.toNat ≤ hops by omega)
            exact ih hSkip (hShift ▸ hNodup) (hShift ▸ hNodes) hLeft
          · rw [if_neg hBound]
            rcases @visitTopologyNeighbors_spec dst hops (topologyNext topologyAdj cur)
              ((done ++ (cur, hops) :: queue).map Prod.fst) queue with
              ⟨hGoal, hVisit⟩ | ⟨hGoal, fresh, hVisit, hFresh, hMarked, hFreshNodup⟩
            · rw [hVisit]
              exact ⟨true, rfl, iff_of_true rfl (h.found (show hops < maxHops.toNat by omega) hGoal)⟩
            · rw [hVisit]
              have hExpand := h.expand hFresh fun _ z hz => ⟨fun hEq => hGoal (hEq ▸ hz), ?_⟩
              · have hSeen : (done ++ (cur, hops) :: queue).map Prod.fst ++ fresh =
                    (done ++ [(cur, hops)] ++ (queue ++ fresh.map fun z => (z, hops + 1))).map Prod.fst := by
                  simp [Function.comp_def]
                dsimp only
                rw [hSeen]
                refine ih hExpand (hSeen ▸ hFreshNodup hNodup) (fun x hx => ?_) hLeft
                rw [← hSeen] at hx
                rcases List.mem_append.mp hx with hx | hx
                · exact hNodes x hx
                · exact mem_topologyNodes (hFresh x hx)
              · rcases List.mem_append.mp (hMarked z hz) with hz | hz
                · obtain ⟨mark, hMark, rfl⟩ := List.mem_map.mp hz
                  exact Or.inr ⟨mark.2, hMark⟩
                · exact Or.inl hz

end Search

/-- `has_topology_path` ends on every topology, and tells whether a walk of at most
`max_hops` edges leads from the sender to the receiver. -/
theorem hasTopologyPath_iff (topologyAdj : Topology) {fromPid toPid : Pid} {maxHops : ℤ} {fuel : Nat}
    (hFrom : strip fromPid ≠ "") (hTo : strip toPid ≠ "") (hDistinct : strip fromPid ≠ strip toPid)
    (hHops : 1 ≤ maxHops) (hFuel : topologyCost topologyAdj ≤ fuel) :
    ∃ answer, hasTopologyPath topologyAdj fuel fromPid toPid maxHops = some answer ∧
      (answer = true ↔
        ∃ n : Nat, (n : ℤ) ≤ maxHops ∧
          Walk (fun cur => topologyAdj.getD cur []) (strip fromPid) n (strip toPid)) := by
  have hBlank : ¬(strip fromPid = "" ∨ strip toPid = "") := not_or.mpr ⟨hFrom, hTo⟩
  have hPositive : ¬maxHops ≤ 0 := by omega
  obtain ⟨answer, hSearch, hAnswer⟩ := @topologySearch_spec topologyAdj _ _ maxHops
    hDistinct fuel _ _ explored_start (List.nodup_singleton _)
    (fun x hx => by rw [List.mem_singleton.mp hx]; exact List.mem_cons_self) hFuel
  refine ⟨answer, ?_, ?_⟩
  · simp only [hasTopologyPath, if_neg hBlank, if_neg hDistinct, if_neg hPositive]
    exact hSearch
  · rw [hAnswer]
    constructor
    · rintro ⟨n, hn, walk⟩
      exact ⟨n, by omega, walk⟩
    · rintro ⟨n, hn, walk⟩
      exact ⟨n, by omega, walk⟩

/-- A cycle with an exit, and a receiver at the limit. -/
theorem hasTopologyPath_at_limit :
    ∃ answer, hasTopologyPath (((Dict.empty.set "A" ["B"]).set "B" ["A", "C"]) : Topology) 4 "A" "C" 2 = some answer ∧
      (answer = true ↔ ∃ n : Nat, (n : ℤ) ≤ 2 ∧
        Walk (fun cur => Dict.getD ((Dict.empty.set "A" ["B"]).set "B" ["A", "C"]) cur []) (strip "A") n (strip "C")) :=
  hasTopologyPath_iff _ (by decide) (by decide) (by decide) (by decide) (by decide)

end GeoLedger.PaymentRouter

import Mathlib
import GeoLedger.Payments.RouteSplit

/-! The policies of trust lines along routes. A policy can keep its debtor from
passing payments on, and it blocks participants as intermediate nodes of every
path that takes its edge. -/
namespace GeoLedger

namespace PaymentRouter

variable {r : PaymentRouter} {q : PathQuery} {graph : CapacityGraph} {fromPid toPid : Pid}

section Policies

def edgeBlocked (r : PaymentRouter) (hop : Pid × Pid) : List Pid :=
  r.edgeBlockedParticipants.getD₂ hop.1 hop.2 []

def edgeAllowsIntermediate (r : PaymentRouter) (hop : Pid × Pid) : Bool :=
  r.edgeCanBeIntermediate.getD₂ hop.1 hop.2 true

/-- A path on which no edge blocks an intermediate node, and every edge to an
intermediate node may be passed on. -/
structure RespectsPolicies (r : PaymentRouter) (fromPid toPid : Pid) (path : List Pid) : Prop where
  unblocked : ∀ x ∈ path, x ≠ fromPid → x ≠ toPid → ∀ hop ∈ hops path, x ∉ r.edgeBlocked hop
  passing : ∀ hop ∈ hops path, hop.2 ≠ fromPid → hop.2 ≠ toPid → r.edgeAllowsIntermediate hop = true

end Policies

section Admissible

/-- The paths that a search has to find. -/
structure Admissible (r : PaymentRouter) (q : PathQuery) (graph : CapacityGraph) (path : List Pid) : Prop where
  simple : PathIn graph q.fromPid q.toPid path
  nodes : ∀ x ∈ path, x ∈ graph.keys
  hopLimit : ((hops path).length : ℤ) ≤ q.maxHops
  capacities : ∀ hop ∈ hops path, q.amount ≤ graph.getD₂ hop.1 hop.2 0
  edges : ∀ hop ∈ hops path, hop ∉ q.forbiddenEdges
  allowed : ∀ x ∈ path, x ∉ q.forbiddenNodes
  policies : RespectsPolicies r q.fromPid q.toPid path

theorem Admissible.endpoints {path : List Pid} (h : Admissible r q graph path) : Endpoints q graph := by
  have hFirst := List.mem_of_head? h.simple.first
  have hLast := List.mem_of_getLast? h.simple.last
  exact ⟨h.nodes _ hFirst, h.nodes _ hLast, h.allowed _ hFirst, h.allowed _ hLast⟩

/-- The hops of a path after its first nodes. -/
theorem hops_append_cons_cons (before : List Pid) (x y : Pid) (rest : List Pid) :
    hops (before ++ x :: y :: rest) = hops (before ++ [x]) ++ (x, y) :: hops (y :: rest) := by
  induction before with
  | nil => rfl
  | cons z before ih =>
      cases before with
      | nil => rfl
      | cons w before =>
          simp only [List.cons_append, hops_cons_cons] at ih ⊢
          rw [ih]

/-- Between its first node and a later one, a simple path meets neither end. -/
theorem PathIn.ne_of_mem_tail {before rest : List Pid} {x p : Pid}
    (h : PathIn graph fromPid toPid (before ++ x :: rest)) (hp : p ∈ before.tail) : p ≠ fromPid ∧ p ≠ toPid := by
  cases before with
  | nil => cases hp
  | cons first before =>
      have hFirst := h.first
      have hSimple := h.simple
      have hLast := h.last
      rw [List.cons_append, List.head?_cons, Option.some.injEq] at hFirst
      rw [List.cons_append, List.nodup_cons] at hSimple
      rw [List.getLast?_append_cons] at hLast
      rw [List.tail_cons] at hp
      refine ⟨fun hFrom => hSimple.1 ?_, fun hTo => ?_⟩
      · rw [hFirst, ← hFrom]
        exact List.mem_append_left _ hp
      · exact (List.nodup_append.mp hSimple.2).2.2 p hp toPid (List.mem_of_getLast? hLast) hTo

/-- The search admits the next edge of an admissible path. -/
theorem Admissible.admits_next {before rest : List Pid} {x y : Pid} {blocked : List Pid}
    (h : Admissible r q graph (before ++ x :: y :: rest))
    (hBlocked : ∀ b ∈ blocked, ∃ hop ∈ hops (before ++ [x]), b ∈ r.edgeBlocked hop) :
    r.admits q ⟨x, before ++ [x], blocked⟩ y (graph.getD₂ x y 0) = true := by
  have hHops := hops_append_cons_cons before x y rest
  have hHop : (x, y) ∈ hops (before ++ x :: y :: rest) := by simp [hHops]
  have hMem : y ∈ before ++ x :: y :: rest := by simp
  have hFresh : y ∉ before ++ [x] := by
    have hSimple := h.simple.simple
    rw [List.append_cons, List.nodup_append] at hSimple
    exact fun hIn => hSimple.2.2 y hIn y List.mem_cons_self rfl
  have hEndpoint (P : Prop) (hInner : y ≠ q.fromPid → y ≠ q.toPid → P) :
      (y = q.fromPid ∨ y = q.toPid) ∨ P := by
    by_cases hEnd : y = q.fromPid ∨ y = q.toPid
    · exact Or.inl hEnd
    · rw [not_or] at hEnd
      exact Or.inr (hInner hEnd.1 hEnd.2)
  have hLater : (y = q.fromPid ∨ y = q.toPid) ∨ y ∉ blocked := by
    refine hEndpoint _ fun hFrom hTo hIn => ?_
    obtain ⟨hop, hOld, hBlock⟩ := hBlocked y hIn
    refine h.policies.unblocked y hMem hFrom hTo hop ?_ hBlock
    rw [hHops]
    exact List.mem_append_left _ hOld
  have hEarlier : ∀ p ∈ (before ++ [x]).tail.dropLast, p ∉ r.edgeBlocked (x, y) := by
    intro p hp
    have hTail : p ∈ before.tail := by
      cases before with
      | nil => cases hp
      | cons first before => simpa using hp
    obtain ⟨hFrom, hTo⟩ := h.simple.ne_of_mem_tail hTail
    exact h.policies.unblocked p (List.mem_append_left _ (List.mem_of_mem_tail hTail)) hFrom hTo _ hHop
  have hOwn := hEndpoint (y ∉ r.edgeBlocked (x, y)) fun hFrom hTo =>
    h.policies.unblocked y hMem hFrom hTo (x, y) hHop
  have hPass := hEndpoint (r.edgeAllowsIntermediate (x, y) = true) fun hFrom hTo =>
    h.policies.passing (x, y) hHop hFrom hTo
  rw [admits_iff]
  exact ⟨h.edges (x, y) hHop, h.allowed y hMem, h.simple.open_edges (x, y) hHop, h.capacities (x, y) hHop,
    hFresh, hLater, hOwn, fun _ => hEarlier, hPass⟩

/-- An admissible path is among the paths that the search goes through: from an
admitted start of it, the search admits the rest. -/
theorem Admissible.admitted_from {before rest : List Pid} {x : Pid} {blocked : List Pid}
    (h : Admissible r q graph (before ++ x :: rest))
    (hBlocked : ∀ b ∈ blocked, ∃ hop ∈ hops (before ++ [x]), b ∈ r.edgeBlocked hop)
    (hStart : Admitted r q graph ⟨x, before ++ [x], blocked⟩) :
    ∃ entry, Admitted r q graph entry ∧ entry.current = q.toPid ∧ entry.path = before ++ x :: rest := by
  induction rest generalizing before x blocked with
  | nil =>
      have hLast := h.simple.last
      rw [List.getLast?_concat, Option.some.injEq] at hLast
      exact ⟨_, hStart, hLast, rfl⟩
  | cons y rest ih =>
      have hSimple := h.simple.simple
      have hLast := h.simple.last
      rw [List.getLast?_append_cons, List.getLast?_cons_cons] at hLast
      have hInner : x ≠ q.toPid := by
        intro hAt
        have hIn := List.mem_of_getLast? hLast
        rw [← hAt] at hIn
        exact (List.nodup_cons.mp (List.nodup_append.mp hSimple).2.1).1 hIn
      have hHops : (((before ++ [x]).length : ℕ) : ℤ) - 1 < q.maxHops := by
        have hLimit := h.hopLimit
        rw [length_hops, List.length_append, List.length_cons, List.length_cons] at hLimit
        rw [List.length_append, List.length_singleton]
        omega
      have hNext := hStart.step hInner hHops (h.admits_next hBlocked)
      rw [List.append_cons] at h ⊢
      refine ih h (fun b hb => ?_) hNext
      rw [hops_append_singleton List.getLast?_concat]
      rcases List.mem_append.mp hb with hOld | hNew
      · obtain ⟨hop, hHop, hBlock⟩ := hBlocked b hOld
        exact ⟨hop, List.mem_append_left _ hHop, hBlock⟩
      · exact ⟨(x, y), List.mem_append_right _ List.mem_cons_self, hNew⟩

theorem Admissible.admitted {path : List Pid} (h : Admissible r q graph path) :
    ∃ entry, Admitted r q graph entry ∧ entry.current = q.toPid ∧ entry.path = path := by
  cases path with
  | nil => cases h.simple.first
  | cons x rest =>
      have hFirst : x = q.fromPid := Option.some.inj h.simple.first
      subst hFirst
      exact @Admissible.admitted_from r q graph [] rest q.fromPid [] h (fun b hb => by cases hb) Admitted.start

end Admissible

section Enforced

/-- What the search enforces along the paths it takes: a participant that an edge
blocks is no intermediate node, unless the edge leaves that node itself. -/
structure Guarded (r : PaymentRouter) (q : PathQuery) (entry : SearchEntry) : Prop where
  remembered : ∀ hop ∈ hops entry.path, ∀ b ∈ r.edgeBlocked hop, b ∈ entry.blockedSoFar
  unblocked : ∀ x ∈ entry.path, x ≠ q.fromPid → x ≠ q.toPid → ∀ hop ∈ hops entry.path, hop.1 ≠ x →
    x ∉ r.edgeBlocked hop
  passing : ∀ hop ∈ hops entry.path, hop.2 ≠ q.fromPid → hop.2 ≠ q.toPid → r.edgeAllowsIntermediate hop = true

/-- The nodes of a path but its first and last stand in the slice that is checked backwards. -/
theorem mem_tail_dropLast {path : List Pid} {first last x : Pid} (hFirst : path.head? = some first)
    (hLast : path.getLast? = some last) (hx : x ∈ path) (hNotFirst : x ≠ first) (hNotLast : x ≠ last) :
    x ∈ path.tail.dropLast := by
  cases path with
  | nil => cases hx
  | cons y rest =>
      cases hFirst
      rw [List.tail_cons]
      have hRest : x ∈ rest := (List.mem_cons.mp hx).resolve_left hNotFirst
      cases rest using List.reverseRecOn with
      | nil => cases hRest
      | append_singleton rest z _ =>
          rw [List.dropLast_concat]
          rw [← List.cons_append, List.getLast?_concat, Option.some.injEq] at hLast
          rcases List.mem_append.mp hRest with hInner | hEnd
          · exact hInner
          · rw [List.mem_singleton.mp hEnd, hLast] at hNotLast
            exact absurd rfl hNotLast

theorem Admitted.guarded {entry : SearchEntry} (h : Admitted r q graph entry) : Guarded r q entry := by
  induction h with
  | start =>
      have hNone : ∀ hop, hop ∉ hops [q.fromPid] := fun hop hHop => by cases hHop
      exact ⟨fun hop hHop => absurd hHop (hNone hop), fun _ _ _ _ hop hHop => absurd hHop (hNone hop),
        fun hop hHop => absurd hHop (hNone hop)⟩
  | @step prior neighbor hPrior hInner hHops hAdmits ih =>
      have hPath := hPrior.pathIn
      obtain ⟨-, -, -, -, hFresh, hLater, hOwn, hEarlier, hPass⟩ := admits_iff.mp hAdmits
      have hSplit : ∀ hop ∈ hops (r.extend prior neighbor).path,
          hop ∈ hops prior.path ∨ hop = (prior.current, neighbor) := fun hop hHop => by
        rw [extend, hops_append_singleton hPath.last] at hHop
        exact (List.mem_append.mp hHop).imp_right List.mem_singleton.mp
      refine ⟨fun hop hHop b hb => ?_, fun x hx hFrom hTo hop hHop hLeaves => ?_, fun hop hHop hFrom hTo => ?_⟩
      · rcases hSplit hop hHop with hOld | rfl
        · exact List.mem_append_left _ (ih.remembered hop hOld b hb)
        · exact List.mem_append_right _ hb
      · rcases List.mem_append.mp hx with hOldNode | hNewNode
        · rcases hSplit hop hHop with hOld | rfl
          · exact ih.unblocked x hOldNode hFrom hTo hop hOld hLeaves
          · -- The slice leaves out the node that the new edge leaves.
            have hIn := mem_tail_dropLast hPath.first hPath.last hOldNode hFrom (Ne.symm hLeaves)
            refine hEarlier ?_ x hIn
            by_contra hShort
            have hLength := List.length_pos_of_mem hIn
            rw [List.length_dropLast, List.length_tail] at hLength
            omega
        · rw [List.mem_singleton] at hNewNode
          subst hNewNode
          have hEndpoint : ¬(x = q.fromPid ∨ x = q.toPid) := by simp [hFrom, hTo]
          rcases hSplit hop hHop with hOld | rfl
          · exact fun hBlocks => hLater.resolve_left hEndpoint (ih.remembered hop hOld x hBlocks)
          · exact hOwn.resolve_left hEndpoint
      · rcases hSplit hop hHop with hOld | rfl
        · exact ih.passing hop hOld hFrom hTo
        · exact hPass.resolve_left (by simp [hFrom, hTo])

/-- An edge that blocks the very node it leaves, where a path can come through that node. -/
structure BlocksOwnNode (r : PaymentRouter) (before through after : Pid) : Prop where
  distinct : before ≠ through ∧ through ≠ after ∧ before ≠ after
  enters : 0 < r.graph.getD₂ before through 0
  leaves : 0 < r.graph.getD₂ through after 0
  node : after ∈ r.graph.keys
  passing : r.edgeAllowsIntermediate (before, through) = true
  unblocked : through ∉ r.edgeBlocked (before, through)
  blocks : through ∈ r.edgeBlocked (through, after)

/-- Every node of a path but the last leaves it by a hop, and every node but the
first is entered by one. -/
theorem exists_hop_to {path : List Pid} {first x : Pid} (hFirst : path.head? = some first) (hx : x ∈ path)
    (hNe : x ≠ first) : ∃ w, (w, x) ∈ hops path := by
  obtain hSame | ⟨hop, hHop, rfl⟩ := mem_path_cases hFirst hx
  · exact absurd hSame hNe
  · exact ⟨hop.1, hHop⟩

/-- Nodes with a positive edge are nodes of the graph. -/
theorem mem_keys_of_open {u v : Pid} (h : 0 < graph.getD₂ u v 0) : u ∈ graph.keys := by
  by_contra hOut
  rw [getD₂_eq_zero_of_not_mem hOut] at h
  exact lt_irrefl _ h

/-- The nodes of a path are nodes of the graph when its last one is. -/
theorem PathIn.mem_keys {path : List Pid} (h : PathIn graph fromPid toPid path) (hLast : toPid ∈ graph.keys) {x : Pid}
    (hx : x ∈ path) : x ∈ graph.keys := by
  by_cases hAt : x = toPid
  · exact hAt ▸ hLast
  · obtain ⟨before, rest, rfl⟩ := List.append_of_mem hx
    cases rest with
    | nil =>
        have hEnd := h.last
        rw [List.getLast?_concat, Option.some.injEq] at hEnd
        exact absurd hEnd hAt
    | cons y rest =>
        refine mem_keys_of_open (h.open_edges (x, y) ?_)
        rw [hops_append_cons_cons]
        exact List.mem_append_right _ List.mem_cons_self

/-- Where no edge blocks its own node, the paths that the search takes to the
receiver respect every policy. -/
theorem Admitted.respectsPolicies {entry : SearchEntry} (h : Admitted r q r.graph entry)
    (hAt : entry.current = q.toPid) (hReceiver : q.toPid ∈ r.graph.keys)
    (hNone : ∀ before through after, ¬BlocksOwnNode r before through after) :
    RespectsPolicies r q.fromPid q.toPid entry.path := by
  have hGuarded := h.guarded
  have hPath := h.pathIn
  rw [hAt] at hPath
  refine ⟨fun x hx hFrom hTo hop hHop => ?_, hGuarded.passing⟩
  by_cases hLeaves : hop.1 = x
  · obtain ⟨u, y⟩ := hop
    subst hLeaves
    obtain ⟨w, hIn⟩ := exists_hop_to hPath.first hx hFrom
    have hDistinct := hops_distinct hPath.simple hIn hHop
    intro hBlocks
    exact hNone w u y ⟨hDistinct, hPath.open_edges _ hIn, hPath.open_edges _ hHop,
      hPath.mem_keys hReceiver (mem_of_mem_hops hHop).2, hGuarded.passing _ hIn hFrom hTo,
      hGuarded.unblocked u hx hFrom hTo _ hIn hDistinct.1, hBlocks⟩
  · exact hGuarded.unblocked x hx hFrom hTo hop hHop hLeaves

end Enforced

section Exposed

/-- More time changes only what is left of it. -/
theorem bfsLoop_more (more : Nat) {deadline left : Nat} {queue : List SearchEntry} {found : Option (List Pid)}
    (h : bfsLoop r q graph deadline queue = .ok (found, left)) :
    bfsLoop r q graph (deadline + more) queue = .ok (found, left + more) := by
  induction deadline generalizing queue with
  | zero =>
      cases queue with
      | nil =>
          rw [bfsLoop] at h ⊢
          cases h
          rfl
      | cons entry queue => cases h
  | succ deadline ih =>
      cases queue with
      | nil =>
          rw [bfsLoop] at h ⊢
          cases h
          rfl
      | cons entry queue =>
          rw [Nat.add_right_comm]
          rw [bfsLoop_succ] at h ⊢
          split at h
          · next hAt =>
              cases h
              rw [if_pos hAt]
          · next hAt =>
              rw [if_neg hAt]
              exact ih h

theorem bfsSinglePath_more (more : Nat) {deadline left : Nat} {found : Option (List Pid)}
    (h : bfsSinglePath r q graph deadline = .ok (found, left)) :
    bfsSinglePath r q graph (deadline + more) = .ok (found, left + more) := by
  by_cases hEnds : Endpoints q graph
  · rw [bfsSinglePath_of_endpoints hEnds] at h ⊢
    exact bfsLoop_more more h
  · rw [bfsSinglePath_of_not_endpoints hEnds] at h ⊢
    cases h
    rfl

theorem mem_keys_foldl_reduceEdge_of {residual : CapacityGraph} {alloc : Amount} {edges : List (Pid × Pid)} {u : Pid}
    (h : u ∈ residual.keys) : u ∈ (edges.foldl (reduceEdge alloc) residual).keys := by
  induction edges generalizing residual with
  | nil => exact h
  | cons hop rest ih =>
      refine ih ?_
      simp only [reduceEdge]
      split
      · split
        · exact h
        · exact Dict.mem_keys_set.mpr (Or.inr h)
      · exact Dict.mem_keys_set.mpr (Or.inr h)

variable {before through after : Pid}

/-- Every participant but three. -/
def othersThan (r : PaymentRouter) (before through after : Pid) : List Pid :=
  r.graph.keys.filter fun x => x ≠ before ∧ x ≠ through ∧ x ≠ after

/-- The search for paths of at most two edges that only lead over one node. -/
abbrev detourQuery (r : PaymentRouter) (before through after : Pid) : PathQuery :=
  routeQuery before after 2 (othersThan r before through after)

theorem not_mem_forbidden {x : Pid} (h : x = before ∨ x = through ∨ x = after) :
    x ∉ (detourQuery r before through after).forbiddenNodes := by
  intro hIn
  have hOther := (List.mem_filter.mp (List.mem_filter.mp hIn).1).2
  rcases h with rfl | rfl | rfl <;> simp at hOther

/-- In a graph that has no more open edges than the router's, and no blank names, a search finds the
direct edge or the detour. -/
theorem detourQuery_cases (hNames : ∀ x ∈ r.graph.keys, pyStrip x.toList ≠ [])
    (hDistinct : before ≠ through ∧ through ≠ after ∧ before ≠ after)
    (hOpen : ∀ u v, 0 < graph.getD₂ u v 0 → 0 < r.graph.getD₂ u v 0) {deadline left : Nat} {path : List Pid}
    (h : bfsSinglePath r (detourQuery r before through after) graph deadline = .ok (some path, left)) :
    path = [before, after] ∨ path = [before, through, after] := by
  obtain ⟨hEnds, hShortest⟩ := bfsSinglePath_shortest h
  obtain ⟨hPath, -⟩ := bfsSinglePath_pathIn h
  obtain ⟨entry, hAdmitted, -, rfl⟩ := hShortest.admitted
  have hAllowed := hAdmitted.allowed hEnds.senderAllowed
  have hShort : entry.path.length ≤ 3 := by
    cases hAdmitted with
    | start => exact Nat.le_of_ble_eq_true rfl
    | @step prior neighbor _ hInner hHops hAdmits =>
        change (prior.path.length : ℤ) - 1 < 2 at hHops
        rw [extend, List.length_append, List.length_singleton]
        omega
  have hFirst := hPath.first
  have hLast := hPath.last
  cases hNodes : entry.path with
  | nil =>
      rw [hNodes] at hFirst
      cases hFirst
  | cons x rest =>
      rw [hNodes] at hFirst hLast hAllowed hShort hPath
      cases hFirst
      cases rest with
      | nil => exact absurd (Option.some.inj hLast) hDistinct.2.2
      | cons y tail =>
          cases tail with
          | nil =>
              cases hLast
              exact Or.inl rfl
          | cons z more =>
              have hNil : more = [] := by
                rw [List.length_cons, List.length_cons, List.length_cons] at hShort
                exact List.length_eq_zero_iff.mp (by omega)
              subst hNil
              cases hLast
              have hKey : y ∈ r.graph.keys := mem_keys_of_open (hOpen _ _ (hPath.open_edges (y, after) (by simp [hops])))
              have hSimple := hPath.simple
              simp only [List.nodup_cons, List.mem_cons, not_or] at hSimple
              have hFirstNe : y ≠ before := fun hSame => hSimple.1.1 hSame.symm
              have hMiddle : y = through := by
                by_contra hNe
                refine hAllowed y (by simp) (List.mem_filter.mpr ⟨List.mem_filter.mpr ⟨hKey, ?_⟩, ?_⟩)
                · simp [hNe, hFirstNe, hSimple.2.1.1]
                · simpa using hNames y hKey
              rw [hMiddle]
              exact Or.inr rfl

/-- The two edges over the node are open, and both ends are nodes. -/
structure Detour (r : PaymentRouter) (graph : CapacityGraph) (before through after : Pid) : Prop where
  enters : graph.getD₂ before through 0 = r.graph.getD₂ before through 0
  leaves : graph.getD₂ through after 0 = r.graph.getD₂ through after 0
  node : after ∈ graph.keys
  fewer : ∀ u v, 0 < graph.getD₂ u v 0 → 0 < r.graph.getD₂ u v 0

/-- A search takes the detour over a node that is blocked only by the edge that leaves it. -/
theorem BlocksOwnNode.admitted (h : BlocksOwnNode r before through after) (hDetour : Detour r graph before through after) :
    Endpoints (detourQuery r before through after) graph ∧
    ∃ entry, Admitted r (detourQuery r before through after) graph entry ∧ entry.current = after := by
  obtain ⟨hIn, hNext, hEnds⟩ := h.distinct
  have hEnters : 0 < graph.getD₂ before through 0 := hDetour.enters ▸ h.enters
  have hLeaves : 0 < graph.getD₂ through after 0 := hDetour.leaves ▸ h.leaves
  refine ⟨⟨mem_keys_of_open hEnters, hDetour.node, not_mem_forbidden (.inl rfl), not_mem_forbidden (.inr (.inr rfl))⟩, ?_⟩
  have hFirst : Admitted r (detourQuery r before through after) graph (r.extend ⟨before, [before], []⟩ through) := by
    refine Admitted.start.step hEnds (by simp [routeQuery]) (admits_iff.mpr ?_)
    exact ⟨List.not_mem_nil, not_mem_forbidden (.inr (.inl rfl)), hEnters, hEnters.le,
      by simpa [routeQuery] using Ne.symm hIn, Or.inr List.not_mem_nil, Or.inr h.unblocked,
      fun hLong => absurd hLong (by simp), Or.inr h.passing⟩
  refine ⟨_, hFirst.step hNext (by simp [routeQuery, extend]) (admits_iff.mpr ?_), rfl⟩
  exact ⟨List.not_mem_nil, not_mem_forbidden (.inr (.inr rfl)), hLeaves, hLeaves.le,
    by simp [extend, Ne.symm hEnds, Ne.symm hNext], Or.inl (Or.inr rfl), Or.inl (Or.inr rfl),
    fun hLong => absurd hLong (by simp [extend]), Or.inl (Or.inr rfl)⟩

/-- With the direct edge closed, an amount that the detour carries goes over it. -/
theorem BlocksOwnNode.takes_detour (h : BlocksOwnNode r before through after)
    (hNames : ∀ x ∈ r.graph.keys, pyStrip x.toList ≠ []) (hDetour : Detour r graph before through after)
    (hClosed : graph.getD₂ before after 0 ≤ 0) {amount : Amount} (hPos : 0 < amount)
    (hEnters : amount ≤ r.graph.getD₂ before through 0) (hLeaves : amount ≤ r.graph.getD₂ through after 0)
    (paths : Nat) {deadline : Nat} (hTime : searchCost graph 2 < deadline) (routes : List Route) :
    ∃ s, searchRoutes r (detourQuery r before through after) (paths + 1) deadline ⟨graph, amount, routes⟩ = .ok s ∧
      s.remaining = 0 ∧ s.routes = routes ++ [⟨[before, through, after], amount⟩] := by
  obtain ⟨hEnds, entry, hAdmitted, hAt⟩ := h.admitted hDetour
  obtain ⟨time, rfl⟩ : ∃ time, deadline = time + 1 := ⟨deadline - 1, by omega⟩
  obtain ⟨⟨found, left⟩, hFound⟩ :=
    @bfsSinglePath_ends r (detourQuery r before through after) graph time (Nat.le_of_lt_succ hTime)
  cases found with
  | none => exact absurd hAt (bfsSinglePath_none hEnds hFound entry hAdmitted)
  | some path =>
      have hPath := (bfsSinglePath_pathIn hFound).1
      rcases detourQuery_cases hNames h.distinct hDetour.fewer hFound with rfl | rfl
      · exact absurd (hPath.open_edges (before, after) (by simp [hops])) (not_lt.mpr hClosed)
      · have hAlloc : allocation [before, through, after] ⟨graph, amount, routes⟩ = amount := by
          simp only [allocation, pathBottleneck, hops, List.tail_cons, List.zip_cons_cons, List.zip_nil_right,
            List.foldl_cons, List.foldl_nil, narrow, hDetour.enters, hDetour.leaves]
          exact min_eq_left (le_min hEnters hLeaves)
        refine ⟨⟨(hops [before, through, after]).foldl (reduceEdge amount) graph, 0, _⟩, ?_, rfl, rfl⟩
        rw [searchRoutes_succ hPos hFound (List.cons_ne_nil _ _) (hAlloc.symm ▸ hPos), hAlloc, decimalSub_self]
        exact searchRoutes_done le_rfl

/-- With the direct edge open, the first route fills it and nothing else changes. -/
theorem BlocksOwnNode.takes_direct (h : BlocksOwnNode r before through after)
    (hNames : ∀ x ∈ r.graph.keys, pyStrip x.toList ≠ []) (hDirect : 0 < r.graph.getD₂ before after 0) {amount : Amount}
    (hMore : r.graph.getD₂ before after 0 ≤ amount) : ∃ graph time left,
    Detour r graph before through after ∧ graph.getD₂ before after 0 = 0 ∧ ∀ paths more,
      searchRoutes r (detourQuery r before through after) (paths + 1) (time + more + 1) ⟨r.graph, amount, []⟩ =
        searchRoutes r (detourQuery r before through after) paths (left + more)
          ⟨graph, decimalSub amount (r.graph.getD₂ before after 0), [⟨[before, after], r.graph.getD₂ before after 0⟩]⟩ := by
  obtain ⟨hEnds, entry, hAdmitted, hAt⟩ := h.admitted ⟨rfl, rfl, h.node, fun _ _ hOpen => hOpen⟩
  have hStraight : Admitted r (detourQuery r before through after) r.graph
      (r.extend ⟨before, [before], []⟩ after) := by
    refine Admitted.start.step h.distinct.2.2 (by simp [routeQuery]) (admits_iff.mpr ?_)
    exact ⟨List.not_mem_nil, hEnds.receiverAllowed, hDirect, hDirect.le,
      by simpa [routeQuery] using Ne.symm h.distinct.2.2, Or.inl (Or.inr rfl), Or.inl (Or.inr rfl),
      fun hLong => absurd hLong (by simp), Or.inl (Or.inr rfl)⟩
  obtain ⟨⟨found, left⟩, hFound⟩ :=
    @bfsSinglePath_ends r (detourQuery r before through after) r.graph _ le_rfl
  cases found with
  | none => exact absurd hAt (bfsSinglePath_none hEnds hFound entry hAdmitted)
  | some path =>
      have hLeast := (bfsSinglePath_shortest hFound).2.least _ hStraight rfl
      have hPath : path = [before, after] := by
        refine (detourQuery_cases hNames h.distinct (fun _ _ hOpen => hOpen) hFound).resolve_right fun hLong => ?_
        rw [hLong] at hLeast
        exact absurd hLeast (by simp [extend])
      subst hPath
      have hAlloc (routes : List Route) : allocation [before, after] ⟨r.graph, amount, routes⟩ =
          r.graph.getD₂ before after 0 := by
        simp only [allocation, pathBottleneck, hops, List.tail_cons, List.zip_cons_cons, List.zip_nil_right,
          List.foldl_cons, List.foldl_nil, narrow]
        exact min_eq_right hMore
      have hHop (u v : Pid) : (u, v) ∈ hops [before, after] ↔ u = before ∧ v = after := by simp [hops]
      have hReduced (u v : Pid) :
          ((hops [before, after]).foldl (reduceEdge (r.graph.getD₂ before after 0)) r.graph).getD₂ u v 0 =
            if (u, v) ∈ hops [before, after] then decimalSub (r.graph.getD₂ u v 0) (r.graph.getD₂ before after 0)
            else r.graph.getD₂ u v 0 :=
        foldl_reduceEdge_simple (bfsSinglePath_pathIn hFound).1.simple (by simp [hops]) u v
      obtain ⟨hIn, hNext, -⟩ := h.distinct
      refine ⟨(hops [before, after]).foldl (reduceEdge (r.graph.getD₂ before after 0)) r.graph, searchCost r.graph 2, left,
        ⟨?_, ?_, mem_keys_foldl_reduceEdge_of h.node, fun u v hOpen => ?_⟩, ?_, fun paths more => ?_⟩
      · rw [hReduced, if_neg fun hSame => hNext ((hHop _ _).mp hSame).2]
      · rw [hReduced, if_neg fun hSame => hIn ((hHop _ _).mp hSame).1.symm]
      · rw [hReduced] at hOpen
        split at hOpen
        · next hSame =>
            obtain ⟨rfl, rfl⟩ := (hHop u v).mp hSame
            exact hDirect
        · exact hOpen
      · rw [hReduced, if_pos ((hHop _ _).mpr ⟨rfl, rfl⟩), decimalSub_self]
      · rw [searchRoutes_succ (hDirect.trans_le hMore) (bfsSinglePath_more more hFound) (List.cons_ne_nil _ _)
          (by rw [hAlloc]; exact hDirect), hAlloc]
        rfl

/-- Some call takes the path through the node that the edge after it blocks. -/
theorem BlocksOwnNode.exposed (h : BlocksOwnNode r before through after)
    (hNames : ∀ x ∈ r.graph.keys, pyStrip x.toList ≠ []) : ∃ amount maxPaths deadline avoid routes,
    findFlowRoutes r before after amount 2 maxPaths deadline avoid = .ok routes ∧
      ∃ route ∈ routes, route.path = [before, through, after] := by
  have hRoom : 0 < min (r.graph.getD₂ before through 0) (r.graph.getD₂ through after 0) := lt_min h.enters h.leaves
  -- One digit, so that the difference to the direct edge is not rounded.
  obtain ⟨y, hPos, hLe, hRound⟩ : ∃ y : Amount, 0 < y ∧
      y ≤ min (r.graph.getD₂ before through 0) (r.graph.getD₂ through after 0) ∧ decimalContext.round y = y :=
    ⟨_, decimalContext.unit_pos _, Int.zpow_log_le_self decimalContext.one_lt_base hRoom,
      FloatingPoint.Format.round_zpow fun _ hNone => by cases hNone⟩
  obtain ⟨hEnters, hLeaves⟩ := le_min_iff.mp hLe
  rcases le_or_gt (r.graph.getD₂ before after 0) 0 with hClosed | hDirect
  · obtain ⟨s, hSearch, hDone, hRoutes⟩ := h.takes_detour hNames ⟨rfl, rfl, h.node, fun _ _ hOpen => hOpen⟩ hClosed
      hPos hEnters hLeaves 0 (Nat.lt_succ_self _) []
    refine ⟨y, 1, searchCost r.graph 2 + 1, othersThan r before through after, s.routes, ?_,
      ⟨[before, through, after], y⟩, ?_, rfl⟩
    · exact findFlowRoutes_of_search hPos one_pos hSearch hDone
    · rw [hRoutes]
      exact List.mem_append_right _ List.mem_cons_self
  · have hMore : r.graph.getD₂ before after 0 ≤ r.graph.getD₂ before after 0 + y := by linarith
    obtain ⟨graph, time, left, hDetour, hClosed, hTurn⟩ := h.takes_direct hNames hDirect hMore
    have hRest : decimalSub (r.graph.getD₂ before after 0 + y) (r.graph.getD₂ before after 0) = y := by
      rw [decimalSub, add_sub_cancel_left, hRound]
    obtain ⟨s, hSearch, hDone, hRoutes⟩ := h.takes_detour hNames hDetour hClosed.le hPos hEnters hLeaves 0
      (Nat.lt_of_lt_of_le (Nat.lt_succ_self _) (Nat.le_add_left (searchCost graph 2 + 1) left))
      [⟨[before, after], r.graph.getD₂ before after 0⟩]
    refine ⟨r.graph.getD₂ before after 0 + y, 2, time + (searchCost graph 2 + 1) + 1, othersThan r before through after, s.routes, ?_,
      ⟨[before, through, after], y⟩, ?_, rfl⟩
    · refine findFlowRoutes_of_search (add_pos hDirect hPos) two_pos ?_ hDone
      change searchRoutes r _ (1 + 1) _ _ = _
      rw [hTurn 1, hRest]
      exact hSearch
    · rw [hRoutes]
      exact List.mem_append_right _ List.mem_cons_self

/-- Where no edge blocks the node it leaves and a path can come through that node, every
route of every call respects the policies; and where all participants have names, which
the request can list, only there. -/
theorem findFlowRoutes_respects_iff (r : PaymentRouter) :
    ((∀ before through after, ¬BlocksOwnNode r before through after) →
      ∀ fromPid toPid amount maxHops maxPaths deadline avoid routes,
        findFlowRoutes r fromPid toPid amount maxHops maxPaths deadline avoid = .ok routes →
          ∀ route ∈ routes, RespectsPolicies r fromPid toPid route.path) ∧
    ((∀ x ∈ r.graph.keys, pyStrip x.toList ≠ []) →
      (∀ fromPid toPid amount maxHops maxPaths deadline avoid routes,
        findFlowRoutes r fromPid toPid amount maxHops maxPaths deadline avoid = .ok routes →
          ∀ route ∈ routes, RespectsPolicies r fromPid toPid route.path) →
      ∀ before through after, ¬BlocksOwnNode r before through after) := by
  constructor
  · intro hNone fromPid toPid amount maxHops maxPaths deadline avoid routes hFound route hRoute
    obtain ⟨s, hSplit, -, rfl, -⟩ := findFlowRoutes_split hFound (List.ne_nil_of_mem hRoute)
    obtain ⟨hEnds, entry, hAdmitted, hAt, hIs⟩ := hSplit.admitted route hRoute
    rw [← hIs]
    exact hAdmitted.respectsPolicies hAt hEnds.receiver hNone
  · intro hNames hRespects before through after hBlocks
    obtain ⟨amount, maxPaths, deadline, avoid, routes, hFound, route, hRoute, hPath⟩ := hBlocks.exposed hNames
    have hPolicies := hRespects _ _ _ _ _ _ _ _ hFound route hRoute
    rw [hPath] at hPolicies
    refine hPolicies.unblocked through (by simp) (Ne.symm hBlocks.distinct.1) hBlocks.distinct.2.1 (through, after)
      ?_ hBlocks.blocks
    exact List.mem_cons_of_mem _ List.mem_cons_self

/-- The line from carol to bob blocks bob as an intermediate node, and the route goes
over bob along that very line. -/
theorem not_findFlowRoutes_respects : ∃ routes,
    findFlowRoutes
      ⟨(lineRouter "bob").graph, Dict.empty, Dict.ofList [("bob", Dict.ofList [("carol", ["bob"])])]⟩
      "alice" "carol" 2 6 3 10 [] = .ok routes ∧
    ∃ route ∈ routes, ¬RespectsPolicies
      ⟨(lineRouter "bob").graph, Dict.empty, Dict.ofList [("bob", Dict.ofList [("carol", ["bob"])])]⟩
      "alice" "carol" route.path := by
  refine ⟨[⟨["alice", "bob", "carol"], 2⟩], by decide +kernel, _, List.mem_cons_self, fun hRespects => ?_⟩
  exact hRespects.unblocked "bob" (by decide) (by decide) (by decide) ("bob", "carol") (by decide) (by decide +kernel)

end Exposed

end PaymentRouter

end GeoLedger

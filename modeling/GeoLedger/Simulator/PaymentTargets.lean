import Mathlib
import GeoLedger.Payments.RoutingAgreement
import GeoLedger.Payments.ShortestRoutes

/-! The receivers that `payment_targets` offers and the routes that
`action_payment_real` finds. Both build the graph of the equivalent, but only
the payment confines it to the participants of the run. -/
namespace GeoLedger

variable {env : Env}

namespace PaymentRouter

/-- `{u: {v: x for v, x in adj.items() if v in allowed} for u, adj in m.items() if u in allowed}`. -/
def confineMap {Value : Type} (allowed : List Pid) (m : Dict Pid (Dict Pid Value)) : Dict Pid (Dict Pid Value) :=
  (m.filterKeys (· ∈ allowed)).map (·.filterKeys (· ∈ allowed))

def confineRouterToPerimeter (allowed : List Pid) (r : PaymentRouter) : PaymentRouter where
  graph := confineMap allowed r.graph
  edgeCanBeIntermediate := confineMap allowed r.edgeCanBeIntermediate
  edgeBlockedParticipants := confineMap allowed r.edgeBlockedParticipants

theorem getD₂_confineMap {Value : Type} (allowed : List Pid) (m : Dict Pid (Dict Pid Value)) (u v : Pid)
    (default : Value) : (confineMap allowed m).getD₂ u v default =
      if u ∈ allowed ∧ v ∈ allowed then m.getD₂ u v default else default := by
  simp only [Dict.getD₂, Dict.getD, confineMap, Dict.get?_map, Dict.get?_filterKeys, decide_eq_true_eq]
  by_cases hu : u ∈ allowed
  · cases hRow : m.get? u with
    | none => simp [hu]
    | some row => by_cases hv : v ∈ allowed <;> simp [hu, hv, Dict.get?_filterKeys]
  · simp [hu]

theorem mem_keys_confineMap {Value : Type} {allowed : List Pid} {m : Dict Pid (Dict Pid Value)} {u : Pid} :
    u ∈ (confineMap allowed m).keys ↔ u ∈ m.keys ∧ u ∈ allowed := by
  rw [confineMap, Dict.keys_map, Dict.keys_filterKeys, List.mem_filter, decide_eq_true_eq]

end PaymentRouter

open PaymentRouter

/-- The routing settings of the hub. -/
structure RoutingSettings where
  ROUTING_MAX_HOPS : ℤ
  ROUTING_MAX_PATHS : ℤ
  FEATURE_FLAGS_MULTIPATH_ENABLED : Bool

namespace RoutingSettings

def serverMaxHops (settings : RoutingSettings) : ℤ :=
  if settings.ROUTING_MAX_HOPS = 0 then 6 else settings.ROUTING_MAX_HOPS

def serverMaxPaths (settings : RoutingSettings) : ℤ :=
  if !settings.FEATURE_FLAGS_MULTIPATH_ENABLED then 1
  else if settings.ROUTING_MAX_PATHS = 0 then 3 else settings.ROUTING_MAX_PATHS

end RoutingSettings

/-- One item of the answer of `payment_targets`. -/
structure PaymentTarget where
  hops : Nat
  toPid : Pid
deriving DecidableEq, Repr

/-- The order of the answer: by hops, then by PID. -/
def PaymentTarget.before (a b : PaymentTarget) : Prop := a.hops < b.hops ∨ (a.hops = b.hops ∧ a.toPid ≤ b.toPid)

instance : DecidableRel PaymentTarget.before := fun a b =>
  inferInstanceAs (Decidable (a.hops < b.hops ∨ (a.hops = b.hops ∧ a.toPid ≤ b.toPid)))

/-- The item for one node of the graph. The search has no deadline. -/
def paymentTarget? (r : PaymentRouter) (src dst : Pid) (maxHops : ℤ) : Option PaymentTarget :=
  if dst = "" ∨ dst = src then none
  else
    match bfsSinglePath r (routeQuery src dst maxHops []) r.graph (searchCost r.graph maxHops) with
    | .ok (some path, _) => if path.length - 1 ≤ 0 then none else some ⟨path.length - 1, dst⟩
    | .ok (none, _) | .error _ => none

/-- `payment_targets`, for a router with a built graph. -/
def paymentTargets (r : PaymentRouter) (src : Pid) (maxHops : ℤ) (limit : Nat) : List PaymentTarget :=
  if src ∉ r.graph.keys then []
  else
    let results := (r.graph.keys.filterMap fun dst => paymentTarget? r src dst maxHops).insertionSort
      PaymentTarget.before
    if limit ≠ 0 ∧ limit < results.length then results.take limit else results

/-- The routes of `action_payment_real` for a parsed amount, within its run's
perimeter: `create_payment_internal` up to the routes it goes on with. -/
def paymentRealRoutes (settings : RoutingSettings) (r : PaymentRouter) (scopedPids : List Pid)
    (fromPid toPid : Pid) (amount : Amount) (deadline : Nat) : Except GeoError (List Route) :=
  if fromPid ∉ scopedPids ∨ toPid ∉ scopedPids then .error (.notFound "Participant not found")
  else if amount ≤ 0 then .error (.badRequest "Invalid amount")
  else if fromPid = toPid then .error (.badRequest "Cannot pay to yourself")
  else do
    let routesFound ← findFlowRoutes (confineRouterToPerimeter scopedPids r) fromPid toPid amount
      settings.serverMaxHops settings.serverMaxPaths deadline []
    if routesFound = [] then .error (.routing "No route found with sufficient capacity")
    else if ∃ route ∈ routesFound, ∃ pid ∈ route.path, pid ∉ scopedPids then
      .error (.routing "No route found with sufficient capacity")
    else .ok routesFound

section Perimeter

variable {r : PaymentRouter} {q : PathQuery} {graph : CapacityGraph} {allowed : List Pid}

/-- Paths that go on from a node never passed the receiver. -/
theorem PaymentRouter.Admitted.receiver_notMem {entry : SearchEntry} (h : Admitted r q graph entry)
    (hDistinct : q.fromPid ≠ q.toPid) (hInner : entry.current ≠ q.toPid) : q.toPid ∉ entry.path := by
  induction h with
  | start =>
      rw [List.mem_singleton]
      exact hDistinct.symm
  | step prior hBefore hHops hAdmits ih =>
      intro hMem
      rcases List.mem_append.mp hMem with hOld | hNew
      · exact ih hBefore hOld
      · exact hInner (List.mem_singleton.mp hNew).symm

/-- The same request toward another receiver. -/
def PaymentRouter.PathQuery.toward (q : PathQuery) (x : Pid) : PathQuery := { q with toPid := x }

/-- A path that meets neither of two receivers is admitted for both. -/
theorem PaymentRouter.Admitted.toward {entry : SearchEntry} {x : Pid} (h : Admitted r q graph entry)
    (hReceiver : q.toPid ∉ entry.path) (hx : x ∉ entry.path) : Admitted r (q.toward x) graph entry := by
  induction h with
  | start => exact Admitted.start
  | @step entry neighbor prior hBefore hHops hAdmits ih =>
      rw [extend, List.mem_append, not_or, List.mem_singleton] at hReceiver hx
      have hCurrent : entry.current ∈ entry.path := List.mem_of_getLast? prior.pathIn.last
      have hInner : entry.current ≠ x := fun hEq => hx.1 (hEq ▸ hCurrent)
      refine (ih hReceiver.1 hx.1).step (q := q.toward x) hInner hHops (admits_iff.mpr ?_)
      have hAdmits := admits_iff.mp hAdmits
      simpa only [PathQuery.toward, Ne.symm hReceiver.2, Ne.symm hx.2, or_false] using hAdmits

/-- Every node on an admitted path is reached by an admitted path itself. -/
theorem PaymentRouter.Admitted.reaches {entry : SearchEntry} (h : Admitted r q graph entry)
    (hDistinct : q.fromPid ≠ q.toPid) {x : Pid} (hx : x ∈ entry.path) (hOther : x ≠ q.fromPid) :
    ∃ reached, Admitted r (q.toward x) graph reached ∧ reached.current = x := by
  induction h with
  | start => exact absurd (List.mem_singleton.mp hx) hOther
  | @step entry neighbor prior hBefore hHops hAdmits ih =>
      rcases List.mem_append.mp hx with hOld | hNew
      · exact ih hOld
      · obtain rfl := List.mem_singleton.mp hNew
        obtain ⟨hEdge, hNode, hPos, hAmount, hFresh, -, -, hBlocked, -⟩ := admits_iff.mp hAdmits
        have hCurrent : entry.current ∈ entry.path := List.mem_of_getLast? prior.pathIn.last
        have hInner : entry.current ≠ x := fun hEq => hFresh (hEq ▸ hCurrent)
        have hPrior := prior.toward (prior.receiver_notMem hDistinct hBefore) hFresh
        -- A receiver is subject to fewer policies than a node on the way.
        have hEnd : x = (q.toward x).fromPid ∨ x = (q.toward x).toPid := Or.inr rfl
        refine ⟨r.extend entry x, hPrior.step hInner hHops (admits_iff.mpr ?_), rfl⟩
        exact ⟨hEdge, hNode, hPos, hAmount, hFresh, Or.inl hEnd, Or.inl hEnd, hBlocked, Or.inl hEnd⟩

/-- The confined router admits exactly the paths inside the perimeter. -/
theorem PaymentRouter.admitted_confine_iff {entry : SearchEntry} (hFrom : q.fromPid ∈ allowed) :
    Admitted (confineRouterToPerimeter allowed r) q (confineRouterToPerimeter allowed r).graph entry ↔
      Admitted r q r.graph entry ∧ ∀ x ∈ entry.path, x ∈ allowed := by
  have hBlocked (u v : Pid) (hu : u ∈ allowed) (hv : v ∈ allowed) :
      (confineRouterToPerimeter allowed r).edgeBlockedParticipants.getD₂ u v [] =
        r.edgeBlockedParticipants.getD₂ u v [] := by
    rw [confineRouterToPerimeter, getD₂_confineMap, if_pos ⟨hu, hv⟩]
  have hFlag (u v : Pid) (hu : u ∈ allowed) (hv : v ∈ allowed) :
      (confineRouterToPerimeter allowed r).edgeCanBeIntermediate.getD₂ u v true =
        r.edgeCanBeIntermediate.getD₂ u v true := by
    rw [confineRouterToPerimeter, getD₂_confineMap, if_pos ⟨hu, hv⟩]
  have hCapacity (u v : Pid) (hu : u ∈ allowed) (hv : v ∈ allowed) :
      (confineRouterToPerimeter allowed r).graph.getD₂ u v 0 = r.graph.getD₂ u v 0 := by
    rw [confineRouterToPerimeter, getD₂_confineMap, if_pos ⟨hu, hv⟩]
  have hSame (e : SearchEntry) (n : Pid) (hu : e.current ∈ allowed) (hv : n ∈ allowed) :
      (confineRouterToPerimeter allowed r).extend e n = r.extend e n ∧
        (confineRouterToPerimeter allowed r).admits q e n
          ((confineRouterToPerimeter allowed r).graph.getD₂ e.current n 0) =
        r.admits q e n (r.graph.getD₂ e.current n 0) := by
    unfold extend admits
    rw [hBlocked _ _ hu hv, hFlag _ _ hu hv, hCapacity _ _ hu hv]
    exact ⟨rfl, rfl⟩
  constructor
  · intro h
    induction h with
    | start => exact ⟨Admitted.start, fun x hx => List.mem_singleton.mp hx ▸ hFrom⟩
    | @step e n prior hInner hHops hAdmits ih =>
        have hPos := admits_pos hAdmits
        rw [confineRouterToPerimeter, getD₂_confineMap] at hPos
        have hIn : e.current ∈ allowed ∧ n ∈ allowed := by
          by_contra hOut
          rw [if_neg hOut] at hPos
          exact lt_irrefl _ hPos
        obtain ⟨hExtend, hAdmitsEq⟩ := hSame e n hIn.1 hIn.2
        rw [hExtend]
        refine ⟨ih.1.step hInner hHops (hAdmitsEq ▸ hAdmits), fun x hx => ?_⟩
        rcases List.mem_append.mp hx with hOld | hNew
        · exact ih.2 x hOld
        · exact List.mem_singleton.mp hNew ▸ hIn.2
  · rintro ⟨h, hPath⟩
    induction h with
    | start => exact Admitted.start
    | @step e n prior hInner hHops hAdmits ih =>
        have hOld := fun x hx => hPath x (List.mem_append_left _ hx)
        have hCurrent : e.current ∈ allowed := hOld _ (List.mem_of_getLast? prior.pathIn.last)
        have hNew : n ∈ allowed := hPath n (List.mem_append_right _ List.mem_cons_self)
        obtain ⟨hExtend, hAdmitsEq⟩ := hSame e n hCurrent hNew
        rw [← hExtend]
        exact (ih hOld).step hInner hHops (hAdmitsEq ▸ hAdmits)

end Perimeter

section Agreement

variable {settings : RoutingSettings} {r : PaymentRouter} {scopedPids : List Pid} {fromPid pid : Pid}
  {maxHops : ℤ} {limit : Nat}

/-- A path of open edges that the policies and the hop limit admit leads to the PID. -/
def Reached (r : PaymentRouter) (fromPid : Pid) (maxHops : ℤ) (pid : Pid) : Prop :=
  ∃ entry, Admitted r (routeQuery fromPid pid maxHops []) r.graph entry ∧ entry.current = pid

/-- The route is one that a payment of some positive amount finds. -/
def PayableAlong (settings : RoutingSettings) (r : PaymentRouter) (scopedPids : List Pid) (fromPid toPid : Pid)
    (route : Route) : Prop :=
  ∃ amount > 0, ∃ deadline routes,
    paymentRealRoutes settings r scopedPids fromPid toPid amount deadline = .ok routes ∧ route ∈ routes

/-- The listing names exactly the participants of the run that a payment can
reach, with the fewest edges of a route to them. -/
structure TargetsAgree (settings : RoutingSettings) (r : PaymentRouter) (scopedPids : List Pid) (fromPid : Pid)
    (limit : Nat) : Prop where
  listed : ∀ pid, (∃ target ∈ paymentTargets r fromPid settings.serverMaxHops limit, target.toPid = pid) ↔
    pid ∈ scopedPids ∧ pid ≠ fromPid ∧ ∃ route, PayableAlong settings r scopedPids fromPid pid route
  hops : ∀ target ∈ paymentTargets r fromPid settings.serverMaxHops limit,
    IsLeast {n | ∃ route, PayableAlong settings r scopedPids fromPid target.toPid route ∧
      route.path.length - 1 = n} target.hops

/-- What the agreement needs of a graph: edges lead between its nodes, which
are named and not more than the listing holds. -/
structure Listable (r : PaymentRouter) (limit : Nat) : Prop where
  nonneg : ∀ u v, 0 ≤ r.graph.getD₂ u v 0
  ends : ∀ u v, 0 < r.graph.getD₂ u v 0 → u ∈ r.graph.keys ∧ v ∈ r.graph.keys
  named : ∀ u ∈ r.graph.keys, u ≠ ""
  few : r.graph.keys.length ≤ limit

theorem Listable.endpoints (h : Listable r limit) (hDistinct : pid ≠ fromPid) (hReached : Reached r fromPid maxHops pid) :
    Endpoints (routeQuery fromPid pid maxHops []) r.graph := by
  obtain ⟨entry, hAdmitted, rfl⟩ := hReached
  have hPath := hAdmitted.pathIn
  have hLast := List.mem_of_getLast? hPath.last
  refine ⟨?_, ?_, List.not_mem_nil, List.not_mem_nil⟩
  · have hFirst := hPath.first
    have hOpen := hPath.open_edges
    obtain ⟨current, path, blocked⟩ := entry
    match path with
    | [] => cases hFirst
    | [x] =>
        obtain rfl : x = fromPid := Option.some.inj hFirst
        exact absurd (List.mem_singleton.mp hLast) hDistinct
    | x :: y :: rest =>
        obtain rfl : x = fromPid := Option.some.inj hFirst
        exact (h.ends _ _ (hOpen (x, y) List.mem_cons_self)).1
  · rcases mem_path_cases hPath.first hLast with hEq | ⟨hop, hHop, hEq⟩
    · exact absurd hEq hDistinct
    · exact (h.ends _ _ (hEq ▸ hPath.open_edges hop hHop)).2

/-- The item for a node that is listed tells the length of a shortest path to it. -/
theorem paymentTarget?_eq_some {target : PaymentTarget} (h : paymentTarget? r fromPid pid maxHops = some target) :
    target.toPid = pid ∧ pid ≠ fromPid ∧ ∃ path,
      Shortest r (routeQuery fromPid pid maxHops []) r.graph path ∧ target.hops = path.length - 1 := by
  unfold paymentTarget? at h
  split at h
  · cases h
  · next hArgs =>
      rw [not_or] at hArgs
      split at h
      · next path left hFound =>
          split at h
          · cases h
          · cases h
            exact ⟨rfl, hArgs.2, path, (bfsSinglePath_shortest hFound).2, rfl⟩
      · cases h
      · cases h

/-- Every node that a path reaches gets an item. -/
theorem paymentTarget?_of_reached (h : Listable r limit) (hDistinct : pid ≠ fromPid)
    (hReached : Reached r fromPid maxHops pid) :
    ∃ target, paymentTarget? r fromPid pid maxHops = some target ∧ target.toPid = pid := by
  have hEnds := h.endpoints hDistinct hReached
  obtain ⟨entry, hAdmitted, hAt⟩ := hReached
  obtain ⟨⟨found, left⟩, hFound⟩ := @bfsSinglePath_ends r (routeQuery fromPid pid maxHops []) r.graph _ le_rfl
  cases found with
  | none => exact absurd hAt (bfsSinglePath_none hEnds hFound entry hAdmitted)
  | some path =>
      have hLength := (bfsSinglePath_pathIn hFound).1.two_le_length hDistinct.symm
      refine ⟨⟨path.length - 1, pid⟩, ?_, rfl⟩
      have hArgs : ¬(pid = "" ∨ pid = fromPid) := not_or.mpr ⟨h.named pid hEnds.receiver, hDistinct⟩
      have hFound : bfsSinglePath r (routeQuery fromPid pid maxHops []) r.graph (searchCost r.graph maxHops) =
          .ok (some path, left) := hFound
      rw [paymentTarget?, if_neg hArgs, hFound]
      exact if_neg (by omega)

theorem mem_paymentTargets_iff (h : Listable r limit) {target : PaymentTarget} :
    target ∈ paymentTargets r fromPid maxHops limit ↔
      fromPid ∈ r.graph.keys ∧ ∃ dst ∈ r.graph.keys, paymentTarget? r fromPid dst maxHops = some target := by
  unfold paymentTargets
  by_cases hSrc : fromPid ∈ r.graph.keys
  · have hFew : ¬(limit ≠ 0 ∧ limit < ((r.graph.keys.filterMap fun dst =>
        paymentTarget? r fromPid dst maxHops).insertionSort PaymentTarget.before).length) := by
      rw [List.length_insertionSort, not_and, not_lt]
      exact fun _ => (List.length_filterMap_le _ _).trans h.few
    rw [if_neg (not_not.mpr hSrc)]
    simp only
    rw [if_neg hFew, (List.perm_insertionSort _ _).mem_iff, List.mem_filterMap]
    simp only [hSrc, true_and]
  · simp [hSrc]

/-- The listing names the nodes that paths of the whole graph reach. -/
theorem listed_iff_reached (h : Listable r limit) :
    (∃ target ∈ paymentTargets r fromPid maxHops limit, target.toPid = pid) ↔
      pid ≠ fromPid ∧ Reached r fromPid maxHops pid := by
  constructor
  · rintro ⟨target, hTarget, rfl⟩
    obtain ⟨-, dst, -, hItem⟩ := (mem_paymentTargets_iff h).mp hTarget
    obtain ⟨hDst, hDistinct, path, hShortest, -⟩ := paymentTarget?_eq_some hItem
    obtain ⟨entry, hAdmitted, hAt, -⟩ := hShortest.admitted
    rw [hDst]
    exact ⟨hDistinct, entry, hAdmitted, hAt⟩
  · rintro ⟨hDistinct, hReached⟩
    have hEnds := h.endpoints hDistinct hReached
    obtain ⟨target, hItem, hPid⟩ := paymentTarget?_of_reached h hDistinct hReached
    exact ⟨target, (mem_paymentTargets_iff h).mpr ⟨hEnds.sender, pid, hEnds.receiver, hItem⟩, hPid⟩

/-- A route of a payment stays in the perimeter, and is a path of the whole graph. -/
theorem PayableAlong.admitted (hGraph : ∀ u v, 0 ≤ r.graph.getD₂ u v 0) {route : Route}
    (h : PayableAlong settings r scopedPids fromPid pid route) :
    pid ∈ scopedPids ∧ pid ≠ fromPid ∧ 0 < settings.serverMaxPaths ∧
      ∃ entry, Admitted r (routeQuery fromPid pid settings.serverMaxHops []) r.graph entry ∧
        entry.current = pid ∧ entry.path = route.path := by
  obtain ⟨amount, hAmount, deadline, routes, hOk, hRoute⟩ := h
  unfold paymentRealRoutes at hOk
  split at hOk
  · cases hOk
  · next hScope =>
      rw [not_or, not_not, not_not] at hScope
      rw [if_neg (not_le.mpr hAmount)] at hOk
      split at hOk
      · cases hOk
      · next hDistinct =>
          obtain ⟨found, hFound, hOk⟩ := Outcomes.bind_eq_ok_iff.mp hOk
          have hSame : found = routes := by
            split at hOk
            · cases hOk
            · split at hOk
              · cases hOk
              · exact Except.ok.inj hOk
          subst hSame
          have hConfined : ∀ u v, 0 ≤ (confineRouterToPerimeter scopedPids r).graph.getD₂ u v 0 := by
            intro u v
            rw [confineRouterToPerimeter, getD₂_confineMap]
            split
            · exact hGraph u v
            · exact le_rfl
          obtain ⟨entry, hAdmitted, hAt, hPath⟩ := findFlowRoutes_admitted hConfined hFound route hRoute
          refine ⟨hScope.2, Ne.symm hDistinct, ?_, entry, ((admitted_confine_iff hScope.1).mp hAdmitted).1, hAt, hPath⟩
          by_contra hPaths
          rw [findFlowRoutes, if_pos (Or.inr (not_lt.mp hPaths))] at hFound
          cases hFound
          exact absurd hRoute List.not_mem_nil

/-- When paths to a participant stay in the perimeter, some payment to it takes
a shortest of them. -/
theorem payableAlong_of_reached (h : Listable r limit) (hFrom : fromPid ∈ scopedPids) (hDistinct : pid ≠ fromPid)
    (hPaths : 0 < settings.serverMaxPaths) (hReached : Reached r fromPid settings.serverMaxHops pid)
    (hInside : ∀ x ≠ fromPid, Reached r fromPid settings.serverMaxHops x → x ∈ scopedPids) :
    ∃ route, PayableAlong settings r scopedPids fromPid pid route ∧
      Shortest r (routeQuery fromPid pid settings.serverMaxHops []) r.graph route.path := by
  have hEnds := h.endpoints hDistinct hReached
  have hWithin (entry : SearchEntry)
      (hEntry : Admitted r (routeQuery fromPid pid settings.serverMaxHops []) r.graph entry) :
      ∀ x ∈ entry.path, x ∈ scopedPids := by
    intro x hx
    by_cases hStart : x = fromPid
    · exact hStart ▸ hFrom
    · obtain ⟨reached, hAdmitted, hAt⟩ := hEntry.reaches hDistinct.symm hx hStart
      exact hInside x hStart ⟨reached, hAdmitted, hAt⟩
  have hSame (entry : SearchEntry) := @admitted_confine_iff r
    (routeQuery fromPid pid settings.serverMaxHops []) scopedPids entry hFrom
  obtain ⟨entry, hAdmitted, hAt⟩ := hReached
  have hScoped : pid ∈ scopedPids := hInside pid hDistinct ⟨entry, hAdmitted, hAt⟩
  obtain ⟨amount, hAmount, deadline, path, hFound, hShortest⟩ :=
    findFlowRoutes_of_admitted hPaths hDistinct.symm
      ⟨mem_keys_confineMap.mpr ⟨hEnds.sender, hFrom⟩, mem_keys_confineMap.mpr ⟨hEnds.receiver, hScoped⟩,
        hEnds.senderAllowed, hEnds.receiverAllowed⟩
      ((hSame entry).mpr ⟨hAdmitted, hWithin entry hAdmitted⟩) hAt
  obtain ⟨first, hFirst, hFirstAt, rfl⟩ := hShortest.admitted
  have hPathIn := (hSame first).mp hFirst
  refine ⟨⟨first.path, amount⟩, ⟨amount, hAmount, deadline, [⟨first.path, amount⟩], ?_, List.mem_cons_self⟩, ?_⟩
  · rw [paymentRealRoutes, if_neg (by simp [hFrom, hScoped]), if_neg (not_le.mpr hAmount), if_neg hDistinct.symm]
    refine Outcomes.bind_eq_ok_iff.mpr ⟨_, hFound, ?_⟩
    rw [if_neg (List.cons_ne_nil _ _), if_neg]
    rintro ⟨route, hRoute, x, hx, hOut⟩
    rw [List.mem_singleton.mp hRoute] at hx
    exact hOut (hPathIn.2 x hx)
  · refine ⟨⟨first, hPathIn.1, hFirstAt, rfl⟩, fun other hOther hOtherAt => ?_⟩
    exact hShortest.least other ((hSame other).mpr ⟨hOther, hWithin other hOther⟩) hOtherAt

/-- The listing agrees with the payments exactly when every participant that
paths of the whole graph reach belongs to the run. -/
theorem targetsAgree_iff (h : Listable r limit) (hFrom : fromPid ∈ scopedPids) :
    TargetsAgree settings r scopedPids fromPid limit ↔
      ∀ pid ≠ fromPid, Reached r fromPid settings.serverMaxHops pid →
        pid ∈ scopedPids ∧ 0 < settings.serverMaxPaths := by
  constructor
  · intro hAgree pid hDistinct hReached
    obtain ⟨hScoped, -, route, hRoute⟩ := (hAgree.listed pid).mp ((listed_iff_reached h).mpr ⟨hDistinct, hReached⟩)
    exact ⟨hScoped, (hRoute.admitted h.nonneg).2.2.1⟩
  · intro hInside
    refine ⟨fun pid => ?_, fun target hTarget => ?_⟩
    · rw [listed_iff_reached h]
      constructor
      · rintro ⟨hDistinct, hReached⟩
        obtain ⟨hScoped, hPaths⟩ := hInside pid hDistinct hReached
        obtain ⟨route, hRoute, -⟩ := payableAlong_of_reached h hFrom hDistinct hPaths hReached
          fun x hx hReach => (hInside x hx hReach).1
        exact ⟨hScoped, hDistinct, route, hRoute⟩
      · rintro ⟨-, hDistinct, route, hRoute⟩
        obtain ⟨-, -, -, entry, hAdmitted, hAt, -⟩ := hRoute.admitted h.nonneg
        exact ⟨hDistinct, entry, hAdmitted, hAt⟩
    · obtain ⟨-, dst, -, hItem⟩ := (mem_paymentTargets_iff h).mp hTarget
      obtain ⟨rfl, hDistinct, path, hShortest, hHops⟩ := paymentTarget?_eq_some hItem
      obtain ⟨entry, hAdmitted, hAt, rfl⟩ := hShortest.admitted
      rw [hHops]
      constructor
      · have hReached : Reached r fromPid settings.serverMaxHops target.toPid := ⟨entry, hAdmitted, hAt⟩
        obtain ⟨route, hRoute, hLeast⟩ := payableAlong_of_reached h hFrom hDistinct
          (hInside _ hDistinct hReached).2 hReached fun x hx hReach => (hInside x hx hReach).1
        obtain ⟨other, hOther, hOtherAt, hOtherPath⟩ := hLeast.admitted
        refine ⟨route, hRoute, ?_⟩
        rw [le_antisymm (hLeast.least entry hAdmitted hAt) (hOtherPath ▸ hShortest.least other hOther hOtherAt)]
      · rintro n ⟨route, hRoute, rfl⟩
        obtain ⟨-, -, -, other, hOther, hOtherAt, hOtherPath⟩ := hRoute.admitted h.nonneg
        exact Nat.sub_le_sub_right (hOtherPath ▸ hShortest.least other hOther hOtherAt) 1

/-- The nodes of a fresh graph are participants, each once. -/
theorem buildGraphImpl_listable {order : ReadOrder} {now : Time} {code : String} {db : Db env}
    (hLimit : env.directory.participants.length ≤ limit) : Listable (buildGraphImpl order now code db) limit where
  nonneg u v := (buildGraphImpl_edges u v).1
  ends _ _ := buildGraphImpl_ends
  named u hu := by
    obtain ⟨p, hp, rfl⟩ := buildGraphImpl_known hu
    exact env.directory.pid_nonempty p hp
  few := by
    have hSub : (buildGraphImpl order now code db).graph.keys ⊆ env.directory.participants.map (·.pid) :=
      fun u hu => List.mem_map.mpr (buildGraphImpl_known hu)
    calc (buildGraphImpl order now code db).graph.keys.length
        ≤ (env.directory.participants.map (·.pid)).length :=
          ((buildGraphImpl order now code db).graph.nodup.subperm hSub).length_le
      _ = env.directory.participants.length := List.length_map _
      _ ≤ limit := hLimit

/-- On a fresh graph, `payment_targets` agrees with `action_payment_real`
exactly when every participant that a path of at most `ROUTING_MAX_HOPS` open
edges reaches belongs to the run. -/
theorem payment_targets_agree_iff {order : ReadOrder} {now : Time} {code : String} {db : Db env}
    (hFrom : fromPid ∈ scopedPids) (hLimit : env.directory.participants.length ≤ limit) :
    TargetsAgree settings (buildGraphImpl order now code db) scopedPids fromPid limit ↔
      ∀ pid ≠ fromPid, Reached (buildGraphImpl order now code db) fromPid settings.serverMaxHops pid →
        pid ∈ scopedPids ∧ 0 < settings.serverMaxPaths :=
  targetsAgree_iff (buildGraphImpl_listable hLimit) hFrom

/-- A may pay B and C. -/
def fanLines : List LedgerOp := [openLine 2 "A" .uah 5, openLine 3 "A" .uah 5]

def fanDb : Db (Env.sample .numeric208 true) :=
  ((Ledger.empty : Ledger (Env.sample .numeric208 true)).run fanLines).db

def defaultRouting : RoutingSettings := ⟨6, 3, true⟩

/-- In a run of A, B and C the listing agrees with the payments. -/
theorem payment_targets_agree_fan :
    TargetsAgree defaultRouting (buildGraphImpl .insertion 0 "UAH" fanDb) ["A", "B", "C"] "A" 200 := by
  have hLimit : (Env.sample .numeric208 true).directory.participants.length ≤ 200 := by decide
  refine (payment_targets_agree_iff (by decide) hLimit).mpr fun pid hDistinct hReached => ?_
  obtain ⟨target, hTarget, rfl⟩ := (listed_iff_reached (buildGraphImpl_listable hLimit)).mpr ⟨hDistinct, hReached⟩
  have hTargets : paymentTargets (buildGraphImpl .insertion 0 "UAH" fanDb) "A" defaultRouting.serverMaxHops 200 =
      [⟨1, "B"⟩, ⟨1, "C"⟩] := by decide +kernel
  rw [hTargets] at hTarget
  refine ⟨?_, by decide⟩
  rcases List.mem_pair.mp hTarget with rfl | rfl
  · decide
  · decide

/-- In a run of A and B alone the listing still offers C. -/
theorem payment_targets_offer_outsider :
    ¬TargetsAgree defaultRouting (buildGraphImpl .insertion 0 "UAH" fanDb) ["A", "B"] "A" 200 := by
  intro h
  have hListed : (⟨1, "C"⟩ : PaymentTarget) ∈
      paymentTargets (buildGraphImpl .insertion 0 "UAH" fanDb) "A" defaultRouting.serverMaxHops 200 := by
    decide +kernel
  exact absurd ((h.listed "C").mp ⟨_, hListed, rfl⟩).1 (by decide)

end Agreement

end GeoLedger

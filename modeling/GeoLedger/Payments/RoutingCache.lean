import Mathlib
import GeoLedger.Payments.Router
import GeoLedger.Simulator.Scenario

/-! The two caches of `PaymentRouter`: graphs, which expire, and topologies, which
do not. A build looks into its cache, reads the database when it finds nothing
there, and writes what it read into the cache later. -/
namespace GeoLedger

variable {env : Env}

/-- The active lines of an equivalent. -/
def activeLines (tl : TrustTable env) (code : String) : List TrustLine :=
  match env.directory.equivalentByCode code with
  | none => []
  | some equivalent => tl.rows.filter fun l => l.equivalentId = equivalent.id ∧ l.status = .active

/-- `topology_adj`: the creditors that each debtor may pay. -/
abbrev Topology := Dict Pid (List Pid)

namespace PaymentRouter

/-- Whether `_build_graph_impl` reaches its cache write. -/
def reachesCacheWrite (order : ReadOrder) (now : Time) (code : String) (db : Db env) : Bool :=
  match env.directory.equivalentByCode code with
  | none => false
  | some equivalent =>
      allParticipantIds
        (order.trustLines (db.trustLines.rows.filter fun l => l.equivalentId = equivalent.id ∧ l.status = .active))
        (order.debts (db.debts.rows.filter (·.equivalentId = equivalent.id))) (db.prepareLocks.live now) ≠ []

/-- The edge that a line gives the topology, between the texts of the PIDs. -/
def topologyEdge (directory : Directory) (l : TrustLine) : Option (Pid × Pid) :=
  match directory.participantById l.toParticipantId, directory.participantById l.fromParticipantId with
  | some debtor, some creditor =>
      if strip debtor.pid = "" ∨ strip creditor.pid = "" then none
      else some (strip debtor.pid, strip creditor.pid)
  | _, _ => none

/-- `adj.setdefault(d, set()).add(c)`. -/
def addTopologyEdge (adj : Topology) (edge : Pid × Pid) : Topology :=
  if edge.2 ∈ adj.getD edge.1 [] then adj else adj.set edge.1 (adj.getD edge.1 [] ++ [edge.2])

/-- The read of `build_topology`. -/
def readTopology (order : ReadOrder) (code : String) (db : Db env) : Topology :=
  ((order.trustLines (activeLines db.trustLines code)).filterMap (topologyEdge env.directory)).foldl
    addTopologyEdge Dict.empty

theorem mem_addTopologyEdge {adj : Topology} {edge : Pid × Pid} {u v : Pid} :
    v ∈ (addTopologyEdge adj edge).getD u [] ↔ v ∈ adj.getD u [] ∨ edge = (u, v) := by
  obtain ⟨d, c⟩ := edge
  unfold addTopologyEdge
  split
  · next hOld =>
      refine ⟨Or.inl, fun h => ?_⟩
      rcases h with h | h
      · exact h
      · cases h
        exact hOld
  · rw [Dict.getD, Dict.get?_set]
    by_cases hu : u = d
    · subst hu
      simp [Dict.getD, eq_comm]
    · have hNe : ¬(d, c) = (u, v) := fun h => hu (congrArg Prod.fst h).symm
      simp [Dict.getD, hu, hNe]

theorem mem_foldl_addTopologyEdge {adj : Topology} {edges : List (Pid × Pid)} {u v : Pid} :
    v ∈ (edges.foldl addTopologyEdge adj).getD u [] ↔ v ∈ adj.getD u [] ∨ (u, v) ∈ edges := by
  induction edges generalizing adj with
  | nil => simp
  | cons edge rest ih => rw [List.foldl_cons, ih, mem_addTopologyEdge, List.mem_cons, or_assoc, @eq_comm _ (u, v) edge]

/-- A read topology has the edges of the active lines. -/
theorem mem_readTopology {order : ReadOrder} {code : String} {db : Db env} {u v : Pid} :
    v ∈ (readTopology order code db).getD u [] ↔
      ∃ l ∈ activeLines db.trustLines code, topologyEdge env.directory l = some (u, v) := by
  rw [readTopology, mem_foldl_addTopologyEdge, List.mem_filterMap]
  have hEmpty : v ∉ (Dict.empty : Topology).getD u [] := List.not_mem_nil
  simp only [hEmpty, false_or, (order.trustLines_perm _).mem_iff]

end PaymentRouter

/-- A cached topology. Nothing reads `readAt`, the number of changes that were
committed when it was read. -/
structure CachedTopology where
  adj : Topology
  readAt : Nat

/-- A cached graph, with the time of its write. -/
structure CachedGraph where
  cachedAt : Time
  router : PaymentRouter
  readAt : Nat

structure RoutingCaches where
  graphCache : Dict String CachedGraph
  topologyCache : Dict String CachedTopology

/-- What is run on the caches after a change is committed: `invalidate_cache`
with a code, or the simulator's `invalidate_routing_cache`. -/
inductive Invalidation where
  | invalidateCache (code : String)
  | invalidateRoutingCache (equivalents : List String)
deriving DecidableEq

namespace RoutingCaches

def empty : RoutingCaches := ⟨Dict.empty, Dict.empty⟩

/-- `invalidate_cache(code)` drops the code from both caches, and
`invalidate_routing_cache` drops codes from the cache of graphs. -/
def invalidate (c : RoutingCaches) : Invalidation → RoutingCaches
  | .invalidateCache code => if code = "" then empty else ⟨c.graphCache.pop code, c.topologyCache.pop code⟩
  | .invalidateRoutingCache equivalents => { c with graphCache := equivalents.foldl Dict.pop c.graphCache }

/-- The graph that `build_graph` takes from the cache, while it is not older than
the time to live. -/
def cachedGraph? (c : RoutingCaches) (ttl now : Nat) (code : String) : Option CachedGraph :=
  if ttl = 0 then none else (c.graphCache.get? code).filter fun cached => now - cached.cachedAt ≤ ttl

theorem cachedGraph?_eq_some_iff {c : RoutingCaches} {ttl now : Nat} {code : String} {cached : CachedGraph} :
    c.cachedGraph? ttl now code = some cached ↔
      ttl ≠ 0 ∧ c.graphCache.get? code = some cached ∧ now - cached.cachedAt ≤ ttl := by
  unfold cachedGraph?
  split
  · next hTtl => simp [hTtl]
  · next hTtl => simp [hTtl, Option.filter_eq_some_iff]

/-- A topology survives an invalidation of another code, and those of events. -/
theorem topology_of_invalidate {c : RoutingCaches} {invalidation : Invalidation} {code : String}
    {cached : CachedTopology} (h : (c.invalidate invalidation).topologyCache.get? code = some cached) :
    c.topologyCache.get? code = some cached ∧ invalidation ≠ .invalidateCache code := by
  cases invalidation with
  | invalidateCache dropped =>
      simp only [invalidate] at h
      split at h
      · cases h
      · rw [Dict.get?_pop] at h
        split at h
        · cases h
        · next hCode => exact ⟨h, fun hSame => hCode (Invalidation.invalidateCache.inj hSame).symm⟩
  | invalidateRoutingCache equivalents =>
      refine ⟨h, fun hSame => ?_⟩
      cases hSame

/-- A graph survives the invalidations that do not name its code. -/
theorem graph_of_invalidate {c : RoutingCaches} {invalidation : Invalidation} {code : String}
    {cached : CachedGraph} (h : (c.invalidate invalidation).graphCache.get? code = some cached) :
    c.graphCache.get? code = some cached ∧ invalidation ≠ .invalidateCache code ∧
      ∀ equivalents, invalidation = .invalidateRoutingCache equivalents → code ∉ equivalents := by
  cases invalidation with
  | invalidateCache dropped =>
      simp only [invalidate] at h
      split at h
      · cases h
      · rw [Dict.get?_pop] at h
        split at h
        · cases h
        · next hCode =>
            refine ⟨h, fun hSame => hCode (Invalidation.invalidateCache.inj hSame).symm, fun _ hSame => ?_⟩
            cases hSame
  | invalidateRoutingCache equivalents =>
      simp only [invalidate, Dict.get?_foldl_pop] at h
      split at h
      · cases h
      · next hCode =>
          refine ⟨h, fun hSame => ?_, fun _ hSame => ?_⟩
          · cases hSame
          · cases hSame
            exact hCode

end RoutingCaches

end GeoLedger

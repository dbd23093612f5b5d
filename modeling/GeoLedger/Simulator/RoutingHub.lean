import Mathlib
import GeoLedger.Library.CommitLog
import GeoLedger.Library.Runs
import GeoLedger.Payments.RoutingCache
import GeoLedger.Simulator.Inject

/-! Coherence of the routing caches. Trust lines change through the service, the
interact actions and the inject events; each change is committed, and its
invalidation runs later. Builds read and write the caches in between. -/
namespace GeoLedger
open CommitLog PaymentRouter

variable {env : Env}

/-- The committed changes of trust lines. -/
inductive TrustLineChange where
  | create (fromParticipantId : Uuid) (data : TrustLineCreateRequest)
  | update (trustlineId userId : Uuid) (data : TrustLineUpdateRequest)
  | close (trustlineId userId : Uuid) (data : TrustLineCloseRequest)
  | actionCreate (perimeter : Option (List Pid)) (fromPid toPid equivalent limit : String)
  | actionUpdate (perimeter : Option (List Pid)) (fromPid toPid equivalent newLimit : String)
  | actionClose (perimeter : Option (List Pid)) (fromPid toPid equivalent : String)
  | inject (scenario : Scenario) (pidToParticipantId : Dict Pid Uuid) (effects : List InjectEffect)

/-- The participant with the id is registered. -/
def SimDb.hasId (s : SimDb env) (id : Uuid) : Bool :=
  env.directory.participants.any fun p => p.id = id ∧ p.pid ∈ s.participants.keys

/-- An update or a close of the service, with the code of the line's equivalent. -/
def serviceChange (s : SimDb env) (trustlineId : Uuid) (result : Except GeoError (Db env)) :
    Option (SimDb env × Invalidation) :=
  match result with
  | .error _ => none
  | .ok db => do
      let l ← s.db.trustLines.rows.find? (·.id = trustlineId)
      let equivalent ← env.directory.equivalentById l.equivalentId
      return ({ s with db := db }, .invalidateCache equivalent.code)

/-- An interact action, with the code of its equivalent. -/
def actionChange (result : Except ActionFailure (SimDb env × TopologyMutation)) :
    Option (SimDb env × Invalidation) :=
  match result with
  | .error _ => none
  | .ok (s, m) => some (s, .invalidateCache m.equivalent)

/-- The database after a change, and the invalidation that its code performs;
`none` when nothing is committed. -/
def TrustLineChange.apply (s : SimDb env) : TrustLineChange → Option (SimDb env × Invalidation)
  | .create fromParticipantId data =>
      if s.hasId fromParticipantId = false ∨ data.toPid ∉ s.participants.keys then none
      else match createTrustLine fromParticipantId data s.db with
        | .error _ => none
        | .ok db => some ({ s with db := db }, .invalidateCache data.equivalent)
  | .update trustlineId userId data => serviceChange s trustlineId (updateTrustLine trustlineId userId data s.db)
  | .close trustlineId userId data => serviceChange s trustlineId (closeTrustLine trustlineId userId data s.db)
  | .actionCreate perimeter fromPid toPid equivalent limit =>
      actionChange (actionTrustlineCreate perimeter fromPid toPid equivalent limit s)
  | .actionUpdate perimeter fromPid toPid equivalent newLimit =>
      actionChange (actionTrustlineUpdate perimeter fromPid toPid equivalent newLimit s)
  | .actionClose perimeter fromPid toPid equivalent =>
      actionChange (actionTrustlineClose perimeter fromPid toPid equivalent s)
  | .inject scenario pidToParticipantId effects =>
      (applyInjectEvent scenario pidToParticipantId effects s).map fun (s, result) =>
        (s, .invalidateRoutingCache result.affectedEquivalents)

section System

/-- A build of a topology between its read and its write. -/
structure TopologyBuild where
  code : String
  adj : Topology
  readAt : Nat

/-- A build of a graph between its read and its write. -/
structure GraphBuild where
  code : String
  router : PaymentRouter
  writes : Bool
  readAt : Nat

/-- One process: the database, the caches, the builds in flight, and the log of
the changes with their invalidations. -/
structure RoutingHub (env : Env) where
  sim : SimDb env
  now : Time
  ttl : Nat
  caches : RoutingCaches
  topologyBuilds : List TopologyBuild
  graphBuilds : List GraphBuild
  log : List (Entry (Db env))
  invalidations : List Invalidation

/-- A process that starts on a database. -/
def RoutingHub.start (sim : SimDb env) (ttl now : Nat) : RoutingHub env :=
  ⟨sim, now, ttl, .empty, [], [], [], []⟩

inductive CacheAction where
  | commit (change : TrustLineChange)
  | invalidate (i : Nat)
  | startTopology (order : ReadOrder) (code : String)
  | finishTopology (i : Nat)
  | startGraph (order : ReadOrder) (code : String)
  | finishGraph (i : Nat)
  | tick (seconds : Nat)

namespace RoutingHub

variable (s : RoutingHub env)

/-- The topology that a build started now returns. -/
def buildTopology (order : ReadOrder) (code : String) : Except GeoError Topology := do
  validateEquivalentCode code
  match s.caches.topologyCache.get? code with
  | some cached => return cached.adj
  | none => return readTopology order code s.sim.db

/-- The graph that a build started now returns. -/
def buildGraph (order : ReadOrder) (code : String) : Except GeoError PaymentRouter := do
  validateEquivalentCode code
  match s.caches.cachedGraph? s.ttl s.now code with
  | some cached => return cached.router
  | none => return buildGraphImpl order s.now code s.sim.db

/-- The change is committed, and its invalidation waits. -/
def commit (change : TrustLineChange) : RoutingHub env :=
  match change.apply s.sim with
  | none => s
  | some (sim, invalidation) =>
      { s with
        sim := sim
        log := s.log ++ [⟨s.sim.db, sim.db, false⟩]
        invalidations := s.invalidations ++ [invalidation] }

/-- The invalidation of a committed change runs. -/
def invalidate (i : Nat) : RoutingHub env :=
  match s.invalidations[i]? with
  | none => s
  | some invalidation =>
      { s with caches := s.caches.invalidate invalidation, log := CommitLog.invalidate s.log i }

/-- The read of `build_topology`, when the cache has nothing. -/
def startTopology (order : ReadOrder) (code : String) : RoutingHub env :=
  match validateEquivalentCode code, s.caches.topologyCache.get? code with
  | .ok _, none =>
      { s with topologyBuilds := s.topologyBuilds ++ [⟨code, readTopology order code s.sim.db, s.log.length⟩] }
  | _, _ => s

/-- The write of `build_topology`. -/
def finishTopology (i : Nat) : RoutingHub env :=
  match s.topologyBuilds[i]? with
  | none => s
  | some build =>
      { s with
        caches := { s.caches with
          topologyCache := s.caches.topologyCache.set build.code ⟨build.adj, build.readAt⟩ }
        topologyBuilds := s.topologyBuilds.eraseIdx i }

/-- The read of `build_graph`, when the cache has nothing young enough. -/
def startGraph (order : ReadOrder) (code : String) : RoutingHub env :=
  match validateEquivalentCode code, s.caches.cachedGraph? s.ttl s.now code with
  | .ok _, none =>
      { s with
        graphBuilds := s.graphBuilds ++ [⟨code, buildGraphImpl order s.now code s.sim.db,
          reachesCacheWrite order s.now code s.sim.db, s.log.length⟩] }
  | _, _ => s

/-- The write of `build_graph`, with a time to live. -/
def finishGraph (i : Nat) : RoutingHub env :=
  match s.graphBuilds[i]? with
  | none => s
  | some build =>
      { s with
        caches :=
          if s.ttl = 0 ∨ build.writes = false then s.caches
          else { s.caches with
            graphCache := s.caches.graphCache.set build.code ⟨s.now, build.router, build.readAt⟩ }
        graphBuilds := s.graphBuilds.eraseIdx i }

def step : CacheAction → RoutingHub env
  | .commit change => s.commit change
  | .invalidate i => s.invalidate i
  | .startTopology order code => s.startTopology order code
  | .finishTopology i => s.finishTopology i
  | .startGraph order code => s.startGraph order code
  | .finishGraph i => s.finishGraph i
  | .tick seconds => { s with now := s.now + seconds }

end RoutingHub

end System

section Affected

variable {s s' : SimDb env} {tl tl' : TrustTable env} {code : String}

/-- What the caches show of a database: the active lines of a code. -/
def linesOf (db : Db env) (code : String) : List TrustLine := activeLines db.trustLines code

theorem activeLines_congr (h : ∀ e ∈ env.directory.equivalents, e.code = code →
    tl'.rows.filter (fun l => l.equivalentId = e.id ∧ l.status = .active) =
      tl.rows.filter fun l => l.equivalentId = e.id ∧ l.status = .active) :
    activeLines tl' code = activeLines tl code := by
  unfold activeLines
  split
  · rfl
  · next e he =>
      have hFound := List.find?_some he
      exact h e (List.mem_of_find?_eq_some he) (by simpa using hFound)

/-- Writes to lines of one equivalent show under its code only. -/
theorem code_eq_of_affected {e : Equivalent} (he : e ∈ env.directory.equivalents)
    (hOther : ∀ id ≠ e.id, tl'.rows.filter (fun l => l.equivalentId = id ∧ l.status = .active) =
      tl.rows.filter fun l => l.equivalentId = id ∧ l.status = .active)
    (hAffected : activeLines tl code ≠ activeLines tl' code) : code = e.code := by
  by_contra hCode
  refine hAffected (activeLines_congr fun e' he' hEq => hOther e'.id fun hId => hCode ?_).symm
  rw [← hEq, Rows.eq_of_column env.directory.equivalent_id_unique he' he hId]

theorem filter_insert {x y w id : Uuid} {amount : Amount} {policy : Policy}
    (h : tl.insert x y w amount policy = .ok tl') (hNe : id ≠ w) :
    tl'.rows.filter (fun l => l.equivalentId = id ∧ l.status = .active) =
      tl.rows.filter fun l => l.equivalentId = id ∧ l.status = .active := by
  rw [TrustTable.rows_of_insert h, List.filter_append, List.filter_cons_of_neg (by simp [hNe.symm]),
    List.filter_nil, List.append_nil]

theorem filter_write {l : TrustLine} {id : Uuid} {amount : Amount} {policy : Option Policy}
    (hl : l ∈ tl.rows) (h : tl.write l.id amount policy = .ok tl') (hNe : id ≠ l.equivalentId) :
    tl'.rows.filter (fun l => l.equivalentId = id ∧ l.status = .active) =
      tl.rows.filter fun l => l.equivalentId = id ∧ l.status = .active := by
  rw [TrustTable.rows_of_write h]
  refine Rows.filter_update (fun r => rfl) fun r hr hId => ?_
  rw [Rows.eq_of_column tl.id_unique hr hl hId]
  simp [hNe.symm]

theorem filter_close {l : TrustLine} {id : Uuid} (hl : l ∈ tl.rows) (hNe : id ≠ l.equivalentId) :
    (tl.close l.id).rows.filter (fun l => l.equivalentId = id ∧ l.status = .active) =
      tl.rows.filter fun l => l.equivalentId = id ∧ l.status = .active := by
  refine Rows.filter_update_of_drops fun r hr hId => ?_
  rw [Rows.eq_of_column tl.id_unique hr hl hId]
  simp [hNe.symm]

/-- An update or a close of the service shows under the code that it invalidates. -/
theorem code_eq_of_serviceChange {trustlineId : Uuid} {result : Except GeoError (Db env)} {c : String}
    (h : serviceChange s trustlineId result = some (s', .invalidateCache c))
    (hResult : ∀ db, result = .ok db → ∀ l ∈ s.db.trustLines.rows, l.id = trustlineId → ∀ id ≠ l.equivalentId,
      db.trustLines.rows.filter (fun l => l.equivalentId = id ∧ l.status = .active) =
        s.db.trustLines.rows.filter fun l => l.equivalentId = id ∧ l.status = .active)
    (hAffected : linesOf s.db code ≠ linesOf s'.db code) : code = c := by
  unfold serviceChange at h
  split at h
  · cases h
  · next db =>
      obtain ⟨l, hFound, h⟩ := Option.bind_eq_some_iff.mp h
      obtain ⟨e, hEquivalent, h⟩ := Option.bind_eq_some_iff.mp h
      cases h
      have hId := List.find?_some hFound
      have hE := List.find?_some hEquivalent
      simp only [decide_eq_true_eq] at hId hE
      refine code_eq_of_affected (List.mem_of_find?_eq_some hEquivalent) (fun id hNe => ?_) hAffected
      exact hResult db rfl l (List.mem_of_find?_eq_some hFound) hId id (hE ▸ hNe)

theorem eq_of_actionChange {result : Except ActionFailure (SimDb env × TopologyMutation)} {c : String}
    (h : actionChange result = some (s', .invalidateCache c)) : ∃ m, result = .ok (s', m) ∧ m.equivalent = c := by
  unfold actionChange at h
  split at h
  · cases h
  · next m =>
      cases h
      exact ⟨m, rfl, rfl⟩

/-- Every change that is invalidated by its code shows under that code only. -/
theorem TrustLineChange.code_eq {change : TrustLineChange} {c : String}
    (h : change.apply s = some (s', .invalidateCache c))
    (hAffected : linesOf s.db code ≠ linesOf s'.db code) : code = c := by
  cases change with
  | create fromParticipantId data =>
      simp only [apply] at h
      split at h
      · cases h
      · split at h
        · cases h
        · next db hDb =>
            cases h
            obtain ⟨_, e, _, tl, hE, _, _, _, hInsert, rfl⟩ := createTrustLine_effect hDb
            have hCode := List.find?_some hE
            rw [decide_eq_true_eq] at hCode
            rw [← hCode]
            exact code_eq_of_affected (List.mem_of_find?_eq_some hE) (fun id hNe => filter_insert hInsert hNe)
              hAffected
  | update trustlineId userId data =>
      refine code_eq_of_serviceChange h (fun db hDb l hl hId id hNe => ?_) hAffected
      obtain ⟨l', hl', hId', _, _, _, _, tl, hWrite, rfl⟩ := updateTrustLine_effect hDb
      rw [Rows.eq_of_column s.db.trustLines.id_unique hl hl' (hId.trans hId'.symm)] at hNe
      exact filter_write hl' hWrite hNe
  | close trustlineId userId data =>
      refine code_eq_of_serviceChange h (fun db hDb l hl hId id hNe => ?_) hAffected
      obtain ⟨l', hl', hId', _, _, _, _, rfl⟩ := closeTrustLine_effect hDb
      rw [Rows.eq_of_column s.db.trustLines.id_unique hl hl' (hId.trans hId'.symm)] at hNe
      exact filter_close hl' hNe
  | actionCreate perimeter fromPid toPid equivalent limit =>
      obtain ⟨m, hOk, rfl⟩ := eq_of_actionChange h
      obtain ⟨_, _, e, _, tl, _, hEdge, hInsert, rfl, rfl⟩ := actionTrustlineCreate_effect hOk
      obtain ⟨_, _, _, _, _, hE⟩ := resolveEdge_ok hEdge
      exact code_eq_of_affected (List.mem_of_find?_eq_some hE) (fun id hNe => filter_insert hInsert hNe) hAffected
  | actionUpdate perimeter fromPid toPid equivalent newLimit =>
      obtain ⟨m, hOk, rfl⟩ := eq_of_actionChange h
      obtain ⟨_, _, e, _, l, tl, _, hEdge, hLive, hWrite, rfl, rfl⟩ := actionTrustlineUpdate_effect hOk
      obtain ⟨_, _, _, _, _, hE⟩ := resolveEdge_ok hEdge
      obtain ⟨hl, _, hKey⟩ := TrustTable.mem_of_live hLive
      have hId : l.equivalentId = e.id := congrArg (fun key => key.2.2) hKey
      exact code_eq_of_affected (List.mem_of_find?_eq_some hE)
        (fun id hNe => filter_write hl hWrite (hId ▸ hNe)) hAffected
  | actionClose perimeter fromPid toPid equivalent =>
      obtain ⟨m, hOk, rfl⟩ := eq_of_actionChange h
      obtain ⟨_, _, e, l, hEdge, hLive, rfl, rfl⟩ := actionTrustlineClose_effect hOk
      obtain ⟨_, _, _, _, _, hE⟩ := resolveEdge_ok hEdge
      obtain ⟨hl, _, hKey⟩ := TrustTable.mem_of_live hLive
      have hId : l.equivalentId = e.id := congrArg (fun key => key.2.2) hKey
      exact code_eq_of_affected (List.mem_of_find?_eq_some hE)
        (fun id hNe => filter_close hl (hId ▸ hNe)) hAffected
  | inject scenario pidToParticipantId effects =>
      obtain ⟨_, _, h⟩ := Option.map_eq_some_iff.mp h
      cases h

end Affected

end GeoLedger

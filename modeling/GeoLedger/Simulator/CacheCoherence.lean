import Mathlib
import GeoLedger.Simulator.RoutingHub

/-! Coherence of the routing caches: the runs in which every build returns what
the invalidated changes left. A topology stays in its cache until the service
changes a line of its code, so the inject events and the late writes must meet a
topology that was read after their change. -/
namespace GeoLedger
open CommitLog PaymentRouter

variable {env : Env}

/-- The edges of the active lines of a code. -/
def topologyOf (db : Db env) (code : String) : Set (Pid × Pid) :=
  {edge | ∃ l ∈ linesOf db code, topologyEdge env.directory l = some edge}

theorem linesOf_ne_of_topologyOf_ne {db db' : Db env} {code : String}
    (h : topologyOf db code ≠ topologyOf db' code) : linesOf db code ≠ linesOf db' code := by
  intro hSame
  exact h (by rw [topologyOf, topologyOf, hSame])

namespace RoutingHub

/-- The schedules that keep the caches coherent. When the invalidation of an event
runs, a cached topology that the event changed was read after it, and so was
a graph that it does not drop; a build writes what no invalidated change has
outdated. -/
def Fits (s : RoutingHub env) : CacheAction → Prop
  | .invalidate i => ∀ entry codes, s.log[i]? = some entry →
      s.invalidations[i]? = some (.invalidateRoutingCache codes) → ∀ code,
        (entry.affects topologyOf code →
          ∀ cached, s.caches.topologyCache.get? code = some cached → i < cached.readAt) ∧
        (entry.affects linesOf code → code ∉ codes →
          ∀ cached, s.caches.cachedGraph? s.ttl s.now code = some cached → i < cached.readAt)
  | .finishTopology i => ∀ build, s.topologyBuilds[i]? = some build →
      Fresh topologyOf s.log build.readAt build.code
  | .finishGraph i => ∀ build, s.graphBuilds[i]? = some build → s.ttl ≠ 0 → build.writes = true →
      Fresh linesOf s.log build.readAt build.code
  | _ => True

/-- The database after the first committed changes. -/
def dbAt (s : RoutingHub env) (start : Db env) (n : Nat) : Db env := stateAt start s.log n

/-- Every build that is started returns what the invalidated changes left: a
topology the edges of the active lines, when no change of them waits for its
invalidation, and a graph the capacities computed after every change whose
invalidation has run. -/
structure Coherent (start : Db env) (s : RoutingHub env) : Prop where
  topology : ∀ order code adj, s.buildTopology order code = .ok adj →
    (∀ entry ∈ s.log, entry.affects topologyOf code → entry.invalidated = true) →
      ∀ u v, v ∈ adj.getD u [] ↔ (u, v) ∈ topologyOf s.sim.db code
  graph : ∀ order code router, s.buildGraph order code = .ok router → ∀ i entry, s.log[i]? = some entry →
    entry.affects linesOf code → entry.invalidated = true →
      ∃ n, i < n ∧ n ≤ s.log.length ∧ ∃ order now, router = buildGraphImpl order now code (s.dbAt start n)

/-- A topology that was read from a database. -/
def TopologyRead (code : String) (adj : Topology) (db : Db env) : Prop := ∃ order, adj = readTopology order code db

/-- A graph that was computed from a database. -/
def GraphRead (code : String) (router : PaymentRouter) (db : Db env) : Prop :=
  ∃ order now, router = buildGraphImpl order now code db

/-- What the schedules keep: builds and cached values were read from the states
of the log, and the cached values are fresh. -/
structure Tracked (start : Db env) (s : RoutingHub env) : Prop where
  chained : Chained start s.log
  current : s.dbAt start s.log.length = s.sim.db
  length_eq : s.invalidations.length = s.log.length
  code_eq : ∀ (i : Nat) (entry : Entry (Db env)) (c : String), s.log[i]? = some entry →
    s.invalidations[i]? = some (.invalidateCache c) → ∀ code, entry.affects linesOf code → code = c
  topologyBuilds : ∀ build ∈ s.topologyBuilds, Seen start s.log build.readAt (TopologyRead build.code build.adj)
  graphBuilds : ∀ build ∈ s.graphBuilds, Seen start s.log build.readAt (GraphRead build.code build.router)
  topologies : ∀ code cached, s.caches.topologyCache.get? code = some cached →
    Seen start s.log cached.readAt (TopologyRead code cached.adj) ∧ Fresh topologyOf s.log cached.readAt code
  graphs : ∀ code cached, s.caches.cachedGraph? s.ttl s.now code = some cached →
    Seen start s.log cached.readAt (GraphRead code cached.router) ∧ Fresh linesOf s.log cached.readAt code

section Tracked

variable {start : Db env} {s : RoutingHub env}

/-- At the start there are no caches to keep track of. -/
theorem tracked_start (sim : SimDb env) (ttl now : Nat) : Tracked sim.db (RoutingHub.start sim ttl now) where
  chained := chained_nil
  current := rfl
  length_eq := rfl
  code_eq i entry c h := by cases h
  topologyBuilds build h := by cases h
  graphBuilds build h := by cases h
  topologies code cached h := by cases h
  graphs code cached h := by
    unfold RoutingCaches.cachedGraph? at h
    split at h
    · cases h
    · cases h

theorem tracked_commit (h : Tracked start s) (change : TrustLineChange) : Tracked start (s.commit change) := by
  unfold commit
  split
  · exact h
  · next sim invalidation hApply =>
      have hNew {i : Nat} {entry : Entry (Db env)} (hLog : i = s.log.length)
          (hEntry : (s.log ++ [⟨s.sim.db, sim.db, false⟩])[i]? = some entry) :
          entry = ⟨s.sim.db, sim.db, false⟩ := by
        subst hLog
        rw [List.getElem?_append_right le_rfl, Nat.sub_self] at hEntry
        exact (Option.some.inj hEntry).symm
      exact {
        chained := h.current ▸ h.chained.commit sim.db false
        current := by
          show stateAt start _ _ = sim.db
          rw [List.length_append, List.length_singleton]
          exact stateAt_succ (List.getElem?_concat_length)
        length_eq := by rw [List.length_append, List.length_append, h.length_eq]; rfl
        code_eq := fun i entry c hEntry hInvalidation code hAffects => by
          rcases lt_trichotomy i s.log.length with hOld | hLast | hOver
          · rw [List.getElem?_append_left hOld] at hEntry
            rw [List.getElem?_append_left (h.length_eq ▸ hOld)] at hInvalidation
            exact h.code_eq i entry c hEntry hInvalidation code hAffects
          · rw [hNew hLast hEntry] at hAffects
            rw [List.getElem?_append_right (by rw [h.length_eq, hLast]), h.length_eq, hLast, Nat.sub_self] at hInvalidation
            cases hInvalidation
            exact TrustLineChange.code_eq hApply hAffects
          · rw [List.getElem?_eq_none (by rw [List.length_append, List.length_singleton]; exact hOver)] at hEntry
            cases hEntry
        topologyBuilds := fun build hBuild => (h.topologyBuilds build hBuild).commit _
        graphBuilds := fun build hBuild => (h.graphBuilds build hBuild).commit _
        topologies := fun code cached hCached =>
          ⟨(h.topologies code cached hCached).1.commit _, (h.topologies code cached hCached).2.commit _ _⟩
        graphs := fun code cached hCached =>
          ⟨(h.graphs code cached hCached).1.commit _, (h.graphs code cached hCached).2.commit _ _⟩ }

theorem tracked_invalidate (h : Tracked start s) {i : Nat} (hFits : s.Fits (.invalidate i)) :
    Tracked start (s.invalidate i) := by
  unfold invalidate
  split
  · exact h
  · next invalidation hInvalidation =>
      have hRun : ∀ entry, s.log[i]? = some entry → ∀ code, entry.affects linesOf code →
          invalidation = .invalidateCache code ∨ ∃ codes, invalidation = .invalidateRoutingCache codes := by
        intro entry hEntry code hAffects
        cases invalidation with
        | invalidateCache c => exact Or.inl (h.code_eq i entry c hEntry hInvalidation code hAffects ▸ rfl)
        | invalidateRoutingCache codes => exact Or.inr ⟨codes, rfl⟩
      exact {
        chained := h.chained.invalidate
        current := by
          show stateAt start _ _ = s.sim.db
          rw [stateAt_invalidate, length_invalidate]
          exact h.current
        length_eq := by rw [length_invalidate]; exact h.length_eq
        code_eq := fun j entry c hEntry hCode code hAffects => by
          obtain ⟨old, hOld, hBefore, hAfter, _⟩ := getElem?_invalidate hEntry
          rw [Entry.affects, hBefore, hAfter] at hAffects
          exact h.code_eq j old c hOld hCode code hAffects
        topologyBuilds := fun build hBuild => (h.topologyBuilds build hBuild).invalidate
        graphBuilds := fun build hBuild => (h.graphBuilds build hBuild).invalidate
        topologies := fun code cached hCached => by
          obtain ⟨hOld, hOther⟩ := RoutingCaches.topology_of_invalidate hCached
          obtain ⟨hSeen, hFresh⟩ := h.topologies code cached hOld
          refine ⟨hSeen.invalidate, hFresh.invalidate fun entry hEntry hAffects => ?_⟩
          rcases hRun entry hEntry code (linesOf_ne_of_topologyOf_ne hAffects) with hSame | ⟨codes, rfl⟩
          · exact absurd hSame hOther
          · exact (hFits entry codes hEntry hInvalidation code).1 hAffects cached hOld
        graphs := fun code cached hCached => by
          obtain ⟨hTtl, hCached, hYoung⟩ := RoutingCaches.cachedGraph?_eq_some_iff.mp hCached
          obtain ⟨hOld, hOther, hDropped⟩ := RoutingCaches.graph_of_invalidate hCached
          have hOld := RoutingCaches.cachedGraph?_eq_some_iff.mpr ⟨hTtl, hOld, hYoung⟩
          obtain ⟨hSeen, hFresh⟩ := h.graphs code cached hOld
          refine ⟨hSeen.invalidate, hFresh.invalidate fun entry hEntry hAffects => ?_⟩
          rcases hRun entry hEntry code hAffects with hSame | ⟨codes, rfl⟩
          · exact absurd hSame hOther
          · exact (hFits entry codes hEntry hInvalidation code).2 hAffects (hDropped codes rfl) cached hOld }

theorem tracked_startTopology (h : Tracked start s) (order : ReadOrder) (code : String) :
    Tracked start (s.startTopology order code) := by
  unfold startTopology
  split
  · refine { h with topologyBuilds := fun build hBuild => ?_ }
    rcases List.mem_append.mp hBuild with hOld | hNew
    · exact h.topologyBuilds build hOld
    · rw [List.mem_singleton.mp hNew]
      exact ⟨le_rfl, order, by rw [← h.current]; rfl⟩
  · exact h

theorem tracked_startGraph (h : Tracked start s) (order : ReadOrder) (code : String) :
    Tracked start (s.startGraph order code) := by
  unfold startGraph
  split
  · refine { h with graphBuilds := fun build hBuild => ?_ }
    rcases List.mem_append.mp hBuild with hOld | hNew
    · exact h.graphBuilds build hOld
    · rw [List.mem_singleton.mp hNew]
      exact ⟨le_rfl, order, s.now, by rw [← h.current]; rfl⟩
  · exact h

theorem tracked_finishTopology (h : Tracked start s) {i : Nat} (hFits : s.Fits (.finishTopology i)) :
    Tracked start (s.finishTopology i) := by
  unfold finishTopology
  split
  · exact h
  · next build hBuild =>
      refine { h with
        topologyBuilds := fun b hb => h.topologyBuilds b (List.mem_of_mem_eraseIdx hb)
        topologies := fun code cached hCached => ?_ }
      rw [Dict.get?_set] at hCached
      split at hCached
      · next hCode =>
          cases hCached
          subst hCode
          exact ⟨h.topologyBuilds build (List.mem_of_getElem? hBuild), hFits build hBuild⟩
      · exact h.topologies code cached hCached

theorem tracked_finishGraph (h : Tracked start s) {i : Nat} (hFits : s.Fits (.finishGraph i)) :
    Tracked start (s.finishGraph i) := by
  unfold finishGraph
  split
  · exact h
  · next build hBuild =>
      refine { h with
        graphBuilds := fun b hb => h.graphBuilds b (List.mem_of_mem_eraseIdx hb)
        topologies := fun code cached hCached => ?_
        graphs := fun code cached hCached => ?_ }
      · refine h.topologies code cached ?_
        simp only at hCached
        split at hCached
        · exact hCached
        · exact hCached
      · simp only at hCached
        split at hCached
        · exact h.graphs code cached hCached
        · next hWrites =>
            push Not at hWrites
            obtain ⟨hTtl, hCached, hYoung⟩ := RoutingCaches.cachedGraph?_eq_some_iff.mp hCached
            rw [Dict.get?_set] at hCached
            split at hCached
            · next hCode =>
                cases hCached
                subst hCode
                exact ⟨h.graphBuilds build (List.mem_of_getElem? hBuild),
                  hFits build hBuild hTtl (Bool.not_eq_false _ ▸ hWrites.2)⟩
            · exact h.graphs code cached (RoutingCaches.cachedGraph?_eq_some_iff.mpr ⟨hTtl, hCached, hYoung⟩)

/-- Time takes graphs out of use, and brings none back. -/
theorem tracked_tick (h : Tracked start s) (seconds : Nat) : Tracked start { s with now := s.now + seconds } := by
  refine { h with graphs := fun code cached hCached => h.graphs code cached ?_ }
  obtain ⟨hTtl, hCached, hYoung⟩ := RoutingCaches.cachedGraph?_eq_some_iff.mp hCached
  refine RoutingCaches.cachedGraph?_eq_some_iff.mpr ⟨hTtl, hCached, ?_⟩
  simp only at hYoung
  omega

/-- Every action that fits keeps track of the caches. -/
theorem tracked_step (h : Tracked start s) (action : CacheAction) (hFits : s.Fits action) :
    Tracked start (s.step action) := by
  cases action with
  | commit change => exact tracked_commit h change
  | invalidate i => exact tracked_invalidate h hFits
  | startTopology order code => exact tracked_startTopology h order code
  | finishTopology i => exact tracked_finishTopology h hFits
  | startGraph order code => exact tracked_startGraph h order code
  | finishGraph i => exact tracked_finishGraph h hFits
  | tick seconds => exact tracked_tick h seconds

/-- Tracked caches are coherent. -/
theorem Tracked.coherent (h : Tracked start s) : Coherent start s where
  topology order code adj hBuild hSettled u v := by
    obtain ⟨_, _, hBuild⟩ := Outcomes.bind_eq_ok_iff.mp hBuild
    split at hBuild
    · next cached hCached =>
        cases hBuild
        obtain ⟨⟨hRead, order, hAdj⟩, hFresh⟩ := h.topologies code cached hCached
        have hView := hFresh.view_eq h.chained hRead hSettled
        rw [hAdj, mem_readTopology]
        have hCurrent : stateAt start s.log s.log.length = s.sim.db := h.current
        rw [hCurrent] at hView
        rw [← hView]
        exact Iff.rfl
    · cases hBuild
      exact mem_readTopology
  graph order code router hBuild i entry hEntry hAffects hInvalidated := by
    have hLength : i < s.log.length := (List.getElem?_eq_some_iff.mp hEntry).1
    obtain ⟨_, _, hBuild⟩ := Outcomes.bind_eq_ok_iff.mp hBuild
    split at hBuild
    · next cached hCached =>
        cases hBuild
        obtain ⟨⟨hRead, hRouter⟩, hFresh⟩ := h.graphs code cached hCached
        exact ⟨cached.readAt, hFresh i entry hEntry hInvalidated hAffects, hRead, hRouter⟩
    · cases hBuild
      exact ⟨s.log.length, hLength, le_rfl, order, s.now, by rw [h.current]⟩

end Tracked

/-- In every run whose schedule fits, every build returns what the invalidated
changes left. -/
theorem routing_caches_coherent {sim : SimDb env} {ttl now : Nat} {trace : List CacheAction} {s : RoutingHub env}
    (hRun : Transition.Run step Fits (RoutingHub.start sim ttl now) trace s) : Coherent sim.db s :=
  (hRun.invariant (tracked_start sim ttl now) fun _ action hTracked hFits =>
    tracked_step hTracked action hFits).coherent

section Runs

/-- Two registered participants and no lines. -/
def pairSim : SimDb (Env.sample .numeric208 true) :=
  ⟨.empty, Dict.ofList [("A", .active), ("B", .active)]⟩

/-- An event that lets A owe B. -/
def injectLine : TrustLineChange :=
  .inject ⟨"", "UAH", [], []⟩ Dict.empty [.createTrustline "B" "A" "UAH" (.number 100)]

/-- The event drops a graph that was read before it, and meets a topology that was
read after it. -/
def freshTrace : List CacheAction :=
  [.startGraph .insertion "UAH", .finishGraph 0, .commit injectLine, .startTopology .insertion "UAH",
    .finishTopology 0, .invalidate 0]

def freshHub : RoutingHub (Env.sample .numeric208 true) := freshTrace.foldl step (RoutingHub.start pairSim 30 0)

/-- The process when the invalidation of the event runs. -/
def beforeInvalidation : RoutingHub (Env.sample .numeric208 true) :=
  (freshTrace.take 5).foldl step (RoutingHub.start pairSim 30 0)

/-- In that run every build returns the new line. -/
theorem routing_caches_coherent_fresh : Coherent pairSim.db freshHub := by
  have hRun : Transition.Run step Fits (RoutingHub.start pairSim 30 0) freshTrace freshHub := by
    refine (((((Transition.Run.nil.snoc trivial).snoc ?_).snoc trivial).snoc trivial).snoc ?_).snoc ?_
    · intro build _ _ _ i entry hEntry
      cases hEntry
    · intro build _ i entry hEntry hInvalidated
      have hWaiting : ∀ entry ∈ ((freshTrace.take 4).foldl step (RoutingHub.start pairSim 30 0)).log,
          entry.invalidated = false := by decide +kernel
      rw [hWaiting entry (List.mem_of_getElem? hEntry)] at hInvalidated
      cases hInvalidated
    · intro entry codes _ hCodes code
      have hTopologies : ∀ cached ∈ beforeInvalidation.caches.topologyCache.items, 0 < cached.2.readAt := by
        decide +kernel
      have hGraphs : ∀ cached ∈ beforeInvalidation.caches.graphCache.items, cached.1 = "UAH" := by decide +kernel
      have hInject : beforeInvalidation.invalidations[0]? = some (.invalidateRoutingCache ["UAH"]) := by
        decide +kernel
      refine ⟨fun _ cached hCached => hTopologies _ (Dict.get?_eq_some_iff.mp hCached), ?_⟩
      intro _ hCode cached hCached
      obtain ⟨_, hCached, _⟩ := RoutingCaches.cachedGraph?_eq_some_iff.mp hCached
      cases hInject.symm.trans hCodes
      exact absurd (List.mem_singleton.mpr (hGraphs _ (Dict.get?_eq_some_iff.mp hCached))) hCode
  exact routing_caches_coherent hRun

/-- A topology is read and cached before the event, and survives its invalidation. -/
def staleTrace : List CacheAction :=
  [.startTopology .insertion "UAH", .finishTopology 0, .commit injectLine, .invalidate 0]

def staleHub : RoutingHub (Env.sample .numeric208 true) := staleTrace.foldl step (RoutingHub.start pairSim 30 0)

/-- After that run a topology is built without the new line. -/
theorem stale_topology_after_inject :
    Transition.Run step (fun _ _ => True) (RoutingHub.start pairSim 30 0) staleTrace staleHub ∧
      ¬Coherent pairSim.db staleHub := by
  refine ⟨Transition.Run.of_foldl _ _ _, fun h => ?_⟩
  have hInvalidated : ∀ entry ∈ staleHub.log, entry.invalidated = true := by decide +kernel
  have hLine : ∃ l ∈ linesOf staleHub.sim.db "UAH", topologyEdge (Env.sample .numeric208 true).directory l =
      some ("A", "B") := by decide +kernel
  have hItems : (staleHub.caches.topologyCache.get? "UAH").map (·.adj.items) = some [] := by decide +kernel
  obtain ⟨cached, hCached, hEmpty⟩ := Option.map_eq_some_iff.mp hItems
  have hValid : validateEquivalentCode "UAH" = .ok () := rfl
  have hBuild : staleHub.buildTopology .insertion "UAH" = .ok cached.adj := by
    rw [buildTopology, hValid, hCached]
    rfl
  have hMem := (h.topology .insertion "UAH" cached.adj hBuild (fun entry hEntry _ => hInvalidated entry hEntry)
    "A" "B").mpr hLine
  rw [Dict.getD, Dict.get?, hEmpty] at hMem
  cases hMem

end Runs

end RoutingHub

end GeoLedger

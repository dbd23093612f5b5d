import Mathlib
import GeoLedger.Library.Refresh
import GeoLedger.Ledger
import GeoLedger.Payments.FlowNetting
import GeoLedger.Simulator.EdgePatches

/-! When patches reach the snapshot. The links and the nodes of a client are
fresh or covered by a pending request, as long as no payment moves a link that it
does not ask for and no patch reads debts or limits that the snapshot does not. -/
namespace GeoLedger
open Outcomes

variable {env : Env}

section Landing

variable {t t' : DebtTable env} {flows : List Flow} {a b e : Uuid}

/-- Stored flows leave a pair they run between with its balance and their total. -/
theorem owed_applyFlows (hPos : ∀ f ∈ flows, 0 < f.amount) (hE : ∀ f ∈ flows, f.equivalentId = e)
    (hGrid : ∀ f ∈ flows, f.amount ∈ env.column.grid) (h : applyFlows flows t = .ok t') (a b : Uuid) :
    t'.owed a b e = if ∃ f ∈ flows, f.Between a b then max (t.balance a b e + pairDelta flows a b) 0
      else t.owed a b e := by
  have hAll : flows.filter (·.equivalentId = e) = flows :=
    List.filter_eq_self.mpr fun f hf => decide_eq_true (hE f hf)
  have hOwed := (landing_applyFlows hPos hGrid h a b e).2
  rwa [hAll] at hOwed

end Landing

namespace RunView

variable {run : RunView env} {t t' : DebtTable env} {p : Participant}

/-- `credit - debit` of a participant over the debts with participants outside the run. -/
def outsideNet (run : RunView env) (t : DebtTable env) (p : Participant) : Amount :=
  ((t.rows.filter fun d => d.creditorId = p.id ∧ d.equivalentId = run.equivalentId ∧
      d.debtorId ∉ run.participantIds).map (·.amount)).sum -
    ((t.rows.filter fun d => d.debtorId = p.id ∧ d.equivalentId = run.equivalentId ∧
      d.creditorId ∉ run.participantIds).map (·.amount)).sum

theorem mem_participantIds (hp : p ∈ run.nodes) : p.id ∈ run.participantIds := List.mem_map_of_mem hp

/-- The balance over all debts is the balance inside the run and the one outside of it. -/
theorem netPosition_eq_add (hp : p ∈ run.nodes) :
    t.netPosition p.id run.equivalentId = run.insideNet t p + run.outsideNet t p := by
  have hId := mem_participantIds hp
  have hSplit (side other : Debt → Uuid) :
      ((t.rows.filter fun d => side d = p.id ∧ d.equivalentId = run.equivalentId).map (·.amount)).sum =
        ((t.rows.filter fun d => (d.equivalentId = run.equivalentId ∧ side d ∈ run.participantIds ∧
          other d ∈ run.participantIds) ∧ side d = p.id).map (·.amount)).sum +
        ((t.rows.filter fun d => side d = p.id ∧ d.equivalentId = run.equivalentId ∧
          other d ∉ run.participantIds).map (·.amount)).sum := by
    simp only [Rows.sum_filter, ← List.sum_map_add]
    congr 1
    refine List.map_congr_left fun d _ => ?_
    by_cases hSide : side d = p.id
    · by_cases hOther : other d ∈ run.participantIds <;> simp [hSide, hId, hOther]
    · simp [hSide]
  rw [DebtTable.netPosition, DebtTable.credits, DebtTable.debits, hSplit Debt.creditorId Debt.debtorId,
    hSplit Debt.debtorId Debt.creditorId, insideNet, outsideNet, insideDebts, List.filter_filter,
    List.filter_filter]
  simp only [Bool.decide_and, Bool.and_comm]
  ring

/-- The balance inside the run is a sum over its participants. -/
theorem insideNet_eq_sum (hp : p ∈ run.nodes) :
    run.insideNet t p = ∑ q ∈ run.participantIds.toFinset,
      (t.owed q p.id run.equivalentId - t.owed p.id q run.equivalentId) := by
  have hId := mem_participantIds hp
  rw [insideNet, insideDebts, List.filter_filter, List.filter_filter, Finset.sum_sub_distrib]
  simp only [DebtTable.owed_eq_sum, Rows.sum_finset_comm, ← Bool.decide_and, Rows.sum_filter]
  congr 2
  · refine List.map_congr_left fun d _ => ?_
    simp only [Debt.key, Prod.mk.injEq]
    by_cases hRow : d.creditorId = p.id ∧ d.equivalentId = run.equivalentId
    · simp [hRow, hId]
    · rw [if_neg fun h => hRow ⟨h.1, h.2.1⟩, Finset.sum_eq_zero fun q _ => if_neg fun h => hRow h.2]
  · refine List.map_congr_left fun d _ => ?_
    simp only [Debt.key, Prod.mk.injEq]
    by_cases hRow : d.debtorId = p.id ∧ d.equivalentId = run.equivalentId
    · simp [hRow, hId]
    · rw [if_neg fun h => hRow ⟨h.1, h.2.1⟩,
        Finset.sum_eq_zero fun q _ => if_neg fun h => hRow ⟨h.1, h.2.2⟩]

/-- Debts of which no participant is moved. -/
theorem insideNet_congr (hp : p ∈ run.nodes)
    (h : ∀ q, t'.owed q p.id run.equivalentId = t.owed q p.id run.equivalentId ∧
      t'.owed p.id q run.equivalentId = t.owed p.id q run.equivalentId) :
    run.insideNet t' p = run.insideNet t p := by
  rw [insideNet_eq_sum hp, insideNet_eq_sum hp]
  exact Finset.sum_congr rfl fun q _ => by rw [(h q).1, (h q).2]

/-- Moves among the participants of a run move the balance inside it as the balance over all debts. -/
theorem insideNet_sub (hp : p ∈ run.nodes)
    (h : ∀ q ∉ run.participantIds, t'.owed q p.id run.equivalentId = t.owed q p.id run.equivalentId ∧
      t'.owed p.id q run.equivalentId = t.owed p.id q run.equivalentId) :
    run.insideNet t' p - run.insideNet t p =
      t'.netPosition p.id run.equivalentId - t.netPosition p.id run.equivalentId := by
  set S := t.participants ∪ t'.participants ∪ run.participantIds.toFinset with hS
  rw [DebtTable.netPosition_sub (S := S) (fun q hq => by simp [hS, hq]) (fun q hq => by simp [hS, hq]),
    insideNet_eq_sum hp, insideNet_eq_sum hp, ← Finset.sum_sub_distrib]
  refine Finset.sum_subset (fun q hq => by simp [hS, List.mem_toFinset.mp hq]) fun q _ hq => ?_
  obtain ⟨hTo, hFrom⟩ := h q fun hMem => hq (List.mem_toFinset.mpr hMem)
  rw [hTo, hFrom, sub_self]

end RunView

section Commits

variable {run : RunView env} {p source target : Participant}

theorem Directory.participantByPid_of_mem {directory : Directory} (hp : p ∈ directory.participants) :
    directory.participantByPid p.pid = some p :=
  (Rows.find?_eq_some_iff directory.pid_unique).mpr ⟨hp, rfl⟩

theorem Directory.participantById_of_mem {directory : Directory} (hp : p ∈ directory.participants) :
    directory.participantById p.id = some p :=
  (Rows.find?_eq_some_iff directory.participant_id_unique).mpr ⟨hp, rfl⟩

/-- The PIDs of pairs are their two ends. -/
theorem EdgesPairs.mem_pids {pairs : EdgesPairs} {pid : Pid} :
    pid ∈ pairs.pids ↔ ∃ pair ∈ pairs, pid = pair.1 ∨ pid = pair.2 := by
  simp [EdgesPairs.pids]

/-- A path with two nodes or more has all its nodes on its hops. -/
theorem mem_hops_pids {path : List Pid} {pid : Pid} (hLength : 2 ≤ path.length) (hMem : pid ∈ path) :
    pid ∈ EdgesPairs.pids (hops path) := by
  induction path with
  | nil => cases hMem
  | cons x rest ih =>
      cases rest with
      | nil => exact absurd hLength (by simp)
      | cons y tail =>
          rw [hops_cons_cons, EdgesPairs.mem_pids]
          rcases List.mem_cons.mp hMem with rfl | hRest
          · exact ⟨_, List.mem_cons_self, Or.inl rfl⟩
          · cases tail with
            | nil =>
                rw [List.mem_singleton] at hRest
                exact ⟨_, List.mem_cons_self, Or.inr hRest⟩
            | cons z tail =>
                obtain ⟨pair, hPair, hEnd⟩ := EdgesPairs.mem_pids.mp (ih (by simp) hRest)
                exact ⟨pair, List.mem_cons_of_mem _ hPair, hEnd⟩

/-- The edges of a payment are the hops of its first route that has some. -/
theorem routeEdges_cases (routes : List Route) :
    routeEdges routes = [] ∨
      ∃ route ∈ routes, 2 ≤ route.path.length ∧ routeEdges routes = hops route.path := by
  induction routes with
  | nil => exact Or.inl rfl
  | cons route rest ih =>
      have hLater : routeEdges rest = [] ∨ ∃ other ∈ route :: rest, 2 ≤ other.path.length ∧
          routeEdges rest = hops other.path :=
        ih.imp_right fun ⟨other, hOther, hRest⟩ => ⟨other, List.mem_cons_of_mem _ hOther, hRest⟩
      rw [routeEdges]
      split
      · exact hLater
      · next hLength =>
          split
          · exact hLater
          · exact Or.inr ⟨route, List.mem_cons_self, not_lt.mp hLength, rfl⟩

/-- Patches are computed for both ends of a payment. -/
theorem ends_mem_paymentEdgesPairs {sender receiver : Participant} {routes : List Route} {amount : Amount}
    (hLeads : RoutesFrom sender.pid receiver.pid amount routes) :
    sender.pid ∈ (paymentEdgesPairs sender receiver routes).pids ∧
      receiver.pid ∈ (paymentEdgesPairs sender receiver routes).pids := by
  rw [paymentEdgesPairs]
  split
  · simp [EdgesPairs.pids]
  · next hEdges =>
      obtain hNone | ⟨route, hRoute, hLength, hHops⟩ := routeEdges_cases routes
      · exact absurd hNone hEdges
      · obtain ⟨hHead, hLast⟩ := hLeads.ends route hRoute
        rw [hHops]
        exact ⟨mem_hops_pids hLength (List.mem_of_head? hHead), mem_hops_pids hLength (List.mem_of_getLast? hLast)⟩

/-- The flows of routes inside the run have both ends in it. -/
theorem flow_ends_inside {routes : List Route} {resolved : List (List Participant × Amount)} {f : Flow}
    (hInside : ∀ route ∈ routes, ∀ pid ∈ route.path, pid ∈ run.nodes.map (·.pid))
    (hResolved : resolveRoutes env.directory routes = some resolved)
    (hf : f ∈ routeFlows run.equivalentId resolved) :
    f.fromId ∈ run.participantIds ∧ f.toId ∈ run.participantIds := by
  obtain ⟨nodes, hNodes, hPath⟩ := mem_routeFlows.mp hf
  obtain ⟨route, hRoute, hPids, _⟩ := exists_of_mem_results (resolveRoutes_eq_some hResolved) hNodes
  obtain ⟨hop, hHop, rfl⟩ := List.mem_map.mp hPath
  obtain ⟨hMap, hRegistered⟩ := resolvePath_registered hPids
  have hNode (q : Participant) (hq : q ∈ nodes.1) : q.id ∈ run.participantIds := by
    have hPid : q.pid ∈ route.path := hMap ▸ List.mem_map_of_mem hq
    obtain ⟨node, hMem, hSame⟩ := List.mem_map.mp (hInside route hRoute _ hPid)
    rw [← env.directory.pid_injective (run.registered node hMem) (hRegistered q hq) hSame]
    exact RunView.mem_participantIds hMem
  exact ⟨hNode _ (mem_of_mem_hops hHop).1, hNode _ (mem_of_mem_hops hHop).2⟩

/-- What a payment along stored amounts leaves owed on every pair. -/
theorem CommittedPayment.owed {now now' : Time} {tx : Transaction} {sender receiver : Participant}
    {amount : Amount} {e : Uuid} {routes : List Route} {db db₁ db₂ : Db env}
    (h : CommittedPayment now now' tx sender receiver amount e routes db db₁ db₂)
    (hStored : ∀ route ∈ routes, route.amount ∈ env.column.grid) :
    ∃ resolved, resolveRoutes env.directory routes = some resolved ∧
      ∀ a b, db₂.debts.owed a b e =
        if ∃ f ∈ routeFlows e resolved, f.Between a b then
          max (db.debts.balance a b e + pairDelta (routeFlows e resolved) a b) 0
        else db.debts.owed a b e := by
  obtain ⟨resolved, tx₁, hResolved, hPrepares, hId, hCommits⟩ := h.effects
  have hPerm := hPrepares.flows_perm
  have hPos := hCommits.flow_pos
  have hApplied := hCommits.applied
  rw [hId] at hPos hApplied
  refine ⟨resolved, hResolved, fun a b => ?_⟩
  have hOwed := owed_applyFlows hPos (fun f hf => hPrepares.equivalent f (hPerm.mem_iff.mp hf))
    (fun f hf => ?_) hApplied a b
  · change _ = ite (∃ f ∈ Commits.flows db₁ tx.txId, _) (max (_ + pairDelta (Commits.flows db₁ tx.txId) a b) 0) _
      at hOwed
    rw [hOwed, hPrepares.debts, pairDelta_perm hPerm]
    simp only [hPerm.mem_iff]
  · obtain ⟨nodes, hNodes, hPath⟩ := mem_routeFlows.mp (hPerm.mem_iff.mp hf)
    obtain ⟨route, hRoute, _, hAmount⟩ := exists_of_mem_results (resolveRoutes_eq_some hResolved) hNodes
    obtain ⟨hop, _, rfl⟩ := List.mem_map.mp hPath
    exact hAmount ▸ hStored route hRoute

/-- A clearing pass moves the debts it lists, all of them among the participants of the run. -/
theorem ClearingPass.effect {start after : DebtTable env} {debts : List Debt}
    (h : ClearingPass run start debts after) :
    (∀ d ∈ debts, d.equivalentId = run.equivalentId ∧ d.debtorId ∈ run.participantIds ∧
      d.creditorId ∈ run.participantIds) ∧
      ∀ a b, (∀ d ∈ debts, (d.debtorId, d.creditorId) ≠ (a, b)) →
        after.owed a b run.equivalentId = start.owed a b run.equivalentId := by
  induction h with
  | nil => exact ⟨by simp, fun _ _ _ => rfl⟩
  | @clear debts db staged now order cycle debtIds first rest prior lines clears equivalent ih =>
      refine ⟨fun d hd => ?_, fun a b hAway => ?_⟩
      · rcases List.mem_append.mp hd with hPrior | hCycle
        · exact ih.1 d hPrior
        · obtain ⟨hDebtor, hCreditor⟩ := clears.inside _ rfl d hCycle
          have hScope (id : Uuid) (hId : id ∈ (env.directory.participants.filter
              (·.pid ∈ run.nodes.map (·.pid))).map (·.id)) : id ∈ run.participantIds := by
            obtain ⟨q, hq, rfl⟩ := List.mem_map.mp hId
            obtain ⟨hRegistered, hPid⟩ := List.mem_filter.mp hq
            obtain ⟨node, hNode, hSame⟩ := List.mem_map.mp (of_decide_eq_true hPid)
            rw [← env.directory.pid_injective (run.registered node hNode) hRegistered hSame]
            exact RunView.mem_participantIds hNode
          exact ⟨equivalent d hCycle, hScope _ hDebtor, hScope _ hCreditor⟩
      · rw [clears.effect.2.2, if_neg, ih.2 a b fun d hd => hAway d (List.mem_append_left _ hd)]
        rintro ⟨d, hd, hKey⟩
        simp only [Debt.key, Prod.mk.injEq] at hKey
        exact hAway d (List.mem_append_right _ hd) (Prod.ext hKey.1 hKey.2.1)

/-- The trust line of a listed debt is among the touched edges. -/
theorem mem_touchedEdges {directory : Directory} {debts : List Debt} {d : Debt} (hd : d ∈ debts)
    (hSource : source ∈ directory.participants) (hTarget : target ∈ directory.participants)
    (hCreditor : d.creditorId = source.id) (hDebtor : d.debtorId = target.id) :
    (source.pid, target.pid) ∈ touchedEdges directory debts := by
  refine List.mem_filterMap.mpr ⟨d, hd, ?_⟩
  simp [hCreditor, hDebtor, Directory.participantById_of_mem hSource, Directory.participantById_of_mem hTarget]

/-- The participants of a listed debt are among those of the touched edges. -/
theorem mem_pids_touchedEdges {debts : List Debt} {d : Debt}
    (hDebts : ∀ d ∈ debts, d.equivalentId = run.equivalentId ∧ d.debtorId ∈ run.participantIds ∧
      d.creditorId ∈ run.participantIds) (hd : d ∈ debts) (hp : p ∈ run.nodes)
    (hSide : d.creditorId = p.id ∨ d.debtorId = p.id) :
    p.pid ∈ (touchedEdges env.directory debts).pids := by
  obtain ⟨_, hDebtor, hCreditor⟩ := hDebts d hd
  obtain ⟨debtor, hDebtorNode, hDebtorId⟩ := List.mem_map.mp hDebtor
  obtain ⟨creditor, hCreditorNode, hCreditorId⟩ := List.mem_map.mp hCreditor
  refine EdgesPairs.mem_pids.mpr ⟨_, mem_touchedEdges hd (run.registered creditor hCreditorNode)
    (run.registered debtor hDebtorNode) hCreditorId.symm hDebtorId.symm, ?_⟩
  rcases hSide with hSame | hSame
  · left
    rw [env.directory.id_injective (run.registered p hp) (run.registered creditor hCreditorNode)
      (hSame.symm.trans hCreditorId.symm)]
  · right
    rw [env.directory.id_injective (run.registered p hp) (run.registered debtor hDebtorNode)
      (hSame.symm.trans hDebtorId.symm)]

end Commits

section Harmless

/-- The payment keeps every link it does not ask for: the routes have amounts of the
column, and what its flows leave on the pair of the link is what is owed already. -/
structure KeepsOtherLinks (run : RunView env) (t : DebtTable env) (sender receiver : Participant)
    (routes : List Route) : Prop where
  stored : ∀ route ∈ routes, route.amount ∈ env.column.grid
  kept : ∀ link ∈ run.links,
    (link.source.pid, link.target.pid) ∈ paymentEdgesPairs sender receiver routes ∨
      ∀ resolved, resolveRoutes env.directory routes = some resolved →
        (∀ f ∈ routeFlows run.equivalentId resolved, ¬f.Between link.target.id link.source.id) ∨
          max (t.balance link.target.id link.source.id run.equivalentId +
            pairDelta (routeFlows run.equivalentId resolved) link.target.id link.source.id) 0 =
            t.owed link.target.id link.source.id run.equivalentId

/-- The patches read what the snapshot reads: a link they ask for has a live trust line or is used
up to its limit in the scenario, and a node they ask for is even with everybody outside the run. -/
structure ReadsAsSnapshot (run : RunView env) (t : DebtTable env) (pairs : EdgesPairs) : Prop where
  limited : ∀ link ∈ run.links, (link.source.pid, link.target.pid) ∈ pairs →
    (run.liveLimit link.source link.target).isSome = true ∨
      link.trustLimit ≤ run.debtByPair t link.source link.target
  even : ∀ p ∈ run.nodes, p.pid ∈ pairs.pids → run.outsideNet t p = 0

/-- A step that leaves no difference between the client and the snapshot. -/
def Harmless (run : RunView env) (s : PatchedRun env) : PatchEvent → Prop
  | .payment sender receiver routes => KeepsOtherLinks run s.debts sender receiver routes
  | .clearing _ => True
  | .patch => ∀ pairs ∈ s.pending.head?, ReadsAsSnapshot run s.debts pairs

end Harmless

section Tracking

variable {run : RunView env} {s s' : PatchedRun env} {t t' : DebtTable env} {pairs : EdgesPairs}

/-- A link of the view whose patch is asked for. -/
def CoversLink (run : RunView env) (pairs : EdgesPairs) (link : { link // link ∈ run.links }) : Prop :=
  (link.1.source.pid, link.1.target.pid) ∈ pairs

/-- A node of the view whose patch is asked for. -/
def CoversNode (run : RunView env) (pairs : EdgesPairs) (p : { p // p ∈ run.nodes }) : Prop :=
  p.1.pid ∈ pairs.pids

/-- A link of a client with the digits of the equivalent. -/
def RunView.shownLink (run : RunView env) (client : ClientView) (link : { link // link ∈ run.links }) :
    LinkState := (client.link link.1).truncate run.moneyQuant

def RunView.shownNode (run : RunView env) (client : ClientView) (p : { p // p ∈ run.nodes }) : NodeState :=
  client.node p.1

/-- Every link and every node of the client is fresh or waits for a patch. -/
structure Tracks (run : RunView env) (s : PatchedRun env) : Prop where
  links : Refresh.Covered (CoversLink run) (run.shownLink (run.snapshot s.debts)) (run.shownLink s.client)
    s.pending
  nodes : Refresh.Covered (CoversNode run) (run.shownNode (run.snapshot s.debts)) (run.shownNode s.client)
    s.pending

/-- The quantum of money is positive. -/
theorem RunView.moneyQuant_pos (run : RunView env) : 0 < run.moneyQuant := by
  unfold moneyQuant
  positivity

/-- Truncating a link twice is truncating it once. -/
theorem LinkState.truncate_truncate {quantum : Amount} (hq : 0 < quantum) (state : LinkState) :
    (state.truncate quantum).truncate quantum = state.truncate quantum := by
  rw [truncate, truncate, LinkState.mk.injEq]
  exact ⟨Grid.roundDown_of_mem hq (Grid.roundDown_mem _ _), Grid.roundDown_of_mem hq (Grid.roundDown_mem _ _)⟩

/-- A fresh link is what the pair owes now, with the digits of the equivalent. -/
theorem RunView.shownLink_snapshot (link : { link // link ∈ run.links }) :
    run.shownLink (run.snapshot t) link = (run.linkState t link.1.source link.1.target
      ((run.liveLimit link.1.source link.1.target).getD link.1.trustLimit)).truncate run.moneyQuant :=
  LinkState.truncate_truncate run.moneyQuant_pos _

/-- A link is as fresh as before when its pair owes what it did. -/
theorem RunView.shownLink_congr {link : { link // link ∈ run.links }}
    (h : run.debtByPair t' link.1.source link.1.target = run.debtByPair t link.1.source link.1.target) :
    run.shownLink (run.snapshot t') link = run.shownLink (run.snapshot t) link := by
  rw [shownLink_snapshot, shownLink_snapshot, linkState, linkState, h]

/-- What is shown of a participant depends on its net position inside the run only. -/
theorem RunView.shownNode_congr {p : { p // p ∈ run.nodes }} (h : run.insideNet t' p.1 = run.insideNet t p.1) :
    run.shownNode (run.snapshot t') p = run.shownNode (run.snapshot t) p := by
  change NodeState.ofNet _ (run.insideNet t' p.1) = NodeState.ofNet _ (run.insideNet t p.1)
  rw [h]

/-- Patches are applied to the links one after the other. -/
theorem ClientView.link_applyPatches_eq (client : ClientView) (edges : List EdgePatch) (nodes : List NodePatch) :
    (client.applyPatches edges nodes).link = edges.foldl (Refresh.overwrite
      (fun patch link => (link.source.pid, link.target.pid) = (patch.source, patch.target))
      EdgePatch.state) client.link := by
  have hNodes (other : ClientView) : (nodes.foldl applyNodePatch other).link = other.link := by
    induction nodes generalizing other with
    | nil => rfl
    | cons patch rest ih => exact ih _
  rw [applyPatches, hNodes]
  induction edges generalizing client with
  | nil => rfl
  | cons patch rest ih => exact ih _

/-- Node patches overwrite the nodes they name, in order. -/
theorem ClientView.node_applyPatches_eq (client : ClientView) (edges : List EdgePatch) (nodes : List NodePatch) :
    (client.applyPatches edges nodes).node = nodes.foldl (Refresh.overwrite
      (fun patch p => p.pid = patch.id) NodePatch.state) client.node := by
  have hEdges : (edges.foldl applyEdgePatch client).node = client.node := by
    induction edges generalizing client with
    | nil => rfl
    | cons patch rest ih => exact ih _
  rw [applyPatches, ← hEdges]
  generalize edges.foldl applyEdgePatch client = other
  induction nodes generalizing other with
  | nil => rfl
  | cons patch rest ih => exact ih _

/-- The edge patches are those of the named pairs with registered ends, in their present
state. -/
theorem RunView.mem_buildEdgePatchForPairs {patch : EdgePatch} :
    patch ∈ run.buildEdgePatchForPairs t pairs ↔ ∃ source target,
      (patch.source, patch.target) ∈ pairs ∧ env.directory.participantByPid patch.source = some source ∧
        env.directory.participantByPid patch.target = some target ∧
        patch.state = run.linkState t source target ((run.liveLimit source target).getD 0) := by
  obtain ⟨sourcePid, targetPid, state⟩ := patch
  simp only [buildEdgePatchForPairs, List.mem_filterMap, Prod.exists, Option.bind_eq_bind,
    Option.bind_eq_some_iff, Option.pure_def, Option.some.injEq, EdgePatch.mk.injEq]
  constructor
  · rintro ⟨_, _, hMem, source, hSource, target, hTarget, rfl, rfl, rfl⟩
    exact ⟨source, target, hMem, hSource, hTarget, rfl⟩
  · rintro ⟨source, target, hMem, hSource, hTarget, rfl⟩
    exact ⟨_, _, hMem, source, hSource, target, hTarget, rfl, rfl, rfl⟩

/-- The node patches are those of the named registered participants, in their present state. -/
theorem RunView.mem_computeNodePatches {pids : List Pid} {patch : NodePatch} :
    patch ∈ run.computeNodePatches t pids ↔ ∃ p, patch.id ∈ pids ∧
      env.directory.participantByPid patch.id = some p ∧
        patch.state = .ofNet (enrichedPrecision run.precision) (t.netPosition p.id run.equivalentId) := by
  obtain ⟨pid, state⟩ := patch
  simp only [computeNodePatches, List.mem_filterMap, Option.bind_eq_bind, Option.bind_eq_some_iff,
    Option.pure_def, Option.some.injEq, NodePatch.mk.injEq]
  constructor
  · rintro ⟨_, hMem, p, hp, rfl, rfl⟩
    exact ⟨p, hMem, hp, rfl⟩
  · rintro ⟨p, hMem, hp, rfl⟩
    exact ⟨_, hMem, p, hp, rfl, rfl⟩

/-- The patches of a list of pairs overwrite the links of these pairs. -/
theorem ClientView.link_applyPatches (client : ClientView) (link : { link // link ∈ run.links })
    (nodes : List NodePatch) :
    (CoversLink run pairs link →
      (client.applyPatches (run.buildEdgePatchForPairs t pairs) nodes).link link.1 =
        run.linkState t link.1.source link.1.target ((run.liveLimit link.1.source link.1.target).getD 0)) ∧
      (¬CoversLink run pairs link →
        (client.applyPatches (run.buildEdgePatchForPairs t pairs) nodes).link link.1 = client.link link.1) := by
  obtain ⟨link, hLink⟩ := link
  obtain ⟨hSource, hTarget⟩ := run.ends link hLink
  have hFoundSource := Directory.participantByPid_of_mem (run.registered _ hSource)
  have hFoundTarget := Directory.participantByPid_of_mem (run.registered _ hTarget)
  rw [link_applyPatches_eq]
  refine ⟨fun hCovers => ?_, fun hFree => ?_⟩
  · refine Refresh.foldl_overwrite_of_hit (fun patch hPatch hHits => ?_) ?_
    · obtain ⟨source, target, _, hs, ht, hState⟩ := RunView.mem_buildEdgePatchForPairs.mp hPatch
      obtain ⟨hPid, hPid'⟩ := Prod.mk.inj hHits
      rw [← hPid, hFoundSource, Option.some.injEq] at hs
      rw [← hPid', hFoundTarget, Option.some.injEq] at ht
      subst hs ht
      exact hState
    · exact ⟨⟨link.source.pid, link.target.pid, _⟩, RunView.mem_buildEdgePatchForPairs.mpr
        ⟨link.source, link.target, hCovers, hFoundSource, hFoundTarget, rfl⟩, rfl⟩
  · refine Refresh.foldl_overwrite_of_miss fun patch hPatch hHits => hFree ?_
    obtain ⟨_, _, hMem, _⟩ := RunView.mem_buildEdgePatchForPairs.mp hPatch
    rw [← hHits] at hMem
    exact hMem

/-- A patched client shows the new state of the covered nodes, and the old one of the
others. -/
theorem ClientView.node_applyPatches (client : ClientView) (p : { p // p ∈ run.nodes })
    (edges : List EdgePatch) :
    (CoversNode run pairs p → (client.applyPatches edges (run.computeNodePatches t pairs.pids)).node p.1 =
        .ofNet (enrichedPrecision run.precision) (t.netPosition p.1.id run.equivalentId)) ∧
      (¬CoversNode run pairs p →
        (client.applyPatches edges (run.computeNodePatches t pairs.pids)).node p.1 = client.node p.1) := by
  obtain ⟨p, hp⟩ := p
  have hFound := Directory.participantByPid_of_mem (run.registered p hp)
  rw [node_applyPatches_eq]
  refine ⟨fun hCovers => ?_, fun hFree => ?_⟩
  · refine Refresh.foldl_overwrite_of_hit (fun patch hPatch hHits => ?_) ?_
    · obtain ⟨q, _, hq, hState⟩ := RunView.mem_computeNodePatches.mp hPatch
      rw [← hHits, hFound, Option.some.injEq] at hq
      subst hq
      exact hState
    · exact ⟨⟨p.pid, _⟩, RunView.mem_computeNodePatches.mpr ⟨p, hCovers, hFound, rfl⟩, rfl⟩
  · refine Refresh.foldl_overwrite_of_miss fun patch hPatch hHits => hFree ?_
    obtain ⟨_, hMem, _⟩ := RunView.mem_computeNodePatches.mp hPatch
    rw [← hHits] at hMem
    exact hMem

/-- A harmless step leaves every link and every node fresh or waiting for a patch. -/
theorem Tracks.step {event : PatchEvent} (h : Tracks run s) (hStep : PatchStep run s event s')
    (hHarmless : Harmless run s event) : Tracks run s' := by
  cases hStep with
  | @payment now now' tx sender receiver amount routes db db₁ db₂ before lines inside committed =>
      obtain ⟨hStored, hKept⟩ := hHarmless
      obtain ⟨resolved, hResolved, hOwed⟩ := committed.owed hStored
      have hExact := committed.exact_of_stored hStored
      rw [before] at hOwed hExact
      refine ⟨h.links.change fun link => ?_, h.nodes.change fun p => ?_⟩
      · refine (hKept link.1 link.2).imp_right fun hSame => RunView.shownLink_congr ?_
        rw [RunView.debtByPair, hOwed]
        split
        · next hTouched =>
            obtain ⟨f, hf, hBetween⟩ := hTouched
            rcases hSame resolved hResolved with hAway | hSame
            · exact absurd hBetween (hAway f hf)
            · exact hSame
        · rfl
      · by_cases hCovers : CoversNode run (paymentEdgesPairs sender receiver routes) p
        · exact Or.inl hCovers
        · refine Or.inr (RunView.shownNode_congr ?_)
          have hInside (q : Uuid) (hq : q ∉ run.participantIds) :
              db₂.debts.owed q p.1.id run.equivalentId = s.debts.owed q p.1.id run.equivalentId ∧
                db₂.debts.owed p.1.id q run.equivalentId = s.debts.owed p.1.id q run.equivalentId := by
            have hAway (f : Flow) (hf : f ∈ routeFlows run.equivalentId resolved) :=
              Flow.not_between_outside (flow_ends_inside inside hResolved hf) hq p.1.id
            rw [hOwed, hOwed, if_neg fun ⟨f, hf, hBetween⟩ => (hAway f hf).1 hBetween,
              if_neg fun ⟨f, hf, hBetween⟩ => (hAway f hf).2 hBetween]
            exact ⟨rfl, rfl⟩
          have hMoved := RunView.insideNet_sub p.2 hInside
          obtain ⟨hSender, hReceiver⟩ := ends_mem_paymentEdgesPairs committed.leads
          have hRegistered := run.registered p.1 p.2
          rw [hExact p.1.id, add_sub_cancel_left, transferDelta, if_neg, if_neg, sub_zero, sub_eq_zero]
            at hMoved
          · exact hMoved
          · intro hId
            refine hCovers ?_
            change p.1.pid ∈ _
            rw [← env.directory.id_injective committed.senderKnown hRegistered hId]
            exact hSender
          · intro hId
            refine hCovers ?_
            change p.1.pid ∈ _
            rw [← env.directory.id_injective committed.receiverKnown hRegistered hId]
            exact hReceiver
  | @clearing debts after pass =>
      obtain ⟨hDebts, hOwed⟩ := pass.effect
      refine ⟨h.links.change fun link => ?_, h.nodes.change fun p => ?_⟩
      · by_cases hCovers : CoversLink run (touchedEdges env.directory debts) link
        · exact Or.inl hCovers
        · refine Or.inr (RunView.shownLink_congr (hOwed _ _ fun d hd hKey => hCovers ?_))
          obtain ⟨hSource, hTarget⟩ := run.ends link.1 link.2
          obtain ⟨hDebtor, hCreditor⟩ := Prod.mk.inj hKey
          exact mem_touchedEdges hd (run.registered _ hSource) (run.registered _ hTarget) hCreditor hDebtor
      · by_cases hCovers : CoversNode run (touchedEdges env.directory debts) p
        · exact Or.inl hCovers
        · refine Or.inr (RunView.shownNode_congr (RunView.insideNet_congr p.2 fun q => ⟨?_, ?_⟩))
          · refine hOwed _ _ fun d hd hKey => hCovers ?_
            exact mem_pids_touchedEdges hDebts hd p.2 (Or.inl (Prod.mk.inj hKey).2)
          · refine hOwed _ _ fun d hd hKey => hCovers ?_
            exact mem_pids_touchedEdges hDebts hd p.2 (Or.inr (Prod.mk.inj hKey).1)
  | @patch pairs rest oldest =>
      have hReads : ReadsAsSnapshot run s.debts pairs := hHarmless pairs (by rw [oldest]; rfl)
      have hLinks := h.links
      have hNodes := h.nodes
      rw [oldest] at hLinks hNodes
      refine ⟨hLinks.serve (fun link hCovers => ?_) fun link hFree => ?_,
        hNodes.serve (fun p hCovers => ?_) fun p hFree => ?_⟩
      · rw [RunView.shownLink, (ClientView.link_applyPatches s.client link _).1 hCovers,
          RunView.shownLink_snapshot]
        rcases hReads.limited link.1 link.2 hCovers with hLive | hUsedUp
        · obtain ⟨limit, hLimit⟩ := Option.isSome_iff_exists.mp hLive
          rw [hLimit, Option.getD_some, Option.getD_some]
        · cases hLimit : run.liveLimit link.1.source link.1.target with
          | some limit => rfl
          | none =>
              have hUsed : 0 ≤ run.debtByPair s.debts link.1.source link.1.target := s.debts.owed_nonneg _ _ _
              rw [Option.getD_none, Option.getD_none, RunView.linkState, RunView.linkState,
                max_eq_left (sub_nonpos.mpr hUsedUp), max_eq_left (sub_nonpos.mpr hUsed)]
      · rw [RunView.shownLink, (ClientView.link_applyPatches s.client link _).2 hFree, RunView.shownLink]
      · rw [RunView.shownNode, (ClientView.node_applyPatches s.client p _).1 hCovers,
          RunView.netPosition_eq_add p.2, hReads.even p.1 p.2 hCovers, add_zero]
        rfl
      · rw [RunView.shownNode, (ClientView.node_applyPatches s.client p _).2 hFree, RunView.shownNode]

/-- One harmless step. -/
def HarmlessStep (run : RunView env) (s s' : PatchedRun env) : Prop :=
  ∃ event, PatchStep run s event s' ∧ Harmless run s event

/-- Along a run of harmless steps the client keeps track of the ledger. -/
theorem Tracks.of_run (h : Tracks run s) (hRun : Relation.ReflTransGen (HarmlessStep run) s s') :
    Tracks run s' := by
  induction hRun with
  | refl => exact h
  | tail _ hStep ih =>
      obtain ⟨event, hStep, hHarmless⟩ := hStep
      exact ih.step hStep hHarmless

end Tracking

/-- A client that holds the snapshot holds the current snapshot whenever all patches
of a run of harmless steps have reached it. -/
theorem patched_client_shows_snapshot {run : RunView env} {s s' : PatchedRun env}
    (hStart : s.client = run.snapshot s.debts) (hRun : Relation.ReflTransGen (HarmlessStep run) s s')
    (hDone : s'.pending = []) : run.Shows s'.client (run.snapshot s'.debts) := by
  have hFirst : Tracks run s := ⟨.of_eq (by rw [hStart]) _, .of_eq (by rw [hStart]) _⟩
  obtain ⟨hLinks, hNodes⟩ := hFirst.of_run hRun
  rw [hDone] at hLinks hNodes
  exact ⟨fun link hLink => congrFun hLinks.eq_of_nil ⟨link, hLink⟩,
    fun p hp => congrFun hNodes.eq_of_nil ⟨p, hp⟩⟩

section Sample

/-- Two participants with a trust line from the first to the second. -/
def sampleView (creditor debtor : Participant) (hKnown : creditor ∈ Directory.sample.participants ∧
    debtor ∈ Directory.sample.participants) (db : Db (Env.sample .numeric208 true)) :
    RunView (Env.sample .numeric208 true) where
  equivalentId := 1
  precision := 2
  nodes := [creditor, debtor]
  links := [⟨creditor, debtor, 10⟩]
  trustLines := db.trustLines
  registered := by
    intro p hp
    simp only [List.mem_cons, List.not_mem_nil, or_false] at hp
    rcases hp with rfl | rfl
    · exact hKnown.1
    · exact hKnown.2
  ends := by simp

/-- A client that has just loaded the snapshot. -/
def RunView.loaded (run : RunView env) (t : DebtTable env) : PatchedRun env where
  debts := t
  client := run.snapshot t
  pending := []

/-- The state after a payment and its patches. -/
def RunView.afterPayment (run : RunView env) (before after : DebtTable env) (pairs : EdgesPairs) :
    PatchedRun env where
  debts := after
  client := (run.snapshot before).applyPatches (run.buildEdgePatchForPairs after pairs)
    (run.computeNodePatches after pairs.pids)
  pending := []

/-- A trusts B and is owed 5, and A is about to pay B. -/
def repayment : List LedgerOp :=
  [openLine 1 "B" .uah 10] ++ payAlong "p0" 2 ["B", "A"] 5 .uah ++
    [.newPayment "p1" 1 "A" "B" 2 "UAH" [⟨["A", "B"], 2⟩] none]

def repaymentBefore : Db (Env.sample .numeric208 true) := (Ledger.empty.run repayment).db

def repaymentPrepared : Db (Env.sample .numeric208 true) :=
  repaymentBefore.orElse (preparePayment 0 "p1" [⟨["A", "B"], 2⟩] 2 1 repaymentBefore)

def repaymentAfter : Db (Env.sample .numeric208 true) := (commit 0 "p1" repaymentPrepared).2

def repaymentView : RunView (Env.sample .numeric208 true) :=
  sampleView ⟨1, "A"⟩ ⟨2, "B"⟩ (by decide) repaymentBefore

/-- A payment that reduces a debt reaches the client. -/
theorem patched_client_shows_repayment :
    repaymentView.Shows
      (repaymentView.afterPayment repaymentBefore.debts repaymentAfter.debts [("A", "B")]).client
      (repaymentView.snapshot repaymentAfter.debts) := by
  have hPayment : CommittedPayment 0 0 (newPaymentTransaction 0 "p1" 1
      (.payment "A" "B" 2 "UAH" [⟨["A", "B"], 2⟩] none)) ⟨1, "A"⟩ ⟨2, "B"⟩ 2 1 [⟨["A", "B"], 2⟩]
      repaymentBefore repaymentPrepared repaymentAfter :=
    { distinct := by decide
      senderKnown := by decide
      receiverKnown := by decide
      found := by decide +kernel
      isNew := rfl
      leads := ⟨by simp, by simp⟩
      prepared := Db.eq_ok_orElse (by decide +kernel)
      committed := Prod.ext (by decide +kernel) rfl }
  refine patched_client_shows_snapshot (s := repaymentView.loaded repaymentBefore.debts) rfl
    (.tail (.single ⟨_, .payment rfl rfl ?_ hPayment, ?_⟩) ⟨_, .patch rfl, ?_⟩) rfl
  · simp [repaymentView, sampleView]
  · refine ⟨?_, by decide⟩
    intro route hRoute
    rw [List.mem_singleton.mp hRoute]
    exact Grid.mem_multiples_iff.mpr ⟨200000000, by norm_num [AmountColumn.storageQuantum]⟩
  · rintro pairs ⟨⟩
    refine ⟨fun link hLink _ => Or.inl ?_, fun p hp _ => ?_⟩
    · rw [List.mem_singleton.mp hLink]
      decide +kernel
    · simp only [repaymentView, sampleView, List.mem_cons, List.not_mem_nil, or_false] at hp
      rcases hp with rfl | rfl <;> decide +kernel

/-- A payment that raises a debt is patched in the direction of the payment, and the client keeps
the link of the trust line as it was. -/
theorem client_misses_raised_debt :
    ¬∀ (env : Env) (run : RunView env) (s s' : PatchedRun env), s.client = run.snapshot s.debts →
      Relation.ReflTransGen (fun s s' => ∃ event, PatchStep run s event s') s s' → s'.pending = [] →
      run.Shows s'.client (run.snapshot s'.debts) := by
  intro h
  have hPayment := @committedPayment_direct 2 (by decide +kernel) (by decide +kernel) (by decide +kernel)
  let run := sampleView ⟨2, "B"⟩ ⟨1, "A"⟩ (by decide) (directBefore 2)
  have hRun : Relation.ReflTransGen (fun s s' => ∃ event, PatchStep run s event s')
      (run.loaded (directBefore 2).debts)
      (run.afterPayment (directBefore 2).debts (directAfter 2).debts [("A", "B")]) := by
    refine .tail (.single ⟨_, .payment (s := run.loaded (directBefore 2).debts) rfl rfl ?_ hPayment⟩)
      ⟨_, .patch rfl⟩
    simp [run, sampleView]
  have hShows := (h _ run _ _ rfl hRun rfl).1 ⟨⟨2, "B"⟩, ⟨1, "A"⟩, 10⟩ (List.mem_singleton.mpr rfl)
  revert hShows
  decide +kernel

end Sample

end GeoLedger

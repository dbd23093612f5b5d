import Mathlib
import GeoLedger.Payments.ExactTransfer
import GeoLedger.Clearing.Effects

/-! The graph a client shows of a run in one equivalent: the snapshot of
`SnapshotBuilder._enrich_snapshot_from_db`, the patches of
`EdgePatchBuilder.build_edge_patch_for_pairs` and `VizPatchHelper.compute_node_patches`,
and the payments and clearings after which they are computed. -/
namespace GeoLedger

variable {env : Env}

/-- A link of the scenario, from the creditor of a trust line to its debtor. -/
structure SnapshotLink where
  source : Participant
  target : Participant
  trustLimit : Amount
deriving DecidableEq, Repr

/-- What a run shows in an equivalent. Nodes and links without a registered
participant are shown as the scenario has them. -/
structure RunView (env : Env) where
  equivalentId : Uuid
  precision : Nat
  nodes : List Participant
  links : List SnapshotLink
  trustLines : TrustTable env
  registered : ∀ p ∈ nodes, p ∈ env.directory.participants
  ends : ∀ link ∈ links, link.source ∈ nodes ∧ link.target ∈ nodes

structure LinkState where
  used : Amount
  available : Amount
deriving DecidableEq, Repr

structure NodeState where
  netBalanceAtoms : Nat
  netSign : ℤ
deriving DecidableEq, Repr

/-- `int(getattr(eq, "precision", 2) or 2)`. -/
def enrichedPrecision (precision : Nat) : Nat := if precision = 0 then 2 else precision

/-- `net_decimal_to_atoms`: `ROUND_HALF_UP` rounds ties away from zero. -/
def netDecimalToAtoms (precision : Nat) (net : Amount) : ℤ :=
  let scaled := net * 10 ^ precision
  if 0 ≤ scaled then ⌊scaled + 1 / 2⌋ else -⌊-scaled + 1 / 2⌋

def atomsToNetSign (atoms : ℤ) : ℤ := if atoms < 0 then -1 else if 0 < atoms then 1 else 0

/-- The fields of a node that follow from its net balance. -/
def NodeState.ofNet (precision : Nat) (net : Amount) : NodeState :=
  let atoms := netDecimalToAtoms precision net
  ⟨atoms.natAbs, atomsToNetSign atoms⟩

/-- Both amounts as numbers with a fixed number of digits. -/
def LinkState.truncate (quantum : Amount) (state : LinkState) : LinkState :=
  ⟨Grid.roundDown quantum state.used, Grid.roundDown quantum state.available⟩

/-- What a client holds: the state of every link and of every node. -/
structure ClientView where
  link : SnapshotLink → LinkState
  node : Participant → NodeState

namespace RunView

variable (run : RunView env)

def moneyQuant : Amount := 1 / 10 ^ enrichedPrecision run.precision

/-- The limit of the trust line of a pair that is not closed. -/
def liveLimit (source target : Participant) : Option Amount :=
  (run.trustLines.rows.find? fun l =>
    l.status ≠ .closed ∧ l.key = (source.id, target.id, run.equivalentId)).map (·.limit)

/-- `debt_by_pair`: what the target owes the source. -/
def debtByPair (t : DebtTable env) (source target : Participant) : Amount :=
  t.owed target.id source.id run.equivalentId

/-- Amounts owed and what a limit leaves of it. -/
def linkState (t : DebtTable env) (source target : Participant) (limit : Amount) : LinkState :=
  ⟨run.debtByPair t source target, max 0 (limit - run.debtByPair t source target)⟩

def participantIds : List Uuid := run.nodes.map (·.id)

/-- The debts among the participants of the run. -/
def insideDebts (t : DebtTable env) : List Debt :=
  t.rows.filter fun d => d.equivalentId = run.equivalentId ∧ d.creditorId ∈ run.participantIds ∧
    d.debtorId ∈ run.participantIds

/-- `credit - debit` of a participant over the debts of the run. -/
def insideNet (t : DebtTable env) (p : Participant) : Amount :=
  (((run.insideDebts t).filter (·.creditorId = p.id)).map (·.amount)).sum -
    (((run.insideDebts t).filter (·.debtorId = p.id)).map (·.amount)).sum

/-- `_enrich_snapshot_from_db`. -/
def snapshot (t : DebtTable env) : ClientView where
  link link := (run.linkState t link.source link.target
    ((run.liveLimit link.source link.target).getD link.trustLimit)).truncate run.moneyQuant
  node p := .ofNet (enrichedPrecision run.precision) (run.insideNet t p)

end RunView

/-- A patch of the links between two participants, in the direction it names. -/
structure EdgePatch where
  source : Pid
  target : Pid
  state : LinkState
deriving DecidableEq, Repr

structure NodePatch where
  id : Pid
  state : NodeState
deriving DecidableEq, Repr

/-- The pairs for which patches are computed after a commit. -/
abbrev EdgesPairs := List (Pid × Pid)

/-- The participants of the pairs. -/
def EdgesPairs.pids (pairs : EdgesPairs) : List Pid := pairs.flatMap fun pair => [pair.1, pair.2]

namespace RunView

variable (run : RunView env)

/-- `build_edge_patch_for_pairs`. A pair without a live trust line has limit zero. -/
def buildEdgePatchForPairs (t : DebtTable env) (pairs : EdgesPairs) : List EdgePatch :=
  pairs.filterMap fun pair => do
    let source ← env.directory.participantByPid pair.1
    let target ← env.directory.participantByPid pair.2
    return ⟨pair.1, pair.2, run.linkState t source target ((run.liveLimit source target).getD 0)⟩

/-- `compute_node_patches`, over all debts of the equivalent. -/
def computeNodePatches (t : DebtTable env) (pids : List Pid) : List NodePatch :=
  pids.filterMap fun pid => do
    let p ← env.directory.participantByPid pid
    return ⟨pid, .ofNet (enrichedPrecision run.precision) (t.netPosition p.id run.equivalentId)⟩

end RunView

namespace ClientView

/-- Overwrite the links with the source and the target of the patch. -/
def applyEdgePatch (client : ClientView) (patch : EdgePatch) : ClientView :=
  { client with
    link := fun link =>
      if (link.source.pid, link.target.pid) = (patch.source, patch.target) then patch.state
      else client.link link }

/-- Overwrite the node with the id of the patch. -/
def applyNodePatch (client : ClientView) (patch : NodePatch) : ClientView :=
  { client with node := fun p => if p.pid = patch.id then patch.state else client.node p }

def applyPatches (client : ClientView) (edges : List EdgePatch) (nodes : List NodePatch) : ClientView :=
  nodes.foldl applyNodePatch (edges.foldl applyEdgePatch client)

end ClientView

/-- `route_edges`: the hops of the first route that has any. -/
def routeEdges : List Route → EdgesPairs
  | [] => []
  | route :: rest =>
      if route.path.length < 2 then routeEdges rest
      else if hops route.path = [] then routeEdges rest else hops route.path

/-- `route_edges or [(sender_pid, receiver_pid)]`. -/
def paymentEdgesPairs (sender receiver : Participant) (routes : List Route) : EdgesPairs :=
  if routeEdges routes = [] then [(sender.pid, receiver.pid)] else routeEdges routes

/-- `touched_edges`: the trust lines of the cleared debts. -/
def touchedEdges (directory : Directory) (debts : List Debt) : EdgesPairs :=
  debts.filterMap fun d => do
    let creditor ← directory.participantById d.creditorId
    let debtor ← directory.participantById d.debtorId
    return (creditor.pid, debtor.pid)

/-- The cycles that one clearing pass executes, with the debts they list. -/
inductive ClearingPass (run : RunView env) (start : DebtTable env) : List Debt → DebtTable env → Prop where
  | nil : ClearingPass run start [] start
  | clear {debts : List Debt} {db staged : Db env} {now : Time} {order : ReadOrder}
      {cycle : List (Option Uuid)} {debtIds : List Uuid} {first : Debt} {rest : List Debt}
      (prior : ClearingPass run start debts db.debts) (lines : db.trustLines = run.trustLines)
      (clears : Clears now order cycle (some (run.nodes.map (·.pid))) db staged debtIds first rest)
      (equivalent : ∀ d ∈ first :: rest, d.equivalentId = run.equivalentId) :
      ClearingPass run start (debts ++ first :: rest) staged.debts

/-- A run seen from a client: the debts of the ledger, the view of the client,
and the pairs of the commits for which no patches are computed yet. -/
structure PatchedRun (env : Env) where
  debts : DebtTable env
  client : ClientView
  pending : List EdgesPairs

inductive PatchEvent where
  | payment (sender receiver : Participant) (routes : List Route)
  | clearing (debts : List Debt)
  | patch
deriving DecidableEq

/-- One step of a run: a payment or a clearing pass is committed, or the patches
of the oldest commit are computed from the current debts and reach the client. -/
inductive PatchStep (run : RunView env) : PatchedRun env → PatchEvent → PatchedRun env → Prop where
  | payment {s : PatchedRun env} {now now' : Time} {tx : Transaction} {sender receiver : Participant}
      {amount : Amount} {routes : List Route} {db db₁ db₂ : Db env}
      (before : db.debts = s.debts) (lines : db.trustLines = run.trustLines)
      (inside : ∀ route ∈ routes, ∀ pid ∈ route.path, pid ∈ run.nodes.map (·.pid))
      (committed : CommittedPayment now now' tx sender receiver amount run.equivalentId routes db db₁ db₂) :
      PatchStep run s (.payment sender receiver routes)
        { s with
          debts := db₂.debts
          pending := s.pending ++ [paymentEdgesPairs sender receiver routes] }
  | clearing {s : PatchedRun env} {debts : List Debt} {after : DebtTable env}
      (pass : ClearingPass run s.debts debts after) :
      PatchStep run s (.clearing debts)
        { s with
          debts := after
          pending := s.pending ++ [touchedEdges env.directory debts] }
  | patch {s : PatchedRun env} {pairs : EdgesPairs} {rest : List EdgesPairs}
      (oldest : s.pending = pairs :: rest) :
      PatchStep run s .patch
        { s with
          client := s.client.applyPatches (run.buildEdgePatchForPairs s.debts pairs)
            (run.computeNodePatches s.debts pairs.pids)
          pending := rest }

/-- The client shows the links of a view up to the precision of the equivalent, and its nodes. -/
def RunView.Shows (run : RunView env) (client view : ClientView) : Prop :=
  (∀ link ∈ run.links,
    (client.link link).truncate run.moneyQuant = (view.link link).truncate run.moneyQuant) ∧
  ∀ p ∈ run.nodes, client.node p = view.node p

end GeoLedger

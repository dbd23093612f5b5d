import Mathlib
import GeoLedger.Library.JsValues
import GeoLedger.Simulator.Scenario

/-! What the backend emits: the arguments that `SseEventEmitter` and
`_build_run_status_event` take, and the JSON that their Pydantic models dump. -/
namespace EventWire
open GeoLedger JsValues

/-- A non-empty identifier or code. -/
abbrev Name := { text : String // text ≠ "" }

/-- An integer that is a finite number for the client. -/
abbrev FiniteInt := { n : ℤ // (toDouble n).isSome = true }

/-- A counter that is a finite number for the client. -/
abbrev FiniteNat := { n : ℕ // (toDouble n).isSome = true }

section Time

def isLeapYear (year : ℕ) : Bool := year % 4 = 0 ∧ (year % 100 ≠ 0 ∨ year % 400 = 0)

def daysInMonth (year month : ℕ) : ℕ :=
  if month = 2 then (if isLeapYear year then 29 else 28)
  else if month ∈ [4, 6, 9, 11] then 30 else 31

/-- `datetime.now(timezone.utc)`. -/
structure UtcTime where
  year : ℕ
  month : ℕ
  day : ℕ
  hour : ℕ
  minute : ℕ
  second : ℕ
  microsecond : ℕ
  year_lt : year < 10000
  month_range : 1 ≤ month ∧ month ≤ 12
  day_range : 1 ≤ day ∧ day ≤ daysInMonth year month
  hour_lt : hour < 24
  minute_lt : minute < 60
  second_lt : second < 60
  microsecond_lt : microsecond < 1000000

/-- The text that `model_dump(mode="json")` writes for it. -/
def UtcTime.chars (t : UtcTime) : List Char :=
  fixedDigits 4 t.year ++ '-' :: (fixedDigits 2 t.month ++ '-' :: (fixedDigits 2 t.day ++ 'T' ::
    (fixedDigits 2 t.hour ++ ':' :: (fixedDigits 2 t.minute ++ ':' :: (fixedDigits 2 t.second ++
      ((if t.microsecond = 0 then [] else '.' :: fixedDigits 6 t.microsecond) ++ ['Z']))))))

def UtcTime.text (t : UtcTime) : String := String.ofList t.chars

end Time

section Patches

/-- A patch of `VizPatchHelper.compute_node_patches`. A node is at most 1.9 times its base size. -/
structure NodePatch where
  id : Name
  netBalanceAtoms : String
  netSign : ℤ
  netBalance : String
  vizColorKey : String
  vizShapeKey : String
  width : ℕ
  height : ℕ
  isSign : netSign = -1 ∨ netSign = 0 ∨ netSign = 1
  width_le : width ≤ 49
  height_le : height ≤ 49

/-- A patch of `EdgePatchBuilder`. Only the patches of a whole equivalent have a limit, and
they may go without a width. -/
structure EdgePatch where
  source : Name
  target : Name
  trustLimit : Option String
  used : String
  available : String
  vizAlphaKey : String
  vizWidthKey : Option String

def NodePatch.dump (p : NodePatch) : Json :=
  .dict [("id", .text p.id), ("net_balance_atoms", .text p.netBalanceAtoms), ("net_sign", .int p.netSign),
    ("net_balance", .text p.netBalance), ("viz_color_key", .text p.vizColorKey),
    ("viz_shape_key", .text p.vizShapeKey),
    ("viz_size", .dict [("w", .int p.width), ("h", .int p.height)])]

def EdgePatch.dump (p : EdgePatch) : Json :=
  .dict ([("source", .text p.source), ("target", .text p.target)] ++
    (p.trustLimit.map fun limit => ("trust_limit", Json.text limit)).toList ++
    [("used", .text p.used), ("available", .text p.available), ("viz_alpha_key", .text p.vizAlphaKey)] ++
    (p.vizWidthKey.map fun width => ("viz_width_key", Json.text width)).toList)

end Patches

section Models

/-- `Optional[str]`. -/
def dumpText : Option String → Json
  | none => .null
  | some value => .text value

/-- `Optional[List[...]]`. -/
def dumpList {Item : Type} (dump : Item → Json) : Option (List Item) → Json
  | none => .null
  | some items => .list (items.map dump)

def dumpNat : Option FiniteNat → Json
  | none => .null
  | some n => .int n

def dumpInt : Option FiniteInt → Json
  | none => .null
  | some n => .int n

inductive RunState where
  | idle
  | running
  | paused
  | stopping
  | stopped
  | error
deriving DecidableEq, Repr

def RunState.text : RunState → String
  | .idle => "idle"
  | .running => "running"
  | .paused => "paused"
  | .stopping => "stopping"
  | .stopped => "stopped"
  | .error => "error"

/-- `SimulatorLastError`. -/
structure LastError where
  code : Name
  message : String
  at' : UtcTime

def LastError.dump (e : LastError) : Json :=
  .dict [("code", .text e.code), ("message", .text e.message), ("at", .text e.at'.text)]

/-- What `_build_run_status_event` reads of a run. -/
structure RunStatus where
  runId : Name
  scenarioId : Name
  state : RunState
  simTimeMs : Option FiniteNat
  intensityPercent : Option FiniteNat
  opsSec : Option ℚ
  queueDepth : Option FiniteNat
  attemptsTotal : Option FiniteNat
  committedTotal : Option FiniteNat
  rejectedTotal : Option FiniteNat
  errorsTotal : Option FiniteNat
  timeoutsTotal : Option FiniteNat
  consecAllRejectedTicks : Option FiniteNat
  lastEventType : Option String
  currentPhase : Option String
  lastError : Option LastError
  intensity_le : ∀ n ∈ intensityPercent, n.1 ≤ 100
  ops_nonneg : ∀ x ∈ opsSec, 0 ≤ x

/-- `SimulatorTxUpdatedEventEdge`, with its style and with what else its dictionary held. -/
structure TxEdge where
  source : Name
  target : Name
  style : Option (Option String × Option String × Record)
  extra : Record

def TxEdge.dump (edge : TxEdge) : Json :=
  .dict ([("from", .text edge.source), ("to", .text edge.target),
    ("style", (edge.style.map fun style => Json.dict ([("viz_width_key", dumpText style.1),
      ("viz_alpha_key", dumpText style.2.1)] ++ style.2.2)).getD .null)] ++ edge.extra)

/-- `SimulatorTxUpdatedNodeBadge`. -/
structure NodeBadge where
  id : Name
  vizBadgeKey : Option String
  extra : Record

def NodeBadge.dump (badge : NodeBadge) : Json :=
  .dict ([("id", .text badge.id), ("viz_badge_key", dumpText badge.vizBadgeKey)] ++ badge.extra)

/-- The arguments of `emit_tx_updated`. -/
structure TxUpdated where
  equivalent : String
  fromPid : Option Name
  toPid : Option Name
  amount : Option String
  amountFlyout : Bool
  ttlMs : FiniteInt
  edges : List TxEdge
  nodeBadges : Option (List NodeBadge)
  intensityKey : Option String
  edgePatch : Option (List EdgePatch)
  nodePatch : Option (List NodePatch)

/-- The arguments of `emit_tx_failed`. -/
structure TxFailed where
  equivalent : String
  fromPid : Name
  toPid : Name
  errorCode : Name
  errorMessage : String
  errorDetails : Json

/-- The arguments of `emit_clearing_done`. -/
structure ClearingDone where
  equivalent : String
  planId : Name
  clearedCycles : Option FiniteInt
  clearedAmount : Option String
  cycleEdges : Option (List (Name × Name))
  nodePatch : Option (List NodePatch)
  edgePatch : Option (List EdgePatch)

/-- `TopologyChangedNodeRef`. -/
structure NodeRef where
  pid : Name
  name : Option String
  type : Option String

/-- `TopologyChangedEdgeRef`. -/
structure EdgeRef where
  fromPid : Name
  toPid : Name
  equivalentCode : Name
  limit : Option String

/-- `TopologyChangedPayload`. -/
structure TopologyPayload where
  addedNodes : List NodeRef
  removedNodes : List Name
  frozenNodes : List Name
  addedEdges : List EdgeRef
  removedEdges : List EdgeRef
  frozenEdges : List EdgeRef
  nodePatch : Option (List NodePatch)
  edgePatch : Option (List EdgePatch)

def NodeRef.dump (node : NodeRef) : Json :=
  .dict [("pid", .text node.pid), ("name", dumpText node.name), ("type", dumpText node.type)]

def EdgeRef.dump (edge : EdgeRef) : Json :=
  .dict [("from_pid", .text edge.fromPid), ("to_pid", .text edge.toPid),
    ("equivalent_code", .text edge.equivalentCode), ("limit", dumpText edge.limit)]

def dumpName (name : Name) : Json := .text name

def TopologyPayload.dump (payload : TopologyPayload) : Json :=
  .dict [("added_nodes", .list (payload.addedNodes.map NodeRef.dump)),
    ("removed_nodes", .list (payload.removedNodes.map dumpName)),
    ("frozen_nodes", .list (payload.frozenNodes.map dumpName)),
    ("added_edges", .list (payload.addedEdges.map EdgeRef.dump)),
    ("removed_edges", .list (payload.removedEdges.map EdgeRef.dump)),
    ("frozen_edges", .list (payload.frozenEdges.map EdgeRef.dump)),
    ("node_patch", dumpList NodePatch.dump payload.nodePatch),
    ("edge_patch", dumpList EdgePatch.dump payload.edgePatch)]

end Models

section Emitters

/-- The identifier that the stream allocates, and the readings of the clock. -/
structure Envelope where
  eventId : Name
  ts : UtcTime
  at' : UtcTime

/-- What an emitter is called with. -/
inductive Emission where
  | runStatus (run : RunStatus)
  | txUpdated (tx : TxUpdated)
  | txFailed (tx : TxFailed)
  | clearingDone (clearing : ClearingDone)
  | topologyEdgePatch (equivalent : String) (edgePatch : List EdgePatch) (reason : String)
  | topologyChanged (equivalent : String) (payload : TopologyPayload) (reason : Option String)

/-- The first fields of every event. -/
def Envelope.dump (envelope : Envelope) (type : String) : Record :=
  [("event_id", .text envelope.eventId), ("ts", .text envelope.ts.text), ("type", .text type)]

/-- `_build_run_status_event`. -/
def RunStatus.dump (run : RunStatus) (envelope : Envelope) : Record :=
  envelope.dump "run_status" ++ [("run_id", .text run.runId), ("scenario_id", .text run.scenarioId),
    ("state", .text run.state.text), ("sim_time_ms", dumpNat run.simTimeMs),
    ("intensity_percent", dumpNat run.intensityPercent), ("ops_sec", (run.opsSec.map Json.float).getD .null),
    ("queue_depth", dumpNat run.queueDepth), ("attempts_total", dumpNat run.attemptsTotal),
    ("committed_total", dumpNat run.committedTotal), ("rejected_total", dumpNat run.rejectedTotal),
    ("errors_total", dumpNat run.errorsTotal), ("timeouts_total", dumpNat run.timeoutsTotal),
    ("consec_all_rejected_ticks", dumpNat run.consecAllRejectedTicks),
    ("last_event_type", dumpText run.lastEventType), ("current_phase", dumpText run.currentPhase),
    ("last_error", (run.lastError.map LastError.dump).getD .null)]

/-- `_validate_amount_flyout_contract`. The endpoints of the arguments are names, so only blank ones
are left to check. -/
def TxUpdated.flyoutValid (tx : TxUpdated) : Bool :=
  !tx.amountFlyout ||
    (decide (strip (tx.amount.getD "") ≠ "") &&
      ((decide (∃ a ∈ tx.fromPid, strip a ≠ "") && decide (∃ b ∈ tx.toPid, strip b ≠ "")) ||
        tx.edges.any fun edge => decide (strip edge.source ≠ "" ∧ strip edge.target ≠ "")))

/-- `emit_tx_updated`, for a model that validates. -/
def TxUpdated.dump (tx : TxUpdated) (envelope : Envelope) : Record :=
  envelope.dump "tx.updated" ++ [("equivalent", .text (stripUpper tx.equivalent)),
    ("from", dumpText (tx.fromPid.map Subtype.val)), ("to", dumpText (tx.toPid.map Subtype.val)),
    ("amount", dumpText tx.amount), ("amount_flyout", .bool tx.amountFlyout), ("ttl_ms", .int tx.ttlMs),
    ("intensity_key", dumpText tx.intensityKey), ("edges", .list (tx.edges.map TxEdge.dump)),
    ("node_badges", dumpList NodeBadge.dump tx.nodeBadges)] ++
    (if (tx.edgePatch.getD []).isEmpty then []
      else [("edge_patch", dumpList EdgePatch.dump tx.edgePatch)]) ++
    (if (tx.nodePatch.getD []).isEmpty then []
      else [("node_patch", dumpList NodePatch.dump tx.nodePatch)])

/-- `emit_tx_failed`. -/
def TxFailed.dump (tx : TxFailed) (envelope : Envelope) : Record :=
  envelope.dump "tx.failed" ++ [("equivalent", .text (stripUpper tx.equivalent)),
    ("from", .text tx.fromPid), ("to", .text tx.toPid),
    ("error", .dict [("code", .text tx.errorCode), ("message", .text tx.errorMessage),
      ("at", .text envelope.at'.text), ("details", tx.errorDetails)])]

/-- `SimulatorEventEdgeRef`. -/
def dumpEdgeRef (edge : Name × Name) : Json := .dict [("from", .text edge.1), ("to", .text edge.2)]

/-- `emit_clearing_done`. -/
def ClearingDone.dump (clearing : ClearingDone) (envelope : Envelope) : Record :=
  envelope.dump "clearing.done" ++ [("equivalent", .text (stripUpper clearing.equivalent)),
    ("plan_id", .text clearing.planId),
    ("cleared_cycles", dumpInt clearing.clearedCycles),
    ("cleared_amount", dumpText clearing.clearedAmount),
    ("cycle_edges", dumpList dumpEdgeRef clearing.cycleEdges),
    ("node_patch", dumpList NodePatch.dump clearing.nodePatch),
    ("edge_patch", dumpList EdgePatch.dump clearing.edgePatch)]

/-- `SimulatorTopologyChangedEvent`. The reason is no field of the model, and is dumped when given. -/
def dumpTopologyChanged (envelope : Envelope) (equivalent : String) (payload : TopologyPayload)
    (reason : Option String) : Record :=
  envelope.dump "topology.changed" ++
    [("equivalent", .text (stripUpper equivalent)), ("payload", payload.dump)] ++
    (reason.map fun text => ("reason", Json.text text)).toList

/-- `TopologyChangedPayload(edge_patch=edge_patch)`. -/
def TopologyPayload.ofEdgePatch (edgePatch : List EdgePatch) : TopologyPayload :=
  ⟨[], [], [], [], [], [], none, some edgePatch⟩

/-- What an emitter publishes, if anything: a model that does not validate is not published. -/
def Emission.publish (envelope : Envelope) : Emission → Option Json
  | .runStatus run => some (.dict (run.dump envelope))
  | .txUpdated tx =>
      if stripUpper tx.equivalent = "" ∨ tx.flyoutValid = false then none else some (.dict (tx.dump envelope))
  | .txFailed tx => if stripUpper tx.equivalent = "" then none else some (.dict (tx.dump envelope))
  | .clearingDone clearing =>
      if stripUpper clearing.equivalent = "" then none else some (.dict (clearing.dump envelope))
  | .topologyEdgePatch equivalent edgePatch reason =>
      if stripUpper equivalent = "" ∨ edgePatch = [] then none
      else some (.dict (dumpTopologyChanged envelope equivalent (.ofEdgePatch edgePatch) (some reason)))
  | .topologyChanged equivalent payload reason =>
      if stripUpper equivalent = "" then none
      else some (.dict (dumpTopologyChanged envelope equivalent payload reason))

end Emitters

end EventWire

import Mathlib
import GeoLedger.Library.JsValues
import GeoLedger.Simulator.SseWire

/-! `normalizeSimulatorEvent`: what the client takes from an event, or why it
ignores it. A `ParseResult` is an option, and `undefined` is no value. -/
namespace EventNormalizer
open JsValues

section Dates

/-- `(?:\.\d{1,6})?`. -/
def skipFraction : List Char → List Char
  | '.' :: rest =>
      if 1 ≤ (rest.takeWhile isDigit).length ∧ (rest.takeWhile isDigit).length ≤ 6 then rest.dropWhile isDigit
      else '.' :: rest
  | text => text

/-- `(?:Z|[+-]\d{2}:\d{2})$`, with an offset that `Date.parse` reads. -/
def isZone (text : List Char) : Bool :=
  text = ['Z'] ||
    match text with
    | sign :: rest =>
        (sign = '+' || sign = '-') &&
          (do
            let (hours, rest) ← takeDigits 2 rest
            let rest ← expect ':' rest
            let (minutes, rest) ← takeDigits 2 rest
            return (decide (hours < 24) && decide (minutes < 60) && rest.isEmpty)).getD false
    | [] => false

/-- `CANONICAL_ISO_DATE_TIME.exec(value)` and the range checks. -/
def isCanonicalIsoDateTime (text : String) : Bool :=
  (do
    let (year, rest) ← takeDigits 4 text.toList
    let rest ← expect '-' rest
    let (month, rest) ← takeDigits 2 rest
    let rest ← expect '-' rest
    let (day, rest) ← takeDigits 2 rest
    let rest ← expect 'T' rest
    let (hour, rest) ← takeDigits 2 rest
    let rest ← expect ':' rest
    let (minute, rest) ← takeDigits 2 rest
    let rest ← expect ':' rest
    let (second, rest) ← takeDigits 2 rest
    let leapYear := year % 4 = 0 ∧ (year % 100 ≠ 0 ∨ year % 400 = 0)
    let daysInMonth := [31, if leapYear then 29 else 28, 31, 30, 31, 30, 31, 31, 30, 31, 30, 31]
    return (decide (1 ≤ month ∧ month ≤ 12 ∧ 1 ≤ day ∧ day ≤ daysInMonth.getD (month - 1) 0 ∧
      hour ≤ 23 ∧ minute ≤ 59 ∧ second ≤ 59) && isZone (skipFraction rest))).getD false

end Dates

section Readers

/-- `optionalString(raw, key)`. -/
def optionalString (raw : Record) (key : String) : Option (Option String) :=
  match raw.lookup key with
  | none | some .null => some none
  | some (.text value) => some (some value)
  | _ => none

/-- `optionalNumber(raw, key, opts)`. -/
def optionalNumber (raw : Record) (key : String) (integer : Bool) (min max : Option ℚ) :
    Option (Nullish ℚ) :=
  match raw.lookup key with
  | none => some .undefined
  | some .null => some .null
  | some value => do
      let x ← value.finiteNumber?
      if integer = true ∧ x.den ≠ 1 then none
      else if ∃ lower ∈ min, x < lower then none
      else if ∃ upper ∈ max, upper < x then none
      else return .value x

/-- `asString(raw[key])`. -/
def asString (raw : Record) (key : String) : Option String := (raw.lookup key).bind Json.text?

/-- A string that `if (!value)` lets pass. -/
def nonEmptyString (raw : Record) (key : String) : Option String := do
  let value ← asString raw key
  if value = "" then none else return value

/-- A property that is a string or null, if it is there. -/
def nullableString (raw : Record) (key : String) : Option (Nullish String) :=
  match raw.lookup key with
  | none => some .undefined
  | some .null => some .null
  | some (.text value) => some (.value value)
  | _ => none

def hasOnlyKeys (raw : Record) (allowed : List String) : Bool := raw.all fun entry => entry.1 ∈ allowed

def Nullish.value? {Value : Type} : Nullish Value → Option Value
  | .value value => some value
  | _ => none

end Readers

section Patches

structure NodePatch where
  id : String
  netBalanceAtoms : Nullish String
  netSign : Nullish ℚ
  netBalance : Nullish String
  vizColorKey : Nullish String
  vizShapeKey : Nullish String
  vizSize : Nullish (ℚ × ℚ)
deriving DecidableEq

/-- A string or a number. -/
inductive TextOrNumber where
  | text (value : String)
  | number (value : ℚ)
deriving DecidableEq

structure EdgePatch where
  source : String
  target : String
  trustLimit : Option TextOrNumber
  used : Option TextOrNumber
  available : Option TextOrNumber
  vizColorKey : Nullish String
  vizWidthKey : Nullish String
  vizAlphaKey : Nullish String
deriving DecidableEq

def netSign (raw : Record) : Option (Nullish ℚ) :=
  match raw.lookup "net_sign" with
  | none => some .undefined
  | some .null => some .null
  | some value => do
      let x ← value.finiteNumber?
      if x = -1 ∨ x = 0 ∨ x = 1 then return .value x else none

def vizSize (raw : Record) : Option (Nullish (ℚ × ℚ)) :=
  match raw.lookup "viz_size" with
  | none => some .undefined
  | some .null => some .null
  | some (.dict size) => do
      let w ← (size.lookup "w").bind Json.finiteNumber?
      let h ← (size.lookup "h").bind Json.finiteNumber?
      return .value (w, h)
  | _ => none

/-- One round of `normalizeNodePatchArray`. -/
def nodePatch? (value : Json) : Option NodePatch := do
  let raw ← value.record?
  let id ← nonEmptyString raw "id"
  let netBalanceAtoms ← nullableString raw "net_balance_atoms"
  let netSign ← netSign raw
  let netBalance ← nullableString raw "net_balance"
  let vizColorKey ← nullableString raw "viz_color_key"
  let vizShapeKey ← nullableString raw "viz_shape_key"
  let vizSize ← vizSize raw
  return ⟨id, netBalanceAtoms, netSign, netBalance, vizColorKey, vizShapeKey, vizSize⟩

/-- A string or a finite number. An absent or null property is skipped. -/
def textOrNumber (raw : Record) (key : String) : Option (Option TextOrNumber) :=
  match raw.lookup key with
  | none | some .null => some none
  | some (.text value) => some (some (.text value))
  | some value => value.finiteNumber?.map fun x => some (.number x)

/-- One round of `normalizeEdgePatchArray`. -/
def edgePatch? (value : Json) : Option EdgePatch := do
  let raw ← value.record?
  let source ← nonEmptyString raw "source"
  let target ← nonEmptyString raw "target"
  let trustLimit ← textOrNumber raw "trust_limit"
  let used ← textOrNumber raw "used"
  let available ← textOrNumber raw "available"
  let vizColorKey ← nullableString raw "viz_color_key"
  let vizWidthKey ← nullableString raw "viz_width_key"
  let vizAlphaKey ← nullableString raw "viz_alpha_key"
  return ⟨source, target, trustLimit, used, available, vizColorKey, vizWidthKey, vizAlphaKey⟩

/-- An array whose items are read one after the other; an absent or null one is no array. -/
def optionalArray {Item : Type} (item? : Json → Option Item) (raw : Record) (key : String) :
    Option (Option (List Item)) :=
  match raw.lookup key with
  | none | some .null => some none
  | some (.list items) => (items.mapM item?).map some
  | _ => none

/-- `out.length ? out : undefined`. -/
def orUndefined {Item : Type} (items : Option (List Item)) : Option (List Item) :=
  items.filter fun out => !out.isEmpty

/-- `normalizeNodePatchArray(raw.node_patch)`. -/
def normalizeNodePatchArray (raw : Record) : Option (Option (List NodePatch)) :=
  (optionalArray nodePatch? raw "node_patch").map orUndefined

/-- `normalizeEdgePatchArray(raw.edge_patch)`. -/
def normalizeEdgePatchArray (raw : Record) : Option (Option (List EdgePatch)) :=
  (optionalArray edgePatch? raw "edge_patch").map orUndefined

end Patches

section Collections

structure EdgeStyle where
  vizWidthKey : Option String
  vizAlphaKey : Option String
deriving DecidableEq

structure TxEdge where
  source : String
  target : String
  style : Option EdgeStyle
deriving DecidableEq

structure NodeBadge where
  id : String
  vizBadgeKey : Option String
deriving DecidableEq

/-- The style of an edge, unless it has neither key. -/
def edgeStyle? (raw : Record) : Option (Option EdgeStyle) :=
  match raw.lookup "style" with
  | none | some .null => some none
  | some (.dict style) => do
      let width ← nullableString style "viz_width_key"
      let alpha ← nullableString style "viz_alpha_key"
      let width := Nullish.value? width
      let alpha := Nullish.value? alpha
      return if width.isSome ∨ alpha.isSome then some ⟨width, alpha⟩ else none
  | _ => none

/-- One round of `normalizeTxEdges`. -/
def txEdge? (value : Json) : Option TxEdge := do
  let raw ← value.record?
  let source ← nonEmptyString raw "from"
  let target ← nonEmptyString raw "to"
  let style ← edgeStyle? raw
  return ⟨source, target, style⟩

/-- One round of `normalizeNodeBadges`. -/
def nodeBadge? (value : Json) : Option NodeBadge := do
  let raw ← value.record?
  let id ← nonEmptyString raw "id"
  let badge ← nullableString raw "viz_badge_key"
  return ⟨id, Nullish.value? badge⟩

/-- One round of `normalizeEventEdges`. -/
def eventEdge? (value : Json) : Option (String × String) := do
  let raw ← value.record?
  let source ← nonEmptyString raw "from"
  let target ← nonEmptyString raw "to"
  return (source, target)

/-- `normalizeTxEdges(raw.edges)`. -/
def normalizeTxEdges (raw : Record) : Option (List TxEdge) :=
  (optionalArray txEdge? raw "edges").map (·.getD [])

/-- `normalizeNodeBadges(raw.node_badges)`. -/
def normalizeNodeBadges (raw : Record) : Option (List NodeBadge) :=
  (optionalArray nodeBadge? raw "node_badges").map (·.getD [])

/-- `normalizeEventEdges(raw.cycle_edges)`. -/
def normalizeEventEdges (raw : Record) : Option (Option (List (String × String))) :=
  optionalArray eventEdge? raw "cycle_edges"

structure NodeRef where
  pid : String
  name : Option String
  type : Option String
deriving DecidableEq

structure EdgeRef where
  fromPid : String
  toPid : String
  equivalentCode : String
  limit : Option String
deriving DecidableEq

/-- `topologyArray(payload[key])`. -/
def topologyArray (raw : Record) (key : String) : Option (List Json) :=
  match raw.lookup key with
  | none => some []
  | some value => value.list?

/-- One round over `added_nodes`. -/
def nodeRef? (value : Json) : Option NodeRef := do
  let raw ← value.record?
  if hasOnlyKeys raw ["pid", "name", "type"] = false then none
  else
    let pid ← nonEmptyString raw "pid"
    let name ← optionalString raw "name"
    let type ← optionalString raw "type"
    return ⟨pid, name, type⟩

/-- One round of `normalizeNodeIds`. -/
def nodeId? (value : Json) : Option String := do
  let id ← value.text?
  if id = "" then none else return id

/-- One round of `normalizeTopologyEdges`. -/
def edgeRef? (value : Json) : Option EdgeRef := do
  let raw ← value.record?
  if hasOnlyKeys raw ["from_pid", "to_pid", "equivalent_code", "limit"] = false then none
  else
    let fromPid ← nonEmptyString raw "from_pid"
    let toPid ← nonEmptyString raw "to_pid"
    let equivalentCode ← nonEmptyString raw "equivalent_code"
    let limit ← optionalString raw "limit"
    return ⟨fromPid, toPid, equivalentCode, limit⟩

end Collections

section Events

structure RunError where
  code : String
  message : String
  at' : String
deriving DecidableEq

structure RunStatusEvent where
  runId : String
  scenarioId : String
  state : String
  simTimeMs : Nullish ℚ
  intensityPercent : Nullish ℚ
  opsSec : Nullish ℚ
  queueDepth : Nullish ℚ
  lastEventType : Option String
  currentPhase : Option String
  lastError : Option RunError
  stopRequestedAt : Option String
  stopSource : Option String
  stopReason : Option String
  stopClient : Option String
  attemptsTotal : Option ℚ
  committedTotal : Option ℚ
  rejectedTotal : Option ℚ
  errorsTotal : Option ℚ
  timeoutsTotal : Option ℚ
  consecAllRejectedTicks : Option ℚ
deriving DecidableEq

structure TxUpdatedEvent where
  equivalent : String
  source : Option String
  target : Option String
  amount : Option String
  amountFlyout : Option Bool
  ttlMs : ℚ
  intensityKey : Option String
  edges : List TxEdge
  nodeBadges : List NodeBadge
  nodePatch : Option (List NodePatch)
  edgePatch : Option (List EdgePatch)
deriving DecidableEq

structure TxFailedEvent where
  equivalent : String
  source : Option String
  target : Option String
  error : RunError
deriving DecidableEq

structure ClearingDoneEvent where
  equivalent : String
  planId : String
  clearedCycles : Option ℚ
  clearedAmount : Option String
  cycleEdges : Option (List (String × String))
  nodePatch : Option (List NodePatch)
  edgePatch : Option (List EdgePatch)
deriving DecidableEq

structure TopologyChangedEvent where
  equivalent : String
  addedNodes : List NodeRef
  removedNodes : List String
  frozenNodes : Option (List String)
  addedEdges : List EdgeRef
  removedEdges : List EdgeRef
  frozenEdges : Option (List EdgeRef)
  nodePatch : Option (List NodePatch)
  edgePatch : Option (List EdgePatch)
  reason : Option String
deriving DecidableEq

/-- What an accepted event says, by its type. -/
inductive EventBody where
  | runStatus (event : RunStatusEvent)
  | txUpdated (event : TxUpdatedEvent)
  | txFailed (event : TxFailedEvent)
  | clearingDone (event : ClearingDoneEvent)
  | topologyChanged (event : TopologyChangedEvent)
deriving DecidableEq

structure AcceptedEvent where
  eventId : String
  ts : String
  body : EventBody
deriving DecidableEq

/-- `ignored(kind, diagnostic, eventType)`. -/
structure Ignored where
  malformed : Bool
  diagnostic : String
  eventType : Option String
deriving DecidableEq, Repr

/-- A check that turns a missing value into a diagnostic. -/
def orMalformed {Value : Type} (value : Option Value) (diagnostic : String) (type : Option String) :
    Except Ignored Value :=
  match value with
  | some value => .ok value
  | none => .error ⟨true, diagnostic, type⟩

/-- A check whose failure is a diagnostic. -/
def guardMalformed (passed : Bool) (diagnostic : String) (type : String) : Except Ignored Unit :=
  if passed = true then .ok () else .error ⟨true, diagnostic, some type⟩

def runStates : List String := ["idle", "running", "paused", "stopping", "stopped", "error"]

/-- The error of a run or a transaction, with its date. -/
def runError? (raw : Record) : Option RunError := do
  let code ← nonEmptyString raw "code"
  let message ← nonEmptyString raw "message"
  let date ← asString raw "at"
  if isCanonicalIsoDateTime date = true then return ⟨code, message, date⟩ else none

/-- `raw.last_error`. -/
def lastError? (raw : Record) : Option (Option RunError) :=
  match raw.lookup "last_error" with
  | none | some .null => some none
  | some (.dict error) => (runError? error).map some
  | _ => none

def counter? (raw : Record) (key : String) : Except Ignored (Option ℚ) :=
  (orMalformed (optionalNumber raw key true (some 0) none) ("invalid_run_status_" ++ key)
    (some "run_status")).map Nullish.value?

def normalizeRunStatus (raw : Record) : Except Ignored RunStatusEvent := do
  let type := some "run_status"
  let (runId, scenarioId, state) ← orMalformed (do
    let runId ← nonEmptyString raw "run_id"
    let scenarioId ← nonEmptyString raw "scenario_id"
    let state ← nonEmptyString raw "state"
    if state ∈ runStates then return (runId, scenarioId, state) else none)
    "invalid_run_status_identity" type
  let (simTime, intensity, ops, queue) ← orMalformed (do
    let simTime ← optionalNumber raw "sim_time_ms" true (some 0) none
    let intensity ← optionalNumber raw "intensity_percent" true (some 0) (some 100)
    let ops ← optionalNumber raw "ops_sec" false (some 0) none
    let queue ← optionalNumber raw "queue_depth" true (some 0) none
    return (simTime, intensity, ops, queue)) "invalid_run_status_metrics" type
  let lastError ← orMalformed (lastError? raw) "invalid_run_status_error" type
  let (lastEventType, currentPhase, stopRequestedAt, stopSource, stopReason, stopClient) ← orMalformed (do
    let lastEventType ← optionalString raw "last_event_type"
    let currentPhase ← optionalString raw "current_phase"
    let stopRequestedAt ← optionalString raw "stop_requested_at"
    let stopSource ← optionalString raw "stop_source"
    let stopReason ← optionalString raw "stop_reason"
    let stopClient ← optionalString raw "stop_client"
    if ∃ date ∈ stopRequestedAt, isCanonicalIsoDateTime date = false then none
    else return (lastEventType, currentPhase, stopRequestedAt, stopSource, stopReason, stopClient))
    "invalid_run_status_optional_field" type
  let attemptsTotal ← counter? raw "attempts_total"
  let committedTotal ← counter? raw "committed_total"
  let rejectedTotal ← counter? raw "rejected_total"
  let errorsTotal ← counter? raw "errors_total"
  let timeoutsTotal ← counter? raw "timeouts_total"
  let consecAllRejectedTicks ← counter? raw "consec_all_rejected_ticks"
  return ⟨runId, scenarioId, state, simTime, intensity, ops, queue, lastEventType, currentPhase, lastError,
    stopRequestedAt, stopSource, stopReason, stopClient, attemptsTotal, committedTotal, rejectedTotal,
    errorsTotal, timeoutsTotal, consecAllRejectedTicks⟩

/-- `raw.amount_flyout`. -/
def amountFlyout? (raw : Record) : Option (Option Bool) :=
  match raw.lookup "amount_flyout" with
  | none | some .null => some none
  | some (.bool value) => some (some value)
  | _ => none

/-- A text that `Boolean(value)` takes for true. -/
def truthy (text : Option String) : Bool := decide (∃ value ∈ text, value ≠ "")

def normalizeTxUpdated (raw : Record) : Except Ignored TxUpdatedEvent := do
  let type := some "tx.updated"
  let equivalent ← orMalformed (nonEmptyString raw "equivalent") "invalid_tx_updated_equivalent" type
  let (source, target, amount, intensityKey) ← orMalformed (do
    let source ← optionalString raw "from"
    let target ← optionalString raw "to"
    let amount ← optionalString raw "amount"
    let intensityKey ← optionalString raw "intensity_key"
    return (source, target, amount, intensityKey)) "invalid_tx_updated_optional_field" type
  let amountFlyout ← orMalformed (amountFlyout? raw) "invalid_tx_updated_amount_flyout" type
  let ttl ← orMalformed (optionalNumber raw "ttl_ms" true none none) "invalid_tx_updated_ttl" type
  let (edges, badges, nodePatch, edgePatch) ← orMalformed (do
    let edges ← normalizeTxEdges raw
    let badges ← normalizeNodeBadges raw
    let nodePatch ← normalizeNodePatchArray raw
    let edgePatch ← normalizeEdgePatchArray raw
    return (edges, badges, nodePatch, edgePatch)) "invalid_tx_updated_collection" type
  guardMalformed (!decide (amountFlyout = some true) ||
      (decide (∃ text ∈ amount, SseWire.trim text.toList ≠ []) &&
        ((truthy source && truthy target) || !edges.isEmpty)))
    "invalid_tx_updated_amount_flyout_contract" "tx.updated"
  return ⟨equivalent, source, target, amount, amountFlyout, (Nullish.value? ttl).getD 1200, intensityKey, edges,
    badges, nodePatch, edgePatch⟩

def normalizeTxFailed (raw : Record) : Except Ignored TxFailedEvent := do
  let type := some "tx.failed"
  let (equivalent, source, target, error) ← orMalformed (do
    let equivalent ← nonEmptyString raw "equivalent"
    let source ← optionalString raw "from"
    let target ← optionalString raw "to"
    let error ← (raw.lookup "error").bind Json.record?
    return (equivalent, source, target, error)) "invalid_tx_failed_envelope" type
  let error ← orMalformed (runError? error) "invalid_tx_failed_error" type
  return ⟨equivalent, source, target, error⟩

def normalizeClearingDone (raw : Record) : Except Ignored ClearingDoneEvent := do
  let type := some "clearing.done"
  let (equivalent, planId) ← orMalformed (do
    let equivalent ← nonEmptyString raw "equivalent"
    let planId ← nonEmptyString raw "plan_id"
    return (equivalent, planId)) "invalid_clearing_done_identity" type
  let (clearedCycles, clearedAmount, cycleEdges, nodePatch, edgePatch) ← orMalformed (do
    let clearedCycles ← optionalNumber raw "cleared_cycles" true (some 0) none
    let clearedAmount ← optionalString raw "cleared_amount"
    let cycleEdges ← normalizeEventEdges raw
    let nodePatch ← normalizeNodePatchArray raw
    let edgePatch ← normalizeEdgePatchArray raw
    return (clearedCycles, clearedAmount, cycleEdges, nodePatch, edgePatch))
    "invalid_clearing_done_payload" type
  return ⟨equivalent, planId, Nullish.value? clearedCycles, clearedAmount, cycleEdges, nodePatch, edgePatch⟩

def topologyKeys : List String :=
  ["added_nodes", "removed_nodes", "frozen_nodes", "added_edges", "removed_edges", "frozen_edges",
    "node_patch", "edge_patch"]

def normalizeTopologyChanged (raw : Record) : Except Ignored TopologyChangedEvent := do
  let type := some "topology.changed"
  let (equivalent, payload) ← orMalformed (do
    let equivalent ← nonEmptyString raw "equivalent"
    let payload ← (raw.lookup "payload").bind Json.record?
    return (equivalent, payload)) "invalid_topology_changed_envelope" type
  guardMalformed (hasOnlyKeys payload topologyKeys) "invalid_topology_changed_payload_extra" "topology.changed"
  let (addedNodes, removedNodes, frozenNodes, addedEdges, removedEdges, frozenEdges, nodePatch, edgePatch) ←
    orMalformed (do
      let addedNodes ← topologyArray payload "added_nodes"
      let removedNodes ← topologyArray payload "removed_nodes"
      let frozenNodes ← topologyArray payload "frozen_nodes"
      let addedEdges ← topologyArray payload "added_edges"
      let removedEdges ← topologyArray payload "removed_edges"
      let frozenEdges ← topologyArray payload "frozen_edges"
      let nodePatch ← normalizeNodePatchArray payload
      let edgePatch ← normalizeEdgePatchArray payload
      return (addedNodes, removedNodes, frozenNodes, addedEdges, removedEdges, frozenEdges, nodePatch,
        edgePatch)) "invalid_topology_changed_collection" type
  let addedNodes ← orMalformed (addedNodes.mapM nodeRef?) "invalid_topology_changed_node" type
  let (removedNodes, frozenNodes) ← orMalformed (do
    let removedNodes ← removedNodes.mapM nodeId?
    let frozenNodes ← frozenNodes.mapM nodeId?
    return (removedNodes, frozenNodes)) "invalid_topology_changed_node_id" type
  let (addedEdges, removedEdges, frozenEdges) ← orMalformed (do
    let addedEdges ← addedEdges.mapM edgeRef?
    let removedEdges ← removedEdges.mapM edgeRef?
    let frozenEdges ← frozenEdges.mapM edgeRef?
    return (addedEdges, removedEdges, frozenEdges)) "invalid_topology_changed_edge" type
  let reason ← orMalformed (optionalString raw "reason") "invalid_topology_changed_reason" type
  return ⟨equivalent, addedNodes, removedNodes, orUndefined (some frozenNodes), addedEdges, removedEdges,
    orUndefined (some frozenEdges), nodePatch, edgePatch, reason⟩

/-- The branch of an event type. -/
def normalizeBody (type : String) (raw : Record) : Except Ignored EventBody :=
  if type = "run_status" then .runStatus <$> normalizeRunStatus raw
  else if type = "tx.updated" then .txUpdated <$> normalizeTxUpdated raw
  else if type = "tx.failed" then .txFailed <$> normalizeTxFailed raw
  else if type = "clearing.done" then .clearingDone <$> normalizeClearingDone raw
  else if type = "topology.changed" then .topologyChanged <$> normalizeTopologyChanged raw
  else .error ⟨false, "unknown_event_type", some type⟩

def normalizeSimulatorEvent (value : Json) : Except Ignored AcceptedEvent := do
  let raw ← orMalformed value.record? "event_not_object" none
  let type := asString raw "type"
  let (type, eventId, ts) ← orMalformed (do
    let type ← nonEmptyString raw "type"
    let eventId ← nonEmptyString raw "event_id"
    let ts ← asString raw "ts"
    if isCanonicalIsoDateTime ts = true then return (type, eventId, ts) else none)
    "invalid_event_envelope" type
  let body ← normalizeBody type raw
  return ⟨eventId, ts, body⟩

end Events

end EventNormalizer

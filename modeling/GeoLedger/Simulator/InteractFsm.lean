import Mathlib
import GeoLedger.Library.Runs
import GeoLedger.Library.WriteBehind
import GeoLedger.Simulator.SseWire

/-! `useInteractFSM`: the phases of the interact mode with the endpoints that the user
has picked, over the calls of the canvas, the dropdowns and the clearing panel. -/
namespace InteractFsm
open Transition

inductive InteractPhase where
  | idle
  | pickingPaymentFrom
  | pickingPaymentTo
  | confirmPayment
  | pickingTrustlineFrom
  | pickingTrustlineTo
  | confirmTrustlineCreate
  | editingTrustline
  | confirmClearing
  | clearingPreview
  | clearingRunning
deriving DecidableEq

/-- `InteractState`; the state machine only stores the clearing response. -/
structure InteractState (Clearing : Type*) where
  phase : InteractPhase := .idle
  fromPid : Option String := none
  toPid : Option String := none
  initiatedWithPrefilledFrom : Bool := false
  selectedEdgeKey : Option String := none
  edgeAnchor : Option (ℚ × ℚ) := none
  error : Option String := none
  lastClearing : Option Clearing := none

/-- `text.trim()`. -/
def jsTrim (text : String) : String := String.ofList (SseWire.trim text.toList)

def keyEdge (a b : String) : String := a ++ "→" ++ b

/-- `parseEdgeKey`: the key is cut at its first arrow. -/
def parseEdgeKey (edgeKey : String) : Option (String × String) :=
  let start := edgeKey.toList.takeWhile (· ≠ '→')
  let rest := (edgeKey.toList.dropWhile (· ≠ '→')).drop 1
  if edgeKey.toList.dropWhile (· ≠ '→') = [] ∨ start = [] ∨ rest = [] then none
  else some (String.ofList start, String.ofList rest)

structure GraphLink where
  source : String
  target : String
  status : Option String
deriving DecidableEq

/-- `isActiveStatus`, on ASCII letters. -/
def isActiveStatus (status : Option String) : Bool :=
  (SseWire.trim (status.getD "active").toList).map Char.toLower = "active".toList

/-- What a call can ask: the snapshot, and the fetched trust lines. -/
structure Answers where
  snapshot : Option (List GraphLink)
  findActiveTrustline : String → String → Bool

/-- `findActiveLink`, for endpoints that are picked. -/
def findActiveLink (snapshot : Option (List GraphLink)) (a b : String) : Option GraphLink :=
  (snapshot.getD []).find? fun l => l.source = a ∧ l.target = b ∧ isActiveStatus l.status

/-- `pid ? String(pid).trim() || null : null`. -/
def cleanPid (pid : Option String) : Option String := (pid.map jsTrim).filter (· ≠ "")

inductive Call (Clearing : Type*) where
  | clearError
  | resetToIdle
  | startPaymentFlow
  | startPaymentFlowWithFrom (fromPid : String)
  | startTrustlineFlow
  | startTrustlineFlowWithFrom (fromPid : String)
  | startClearingFlow
  | selectNode (nodeId : String) (answers : Answers)
  | selectEdge (edgeKey : String) (anchor : Option (ℚ × ℚ))
  | selectTrustline (fromPid toPid : String)
  | setPaymentFromPid (pid : Option String)
  | setPaymentToPid (pid : Option String)
  | setTrustlineFromPid (pid : Option String) (answers : Answers)
  | setTrustlineToPid (pid : Option String) (answers : Answers)
  | enterClearingPreview
  | setLastClearing (response : Option Clearing)
  | enterClearingRunning

namespace InteractState

variable {Clearing : Type*} (s : InteractState Clearing)

def clearError : InteractState Clearing := { s with error := none }

def initFlowState (phase : InteractPhase) (fromPid : Option String) (prefilled : Bool) : InteractState Clearing :=
  { s.clearError with
    phase := phase
    fromPid := fromPid
    toPid := none
    initiatedWithPrefilledFrom := prefilled
    selectedEdgeKey := none
    edgeAnchor := none }

def resetToIdle : InteractState Clearing := { lastClearing := s.lastClearing }

def startPaymentFlow : InteractState Clearing := s.initFlowState .pickingPaymentFrom none false

def startPaymentFlowWithFrom (fromPidRaw : String) : InteractState Clearing :=
  if jsTrim fromPidRaw = "" then s.startPaymentFlow
  else s.initFlowState .pickingPaymentTo (some (jsTrim fromPidRaw)) true

def startTrustlineFlow : InteractState Clearing := s.initFlowState .pickingTrustlineFrom none false

def startTrustlineFlowWithFrom (fromPidRaw : String) : InteractState Clearing :=
  if jsTrim fromPidRaw = "" then s.startTrustlineFlow
  else s.initFlowState .pickingTrustlineTo (some (jsTrim fromPidRaw)) true

def startClearingFlow : InteractState Clearing :=
  { s.initFlowState .confirmClearing none false with lastClearing := none }

/-- The phase for picked endpoints: an active trust line is edited, or else created. -/
def trustlinePhase (answers : Answers) (a b : String) : InteractState Clearing :=
  if answers.findActiveTrustline a b ∨ (findActiveLink answers.snapshot a b).isSome then
    { s with selectedEdgeKey := some (keyEdge a b), edgeAnchor := none, phase := .editingTrustline }
  else { s with selectedEdgeKey := none, edgeAnchor := none, phase := .confirmTrustlineCreate }

def recomputeTrustlinePhase (answers : Answers) : InteractState Clearing :=
  match s.fromPid, s.toPid with
  | some a, some b => if a = "" ∨ b = "" ∨ a = b then s else s.trustlinePhase answers a b
  | _, _ => s

/-- `selectNode`; the callback `onNodeClick` does not touch the state. -/
def selectNode (nodeId : String) (answers : Answers) : InteractState Clearing :=
  let id := jsTrim nodeId
  if id = "" then s
  else
    match s.phase with
    | .pickingPaymentFrom =>
        { s.clearError with fromPid := some id, toPid := none, phase := .pickingPaymentTo }
    | .pickingPaymentTo => { s.clearError with toPid := some id, phase := .confirmPayment }
    | .confirmPayment =>
        if some id ≠ s.fromPid then { s.clearError with toPid := some id }
        else { s.clearError with toPid := none, phase := .pickingPaymentTo }
    | .pickingTrustlineFrom =>
        { s.clearError with fromPid := some id, toPid := none, phase := .pickingTrustlineTo }
    | .pickingTrustlineTo => ({ s.clearError with toPid := some id }).recomputeTrustlinePhase answers
    | .editingTrustline | .confirmTrustlineCreate =>
        if some id ≠ s.fromPid then ({ s.clearError with toPid := some id }).recomputeTrustlinePhase answers
        else
          { s.clearError with toPid := none, phase := .pickingTrustlineTo, selectedEdgeKey := none, edgeAnchor := none }
    | _ => s

def selectEdge (edgeKey : String) (anchor : Option (ℚ × ℚ)) : InteractState Clearing :=
  match parseEdgeKey edgeKey with
  | none => s
  | some (a, b) =>
      { s.clearError with
        fromPid := some a
        toPid := some b
        initiatedWithPrefilledFrom := true
        selectedEdgeKey := some (keyEdge a b)
        edgeAnchor := anchor
        phase := .editingTrustline }

def setPaymentFromPid (pid : Option String) : InteractState Clearing :=
  let v := cleanPid pid
  match s.phase with
  | .pickingPaymentFrom =>
      { s.clearError with
        fromPid := v, toPid := none, phase := if v = none then .pickingPaymentFrom else .pickingPaymentTo }
  | .pickingPaymentTo =>
      { s.clearError with
        fromPid := v, toPid := none, phase := if v = none then .pickingPaymentFrom else .pickingPaymentTo }
  | .confirmPayment =>
      if v = none then { s.clearError with fromPid := v, toPid := none, phase := .pickingPaymentFrom }
      else { s.clearError with fromPid := v }
  | _ => s.clearError

def setPaymentToPid (pid : Option String) : InteractState Clearing :=
  let v := cleanPid pid
  match s.phase with
  | .pickingPaymentTo =>
      { s.clearError with toPid := v, phase := if v = none then .pickingPaymentTo else .confirmPayment }
  | .confirmPayment =>
      { s.clearError with toPid := v, phase := if v = none then .pickingPaymentTo else .confirmPayment }
  | _ => s.clearError

def setTrustlineFromPid (pid : Option String) (answers : Answers) : InteractState Clearing :=
  let v := cleanPid pid
  match s.phase with
  | .pickingTrustlineFrom =>
      { s.clearError with
        fromPid := v, toPid := none, phase := if v = none then .pickingTrustlineFrom else .pickingTrustlineTo }
  | .pickingTrustlineTo =>
      { s.clearError with
        fromPid := v, toPid := none, phase := if v = none then .pickingTrustlineFrom else .pickingTrustlineTo }
  | .editingTrustline | .confirmTrustlineCreate =>
      ({ s.clearError with fromPid := v }).recomputeTrustlinePhase answers
  | _ => s.clearError

def setTrustlineToPid (pid : Option String) (answers : Answers) : InteractState Clearing :=
  let v := cleanPid pid
  match s.phase with
  | .pickingTrustlineTo =>
      if v = none then { s.clearError with toPid := v }
      else ({ s.clearError with toPid := v }).recomputeTrustlinePhase answers
  | .editingTrustline | .confirmTrustlineCreate =>
      if v = none then
        { s.clearError with toPid := v, phase := .pickingTrustlineTo, selectedEdgeKey := none, edgeAnchor := none }
      else ({ s.clearError with toPid := v }).recomputeTrustlinePhase answers
  | _ => s.clearError

def selectTrustline (fromPid toPid : String) : InteractState Clearing :=
  match cleanPid (some fromPid), cleanPid (some toPid) with
  | some a, some b =>
      { s.clearError with
        fromPid := some a
        toPid := some b
        initiatedWithPrefilledFrom := true
        selectedEdgeKey := some (keyEdge a b)
        edgeAnchor := none
        phase := .editingTrustline }
  | a, b => { s.clearError with fromPid := a, toPid := b }

def step : Call Clearing → InteractState Clearing
  | .clearError => s.clearError
  | .resetToIdle => s.resetToIdle
  | .startPaymentFlow => s.startPaymentFlow
  | .startPaymentFlowWithFrom fromPid => s.startPaymentFlowWithFrom fromPid
  | .startTrustlineFlow => s.startTrustlineFlow
  | .startTrustlineFlowWithFrom fromPid => s.startTrustlineFlowWithFrom fromPid
  | .startClearingFlow => s.startClearingFlow
  | .selectNode nodeId answers => s.selectNode nodeId answers
  | .selectEdge edgeKey anchor => s.selectEdge edgeKey anchor
  | .selectTrustline fromPid toPid => s.selectTrustline fromPid toPid
  | .setPaymentFromPid pid => s.setPaymentFromPid pid
  | .setPaymentToPid pid => s.setPaymentToPid pid
  | .setTrustlineFromPid pid answers => s.setTrustlineFromPid pid answers
  | .setTrustlineToPid pid answers => s.setTrustlineToPid pid answers
  | .enterClearingPreview => { s.clearError with phase := .clearingPreview, lastClearing := none }
  | .setLastClearing response => { s with lastClearing := response }
  | .enterClearingRunning => { s.clearError with phase := .clearingRunning }

end InteractState

end InteractFsm

import Mathlib
import GeoLedger.Simulator.InteractFsm

/-! `useInteractMode`: the operations of the interact mode, with the epoch that tells whether
an operation may still write. A step of the model runs until the next answer is awaited,
with the microtasks that it schedules. -/
namespace InteractMode
open InteractFsm

/-- `SimulatorActionClearingRealResponse`. -/
structure ClearingResponse where
  cleared_cycles : ℕ
  total_cleared_amount : Option String
  cycles : List String
deriving DecidableEq

/-- What `Date` tells. -/
structure Now where
  timestampMs : ℤ
  timeText : String
deriving DecidableEq

/-- `InteractHistoryEntry`. -/
structure HistoryEntry where
  id : ℕ
  icon : String
  text : String
  now : Now
deriving DecidableEq

def HISTORY_MAX : ℕ := 20

section Operations

inductive Action where
  | payment (amount : String)
  | trustlineCreate (limit : String)
  | trustlineUpdate (newLimit : String)
  | trustlineClose
  | clearing
deriving DecidableEq

/-- What an operation awaits: its request, or one of the pauses of a clearing. -/
inductive Stage where
  | request
  | previewPaint (response : ClearingResponse)
  | previewDwell (response : ClearingResponse)
  | runningPaint (response : ClearingResponse)
  | runningDwell (response : ClearingResponse)
deriving DecidableEq

/-- The phase and the endpoints. -/
structure Place where
  phase : InteractPhase
  fromPid : Option String
  toPid : Option String
deriving DecidableEq

/-- An operation in flight, with the endpoints that it closed over. The code keeps neither where
it was started nor whether `cancel` was called since. -/
structure Operation where
  action : Action
  fromPid : Option String
  toPid : Option String
  epoch : ℕ
  stage : Stage
  startedAt : Place
  cancelled : Bool
deriving DecidableEq

namespace Action

/-- The error of an operation whose endpoints are not picked. -/
def missingEndpoints : Action → String
  | .payment _ | .trustlineCreate _ => "Select From and To first"
  | _ => "Select trustline first"

def successText (fromPid toPid equivalent : String) : Action → String
  | .payment amount => "Payment sent: " ++ amount ++ " " ++ equivalent
  | .trustlineCreate _ => "Trustline created: " ++ fromPid ++ " → " ++ toPid
  | .trustlineUpdate newLimit => "Limit updated: " ++ newLimit ++ " " ++ equivalent
  | .trustlineClose => "Trustline closed: " ++ fromPid ++ " → " ++ toPid
  | .clearing => ""

def historyIcon : Action → String
  | .payment _ => "💸"
  | .trustlineCreate _ => "🔗"
  | .trustlineUpdate _ => "✏️"
  | .trustlineClose => "🗑️"
  | .clearing => "🌀"

def historyText (fromPid toPid equivalent : String) : Action → String
  | .payment amount => "Payment " ++ amount ++ " " ++ equivalent ++ ": " ++ fromPid ++ " → " ++ toPid
  | .trustlineCreate limit => "Trustline created: " ++ fromPid ++ " → " ++ toPid ++ " (" ++ limit ++ ")"
  | .trustlineUpdate newLimit =>
      "Trustline updated: " ++ fromPid ++ " → " ++ toPid ++ " → limit " ++ newLimit
  | .trustlineClose => "Trustline closed: " ++ fromPid ++ " → " ++ toPid
  | .clearing => ""

end Action

def clearingText (response : ClearingResponse) (equivalent : String) : String :=
  if response.cleared_cycles > 0 then
    "Clearing: " ++ toString response.cleared_cycles ++ " cycle(s), −" ++
      response.total_cleared_amount.getD "0" ++ " " ++ equivalent
  else "Clearing: no cycles found"

end Operations

/-- The interact mode, and its operations in flight. -/
structure World where
  state : InteractState ClearingResponse := {}
  successMessage : Option String := none
  history : List HistoryEntry := []
  nextHistoryId : ℕ := 1
  busy : Bool := false
  cancelling : Bool := false
  epoch : ℕ := 0
  busyOwnerEpoch : Option ℕ := none
  activeAbort : Option ℕ := none
  operations : List Operation := []

inductive Event where
  | startPaymentFlow
  | startPaymentFlowWithFrom (fromPid : String)
  | startTrustlineFlow
  | startTrustlineFlowWithFrom (fromPid : String)
  | startClearingFlow
  | selectNode (nodeId : String) (answers : Answers)
  | selectEdge (edgeKey : String) (anchor : Option (ℚ × ℚ))
  | selectTrustline (fromPid toPid : String)
  | setPaymentFromPid (pid : Option String)
  | setPaymentToPid (pid : Option String)
  | setTrustlineFromPid (pid : Option String) (answers : Answers)
  | setTrustlineToPid (pid : Option String) (answers : Answers)
  | confirmPayment (amount : String)
  | confirmTrustlineCreate (limit : String)
  | confirmTrustlineUpdate (newLimit : String)
  | confirmTrustlineClose
  | confirmClearing
  | cancel
  | succeed (epoch : ℕ) (equivalent : String) (now : Now)
  | succeedClearing (epoch : ℕ) (response : ClearingResponse) (equivalent : String) (now : Now)
  | fail (epoch : ℕ) (message : String)
  | resume (epoch : ℕ)

namespace World

variable (w : World)

def place : Place := ⟨w.state.phase, w.state.fromPid, w.state.toPid⟩

def pushHistory (icon text : String) (now : Now) : World :=
  let history := w.history ++ [⟨w.nextHistoryId, icon, text, now⟩]
  { w with history := history.drop (history.length - HISTORY_MAX), nextHistoryId := w.nextHistoryId + 1 }

/-- `setSuccessToastMessage`: a repeated message is taken away until the next microtask. -/
def setSuccessToastMessage (message : String) : World := { w with successMessage := some message }

/-- A call of the state machine that waits for no operation. -/
def call (c : Call ClearingResponse) : World := if w.busy then w else { w with state := w.state.step c }

/-- A call that starts a flow. -/
def startFlow (c : Call ClearingResponse) : World :=
  if w.busy then w else if w.state.phase ≠ .idle then w else { w with state := w.state.step c }

section RunBusy

/-- `runBusy`, up to its function. -/
def acquire (action : Action) (fromPid toPid : Option String) : World :=
  { w with
    busy := true
    cancelling := false
    epoch := w.epoch + 1
    busyOwnerEpoch := some (w.epoch + 1)
    activeAbort := some (w.epoch + 1)
    operations := w.operations ++ [⟨action, fromPid, toPid, w.epoch + 1, .request, w.place, false⟩] }

/-- `runBusy`, its `finally`: the operation is settled. -/
def release (epoch : ℕ) : World :=
  { w with
    activeAbort := if w.activeAbort = some epoch then none else w.activeAbort
    busy := if w.busyOwnerEpoch = some epoch then false else w.busy
    busyOwnerEpoch := if w.busyOwnerEpoch = some epoch then none else w.busyOwnerEpoch
    cancelling := if w.busyOwnerEpoch = some epoch then false else w.cancelling
    operations := w.operations.filter fun o => o.epoch ≠ epoch }

/-- `runBusy`, its `catch` and `finally`. -/
def reject (epoch : ℕ) (message : String) : World :=
  (if w.epoch = epoch then { w with state := { w.state with error := some message } } else w).release epoch

end RunBusy

/-- The operations on two endpoints, up to the request. -/
def confirm (action : Action) : World :=
  let w := { w with state := w.state.clearError }
  if w.busy then w
  else
    let started := w.acquire action w.state.fromPid w.state.toPid
    if w.state.fromPid.getD "" = "" ∨ w.state.toPid.getD "" = "" then
      started.reject started.epoch action.missingEndpoints
    else started

def confirmPayment (amount : String) : World := w.confirm (.payment amount)

def confirmTrustlineCreate (limit : String) : World := w.confirm (.trustlineCreate limit)

def confirmTrustlineUpdate (newLimit : String) : World := w.confirm (.trustlineUpdate newLimit)

def confirmTrustlineClose : World := w.confirm .trustlineClose

/-- `confirmClearing`, up to its request. -/
def confirmClearing : World :=
  let w := { w with state := w.state.clearError }
  if w.busy then w
  else
    let started := w.acquire .clearing none none
    { started with state := started.state.step .enterClearingPreview }

/-- The operations on two endpoints, after their request. -/
def succeed (o : Operation) (equivalent : String) (now : Now) : World :=
  if w.epoch ≠ o.epoch then w.release o.epoch
  else
    let fromPid := o.fromPid.getD ""
    let toPid := o.toPid.getD ""
    let told := (w.setSuccessToastMessage (o.action.successText fromPid toPid equivalent)).pushHistory
      o.action.historyIcon (o.action.historyText fromPid toPid equivalent) now
    { told with state := told.state.resetToIdle }.release o.epoch

/-- An operation goes on to its next pause. -/
def pause (epoch : ℕ) (stage : Stage) : World :=
  { w with operations := w.operations.map fun o => if o.epoch = epoch then { o with stage := stage } else o }

/-- `confirmClearing`, after its request. -/
def succeedClearing (o : Operation) (response : ClearingResponse) (equivalent : String) (now : Now) : World :=
  if w.epoch ≠ o.epoch then w.release o.epoch
  else
    ({ w with state := w.state.step (.setLastClearing (some response)) }.pushHistory "🌀"
      (clearingText response equivalent) now).pause o.epoch (.previewPaint response)

/-- `confirmClearing`, after a pause. -/
def resume (o : Operation) : World :=
  if w.epoch ≠ o.epoch then w.release o.epoch
  else
    match o.stage with
    | .request => w
    | .previewPaint response => w.pause o.epoch (.previewDwell response)
    | .previewDwell response =>
        { w with state := w.state.step .enterClearingRunning }.pause o.epoch (.runningPaint response)
    | .runningPaint response => w.pause o.epoch (.runningDwell response)
    | .runningDwell response =>
        { w with
          successMessage := some ("Clearing done: " ++ toString response.cleared_cycles ++ "/" ++
            toString response.cycles.length ++ " cycles")
          state := w.state.resetToIdle }.release o.epoch

def cancel : World :=
  { w with
    epoch := w.epoch + 1
    activeAbort := none
    state := w.state.resetToIdle
    cancelling := if w.busy then true else w.cancelling
    operations := w.operations.map fun o => { o with cancelled := true } }

/-- The operation of an epoch that awaits its request. -/
def requesting (epoch : ℕ) : Option Operation :=
  w.operations.find? fun o => o.epoch = epoch ∧ o.stage = .request

def step : Event → World
  | .startPaymentFlow => w.startFlow .startPaymentFlow
  | .startPaymentFlowWithFrom fromPid => w.startFlow (.startPaymentFlowWithFrom fromPid)
  | .startTrustlineFlow => w.startFlow .startTrustlineFlow
  | .startTrustlineFlowWithFrom fromPid => w.startFlow (.startTrustlineFlowWithFrom fromPid)
  | .startClearingFlow => w.startFlow .startClearingFlow
  | .selectNode nodeId answers => w.call (.selectNode nodeId answers)
  | .selectEdge edgeKey anchor => w.call (.selectEdge edgeKey anchor)
  | .selectTrustline fromPid toPid => w.call (.selectTrustline fromPid toPid)
  | .setPaymentFromPid pid => w.call (.setPaymentFromPid pid)
  | .setPaymentToPid pid => w.call (.setPaymentToPid pid)
  | .setTrustlineFromPid pid answers => w.call (.setTrustlineFromPid pid answers)
  | .setTrustlineToPid pid answers => w.call (.setTrustlineToPid pid answers)
  | .confirmPayment amount => w.confirmPayment amount
  | .confirmTrustlineCreate limit => w.confirmTrustlineCreate limit
  | .confirmTrustlineUpdate newLimit => w.confirmTrustlineUpdate newLimit
  | .confirmTrustlineClose => w.confirmTrustlineClose
  | .confirmClearing => w.confirmClearing
  | .cancel => w.cancel
  | .succeed epoch equivalent now =>
      match (w.requesting epoch).filter (·.action ≠ .clearing) with
      | none => w
      | some o => w.succeed o equivalent now
  | .succeedClearing epoch response equivalent now =>
      match (w.requesting epoch).filter (·.action = .clearing) with
      | none => w
      | some o => w.succeedClearing o response equivalent now
  | .fail epoch message =>
      match w.requesting epoch with
      | none => w
      | some o => w.reject o.epoch message
  | .resume epoch =>
      match w.operations.find? fun o => o.epoch = epoch ∧ o.stage ≠ .request with
      | none => w
      | some o => w.resume o

end World

end InteractMode

import Mathlib
import GeoLedger.Library.LatestAnswers
import GeoLedger.Simulator.InteractFsm

/-! `useMetricsPolling`: two streams of metrics for the current run and equivalent, asked
for in pairs of requests whose answers may come in any order. -/
namespace MetricsPolling
open LatestAnswers
open InteractFsm (jsTrim)

section Streams

inductive MetricsStreamPhase where
  | idle
  | loading
  | ready
  | unavailable
  | error
deriving DecidableEq

structure StreamState (D : Type) where
  data : Option D := none
  phase : MetricsStreamPhase := .idle
  error : String := ""
  unavailableReason : String := ""
deriving DecidableEq

def UNAVAILABLE_REASONS : List String := ["storage_disabled", "db_read_failed"]

/-- Why a request was rejected: the status of an `ApiError`, the text at `error.details.reason`
of its body, and the message that is extracted. -/
structure Rejection where
  apiStatus : Option ℕ
  bodyReason : Option String
  message : String

def unavailableReasonOf (e : Rejection) : Option String := e.bodyReason.filter (· ∈ UNAVAILABLE_REASONS)

variable {D : Type}

def applyResult (result : Except Rejection D) (stream : StreamState D) : StreamState D :=
  let stream := { stream with error := "", unavailableReason := "" }
  match result with
  | .ok value => { stream with data := some value, phase := .ready }
  | .error reason =>
      let stream := { stream with data := none }
      match if reason.apiStatus = some 503 then unavailableReasonOf reason else none with
      | some structuralReason => { stream with phase := .unavailable, unavailableReason := structuralReason }
      | none => { stream with phase := .error, error := reason.message }

/-- What `poll` does to a stream before it asks. -/
def StreamState.load (stream : StreamState D) : StreamState D :=
  if stream.phase = .idle then { stream with phase := .loading } else stream

/-- A result leaves nothing of what the stream showed before. -/
theorem applyResult_eq (result : Except Rejection D) (stream : StreamState D) :
    applyResult result stream = applyResult result {} := by
  cases result with
  | ok value => rfl
  | error reason => rfl

end Streams

section Inputs

/-- The refs that the composable is given; the state of the run is that of its status. -/
structure Inputs where
  runId : Option String
  equivalent : String
  enabled : Bool
  runState : Option String
deriving DecidableEq

namespace Inputs

variable (i : Inputs)

def activeRunId : Option String :=
  let id := jsTrim (i.runId.getD "")
  if id = "" then none else some id

def equivalentKey : String := jsTrim i.equivalent

/-- `toLower` agrees with its ASCII form on what it is compared with. -/
def isRunning : Bool := ((i.runState.getD "").toList.map Char.toLower) = "running".toList

def shouldPoll : Bool := i.enabled && i.activeRunId.isSome && i.equivalentKey ≠ "" && i.isRunning

/-- The run and the equivalent that are polled. -/
def subject : Option String × String := (i.activeRunId, i.equivalentKey)

def identity : String := i.activeRunId.getD "" ++ "|" ++ i.equivalentKey

end Inputs

end Inputs

/-- A pair of requests, with the sequence number of its poll. -/
structure PairRequest where
  seq : ℕ
  runId : String
  equivalent : String
deriving DecidableEq

section World

variable (M B : Type)

/-- The composable, the pairs that are not answered yet, and what happened to its pairs
until it was disposed. -/
structure World where
  inputs : Inputs
  metricsStream : StreamState M := {}
  bottlenecksStream : StreamState B := {}
  disposed : Bool := false
  timer : Bool := false
  seq : ℕ := 0
  inFlightIdentity : Option String := none
  inFlightSeq : ℕ := 0
  lastIdentity : String := ""
  inFlight : List PairRequest := []
  log : List (Entry PairRequest (Except Rejection M × Except Rejection B)) := []

inductive Event where
  | inputs (inputs : Inputs)
  | tick
  | poll
  | answer (seq : ℕ) (metricsResult : Except Rejection M) (bottlenecksResult : Except Rejection B)
  | dispose

namespace World

variable {M B} (w : World M B)

def isPolling : Bool := w.inputs.shouldPoll && !w.disposed

def record (entry : Entry PairRequest (Except Rejection M × Except Rejection B)) :
    List (Entry PairRequest (Except Rejection M × Except Rejection B)) :=
  if w.disposed then w.log else w.log ++ [entry]

def reset : World M B :=
  { w with
    seq := w.seq + 1
    metricsStream := {}
    bottlenecksStream := {}
    log := w.record .cleared }

/-- `poll`, once nothing is in its way. -/
def send (runId equivalent identity : String) : World M B :=
  { w with
    seq := w.seq + 1
    metricsStream := w.metricsStream.load
    bottlenecksStream := w.bottlenecksStream.load
    inFlightIdentity := some identity
    inFlightSeq := w.seq + 1
    inFlight := w.inFlight ++ [⟨w.seq + 1, runId, equivalent⟩]
    log := w.record (.sent ⟨w.seq + 1, runId, equivalent⟩) }

/-- `poll`, up to its requests. -/
def poll : World M B :=
  if w.disposed then w
  else
    match w.inputs.activeRunId with
    | none => w
    | some runId =>
        if w.inputs.equivalentKey = "" then w
        else
          let identity := runId ++ "|" ++ w.inputs.equivalentKey
          if w.inFlightIdentity = some identity then w else w.send runId w.inputs.equivalentKey identity

def isCurrent (r : PairRequest) : Bool :=
  !w.disposed && w.seq = r.seq && w.inputs.activeRunId = some r.runId && w.inputs.equivalentKey = r.equivalent

/-- `poll`, from its answers on. -/
def settle (r : PairRequest) (metricsResult : Except Rejection M) (bottlenecksResult : Except Rejection B) :
    World M B :=
  { w with
    metricsStream := if w.isCurrent r then applyResult metricsResult w.metricsStream else w.metricsStream
    bottlenecksStream :=
      if w.isCurrent r then applyResult bottlenecksResult w.bottlenecksStream else w.bottlenecksStream
    inFlightIdentity := if w.inFlightSeq = r.seq then none else w.inFlightIdentity
    inFlight := w.inFlight.filter fun q => q.seq ≠ r.seq
    log := w.record (.answered r (some (metricsResult, bottlenecksResult))) }

def start : World M B := { w with timer := w.timer || !w.disposed }

/-- The watcher. -/
def watch : World M B :=
  let identity := w.inputs.identity
  let identityChanged := identity ≠ w.lastIdentity
  let w := { w with lastIdentity := identity }
  let w := if identityChanged then w.reset else w
  if !w.inputs.shouldPoll then { w with timer := false }
  else (if identityChanged ∨ w.timer = false then w.poll else w).start

/-- The refs change, and the watcher runs when one of its sources changed. -/
def setInputs (inputs : Inputs) : World M B :=
  let w' := { w with inputs := inputs }
  if inputs.shouldPoll ≠ w.inputs.shouldPoll ∨ inputs.activeRunId ≠ w.inputs.activeRunId ∨
      inputs.equivalentKey ≠ w.inputs.equivalentKey then w'.watch
  else w'

def dispose : World M B := { w with disposed := true, seq := w.seq + 1, timer := false }

def step : Event M B → World M B
  | .inputs inputs => w.setInputs inputs
  | .tick => if w.timer then w.poll else w
  | .poll => w.poll
  | .answer seq metricsResult bottlenecksResult =>
      match w.inFlight.find? (·.seq = seq) with
      | none => w
      | some r => w.settle r metricsResult bottlenecksResult
  | .dispose => w.dispose

/-- The composable is made: its watcher runs at once. -/
def init (inputs : Inputs) : World M B := { inputs := inputs : World M B }.watch

end World

end World

end MetricsPolling

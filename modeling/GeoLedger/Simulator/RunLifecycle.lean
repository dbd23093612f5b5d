import Mathlib
import GeoLedger.Library.Dict
import GeoLedger.Library.Rows

/-! The runs of the simulator: the operations that create, pause, resume, stop,
restart and fail a run, the limits on active runs, the mapping from an owner to
its active run, and the heartbeat task of each run. Operations follow one
another; the clock advances with each of them. -/
namespace RunLifecycle

/-- The literals of `RunState`. -/
inductive RunState where
  | idle
  | running
  | paused
  | stopping
  | stopped
  | error
deriving DecidableEq

/-- What `run._heartbeat_task` holds: nothing, a task that is not done, or one
that is. -/
inductive Heartbeat where
  | none
  | live
  | ended
deriving DecidableEq

structure LastError where
  code : String
  message : String
  occurredAt : Nat
deriving DecidableEq

/-- The counters and marks that the work of a tick rewrites. -/
structure Progress where
  opsSec : ℚ := 0
  queueDepth : Nat := 0
  errorsTotal : Nat := 0
  lastError : Option LastError := none
  lastEventType : Option String := none
  currentPhase : Option String := none
deriving DecidableEq

/-- `RunRecord`. -/
structure Run where
  runId : Nat
  ownerId : String
  state : RunState
  startedAt : Nat
  stoppedAt : Option Nat := none
  stopRequestedAt : Option Nat := none
  stopSource : Option String := none
  stopReason : Option String := none
  stopClient : Option String := none
  simTimeMs : Nat := 0
  tickIndex : Nat := 0
  progress : Progress := {}
  heartbeat : Heartbeat := .none
  artifactsWriter : Bool := false
deriving DecidableEq

/-- `active_states`. -/
def Run.isActive (r : Run) : Bool := r.state = .running ∨ r.state = .paused ∨ r.state = .stopping

/-- A run whose heartbeat has to tick, or to wait for a resume. -/
def Run.isDriven (r : Run) : Bool := r.state = .running ∨ r.state = .paused

/-- The states a run is restarted from. -/
def Run.isTerminal (r : Run) : Bool := r.state = .stopped ∨ r.state = .error

/-- The limits of the runtime; a limit of zero or less is not set. -/
structure Limits where
  maxActiveRuns : ℤ
  maxActiveRunsPerOwner : ℤ
  maxRunRecords : ℤ
  tickMsBase : Nat

/-- `_runs` in order of creation, and `_active_run_id_by_owner`. -/
structure System where
  runs : List Run
  activeRunIdByOwner : Dict String Nat
  nextRunId : Nat
  now : Nat

def System.initial : System := ⟨[], Dict.empty, 0, 0⟩

/-- The exceptions of the operations, with their details. -/
inductive Failure where
  | scenarioNotFound
  | runNotFound (runId : Nat)
  | globalActiveLimit (maxActiveRuns : ℤ) (activeRuns : Nat)
  | ownerActiveExists (activeRunId : Option Nat) (ownerId : String) (activeRuns : Nat)
      (maxActiveRunsPerOwner : ℤ)
  | ownerOtherActiveExists (activeRunId : Nat)
deriving DecidableEq

structure Outcome where
  after : System
  failure : Option Failure

section Source

variable (limits : Limits)

/-- `_count_active_runs_locked`. -/
def countActiveRuns (s : System) : Nat := s.runs.countP Run.isActive

def isActiveOf (ownerId : String) (r : Run) : Bool := r.ownerId = ownerId ∧ r.isActive

/-- The count of `_count_active_runs_for_owner_locked`, for an owner with a name. -/
def countActiveRunsForOwner (s : System) (ownerId : String) : Nat := s.runs.countP (isActiveOf ownerId)

/-- The run that `_count_active_runs_for_owner_locked` names: the one started last. -/
def mostRecentActiveRunId (s : System) (ownerId : String) : Option Nat :=
  ((s.runs.filter (isActiveOf ownerId)).argmax Run.startedAt).map Run.runId

/-- The mapping of the owner names a run that is gone or terminal. -/
def staleMapping (s : System) (ownerId : String) : Bool :=
  match s.activeRunIdByOwner.get? ownerId with
  | none => false
  | some mapped =>
      match s.runs.find? (·.runId = mapped) with
      | none => true
      | some r => r.isTerminal

def clearActiveRunId (ownerId : String) (runId : Nat) (s : System) : System :=
  if s.activeRunIdByOwner.get? ownerId = some runId then
    { s with activeRunIdByOwner := s.activeRunIdByOwner.pop ownerId }
  else s

/-- The stale mapping of an owner is cleared before its limit is enforced. -/
def clearStaleMapping (ownerId : String) (s : System) : System :=
  if ownerId ≠ "" ∧ 0 < limits.maxActiveRunsPerOwner ∧ staleMapping s ownerId then
    { s with activeRunIdByOwner := s.activeRunIdByOwner.pop ownerId }
  else s

/-- The limit of one owner, as `create_run` checks it. -/
def ownerLimitFailure (s : System) (ownerId : String) : Option Failure :=
  if ownerId ≠ "" ∧ 0 < limits.maxActiveRunsPerOwner ∧
      limits.maxActiveRunsPerOwner ≤ countActiveRunsForOwner s ownerId then
    let mostRecent := (mostRecentActiveRunId s ownerId).or (s.activeRunIdByOwner.get? ownerId)
    some (.ownerActiveExists mostRecent ownerId (countActiveRunsForOwner s ownerId) limits.maxActiveRunsPerOwner)
  else none

/-- `_enforce_active_run_limit_locked`. -/
def globalLimitFailure (s : System) : Option Failure :=
  if 0 < limits.maxActiveRuns ∧ limits.maxActiveRuns ≤ countActiveRuns s then
    some (.globalActiveLimit limits.maxActiveRuns (countActiveRuns s))
  else none

/-- A stopped run without a live task may be pruned. -/
def prunable (r : Run) : Bool := r.state = .stopped ∧ r.heartbeat ≠ .live ∧ r.artifactsWriter = false

/-- `_sort_key` of the pruning. -/
def pruneKey (r : Run) : Nat := r.stoppedAt.getD r.startedAt

/-- The runs that the pruning deletes: the oldest, down to the limit. -/
def prunedRuns (s : System) : List Run :=
  if limits.maxRunRecords ≤ 0 ∨ (s.runs.length : ℤ) ≤ limits.maxRunRecords then []
  else ((s.runs.filter prunable).insertionSort fun a b => pruneKey a ≤ pruneKey b).take
    (s.runs.length - limits.maxRunRecords.toNat)

/-- `_prune_run_records_locked`. -/
def pruneRunRecords (s : System) : System :=
  { s with runs := s.runs.filter fun r => r.runId ∉ (prunedRuns limits s).map Run.runId }

/-- The record of a new run. Its heartbeat is started with it. -/
def Run.created (runId now : Nat) (ownerId : String) (artifacts : Bool) : Run :=
  { runId, ownerId, state := .running, startedAt := now, heartbeat := .live, artifactsWriter := artifacts }

/-- The new run is entered, and mapped to its owner. -/
def register (ownerId : String) (artifacts : Bool) (s : System) : System :=
  { s with
    runs := s.runs ++ [Run.created s.nextRunId s.now ownerId artifacts]
    activeRunIdByOwner := s.activeRunIdByOwner.set ownerId s.nextRunId
    nextRunId := s.nextRunId + 1 }

def createRun (scenarioExists : Bool) (ownerId : String) (artifacts : Bool) (s : System) : Outcome :=
  if scenarioExists = false then ⟨s, some .scenarioNotFound⟩
  else
    let cleared := clearStaleMapping limits ownerId s
    match (ownerLimitFailure limits cleared ownerId).or (globalLimitFailure limits cleared) with
    | some failure => ⟨cleared, some failure⟩
    | none => ⟨pruneRunRecords limits (register ownerId artifacts cleared), none⟩

/-- `pause`, on the record. -/
def Run.pause (r : Run) : Run :=
  match r.state with
  | .paused => r
  | .running => { r with state := .paused }
  | .stopping | .stopped | .error => r
  | .idle => { r with state := .paused }

/-- `resume`, on the record. The last branch takes every other state. -/
def Run.resume (r : Run) : Run :=
  match r.state with
  | .running => r
  | .paused => { r with state := .running }
  | .stopping | .stopped => r
  | _ => { r with state := .running }

/-- `stop`, on the record: the tasks of the run are cancelled and awaited. -/
def Run.stop (now : Nat) (source reason client : Option String) (r : Run) : Run :=
  { r with
    stopSource := source.or r.stopSource
    stopReason := reason.or r.stopReason
    stopClient := client.or r.stopClient
    stopRequestedAt :=
      if r.stopRequestedAt = none ∧ (source.isSome ∨ reason.isSome ∨ client.isSome) then some now
      else r.stopRequestedAt
    state := .stopped
    stoppedAt := some (r.stoppedAt.getD now)
    heartbeat := .none
    artifactsWriter := false }

/-- `restart`, on the record. The heartbeat stays what it is. -/
def Run.restart (now : Nat) (r : Run) : Run :=
  { r with
    simTimeMs := 0
    tickIndex := 0
    progress := {}
    stoppedAt := none
    state := .running
    startedAt := now }

/-- `fail_run`, on the record. The heartbeat is cancelled, unless the run fails
in the heartbeat's own tick. -/
def Run.fail (now : Nat) (code message : String) (ownTask : Bool) (r : Run) : Run :=
  match r.state with
  | .stopped | .stopping | .error => r
  | _ =>
      { r with
        state := .error
        stoppedAt := some now
        progress := { r.progress with
          currentPhase := none
          queueDepth := 0
          errorsTotal := r.progress.errorsTotal + 1
          lastError := some ⟨code, message, now⟩ }
        heartbeat := if r.heartbeat = .live ∧ ownTask = false then .ended else r.heartbeat }

/-- A live heartbeat wakes up: it ends in a terminal state, and ticks a running run. -/
def Run.wake (tickMsBase : Nat) (work : Progress → Progress) (r : Run) : Run :=
  if r.heartbeat = .live then
    match r.state with
    | .stopped | .stopping | .error => { r with heartbeat := .ended }
    | .running =>
        { r with
          tickIndex := r.tickIndex + 1
          simTimeMs := (r.tickIndex + 1) * tickMsBase
          progress := work r.progress }
    | _ => r
  else r

/-- An operation on the record of one run; `_get_run` raises for an unknown run. -/
def onRun (runId : Nat) (f : Run → Run) (s : System) : Outcome :=
  match s.runs.find? (·.runId = runId) with
  | none => ⟨s, some (.runNotFound runId)⟩
  | some _ => ⟨{ s with runs := Rows.update Run.runId runId f s.runs }, none⟩

def stop (runId : Nat) (source reason client : Option String) (s : System) : Outcome :=
  match s.runs.find? (·.runId = runId) with
  | none => ⟨s, some (.runNotFound runId)⟩
  | some r =>
      ⟨clearActiveRunId r.ownerId runId
        { s with runs := Rows.update Run.runId runId (Run.stop s.now source reason client) s.runs }, none⟩

/-- The mapping of the owner names another run. -/
def otherActiveRun (s : System) (r : Run) : Option Nat :=
  if r.ownerId = "" then none
  else (s.activeRunIdByOwner.get? r.ownerId).filter (· ≠ r.runId)

/-- `restart`. The record is rewritten before the mapping is looked at. -/
def restart (runId : Nat) (s : System) : Outcome :=
  match s.runs.find? (·.runId = runId) with
  | none => ⟨s, some (.runNotFound runId)⟩
  | some r =>
      let restarted := { s with runs := Rows.update Run.runId runId (Run.restart s.now) s.runs }
      match otherActiveRun s r with
      | some other => ⟨restarted, some (.ownerOtherActiveExists other)⟩
      | none =>
          ⟨if r.ownerId = "" then restarted
           else { restarted with activeRunIdByOwner := s.activeRunIdByOwner.set r.ownerId runId }, none⟩

/-- The operations, and the heartbeat of a run that wakes up. -/
inductive Op where
  | createRun (scenarioExists : Bool) (ownerId : String) (artifacts : Bool)
  | pause (runId : Nat)
  | resume (runId : Nat)
  | stop (runId : Nat) (source reason client : Option String)
  | restart (runId : Nat)
  | failRun (runId : Nat) (code message : String) (ownTask : Bool)
  | heartbeat (runId : Nat) (work : Progress → Progress)

def perform (s : System) : Op → Outcome
  | .createRun scenarioExists ownerId artifacts => createRun limits scenarioExists ownerId artifacts s
  | .pause runId => onRun runId Run.pause s
  | .resume runId => onRun runId Run.resume s
  | .stop runId source reason client => stop runId source reason client s
  | .restart runId => restart runId s
  | .failRun runId code message ownTask => onRun runId (Run.fail s.now code message ownTask) s
  | .heartbeat runId work => onRun runId (Run.wake limits.tickMsBase work) s

def step (s : System) (op : Op) : System :=
  { (perform limits s op).after with now := s.now + 1 }

end Source

section Properties

variable (limits : Limits)

/-- The limits that are set hold: globally, and for every owner with a name. -/
def WithinLimits (s : System) : Prop :=
  (0 < limits.maxActiveRuns → (countActiveRuns s : ℤ) ≤ limits.maxActiveRuns) ∧
    ∀ ownerId, ownerId ≠ "" → 0 < limits.maxActiveRunsPerOwner →
      (countActiveRunsForOwner s ownerId : ℤ) ≤ limits.maxActiveRunsPerOwner

/-- State, counters, tick index and timestamps of a run. -/
def Run.observed (r : Run) : Nat × RunState × Nat × Nat × Progress × Nat × Option Nat × Option Nat :=
  (r.runId, r.state, r.tickIndex, r.simTimeMs, r.progress, r.startedAt, r.stoppedAt, r.stopRequestedAt)

/-- Every running or paused run has a heartbeat that has not ended. -/
def HeartbeatsLive (s : System) : Prop := ∀ r ∈ s.runs, r.isDriven → r.heartbeat = .live

/-- What one operation owes to the contract of the lifecycle. -/
structure Good (s : System) (op : Op) : Prop where
  withinLimits : WithinLimits limits (step limits s op)
  failureUnchanged : (perform limits s op).failure ≠ none →
    (step limits s op).runs.map Run.observed = s.runs.map Run.observed
  reactivated : ∀ r ∈ s.runs, r.isTerminal → ∀ r' ∈ (step limits s op).runs, r'.runId = r.runId →
    r'.isActive → op = .restart r.runId
  heartbeatsLive : HeartbeatsLive (step limits s op)

/-- Every operation of the sequence keeps the contract. -/
def KeepsContract : System → List Op → Prop
  | _, [] => True
  | s, op :: rest => Good limits s op ∧ KeepsContract (step limits s op) rest

/-- There is room for one more active run of the owner. -/
def Room (s : System) (ownerId : String) : Prop :=
  (0 < limits.maxActiveRuns → (countActiveRuns s : ℤ) < limits.maxActiveRuns) ∧
    (ownerId ≠ "" → 0 < limits.maxActiveRunsPerOwner →
      (countActiveRunsForOwner s ownerId : ℤ) < limits.maxActiveRunsPerOwner)

/-- No run in error is resumed. A run is restarted only when the mapping of its
owner names no other run, its heartbeat is live, and it is active or there is
room for it. -/
def Harmless (s : System) : Op → Prop
  | .resume runId => ∀ r ∈ s.runs, r.runId = runId → r.state ≠ .error
  | .restart runId => ∀ r ∈ s.runs, r.runId = runId →
      otherActiveRun s r = none ∧ r.heartbeat = .live ∧ (r.isActive ∨ Room limits s r.ownerId)
  | _ => True

/-- Every operation of the sequence is harmless where it happens. -/
def EachHarmless : System → List Op → Prop
  | _, [] => True
  | s, op :: rest => Harmless limits s op ∧ EachHarmless (step limits s op) rest

end Properties

end RunLifecycle

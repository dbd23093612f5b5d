import Mathlib
import GeoLedger.Library.Runs

/-! The requests that patch the runtime configuration. A request holds the
configuration lock while a child task commits its audit row and then publishes
the settings; the caller waits for the child behind a shield and may be cancelled
at any await. -/
namespace GeoLedger.ConfigPatch

/-- A value of an update; `other` stands for null, floats, lists and objects. -/
inductive Value where
  | bool (value : Bool)
  | int (value : ℤ)
  | str (value : String)
  | other
deriving DecidableEq

/-- The annotation of a field of `Settings`. -/
inductive Annotation where
  | bool
  | int
  | str
deriving DecidableEq

/-- `TypeAdapter(annotation).validate_python(value, strict=True)` succeeds. -/
def Annotation.accepts : Annotation → Value → Bool
  | .bool, .bool _ | .int, .int _ | .str, .str _ => true
  | _, _ => false

/-- `_runtime_config_items`, all of them mutable, with their annotations. -/
def runtimeConfigItems : List (String × Annotation) :=
  [("LOG_LEVEL", .str), ("RATE_LIMIT_ENABLED", .bool), ("ROUTING_MAX_HOPS", .int), ("ROUTING_MAX_PATHS", .int),
    ("INTEGRITY_CHECKPOINT_ENABLED", .bool), ("INTEGRITY_CHECKPOINT_INTERVAL_SECONDS", .int),
    ("RECOVERY_ENABLED", .bool), ("RECOVERY_INTERVAL_SECONDS", .int), ("PAYMENT_TX_STUCK_TIMEOUT_SECONDS", .int),
    ("FEATURE_FLAGS_MULTIPATH_ENABLED", .bool), ("FEATURE_FLAGS_FULL_MULTIPATH_ENABLED", .bool),
    ("CLEARING_ENABLED", .bool)]

/-- `BadRequestException` with its message and the key in its details. -/
structure BadRequest where
  message : String
  key : Option String
deriving DecidableEq

def validateRuntimeConfigUpdates : List (String × Value) → Except BadRequest (List (String × Value))
  | [] => .ok []
  | (key, value) :: rest =>
      match runtimeConfigItems.lookup key with
      | none => .error ⟨"Config key not mutable: " ++ key, none⟩
      | some annotation =>
          if annotation.accepts value then (validateRuntimeConfigUpdates rest).map ((key, value) :: ·)
          else .error ⟨"Invalid value for config key: " ++ key, some key⟩

abbrev Settings := String → Value

/-- `setattr(settings, key, value)` for each item. -/
def setAll (settings : Settings) (items : List (String × Value)) : Settings :=
  items.foldl (fun current item => Function.update current item.1 item.2) settings

/-- The body of a request. -/
inductive Patch where
  | config (updates : List (String × Value)) (reason : Option String)
  | featureFlags (multipath fullMultipath clearing : Option Bool) (reason : Option String)
deriving DecidableEq

/-- The audit row of a request. -/
structure AuditRow where
  action : String
  objectType : String
  reason : Option String
  beforeState : Option (List (String × Value))
  afterState : Option (List (String × Value))
deriving DecidableEq

/-- The response of a request. -/
inductive Response where
  | updated (keys : List String)
  | flags (values : List (String × Value))
deriving DecidableEq

/-- What a request has prepared under the lock: its audit row, the settings that it
publishes, and its response. -/
structure Draft where
  row : AuditRow
  publish : List (String × Value)
  response : Response
deriving DecidableEq

/-- `items or None`. -/
def orNone (items : List (String × Value)) : Option (List (String × Value)) :=
  if items = [] then none else some items

/-- The feature flags by their names in the response and in `Settings`. -/
def featureFlagSettings : List (String × String) :=
  [("multipath_enabled", "FEATURE_FLAGS_MULTIPATH_ENABLED"),
    ("full_multipath_enabled", "FEATURE_FLAGS_FULL_MULTIPATH_ENABLED"), ("clearing_enabled", "CLEARING_ENABLED")]

/-- A flag of the body, or the current one. -/
def flagValue (settings : Settings) (key : String) : Option Bool → Value
  | some value => .bool value
  | none => settings key

/-- `patch_admin_config` before its audit row. -/
def prepareConfig (settings : Settings) (updates : List (String × Value)) (reason : Option String) :
    Except BadRequest Draft :=
  (validateRuntimeConfigUpdates updates).map fun validated =>
    { row :=
        { action := "admin.config.patch"
          objectType := "config"
          reason := reason
          beforeState := orNone (validated.map fun item => (item.1, settings item.1))
          afterState := orNone validated }
      publish := validated
      response := .updated (validated.map Prod.fst) }

/-- `patch_feature_flags` before its audit row. -/
def prepareFeatureFlags (settings : Settings) (multipath fullMultipath clearing : Option Bool)
    (reason : Option String) : Draft :=
  let multipath := flagValue settings "FEATURE_FLAGS_MULTIPATH_ENABLED" multipath
  let fullMultipath := flagValue settings "FEATURE_FLAGS_FULL_MULTIPATH_ENABLED" fullMultipath
  let clearing := flagValue settings "CLEARING_ENABLED" clearing
  let after := [("multipath_enabled", multipath), ("full_multipath_enabled", fullMultipath),
    ("clearing_enabled", clearing)]
  { row :=
      { action := "admin.feature_flags.patch"
        objectType := "feature_flags"
        reason := reason
        beforeState := some (featureFlagSettings.map fun flag => (flag.1, settings flag.2))
        afterState := some after }
    publish := [("FEATURE_FLAGS_MULTIPATH_ENABLED", multipath),
      ("FEATURE_FLAGS_FULL_MULTIPATH_ENABLED", fullMultipath), ("CLEARING_ENABLED", clearing)]
    response := .flags after }

def prepare (settings : Settings) : Patch → Except BadRequest Draft
  | .config updates reason => prepareConfig settings updates reason
  | .featureFlags multipath fullMultipath clearing reason =>
      .ok (prepareFeatureFlags settings multipath fullMultipath clearing reason)

/-- The child task of `_required_audit_and_publish`: inside its commit, with the row
durable or not and its cancellation requested or not; or ended. -/
inductive Child where
  | committing (durable cancelRequested : Bool)
  | published
  | failed
deriving DecidableEq

/-- What a request raises. -/
inductive Raised where
  | badRequest (error : BadRequest)
  | cancelled
  | operationError
  | rollbackError
deriving DecidableEq

inductive Ending where
  | returned (response : Response)
  | raised (error : Raised)
deriving DecidableEq

/-- Where a request is suspended: before it has the lock, at the shield of its child,
at its rollback; or how it ended. -/
inductive Phase where
  | arriving
  | draining (draft : Draft) (child : Child)
  | rollingBack
  | ended (ending : Ending)
deriving DecidableEq

/-- A request. `cancelled` tells that its caller was cancelled before it ended,
`pendingCancel` that it resumes with a `CancelledError`, and `cancellation` that it
has kept one. -/
structure Request where
  patch : Patch
  cancelled : Bool := false
  pendingCancel : Bool := false
  cancellation : Bool := false
  phase : Phase := .arriving
deriving DecidableEq

/-- The settings, the durable audit rows in commit order, the holder of
`_runtime_config_lock`, and the requests. -/
structure System where
  settings : Settings
  log : List AuditRow
  lock : Option Nat
  requests : Nat → Request

/-- Requests with these bodies, none of which has begun. -/
def System.initial (settings : Settings) (patches : Nat → Patch) : System where
  settings := settings
  log := []
  lock := none
  requests := fun r => { patch := patches r }

/-- What happens between two awaits. A commit lands when its row is durable; the
child resumes from it with or without an exception. -/
inductive Action where
  | cancel (r : Nat)
  | resume (r : Nat)
  | commitLands (r : Nat)
  | childPublishes (r : Nat)
  | childFails (r : Nat)
  | rollbackEnds (r : Nat) (fails : Bool)
deriving DecidableEq

section Source

variable (s : System) (r : Nat)

def System.setRequest (request : Request) : System :=
  { s with requests := Function.update s.requests r request }

def System.setPhase (phase : Phase) : System := s.setRequest r { s.requests r with phase := phase }

/-- The request ends and gives the lock back. -/
def System.release (ending : Ending) : System := { s.setPhase r (.ended ending) with lock := none }

/-- The request has got the lock. -/
def System.enter : System :=
  match prepare s.settings (s.requests r).patch with
  | .error error => s.setPhase r (.ended (.raised (.badRequest error)))
  | .ok draft => { s.setPhase r (.draining draft (.committing false false)) with lock := some r }

/-- A cancellation that finds the child running is kept; a further one is passed on
to the child. -/
def System.hear (draft : Draft) (durable cancelRequested : Bool) : System :=
  s.setRequest r
    { s.requests r with
      pendingCancel := false
      cancellation := true
      phase := .draining draft (.committing durable (cancelRequested || (s.requests r).cancellation)) }

/-- The caller resumes. -/
def System.resume : System :=
  match (s.requests r).phase with
  | .arriving =>
      if (s.requests r).pendingCancel then s.setPhase r (.ended (.raised .cancelled))
      else if s.lock = none then s.enter r
      else s
  | .draining draft (.committing durable cancelRequested) =>
      if (s.requests r).pendingCancel then s.hear r draft durable cancelRequested else s
  -- whatever the shield raised, a child that is done ends the loop
  | .draining draft .published =>
      s.release r (if (s.requests r).cancellation then .raised .cancelled else .returned draft.response)
  | .draining _ .failed => s.setRequest r { s.requests r with pendingCancel := false, phase := .rollingBack }
  | .rollingBack => if (s.requests r).pendingCancel then s.release r (.raised .cancelled) else s
  | .ended _ => s

/-- The row of a child becomes durable. -/
def System.commitLands : System :=
  match (s.requests r).phase with
  | .draining draft (.committing false cancelRequested) =>
      { s.setPhase r (.draining draft (.committing true cancelRequested)) with log := s.log ++ [draft.row] }
  | _ => s

/-- `await db.commit()` returns, and the child publishes. -/
def System.childPublishes : System :=
  match (s.requests r).phase with
  | .draining draft (.committing true _) =>
      { s.setPhase r (.draining draft .published) with settings := setAll s.settings draft.publish }
  | _ => s

/-- `await db.commit()` raises: it failed, or it was interrupted by the cancellation
of the child, in which case its row may be durable. -/
def System.childFails : System :=
  match (s.requests r).phase with
  | .draining draft (.committing durable cancelRequested) =>
      if durable = false ∨ cancelRequested then s.setPhase r (.draining draft .failed) else s
  | _ => s

/-- `await db.rollback()` ends. -/
def System.rollbackEnds (fails : Bool) : System :=
  if (s.requests r).phase = .rollingBack ∧ (s.requests r).pendingCancel = false then
    s.release r (.raised
      (if fails then .rollbackError else if (s.requests r).cancellation then .cancelled else .operationError))
  else s

def Phase.isEnded : Phase → Bool
  | .ended _ => true
  | _ => false

/-- `task.cancel()` on the task of the request. -/
def System.cancel : System :=
  if (s.requests r).phase.isEnded then s
  else s.setRequest r { s.requests r with cancelled := true, pendingCancel := true }

def step : Action → System
  | .cancel r => s.cancel r
  | .resume r => s.resume r
  | .commitLands r => s.commitLands r
  | .childPublishes r => s.childPublishes r
  | .childFails r => s.childFails r
  | .rollbackEnds r fails => s.rollbackEnds r fails

end Source

/-- The settings that an audit row tells to have been set. -/
def AuditRow.settings (row : AuditRow) : List (String × Value) :=
  if row.action = "admin.feature_flags.patch" then
    (row.afterState.getD []).map fun item => ((featureFlagSettings.lookup item.1).getD item.1, item.2)
  else row.afterState.getD []

/-- The `after_state` of audit rows applied one after another. -/
def replay (initial : Settings) (log : List AuditRow) : Settings :=
  log.foldl (fun settings row => setAll settings row.settings) initial

/-- The row of a request tells exactly what it publishes. -/
theorem prepare_row {settings : Settings} {patch : Patch} {draft : Draft}
    (h : prepare settings patch = .ok draft) : draft.row.settings = draft.publish := by
  cases patch with
  | config updates reason =>
      simp only [prepare, prepareConfig] at h
      cases hValidated : validateRuntimeConfigUpdates updates with
      | error error =>
          rw [hValidated] at h
          cases h
      | ok validated =>
          rw [hValidated] at h
          obtain rfl := Except.ok.inj h
          rw [AuditRow.settings, if_neg (show "admin.config.patch" ≠ "admin.feature_flags.patch" by decide)]
          by_cases hEmpty : validated = []
          · simp only [orNone, hEmpty, if_true, Option.getD_none]
          · simp only [orNone, hEmpty, if_false, Option.getD_some]
  | featureFlags multipath fullMultipath clearing reason =>
      obtain rfl := Except.ok.inj h
      rfl

end GeoLedger.ConfigPatch

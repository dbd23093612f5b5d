import Mathlib
import GeoLedger.Simulator.Interact

/-! `InjectExecutor`: the effects of a scenario event on participants and trust
lines. Queries see flushed rows only; new lines and freezes are flushed with the
next new participant or with the commit, and a flush that fails undoes the event. -/
namespace GeoLedger

variable {env : Env}

/-- An active line with one of the ids becomes frozen. -/
def TrustLine.freeze (ids : List Uuid) (l : TrustLine) : TrustLine :=
  if l.id ∈ ids ∧ l.status = .active then { l with status := .frozen } else l

namespace TrustLine

variable (ids : List Uuid) (l : TrustLine)

@[simp] theorem freeze_id : (l.freeze ids).id = l.id := by unfold freeze; split <;> rfl

@[simp] theorem freeze_key : (l.freeze ids).key = l.key := by unfold freeze; split <;> rfl

@[simp] theorem freeze_limit : (l.freeze ids).limit = l.limit := by unfold freeze; split <;> rfl

@[simp] theorem freeze_closed : (l.freeze ids).status = .closed ↔ l.status = .closed := by
  unfold freeze
  split
  · next h => simp [h.2]
  · exact Iff.rfl

end TrustLine

/-- Freeze the active lines with the given ids. -/
def TrustTable.freeze (tl : TrustTable env) (ids : List Uuid) : TrustTable env where
  rows := tl.rows.map (TrustLine.freeze ids)
  generated := tl.generated
  id_unique := by
    rw [List.map_map, List.map_congr_left fun l _ => l.freeze_id ids]
    exact tl.id_unique
  live_unique := by
    rw [List.filter_map, List.map_map, List.map_congr_left fun l _ => l.freeze_key ids]
    simpa [Function.comp_def] using tl.live_unique
  issued l hl := by
    obtain ⟨old, hOld, rfl⟩ := List.mem_map.mp hl
    rw [TrustLine.freeze_id]
    exact tl.issued old hOld
  stored l hl := by
    obtain ⟨old, hOld, rfl⟩ := List.mem_map.mp hl
    rw [TrustLine.freeze_limit]
    exact tl.stored old hOld
  limit_fits l hl := by
    obtain ⟨old, hOld, rfl⟩ := List.mem_map.mp hl
    rw [TrustLine.freeze_limit]
    exact tl.limit_fits old hOld
  limit_nonneg l hl := by
    obtain ⟨old, hOld, rfl⟩ := List.mem_map.mp hl
    rw [TrustLine.freeze_limit]
    exact tl.limit_nonneg old hOld

/-- What `Decimal(str(value))` gives for a value of the event. -/
inductive ParsedDecimal where
  | unreadable
  | notANumber
  | infinity (negative : Bool)
  | number (x : Amount)
deriving DecidableEq

/-- The limit of a line to add, where it is positive: a number, or `none` for an infinite one. A limit
that is not readable is skipped. The comparison of a NaN with zero raises, which `create_trustline` skips as well. -/
def ParsedDecimal.positive : ParsedDecimal → Option (Option Amount)
  | .unreadable | .notANumber => none
  | .infinity negative => if negative then none else some none
  | .number x => if x ≤ 0 then none else some (some x)

/-- An entry of `initial_trustlines`. -/
structure InitialTrustline where
  sponsor : String
  equivalent : String
  limit : ParsedDecimal
  direction : String

/-- The entry reaches the comparison of a NaN with zero, which raises. -/
def InitialTrustline.Raises (scenario : Scenario) (itl : InitialTrustline) : Prop :=
  strip itl.sponsor ≠ "" ∧ effectiveEquivalent scenario itl.equivalent ≠ "" ∧ itl.limit = .notANumber

instance (scenario : Scenario) (itl : InitialTrustline) : Decidable (itl.Raises scenario) := by
  unfold InitialTrustline.Raises
  infer_instance

/-- The entries before the first one that raises. -/
def reachedEntries (scenario : Scenario) (itls : List InitialTrustline) : List InitialTrustline :=
  itls.takeWhile fun itl => ¬itl.Raises scenario

/-- The `participant` of an `add_participant` effect. A missing text is empty. -/
structure NewParticipant where
  id : String
  name : String
  status : String

/-- The id and the name are within their columns. The other columns always hold what they get. -/
def NewParticipant.Fits (data : NewParticipant) : Prop :=
  (strip data.id).length ≤ 64 ∧ (if data.name = "" then strip data.id else data.name).length ≤ 255

instance (data : NewParticipant) : Decidable data.Fits := by
  unfold NewParticipant.Fits
  infer_instance

/-- The effects on participants and trust lines. -/
inductive InjectEffect where
  | addParticipant (participant : Option NewParticipant) (initialTrustlines : List InitialTrustline)
  | createTrustline (fromPid toPid equivalent : String) (limit : ParsedDecimal)
  | freezeParticipant (participantId : String) (freezeTrustlines : Bool)

/-- A line that is added to the session and not flushed. Its limit is `none` when it is infinite. -/
structure NewLine where
  key : Uuid × Uuid × Uuid
  limit : Option Amount

/-- Insert the row of a new line. The column holds no infinite limit. -/
def NewLine.insert (new : NewLine) (tl : TrustTable env) : Except GeoError (TrustTable env) :=
  match new.limit with
  | none => .error (.database .numericOverflow)
  | some limit => tl.insert new.key.1 new.key.2.1 new.key.2.2 limit defaultTlPolicy

/-- What an event has done so far. `failed` is set by a flush that failed: the
session refuses every statement after it. -/
structure InjectState (env : Env) where
  flushed : SimDb env
  added : List NewLine
  frozen : List Uuid
  failed : Bool
  pidToParticipantId : Dict Pid Uuid
  affectedEquivalents : List String
  newParticipants : List (Uuid × Pid)
  newParticipantsScenario : List ScenarioParticipant
  newTrustlinesScenario : List ScenarioTrustline
  frozenPids : List Pid

namespace InjectState

variable (s : InjectState env)

def start (sim : SimDb env) (pidToParticipantId : Dict Pid Uuid) : InjectState env :=
  ⟨sim, [], [], false, pidToParticipantId, [], [], [], [], []⟩

/-- Insert the added lines in order. -/
def insertAdded : List NewLine → TrustTable env → Except GeoError (TrustTable env)
  | [], tl => .ok tl
  | new :: rest, tl => do
      let tl ← new.insert tl
      insertAdded rest tl

/-- `session.flush()`: the inserts, then the freezes. -/
def flush : InjectState env :=
  if s.failed then s
  else match insertAdded s.added s.flushed.db.trustLines with
    | .error _ => { s with failed := true }
    | .ok tl => { s with flushed := s.flushed.setTrustLines (tl.freeze s.frozen), added := [], frozen := [] }

/-- The id of a participant: known to the run, or read and remembered. -/
def resolvePid (pid : Pid) : Option (Uuid × InjectState env) :=
  match s.pidToParticipantId.get? pid with
  | some id => some (id, s)
  | none => (s.flushed.participantByPid pid).map fun p =>
      (p.id, { s with pidToParticipantId := s.pidToParticipantId.set pid p.id })

/-- Add a line to the session, unless a live one is flushed. -/
def addLine (fromId toId : Uuid) (fromPid toPid : Pid) (eqCode : String) (limit : Option Amount) :
    InjectState env :=
  match env.directory.equivalentByCode (stripUpper eqCode) with
  | none => s
  | some equivalent =>
      if (s.flushed.db.trustLines.live fromId toId equivalent.id).isSome then s
      else
        { s with
          added := s.added ++ [⟨(fromId, toId, equivalent.id), limit⟩]
          affectedEquivalents := s.affectedEquivalents ++ [eqCode]
          newTrustlinesScenario := s.newTrustlinesScenario ++
            [⟨eqCode, fromPid, toPid, limit, "active"⟩] }

/-- `op_create_trustline`. -/
def createTrustline (scenario : Scenario) (fromPid toPid equivalent : String) (limit : ParsedDecimal) :
    InjectState env :=
  let eqCode := effectiveEquivalent scenario equivalent
  if strip fromPid = "" ∨ strip toPid = "" ∨ eqCode = "" then s
  else match limit.positive with
    | none => s
    | some limit =>
        match s.resolvePid (strip fromPid) with
        | none => s
        | some (fromId, s) =>
            match s.resolvePid (strip toPid) with
            | none => s
            | some (toId, s) => s.addLine fromId toId (strip fromPid) (strip toPid) eqCode limit

/-- One initial line between a sponsor and the new participant. -/
def addInitialTrustline (scenario : Scenario) (newId : Uuid) (pid : Pid) (itl : InitialTrustline) :
    InjectState env :=
  let eqCode := effectiveEquivalent scenario itl.equivalent
  if strip itl.sponsor = "" ∨ eqCode = "" then s
  else match itl.limit.positive with
    | none => s
    | some limit =>
        match s.resolvePid (strip itl.sponsor) with
        | none => s
        | some (sponsorId, s) =>
            if (if itl.direction = "" then "sponsor_credits_new" else strip itl.direction) =
                "sponsor_credits_new" then
              s.addLine sponsorId newId (strip itl.sponsor) pid eqCode limit
            else s.addLine newId sponsorId pid (strip itl.sponsor) eqCode limit

/-- The status that a new participant gets. -/
def participantStatus (status : String) : ParticipantStatus × String :=
  match if status = "" then "active" else stripLower status with
  | "suspended" => (.suspended, "suspended")
  | "left" => (.left, "left")
  | "deleted" => (.deleted, "deleted")
  | _ => (.active, "active")

/-- Register a participant. Its row is flushed at once. -/
def register (p : Participant) (status : ParticipantStatus × String) : InjectState env :=
  { s with
    flushed := { s.flushed with participants := s.flushed.participants.set p.pid status.1 }
    pidToParticipantId := s.pidToParticipantId.set p.pid p.id
    newParticipants := s.newParticipants ++ [(p.id, p.pid)]
    newParticipantsScenario := s.newParticipantsScenario ++ [⟨p.pid, status.2⟩] }

/-- `op_add_participant`. An exception after the participant's flush leaves it, with the lines added so far. -/
def addParticipant (scenario : Scenario) (participant : Option NewParticipant)
    (initialTrustlines : List InitialTrustline) : InjectState env :=
  match participant with
  | none => s
  | some data =>
      if strip data.id = "" ∨ strip data.id ∈ s.flushed.participants.keys then s
      else if ¬data.Fits then { s with failed := true }
      else match env.directory.participantByPid (strip data.id) with
        -- The directory has the ids of all participants that are ever registered.
        | none => s
        | some p =>
            let s := s.flush
            if s.failed then s
            else (reachedEntries scenario initialTrustlines).foldl (fun s itl => s.addInitialTrustline scenario p.id p.pid itl)
              (s.register p (participantStatus data.status))

/-- The equivalents of the scenario's lines at a participant. -/
def incidentEquivalents (scenario : Scenario) (pid : Pid) : List String :=
  ((scenario.trustlines.filter fun tl => tl.fromPid = pid ∨ tl.toPid = pid).map fun tl =>
    effectiveEquivalent scenario tl.equivalent).filter (· ≠ "")

/-- The ids of the active lines of a participant that are flushed. -/
def incidentLines (tl : TrustTable env) (id : Uuid) : List Uuid :=
  (tl.rows.filter fun l => (l.fromParticipantId = id ∨ l.toParticipantId = id) ∧ l.status = .active).map (·.id)

/-- `op_freeze_participant`. -/
def freezeParticipant (scenario : Scenario) (participantId : String) (freezeTrustlines : Bool) :
    InjectState env :=
  let pid := strip participantId
  if pid = "" then s
  else match s.flushed.participantByPid pid with
    | none => s
    | some p =>
        if s.flushed.participants.get? pid = some .suspended then s
        else
          { s with
            flushed := { s.flushed with participants := s.flushed.participants.set pid .suspended }
            frozen := if freezeTrustlines then s.frozen ++ incidentLines s.flushed.db.trustLines p.id else s.frozen
            affectedEquivalents := s.affectedEquivalents ++ incidentEquivalents scenario pid
            frozenPids := s.frozenPids ++ [pid] }

/-- One effect of an event. -/
def apply (scenario : Scenario) (s : InjectState env) (effect : InjectEffect) : InjectState env :=
  if s.failed then s
  else match effect with
    | .addParticipant participant initialTrustlines => s.addParticipant scenario participant initialTrustlines
    | .createTrustline fromPid toPid equivalent limit => s.createTrustline scenario fromPid toPid equivalent limit
    | .freezeParticipant participantId freezeTrustlines =>
        s.freezeParticipant scenario participantId freezeTrustlines

end InjectState

structure InjectResult where
  affectedEquivalents : List String
  newParticipants : List (Uuid × Pid)
  newParticipantsScenario : List ScenarioParticipant
  newTrustlinesScenario : List ScenarioTrustline
  frozenPids : List Pid

/-- `apply_inject_event`, up to its commit; `none` when the event is undone. -/
def applyInjectEvent (scenario : Scenario) (pidToParticipantId : Dict Pid Uuid) (effects : List InjectEffect)
    (s : SimDb env) : Option (SimDb env × InjectResult) :=
  if effects = [] then none
  else
    let final := ((effects.take 500).foldl (InjectState.apply scenario) (.start s pidToParticipantId)).flush
    if final.failed then none
    else some (final.flushed, ⟨final.affectedEquivalents, final.newParticipants, final.newParticipantsScenario,
      final.newTrustlinesScenario, final.frozenPids⟩)

end GeoLedger

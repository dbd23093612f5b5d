import Mathlib
import GeoLedger.Library.BoundedMemory
import GeoLedger.Library.Runs
import GeoLedger.Simulator.EventNormalizer
import GeoLedger.Simulator.SseBroadcast

/-! `createRealEventReplayOwner` and the handler of a frame: which events the client
lets in, which of them it remembers, and the cursor from which a reconnect replays. -/
namespace ReplayOwner
open BoundedMemory JsValues EventNormalizer SseBroadcast

section Source

variable (upper : String → String)

/-- `text.trim().toUpperCase()`. -/
def trimUpper (text : String) : String := upper (String.ofList (SseWire.trim text.toList))

def producerSequence (eventId : Option String) (runId : String) : Option Nat :=
  match eventId with
  | none => none
  | some id =>
      let start := ("evt_" ++ runId ++ "_").toList
      let raw := id.toList.drop start.length
      if id = "" then none
      else if start.isPrefixOf id.toList = false then none
      else if raw = [] ∨ raw.all Char.isDigit = false then none
      else some (Nat.ofDigitChars 10 raw 0)

def monotonicCursor (current : Option String) (eventId runId : String) : String :=
  match current, producerSequence current runId, producerSequence (some eventId) runId with
  | some cursor, some currentSeq, some eventSeq => if eventSeq < currentSeq then cursor else eventId
  | _, _, _ => eventId

/-- The memory of `createRealEventReplayOwner`; the keys of the map in the order in
which they were set. -/
structure Owner where
  processedRunId : Option String := none
  processedEventIds : List String := []
deriving DecidableEq

/-- The memory of another run is cleared. -/
def Owner.enter (owner : Owner) (runId : String) : Owner :=
  if owner.processedRunId ≠ some runId then ⟨some runId, []⟩ else owner

inductive Admission where
  | rejected (kind diagnostic : String)
  | duplicate (cursor : Option String)
  | accepted (cursor : String)
deriving DecidableEq

structure AdmitInput where
  event : AcceptedEvent
  frameId : Option String
  connectionRunId : String
  activeRunId : Option String
  connectionEquivalent : String
  currentCursor : Option String

/-- The equivalent of an event; the status of a run has none. -/
def equivalent? : EventBody → Option String
  | .runStatus _ => none
  | .txUpdated event => some event.equivalent
  | .txFailed event => some event.equivalent
  | .clearingDone event => some event.equivalent
  | .topologyChanged event => some event.equivalent

/-- The run or the equivalent of the event is not that of the connection. -/
def contextDiagnostic (input : AdmitInput) : Option String :=
  match input.event.body with
  | .runStatus event => if event.runId ≠ input.connectionRunId then some "run_id_mismatch" else none
  | body =>
      if (equivalent? body).any fun equivalent =>
          trimUpper upper equivalent ≠ trimUpper upper input.connectionEquivalent then
        some "equivalent_mismatch"
      else none

def Owner.admit (owner : Owner) (input : AdmitInput) : Admission × Owner :=
  if input.frameId.any (· ≠ input.event.eventId) then (.rejected "malformed" "frame_id_mismatch", owner)
  else if input.activeRunId ≠ some input.connectionRunId then (.rejected "context" "active_run_changed", owner)
  else
    match contextDiagnostic upper input with
    | some diagnostic => (.rejected "context" diagnostic, owner)
    | none =>
        let owner := owner.enter input.connectionRunId
        if input.event.eventId ∈ owner.processedEventIds then (.duplicate input.currentCursor, owner)
        else (.accepted (monotonicCursor input.currentCursor input.event.eventId input.connectionRunId), owner)

/-- The oldest keys are deleted until the target size is reached. -/
def prune (targetSize : Nat) : List String → List String
  | [] => []
  | firstKey :: rest =>
      if targetSize < (firstKey :: rest).length ∧ firstKey ≠ "" then prune targetSize rest else firstKey :: rest

/-- `processedEventIds.set(eventId, true)`. -/
def setKey (eventId : String) (ids : List String) : List String := if eventId ∈ ids then ids else ids ++ [eventId]

variable (maxIds pruneBatch : Nat)

def Owner.commit (owner : Owner) (eventId runId : String) : Owner :=
  let owner := owner.enter runId
  let ids := setKey eventId owner.processedEventIds
  { owner with processedEventIds := if maxIds < ids.length then prune (maxIds - pruneBatch) ids else ids }

/-- The data of a frame: none or empty, a text that `JSON.parse` rejects, or its value. -/
inductive FrameData where
  | absent
  | unparsable
  | parsed (value : Json)

/-- A frame and the connection it came over. -/
structure Frame where
  aborted : Bool
  runId : String
  equivalent : String
  id : Option String
  data : FrameData

/-- What an accepted frame found and left: `tenure` counts how often the owner went
over to another run, `before` and `after` are the cursors. -/
structure Accepted where
  frame : Frame
  event : AcceptedEvent
  activeRunId : Option String
  effectiveEq : String
  tenure : Nat
  before : Option String
  after : String

/-- The client: its owner, `real.lastEventId`, `real.runId` and `effectiveEq`, and the
accepted frames since the last reset. -/
structure Client where
  owner : Owner := {}
  lastEventId : Option String := none
  runId : Option String := none
  effectiveEq : String := ""
  tenure : Nat := 0
  log : List Accepted := []

def Client.setOwner (client : Client) (owner : Owner) : Client :=
  { client with
    owner := owner
    tenure := if owner.processedRunId = client.owner.processedRunId then client.tenure else client.tenure + 1 }

/-- The event that `handleSseMessage` gets out of a frame. -/
def Client.event? (client : Client) (frame : Frame) : Option AcceptedEvent :=
  if frame.aborted then none
  else if trimUpper upper client.effectiveEq ≠ trimUpper upper frame.equivalent then none
  else
    match frame.data with
    | .absent | .unparsable => none
    | .parsed value => (normalizeSimulatorEvent value).toOption

/-- The call of `admit` for a frame. -/
def Client.admitFrame (client : Client) (frame : Frame) (event : AcceptedEvent) : Admission × Owner :=
  client.owner.admit upper ⟨event, frame.id, frame.runId, client.runId, frame.equivalent, client.lastEventId⟩

def Client.handleSseMessage (client : Client) (frame : Frame) : Client :=
  match client.event? upper frame with
  | none => client
  | some event =>
      match client.admitFrame upper frame event with
      | (.rejected _ _, owner) | (.duplicate _, owner) => client.setOwner owner
      | (.accepted cursor, owner) =>
          let entered := client.setOwner owner
          { entered with
            owner := owner.commit maxIds pruneBatch event.eventId frame.runId
            lastEventId := some cursor
            log := client.log ++
              [⟨frame, event, client.runId, client.effectiveEq, entered.tenure, client.lastEventId, cursor⟩] }

/-- `replayBootstrapFrame`, which only asks the owner. -/
def Client.replayBootstrapFrame (client : Client) (frame : Frame) : Client :=
  match frame.data with
  | .absent | .unparsable => client
  | .parsed value =>
      match normalizeSimulatorEvent value with
      | .ok ⟨eventId, ts, .runStatus status⟩ =>
          client.setOwner (client.admitFrame upper frame ⟨eventId, ts, .runStatus status⟩).2
      | _ => client

/-- What happens to the client: a frame of a connection, a frame that a recovery
looks at first, another run or no run, a cursor that is given up, `resetStaleRun`,
or another equivalent. -/
inductive Action where
  | frame (frame : Frame)
  | bootstrap (frame : Frame)
  | setRun (runId : Option String)
  | clearCursor
  | resetStaleRun
  | select (equivalent : String)

def step (client : Client) : Action → Client
  | .frame frame => client.handleSseMessage upper maxIds pruneBatch frame
  | .bootstrap frame => client.replayBootstrapFrame upper frame
  | .setRun runId => { client with runId := runId }
  | .clearCursor => { client with lastEventId := none }
  | .resetStaleRun => { client with owner := {}, lastEventId := none, runId := none, log := [] }
  | .select equivalent => { client with effectiveEq := equivalent }

end Source

/-- The client and the server read the same number out of an id. -/
theorem producerSequence_eq (eventId : Option String) (runId : String) :
    producerSequence eventId runId = eventId.bind (eventSeqFromEventId runId) := by
  cases eventId with
  | none => rfl
  | some id =>
      have hStart : ("evt_" ++ runId ++ "_").toList = eventPrefix runId := by
        rw [String.toList_append, String.toList_append]
        rfl
      simp only [producerSequence, hStart, Option.bind_some, eventSeqFromEventId]
      by_cases hEmpty : id = ""
      · subst hEmpty
        simp [eventPrefix]
      · rw [if_neg hEmpty]
        by_cases hPrefix : (eventPrefix runId).isPrefixOf id.toList = true
        · rw [if_neg (by simp [hPrefix]), if_pos hPrefix]
          by_cases hDigits : id.toList.drop (eventPrefix runId).length ≠ [] ∧
              (id.toList.drop (eventPrefix runId).length).all Char.isDigit = true
          · rw [if_pos hDigits, if_neg]
            rintro (hNil | hNot)
            · exact hDigits.1 hNil
            · exact absurd (hDigits.2.symm.trans hNot) nofun
          · rw [if_neg hDigits, if_pos]
            by_contra hNot
            rw [not_or, Bool.not_eq_false] at hNot
            exact hDigits hNot
        · rw [if_pos (Bool.eq_false_iff.mpr hPrefix), if_neg hPrefix]

end ReplayOwner

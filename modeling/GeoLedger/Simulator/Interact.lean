import Mathlib
import GeoLedger.Library.Outcomes
import GeoLedger.TrustLines
import GeoLedger.Simulator.Scenario

/-! The interact actions on trust lines: create, update and close. Each is one
database transaction between participants of the run; the run's copy of its
trust lines is mutated after the commit. -/
namespace GeoLedger

variable {env : Env}

inductive ParticipantStatus where
  | active
  | suspended
  | left
  | deleted
deriving DecidableEq, Repr

/-- The database with its `participants` table. The directory names everyone who
is ever registered; the keys are the participants that are registered now. -/
structure SimDb (env : Env) where
  db : Db env
  participants : Dict Pid ParticipantStatus

namespace SimDb

/-- `SELECT … FROM participants WHERE pid = …`. -/
def participantByPid (s : SimDb env) (pid : Pid) : Option Participant :=
  (s.participants.get? pid).bind fun _ => env.directory.participantByPid pid

/-- Replace the trust lines. -/
def setTrustLines (s : SimDb env) (tl : TrustTable env) : SimDb env :=
  { s with db := { s.db with trustLines := tl } }

end SimDb

/-- The policy of a line that is created without one. -/
def defaultTlPolicy : Policy :=
  Dict.ofList [("auto_clearing", .bool true), ("can_be_intermediate", .bool true), ("max_hop_usage", .null),
    ("daily_limit", .null), ("blocked_participants", .list [])]

/-- `_action_error`, without its details. -/
structure ActionError where
  statusCode : Nat
  code : String
  message : String
deriving DecidableEq, Repr

/-- An action is refused with an error of its own, or raises one. -/
inductive ActionFailure where
  | refused (error : ActionError)
  | raised (error : GeoError)

def refuse {α : Type} (statusCode : Nat) (code message : String) : Except ActionFailure α :=
  .error (.refused ⟨statusCode, code, message⟩)

/-- `_guard_no_self_loop_or_error`. -/
def guardNoSelfLoop (fromPid toPid : String) : Except ActionFailure Unit :=
  if strip fromPid ≠ "" ∧ strip toPid ≠ "" ∧ strip fromPid = strip toPid then
    refuse 400 "INVALID_REQUEST" "Invalid request"
  else .ok ()

/-- A limit that is a decimal and not negative. -/
def parseActionLimit (limit message : String) : Except ActionFailure Amount :=
  match parseAmountDecimal limit (some defaultMaxAmountScale) (some defaultMaxAmountPrecision) false with
  | .error _ => refuse 400 "INVALID_AMOUNT" message
  | .ok x => if x < 0 then refuse 400 "INVALID_AMOUNT" message else .ok x

/-- `_run_perimeter`; `none` when it cannot be established. -/
def runPerimeter (perimeter : Option (List Pid)) : Except ActionFailure (List Pid) :=
  match perimeter with
  | none => refuse 503 "RUN_PERIMETER_UNAVAILABLE" "Run perimeter could not be established"
  | some scopedPids => .ok scopedPids

/-- `_resolve_participant_or_error`. -/
def resolveParticipant (s : SimDb env) (scopedPids : List Pid) (pid : String) : Except ActionFailure Participant :=
  if strip pid = "" ∨ strip pid ∉ scopedPids then refuse 404 "PARTICIPANT_NOT_FOUND" "Participant not found"
  else match s.participantByPid (strip pid) with
    | none => refuse 404 "PARTICIPANT_NOT_FOUND" "Participant not found"
    | some p => .ok p

/-- `_resolve_equivalent_or_error`. -/
def resolveEquivalent (directory : Directory) (code : String) : Except ActionFailure Equivalent :=
  if stripUpper code = "" then refuse 404 "EQUIVALENT_NOT_FOUND" "Equivalent not found"
  else match directory.equivalentByCode (stripUpper code) with
    | none => refuse 404 "EQUIVALENT_NOT_FOUND" "Equivalent not found"
    | some equivalent => .ok equivalent

/-- The line between two participants that is not closed. -/
def TrustTable.live (tl : TrustTable env) (fromId toId equivalentId : Uuid) : Option TrustLine :=
  tl.rows.find? fun l => l.status ≠ .closed ∧ l.key = (fromId, toId, equivalentId)

/-- A write whose constraint violation is not handled. -/
def raising {α : Type} : Except GeoError α → Except ActionFailure α
  | .error error => .error (.raised error)
  | .ok x => .ok x

inductive MutationOp where
  | create
  | update
  | close
deriving DecidableEq, Repr

/-- The arguments of `_mutate_runtime_trustline_topology_best_effort`; the limit
is the number that its text denotes. -/
structure TopologyMutation where
  op : MutationOp
  equivalent : String
  fromPid : Pid
  toPid : Pid
  limit : Amount

/-- The two participants and the equivalent that an action names. -/
def resolveEdge (s : SimDb env) (perimeter : Option (List Pid)) (fromPid toPid equivalent : String) :
    Except ActionFailure (Participant × Participant × Equivalent) := do
  let scopedPids ← runPerimeter perimeter
  let fromP ← resolveParticipant s scopedPids fromPid
  let toP ← resolveParticipant s scopedPids toPid
  let eq ← resolveEquivalent env.directory equivalent
  return (fromP, toP, eq)

/-- `action_trustline_create`, up to its commit. -/
def actionTrustlineCreate (perimeter : Option (List Pid)) (fromPid toPid equivalent limit : String)
    (s : SimDb env) : Except ActionFailure (SimDb env × TopologyMutation) := do
  guardNoSelfLoop fromPid toPid
  let limitDec ← parseActionLimit limit "Invalid limit"
  let (fromP, toP, eq) ← resolveEdge s perimeter fromPid toPid equivalent
  if limitDec < s.db.debts.owed toP.id fromP.id eq.id then
    refuse 409 "USED_EXCEEDS_NEW_LIMIT" "Limit is below current used amount"
  else if (s.db.trustLines.live fromP.id toP.id eq.id).isSome then
    refuse 409 "TRUSTLINE_EXISTS" "Active trustline already exists"
  else do
    let tl ← raising (s.db.trustLines.insert fromP.id toP.id eq.id limitDec defaultTlPolicy)
    return (s.setTrustLines tl, ⟨.create, eq.code, fromP.pid, toP.pid, limitDec⟩)

/-- `action_trustline_update`, up to its commit. -/
def actionTrustlineUpdate (perimeter : Option (List Pid)) (fromPid toPid equivalent newLimit : String)
    (s : SimDb env) : Except ActionFailure (SimDb env × TopologyMutation) := do
  guardNoSelfLoop fromPid toPid
  let newLimitDec ← parseActionLimit newLimit "Invalid new_limit"
  let (fromP, toP, eq) ← resolveEdge s perimeter fromPid toPid equivalent
  match s.db.trustLines.live fromP.id toP.id eq.id with
  | none => refuse 404 "TRUSTLINE_NOT_FOUND" "Trustline not found"
  | some l =>
      if newLimitDec < s.db.debts.owed l.toParticipantId l.fromParticipantId eq.id then
        refuse 409 "USED_EXCEEDS_NEW_LIMIT" "Cannot reduce trustline limit below used amount"
      else do
        let tl ← raising (s.db.trustLines.write l.id newLimitDec l.policy)
        return (s.setTrustLines tl, ⟨.update, eq.code, fromP.pid, toP.pid, newLimitDec⟩)

/-- `action_trustline_close`, up to its commit. -/
def actionTrustlineClose (perimeter : Option (List Pid)) (fromPid toPid equivalent : String)
    (s : SimDb env) : Except ActionFailure (SimDb env × TopologyMutation) := do
  guardNoSelfLoop fromPid toPid
  let (fromP, toP, eq) ← resolveEdge s perimeter fromPid toPid equivalent
  match s.db.trustLines.live fromP.id toP.id eq.id with
  | none => refuse 404 "TRUSTLINE_NOT_FOUND" "Trustline not found"
  | some l =>
      if 0 < s.db.debts.owed l.toParticipantId l.fromParticipantId eq.id ∨
          0 < s.db.debts.owed l.fromParticipantId l.toParticipantId eq.id then
        refuse 409 "TRUSTLINE_HAS_DEBT" "Cannot close trustline with non-zero debt"
      else
        return (s.setTrustLines (s.db.trustLines.close l.id), ⟨.close, eq.code, fromP.pid, toP.pid, 0⟩)

section Effects
open Outcomes

variable {s s' : SimDb env} {perimeter : Option (List Pid)} {fromPid toPid equivalent : String} {m : TopologyMutation}

theorem resolveParticipant_ok {scopedPids : List Pid} {pid : String} {p : Participant}
    (h : resolveParticipant s scopedPids pid = .ok p) :
    strip pid ∈ scopedPids ∧ s.participantByPid (strip pid) = some p := by
  unfold resolveParticipant at h
  split at h
  · cases h
  · next hScope =>
      push Not at hScope
      split at h
      · cases h
      · next hFound =>
          cases h
          exact ⟨hScope.2, hFound⟩

theorem resolveEquivalent_ok {directory : Directory} {code : String} {eq : Equivalent}
    (h : resolveEquivalent directory code = .ok eq) :
    stripUpper code ≠ "" ∧ directory.equivalentByCode (stripUpper code) = some eq := by
  unfold resolveEquivalent at h
  split at h
  · cases h
  · next hCode =>
      split at h
      · cases h
      · next hFound =>
          cases h
          exact ⟨hCode, hFound⟩

/-- The participants of an action are registered and in the run's perimeter. -/
theorem resolveEdge_ok {fromP toP : Participant} {eq : Equivalent}
    (h : resolveEdge s perimeter fromPid toPid equivalent = .ok (fromP, toP, eq)) :
    ∃ scopedPids, perimeter = some scopedPids ∧
      (strip fromPid ∈ scopedPids ∧ s.participantByPid (strip fromPid) = some fromP) ∧
      (strip toPid ∈ scopedPids ∧ s.participantByPid (strip toPid) = some toP) ∧
      stripUpper equivalent ≠ "" ∧ env.directory.equivalentByCode (stripUpper equivalent) = some eq := by
  unfold resolveEdge at h
  obtain ⟨scopedPids, hPerimeter, h⟩ := bind_eq_ok_iff.mp h
  obtain ⟨_, hFrom, h⟩ := bind_eq_ok_iff.mp h
  obtain ⟨_, hTo, h⟩ := bind_eq_ok_iff.mp h
  obtain ⟨_, hEquivalent, h⟩ := bind_eq_ok_iff.mp h
  cases h
  refine ⟨scopedPids, ?_, resolveParticipant_ok hFrom, resolveParticipant_ok hTo, resolveEquivalent_ok hEquivalent⟩
  unfold runPerimeter at hPerimeter
  split at hPerimeter
  · cases hPerimeter
  · cases hPerimeter
    rfl

theorem raising_ok {α : Type} {x : Except GeoError α} {a : α} (h : raising x = .ok a) : x = .ok a := by
  cases x with
  | error e => cases h
  | ok b =>
      cases h
      rfl

/-- A create inserts one line. -/
theorem actionTrustlineCreate_effect {limit : String}
    (h : actionTrustlineCreate perimeter fromPid toPid equivalent limit s = .ok (s', m)) :
    ∃ fromP toP eq limitDec tl, parseActionLimit limit "Invalid limit" = .ok limitDec ∧
      resolveEdge s perimeter fromPid toPid equivalent = .ok (fromP, toP, eq) ∧
      s.db.trustLines.insert fromP.id toP.id eq.id limitDec defaultTlPolicy = .ok tl ∧
      s' = s.setTrustLines tl ∧ m = ⟨.create, eq.code, fromP.pid, toP.pid, limitDec⟩ := by
  unfold actionTrustlineCreate at h
  obtain ⟨_, _, h⟩ := bind_eq_ok_iff.mp h
  obtain ⟨limitDec, hLimit, h⟩ := bind_eq_ok_iff.mp h
  obtain ⟨⟨fromP, toP, eq⟩, hEdge, h⟩ := bind_eq_ok_iff.mp h
  simp only at h
  split at h
  · cases h
  · split at h
    · cases h
    · obtain ⟨tl, hInsert, h⟩ := bind_eq_ok_iff.mp h
      cases h
      exact ⟨fromP, toP, eq, limitDec, tl, hLimit, hEdge, raising_ok hInsert, rfl, rfl⟩

theorem TrustTable.mem_of_live {tl : TrustTable env} {x y w : Uuid} {l : TrustLine} (h : tl.live x y w = some l) :
    l ∈ tl.rows ∧ l.status ≠ .closed ∧ l.key = (x, y, w) := by
  have hFound := List.find?_some h
  rw [decide_eq_true_eq] at hFound
  exact ⟨List.mem_of_find?_eq_some h, hFound⟩

/-- An update rewrites the live line. -/
theorem actionTrustlineUpdate_effect {newLimit : String}
    (h : actionTrustlineUpdate perimeter fromPid toPid equivalent newLimit s = .ok (s', m)) :
    ∃ fromP toP eq newLimitDec l tl, parseActionLimit newLimit "Invalid new_limit" = .ok newLimitDec ∧
      resolveEdge s perimeter fromPid toPid equivalent = .ok (fromP, toP, eq) ∧
      s.db.trustLines.live fromP.id toP.id eq.id = some l ∧
      s.db.trustLines.write l.id newLimitDec l.policy = .ok tl ∧
      s' = s.setTrustLines tl ∧ m = ⟨.update, eq.code, fromP.pid, toP.pid, newLimitDec⟩ := by
  unfold actionTrustlineUpdate at h
  obtain ⟨_, _, h⟩ := bind_eq_ok_iff.mp h
  obtain ⟨newLimitDec, hLimit, h⟩ := bind_eq_ok_iff.mp h
  obtain ⟨⟨fromP, toP, eq⟩, hEdge, h⟩ := bind_eq_ok_iff.mp h
  simp only at h
  split at h
  · cases h
  · next l hLive =>
      split at h
      · cases h
      · obtain ⟨tl, hWrite, h⟩ := bind_eq_ok_iff.mp h
        cases h
        exact ⟨fromP, toP, eq, newLimitDec, l, tl, hLimit, hEdge, hLive, raising_ok hWrite, rfl, rfl⟩

/-- A close closes the live line. -/
theorem actionTrustlineClose_effect
    (h : actionTrustlineClose perimeter fromPid toPid equivalent s = .ok (s', m)) :
    ∃ fromP toP eq l, resolveEdge s perimeter fromPid toPid equivalent = .ok (fromP, toP, eq) ∧
      s.db.trustLines.live fromP.id toP.id eq.id = some l ∧
      s' = s.setTrustLines (s.db.trustLines.close l.id) ∧
      m = ⟨.close, eq.code, fromP.pid, toP.pid, 0⟩ := by
  unfold actionTrustlineClose at h
  obtain ⟨_, _, h⟩ := bind_eq_ok_iff.mp h
  obtain ⟨⟨fromP, toP, eq⟩, hEdge, h⟩ := bind_eq_ok_iff.mp h
  simp only at h
  split at h
  · cases h
  · next l hLive =>
      split at h
      · cases h
      · cases h
        exact ⟨fromP, toP, eq, l, hEdge, hLive, rfl, rfl⟩

end Effects

end GeoLedger

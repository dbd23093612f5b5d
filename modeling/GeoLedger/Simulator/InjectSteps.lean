import Mathlib
import GeoLedger.Simulator.InjectFlush
import GeoLedger.Simulator.TrustGrowth

/-! What the effects of an event do to a session. An effect names participants and
a line by what the run and the `participants` table know; which lines and debts
it finds is decided by the tables. -/
namespace GeoLedger
open Outcomes

variable {env : Env}

namespace InjectState

section Names

variable (s : InjectState env)

/-- The same session with other remembered ids. -/
def withPids (d : Dict Pid Uuid) : InjectState env := { s with pidToParticipantId := d }

/-- The id of a participant: known to the run, or in the table. -/
def idOf (pid : Pid) : Option Uuid :=
  match s.pidToParticipantId.get? pid with
  | some id => some id
  | none => (s.flushed.participantByPid pid).map (·.id)

/-- The remembered ids after a participant was looked up. -/
def remember (pid : Pid) : Dict Pid Uuid :=
  match s.pidToParticipantId.get? pid with
  | some _ => s.pidToParticipantId
  | none =>
      match s.flushed.participantByPid pid with
      | some p => s.pidToParticipantId.set pid p.id
      | none => s.pidToParticipantId

/-- Resolving a PID finds the participant that the scenario or the database knows, and at
most remembers its id. -/
theorem resolvePid_eq (pid : Pid) :
    s.resolvePid pid = (s.idOf pid).map fun id => (id, s.withPids (s.remember pid)) := by
  unfold resolvePid idOf remember
  cases s.pidToParticipantId.get? pid with
  | some id => rfl
  | none =>
      cases s.flushed.participantByPid pid with
      | none => rfl
      | some p => rfl

/-- Remembering an id changes no other lookup. -/
theorem idOf_remember (pid pid' : Pid) : (s.withPids (s.remember pid)).idOf pid' = s.idOf pid' := by
  unfold remember
  cases hGet : s.pidToParticipantId.get? pid with
  | some id => rfl
  | none =>
      cases hFind : s.flushed.participantByPid pid with
      | none => rfl
      | some p =>
          change (match (s.pidToParticipantId.set pid p.id).get? pid' with
            | some id => some id
            | none => (s.flushed.participantByPid pid').map (·.id)) = s.idOf pid'
          rw [Dict.get?_set, idOf]
          by_cases h : pid' = pid
          · rw [if_pos h, h, hGet, hFind]
            rfl
          · rw [if_neg h]

end Names

section Lines

variable (s : InjectState env)

/-- The line that an effect names, with its limit. -/
def namedLine (scenario : Scenario) (fromPid toPid equivalent : String) (limit : ParsedDecimal) :
    Option NewLine :=
  let eqCode := effectiveEquivalent scenario equivalent
  if strip fromPid = "" ∨ strip toPid = "" ∨ eqCode = "" then none
  else do
    let limit ← limit.positive
    let fromId ← s.idOf (strip fromPid)
    let toId ← s.idOf (strip toPid)
    let equivalent ← env.directory.equivalentByCode (stripUpper eqCode)
    return ⟨(fromId, toId, equivalent.id), limit⟩

/-- Add a line to the session, unless a live one is flushed. -/
def putLine (new : NewLine) (tl : ScenarioTrustline) : InjectState env :=
  if new.key ∈ s.flushed.db.trustLines.liveKeys then s
  else
    { s with
      added := s.added ++ [new]
      affectedEquivalents := s.affectedEquivalents ++ [tl.equivalent]
      newTrustlinesScenario := s.newTrustlinesScenario ++ [tl] }

/-- A line is added for the equivalent of the stripped code, and nothing happens where there
is none. -/
theorem addLine_eq (fromId toId : Uuid) (fromPid toPid : Pid) (eqCode : String) (limit : Option Amount) :
    s.addLine fromId toId fromPid toPid eqCode limit =
      match env.directory.equivalentByCode (stripUpper eqCode) with
      | none => s
      | some equivalent =>
          s.putLine ⟨(fromId, toId, equivalent.id), limit⟩ ⟨eqCode, fromPid, toPid, limit, "active"⟩ := by
  unfold addLine
  cases env.directory.equivalentByCode (stripUpper eqCode) with
  | none => rfl
  | some equivalent => exact if_congr TrustTable.live_isSome_iff rfl rfl

/-- The tables of a session, and what it has not flushed of its lines. -/
structure Tables (env : Env) where
  trustLines : TrustTable env
  debts : DebtTable env
  added : List NewLine
  frozen : List Uuid

/-- The same session over other tables. -/
def withTables (x : Tables env) : InjectState env :=
  { s with
    flushed := (s.flushed.setTrustLines x.trustLines).setDebts x.debts
    added := x.added
    frozen := x.frozen }

def tables : Tables env := ⟨s.flushed.db.trustLines, s.flushed.db.debts, s.added, s.frozen⟩

/-- `op_create_trustline` names a line by ids that do not depend on the tables. -/
theorem createTrustline_withTables (scenario : Scenario) (fromPid toPid equivalent : String) (limit : ParsedDecimal) :
    ∃ d, match s.namedLine scenario fromPid toPid equivalent limit with
      | none => ∀ x, (s.withTables x).createTrustline scenario fromPid toPid equivalent limit = (s.withTables x).withPids d
      | some new => ∃ tl, ∀ x, (s.withTables x).createTrustline scenario fromPid toPid equivalent limit =
          ((s.withTables x).withPids d).putLine new tl := by
  unfold createTrustline namedLine
  by_cases hNames : strip fromPid = "" ∨ strip toPid = "" ∨ effectiveEquivalent scenario equivalent = ""
  · simp only [if_pos hNames]
    exact ⟨s.pidToParticipantId, fun x => rfl⟩
  · simp only [if_neg hNames]
    cases limit.positive with
    | none => exact ⟨s.pidToParticipantId, fun x => rfl⟩
    | some limit =>
        simp only [Option.bind_eq_bind, Option.bind_some, resolvePid_eq]
        cases hFrom : s.idOf (strip fromPid) with
        | none =>
            have hNone : ∀ x, (s.withTables x).idOf (strip fromPid) = none := fun x => hFrom
            simp only [hNone, Option.map_none, Option.bind_none]
            exact ⟨s.pidToParticipantId, fun x => rfl⟩
        | some fromId =>
            have hSome : ∀ x, (s.withTables x).idOf (strip fromPid) = some fromId := fun x => hFrom
            simp only [hSome, Option.map_some, Option.bind_some, idOf_remember]
            cases hTo : s.idOf (strip toPid) with
            | none =>
                have hNone : ∀ x, (s.withTables x).idOf (strip toPid) = none := fun x => hTo
                simp only [hNone, Option.map_none, Option.bind_none]
                exact ⟨s.remember (strip fromPid), fun x => rfl⟩
            | some toId =>
                have hSome : ∀ x, (s.withTables x).idOf (strip toPid) = some toId := fun x => hTo
                simp only [hSome, Option.map_some, Option.bind_some, addLine_eq]
                refine ⟨(s.withPids (s.remember (strip fromPid))).remember (strip toPid), ?_⟩
                cases env.directory.equivalentByCode (stripUpper (effectiveEquivalent scenario equivalent)) with
                | none => exact fun x => rfl
                | some e =>
                    exact ⟨⟨effectiveEquivalent scenario equivalent, strip fromPid, strip toPid, limit, "active"⟩,
                      fun x => rfl⟩

/-- The session went on by adding lines, and by remembering ids. -/
structure Adds (s s' : InjectState env) (lines : List NewLine) : Prop where
  flushed : s'.flushed = s.flushed
  added : s'.added = s.added ++ lines
  frozen : s'.frozen = s.frozen
  failed : s'.failed = s.failed

/-- A named line that is not live among the flushed ones. -/
def notLive (named : Option NewLine) : Option NewLine := named.filter (·.key ∉ s.flushed.db.trustLines.liveKeys)

variable {s} in

/-- What a step is left to add is the line it names, unless the flushed tables hold a live
line of that key. -/
theorem mem_notLive_iff {named : Option NewLine} {new : NewLine} :
    s.notLive named = some new ↔ named = some new ∧ new.key ∉ s.flushed.db.trustLines.liveKeys := by
  simp [notLive, Option.filter_eq_some_iff]

/-- A step that names no line adds none, whatever PIDs it remembers. -/
theorem adds_none (d : Dict Pid Uuid) : Adds s (s.withPids d) (s.notLive none).toList :=
  ⟨rfl, (List.append_nil _).symm, rfl, rfl⟩

/-- A named line is added to the session where no live line of its key is flushed, and to
the scenario in any case. -/
theorem adds_putLine (d : Dict Pid Uuid) (new : NewLine) (tl : ScenarioTrustline) :
    Adds s ((s.withPids d).putLine new tl) (s.notLive (some new)).toList := by
  unfold putLine
  by_cases hLive : new.key ∈ s.flushed.db.trustLines.liveKeys
  · have hNone : s.notLive (some new) = none := by simp [notLive, hLive]
    rw [if_pos (show new.key ∈ (s.withPids d).flushed.db.trustLines.liveKeys from hLive), hNone]
    exact ⟨rfl, (List.append_nil _).symm, rfl, rfl⟩
  · have hSome : s.notLive (some new) = some new := by simp [notLive, hLive]
    rw [if_neg (show new.key ∉ (s.withPids d).flushed.db.trustLines.liveKeys from hLive), hSome]
    exact ⟨rfl, rfl, rfl, rfl⟩

/-- `op_create_trustline` adds the line it names, unless a live line of that key is flushed. -/
theorem createTrustline_adds (scenario : Scenario) (fromPid toPid equivalent : String) (limit : ParsedDecimal) :
    Adds s (s.createTrustline scenario fromPid toPid equivalent limit)
      (s.notLive (s.namedLine scenario fromPid toPid equivalent limit)).toList := by
  obtain ⟨d, h⟩ := s.createTrustline_withTables scenario fromPid toPid equivalent limit
  cases hNamed : s.namedLine scenario fromPid toPid equivalent limit with
  | none =>
      rw [hNamed] at h
      rw [show s.createTrustline scenario fromPid toPid equivalent limit = s.withPids d from h s.tables]
      exact s.adds_none d
  | some new =>
      rw [hNamed] at h
      obtain ⟨tl, h⟩ := h
      rw [show s.createTrustline scenario fromPid toPid equivalent limit = (s.withPids d).putLine new tl from h s.tables]
      exact s.adds_putLine d new tl

/-- The line that an entry of `initial_trustlines` names. -/
def namedInitial (scenario : Scenario) (newId : Uuid) (itl : InitialTrustline) : Option NewLine :=
  let eqCode := effectiveEquivalent scenario itl.equivalent
  if strip itl.sponsor = "" ∨ eqCode = "" then none
  else do
    let limit ← itl.limit.positive
    let sponsorId ← s.idOf (strip itl.sponsor)
    let equivalent ← env.directory.equivalentByCode (stripUpper eqCode)
    if (if itl.direction = "" then "sponsor_credits_new" else strip itl.direction) = "sponsor_credits_new" then
      return ⟨(sponsorId, newId, equivalent.id), limit⟩
    else return ⟨(newId, sponsorId, equivalent.id), limit⟩

/-- What an entry of `initial_trustlines` adds. The ids stay as they are. -/
theorem addInitialTrustline_adds (scenario : Scenario) (newId : Uuid) (pid : Pid) (itl : InitialTrustline) :
    Adds s (s.addInitialTrustline scenario newId pid itl) (s.notLive (s.namedInitial scenario newId itl)).toList ∧
      ∀ pid', (s.addInitialTrustline scenario newId pid itl).idOf pid' = s.idOf pid' := by
  unfold addInitialTrustline namedInitial
  by_cases hNames : strip itl.sponsor = "" ∨ effectiveEquivalent scenario itl.equivalent = ""
  · simp only [if_pos hNames, implies_true, and_true]
    exact s.adds_none s.pidToParticipantId
  · simp only [if_neg hNames]
    cases itl.limit.positive with
    | none => exact ⟨s.adds_none s.pidToParticipantId, fun _ => rfl⟩
    | some limit =>
        simp only [Option.bind_eq_bind, Option.bind_some, resolvePid_eq]
        cases hSponsor : s.idOf (strip itl.sponsor) with
        | none => exact ⟨s.adds_none s.pidToParticipantId, fun _ => rfl⟩
        | some sponsorId =>
            simp only [Option.map_some, Option.bind_some, addLine_eq]
            have hIds : ∀ new tl pid', ((s.withPids (s.remember (strip itl.sponsor))).putLine new tl).idOf pid' =
                s.idOf pid' := by
              intro new tl pid'
              rw [← s.idOf_remember (strip itl.sponsor) pid', putLine]
              split
              · rfl
              · rfl
            cases env.directory.equivalentByCode (stripUpper (effectiveEquivalent scenario itl.equivalent)) with
            | none =>
                simp only [ite_self, Option.bind_none]
                exact ⟨s.adds_none _, s.idOf_remember _⟩
            | some e =>
                simp only [Option.bind_some]
                by_cases hDirection : (if itl.direction = "" then "sponsor_credits_new" else strip itl.direction) =
                    "sponsor_credits_new"
                · simp only [if_pos hDirection]
                  exact ⟨s.adds_putLine _ _ _, hIds _ _⟩
                · simp only [if_neg hDirection]
                  exact ⟨s.adds_putLine _ _ _, hIds _ _⟩

/-- A limit that passes the check is a positive number or infinite. -/
theorem positive_pos {limit : ParsedDecimal} {value : Option Amount} (h : limit.positive = some value) :
    ∀ x ∈ value, 0 < x := by
  intro x hx
  rw [Option.mem_def] at hx
  subst hx
  cases limit with
  | unreadable => cases h
  | notANumber => cases h
  | infinity negative => cases negative <;> cases h
  | number y =>
      simp only [ParsedDecimal.positive] at h
      split at h
      · cases h
      · next hPos =>
          cases h
          exact not_le.mp hPos

/-- A line that is named with a limit has a positive one. -/
theorem namedLine_pos {scenario : Scenario} {fromPid toPid equivalent : String} {limit : ParsedDecimal} {new : NewLine}
    (h : s.namedLine scenario fromPid toPid equivalent limit = some new) : ∀ x ∈ new.limit, 0 < x := by
  unfold namedLine at h
  simp only at h
  split at h
  · cases h
  · simp only [Option.bind_eq_bind, Option.bind_eq_some_iff, Option.pure_def, Option.some.injEq] at h
    obtain ⟨_, hPositive, _, _, _, _, _, _, rfl⟩ := h
    exact positive_pos hPositive

/-- The initial line of a new participant has a positive limit where it has one. -/
theorem namedInitial_pos {scenario : Scenario} {newId : Uuid} {itl : InitialTrustline} {new : NewLine}
    (h : s.namedInitial scenario newId itl = some new) : ∀ x ∈ new.limit, 0 < x := by
  unfold namedInitial at h
  simp only at h
  split at h
  · cases h
  · simp only [Option.bind_eq_bind, Option.bind_eq_some_iff, Option.pure_def] at h
    obtain ⟨_, hPositive, _, _, _, _, h⟩ := h
    by_cases hDirection : (if itl.direction = "" then "sponsor_credits_new" else strip itl.direction) =
        "sponsor_credits_new"
    · rw [if_pos hDirection] at h
      cases h
      exact positive_pos hPositive
    · rw [if_neg hDirection] at h
      cases h
      exact positive_pos hPositive

/-- The lines that `initial_trustlines` adds. -/
def initialLines (scenario : Scenario) (newId : Uuid) (itls : List InitialTrustline) : List NewLine :=
  itls.filterMap fun itl => s.notLive (s.namedInitial scenario newId itl)

/-- The initial lines that are added have positive limits and no live line of their keys. -/
theorem mem_initialLines {scenario : Scenario} {newId : Uuid} {itls : List InitialTrustline} {new : NewLine}
    (h : new ∈ s.initialLines scenario newId itls) :
    (∀ x ∈ new.limit, 0 < x) ∧ new.key ∉ s.flushed.db.trustLines.liveKeys := by
  obtain ⟨itl, _, hNamed⟩ := List.mem_filterMap.mp h
  obtain ⟨hNamed, hLive⟩ := mem_notLive_iff.mp hNamed
  exact ⟨s.namedInitial_pos hNamed, hLive⟩

/-- The loop over the initial trust lines adds exactly the lines that the participant comes
with. -/
theorem foldl_addInitialTrustline_adds (scenario : Scenario) (newId : Uuid) (pid : Pid) (itls : List InitialTrustline) :
    Adds s (itls.foldl (fun s itl => s.addInitialTrustline scenario newId pid itl) s)
      (s.initialLines scenario newId itls) := by
  induction itls generalizing s with
  | nil => exact ⟨rfl, (List.append_nil _).symm, rfl, rfl⟩
  | cons itl rest ih =>
      obtain ⟨hAdds, hIds⟩ := s.addInitialTrustline_adds scenario newId pid itl
      have hRest := ih (s.addInitialTrustline scenario newId pid itl)
      have hNamed : (s.addInitialTrustline scenario newId pid itl).initialLines scenario newId rest =
          s.initialLines scenario newId rest := by
        refine List.filterMap_congr fun other _ => ?_
        unfold notLive namedInitial
        simp only [hIds, hAdds.flushed]
      rw [hNamed] at hRest
      refine ⟨hRest.flushed.trans hAdds.flushed, ?_, hRest.frozen.trans hAdds.frozen, hRest.failed.trans hAdds.failed⟩
      rw [List.foldl_cons, hRest.added, hAdds.added, List.append_assoc]
      congr 1
      unfold initialLines
      rw [List.filterMap_cons]
      cases s.notLive (s.namedInitial scenario newId itl) with
      | none => rfl
      | some new => rfl

end Lines

section Registration

variable {s : InjectState env} {effect : InjectEffect} {scenario : Scenario}

/-- An `add_participant` that reaches its flush with a row that does not fit. -/
def Overflows (s : InjectState env) : InjectEffect → Prop
  | .addParticipant (some data) _ => strip data.id ≠ "" ∧ strip data.id ∉ s.flushed.participants.keys ∧ ¬data.Fits
  | _ => False

/-- A participant whose id or name its column does not hold fails the whole event. -/
theorem addParticipant_of_overflows {participant : Option NewParticipant} {itls : List InitialTrustline}
    (h : s.Overflows (.addParticipant participant itls)) :
    s.addParticipant scenario participant itls = { s with failed := true } := by
  cases participant with
  | none => exact absurd h id
  | some data =>
      obtain ⟨hId, hNew, hLong⟩ := h
      simp only [addParticipant, if_neg (not_or.mpr ⟨hId, hNew⟩), if_pos hLong]

/-- A participant that is known already, or has no id, is passed over with all its lines. -/
theorem addParticipant_of_not_registers {participant : Option NewParticipant} {itls : List InitialTrustline}
    (h : ¬s.Registers (.addParticipant participant itls)) (hFits : ¬s.Overflows (.addParticipant participant itls)) :
    s.addParticipant scenario participant itls = s := by
  unfold addParticipant
  cases participant with
  | none => rfl
  | some data =>
      by_cases hSkip : strip data.id = "" ∨ strip data.id ∈ s.flushed.participants.keys
      · exact if_pos hSkip
      · obtain ⟨hId, hNew⟩ := not_or.mp hSkip
        have hWithin : data.Fits := by
          by_contra hLong
          exact hFits ⟨hId, hNew, hLong⟩
        simp only [if_neg hSkip, if_neg (not_not.mpr hWithin)]
        cases hFind : env.directory.participantByPid (strip data.id) with
        | none => rfl
        | some p => exact absurd ⟨hId, hNew, hWithin, by rw [hFind]; rfl⟩ h

/-- A registration in a session that has nothing to flush. -/
theorem addParticipant_of_registers {data : NewParticipant} {itls : List InitialTrustline}
    (h : s.Registers (.addParticipant (some data) itls)) (hFlush : s.flush = s) (hRunning : s.failed = false) :
    ∃ p, env.directory.participantByPid (strip data.id) = some p ∧
      s.addParticipant scenario (some data) itls =
        (reachedEntries scenario itls).foldl (fun s itl => s.addInitialTrustline scenario p.id p.pid itl)
          (s.register p (participantStatus data.status)) := by
  obtain ⟨hId, hNew, hWithin, hFind⟩ := h
  obtain ⟨p, hp⟩ := Option.isSome_iff_exists.mp hFind
  refine ⟨p, hp, ?_⟩
  unfold addParticipant
  simp only [if_neg (not_or.mpr ⟨hId, hNew⟩), if_neg (not_not.mpr hWithin), hp, hFlush, hRunning,
    Bool.false_eq_true, if_false]

end Registration

section Running

variable {scenario : Scenario}

theorem apply_createTrustline {b : InjectState env} (hRunning : b.failed = false)
    (fromPid toPid equivalent : String) (limit : ParsedDecimal) :
    b.apply scenario (.createTrustline fromPid toPid equivalent limit) =
      b.createTrustline scenario fromPid toPid equivalent limit := by
  unfold InjectState.apply
  rw [hRunning, if_neg Bool.false_ne_true]

theorem apply_freezeParticipant {b : InjectState env} (hRunning : b.failed = false) (participantId : String)
    (freezeTrustlines : Bool) : b.apply scenario (.freezeParticipant participantId freezeTrustlines) =
      b.freezeParticipant scenario participantId freezeTrustlines := by
  unfold InjectState.apply
  rw [hRunning, if_neg Bool.false_ne_true]

theorem apply_addParticipant {b : InjectState env} (hRunning : b.failed = false) (participant : Option NewParticipant)
    (itls : List InitialTrustline) : b.apply scenario (.addParticipant participant itls) =
      b.addParticipant scenario participant itls := by
  unfold InjectState.apply
  rw [hRunning, if_neg Bool.false_ne_true]

end Running

section Freezing

variable {s : InjectState env} {scenario : Scenario} {participantId : String} {freezeTrustlines : Bool} {p : Participant}

/-- A `freeze_participant` that suspends the participant. -/
structure Suspends (s : InjectState env) (participantId : String) (p : Participant) : Prop where
  named : strip participantId ≠ ""
  found : s.flushed.participantByPid (strip participantId) = some p
  active : s.flushed.participants.get? (strip participantId) ≠ some .suspended

/-- Freezing a participant that is found suspends its row, and freezes its incident lines
where the event asks for that. -/
theorem freezeParticipant_of_suspends (h : s.Suspends participantId p) :
    s.freezeParticipant scenario participantId freezeTrustlines =
      { s with
        flushed := { s.flushed with participants := s.flushed.participants.set (strip participantId) .suspended }
        frozen := if freezeTrustlines then s.frozen ++ incidentLines s.flushed.db.trustLines p.id else s.frozen
        affectedEquivalents := s.affectedEquivalents ++ incidentEquivalents scenario (strip participantId)
        frozenPids := s.frozenPids ++ [strip participantId] } := by
  unfold freezeParticipant
  simp only [if_neg h.named, h.found, if_neg h.active]

/-- A participant that is not found is passed over. -/
theorem freezeParticipant_of_not_suspends (h : ∀ p, ¬s.Suspends participantId p) :
    s.freezeParticipant scenario participantId freezeTrustlines = s := by
  unfold freezeParticipant
  by_cases hName : strip participantId = ""
  · exact if_pos hName
  · simp only [if_neg hName]
    cases hFound : s.flushed.participantByPid (strip participantId) with
    | none => rfl
    | some p =>
        by_cases hStatus : s.flushed.participants.get? (strip participantId) = some .suspended
        · exact if_pos hStatus
        · exact absurd ⟨hName, hFound, hStatus⟩ (h p)

/-- The incident lines of a participant are the active ones that it gives or receives. -/
theorem mem_incidentLines_iff {tl : TrustTable env} {id lineId : Uuid} : lineId ∈ incidentLines tl id ↔
    ∃ l ∈ tl.rows, l.id = lineId ∧ l.status = .active ∧ (l.fromParticipantId = id ∨ l.toParticipantId = id) := by
  simp only [incidentLines, List.mem_map, List.mem_filter, decide_eq_true_eq]
  constructor
  · rintro ⟨l, ⟨hl, hAt, hActive⟩, hId⟩
    exact ⟨l, hl, hId, hActive, hAt⟩
  · rintro ⟨l, hl, hId, hActive, hAt⟩
    exact ⟨l, ⟨hl, hAt, hActive⟩, hId⟩

end Freezing

end InjectState

namespace InjectSession
open InjectState

variable {s : InjectSession env} {tl tl' : TrustTable env} {t t' : DebtTable env}

section Lines

/-- A fresh id is not among the frozen ones, which were all issued before. -/
theorem issued_not_mem {frozen : List Uuid} {n : Nat} (hIssued : ∀ id ∈ frozen, ∃ m < n, id = env.uuid4 m) {k : Nat}
    (hk : n ≤ k) : env.uuid4 k ∉ frozen := by
  intro hIn
  obtain ⟨m, hm, hId⟩ := hIssued _ hIn
  have := env.uuid4_injective hId
  omega

/-- Lines that are added are inserted after the others. -/
theorem Settles.lines_of_adds {base : InjectState env} {xs : List NewLine} (h : s.Settles tl t)
    (hAdds : s.base.Adds base xs) : base.lines = insertAdded xs tl := by
  have hLines := h.lines
  rw [InjectState.lines] at hLines ⊢
  rw [hAdds.flushed, hAdds.added, hAdds.frozen, insertAdded_append]
  cases hAdded : insertAdded s.base.added s.base.flushed.db.trustLines with
  | error e =>
      rw [hAdded] at hLines
      cases hLines
  | ok u =>
      rw [hAdded] at hLines
      cases hLines
      have hGenerated := (insertAdded_rows hAdded).1
      exact (insertAdded_freeze (fun n hn => issued_not_mem h.issued (hGenerated.trans hn)) xs).symm

/-- A session still settles after it has added lines whose insertion succeeds. -/
theorem Settles.adds {base : InjectState env} {xs : List NewLine} (h : s.Settles tl t) (hAdds : s.base.Adds base xs)
    (hInsert : insertAdded xs tl = .ok tl') : ({ s with base := base } : InjectSession env).Settles tl' t where
  running := hAdds.failed.trans h.running
  lines := (h.lines_of_adds hAdds).trans hInsert
  debts := by
    have hDebts := h.debts
    rw [InjectSession.debts] at hDebts ⊢
    rwa [hAdds.flushed]
  issued := by
    rw [hAdds.frozen, hAdds.flushed]
    exact h.issued

/-- Lines of the flushed table are frozen after the others. -/
theorem Settles.freezes {base : InjectState env} {ids : List Uuid} (h : s.Settles tl t)
    (hDb : base.flushed.db = s.base.flushed.db) (hAdded : base.added = s.base.added)
    (hFrozen : base.frozen = s.base.frozen ++ ids) (hFailed : base.failed = s.base.failed)
    (hIds : ∀ id ∈ ids, id ∈ s.base.flushed.db.trustLines.rows.map (·.id)) :
    ({ s with base := base } : InjectSession env).Settles (tl.freeze ids) t where
  running := hFailed.trans h.running
  lines := by
    have hLines := h.lines
    rw [InjectState.lines] at hLines ⊢
    rw [hDb, hAdded, hFrozen]
    cases hInsert : insertAdded s.base.added s.base.flushed.db.trustLines with
    | error e =>
        rw [hInsert] at hLines
        cases hLines
    | ok u =>
        rw [hInsert] at hLines
        cases hLines
        exact congrArg Except.ok (u.freeze_freeze s.base.frozen ids).symm
  debts := by
    have hDebts := h.debts
    rw [InjectSession.debts] at hDebts ⊢
    rwa [hDb]
  issued := by
    rw [hFrozen, hDb]
    intro id hId
    rcases List.mem_append.mp hId with hOld | hNew
    · exact h.issued id hOld
    · obtain ⟨l, hl, rfl⟩ := List.mem_map.mp (hIds id hNew)
      exact s.base.flushed.db.trustLines.issued l hl

/-- The lines after a flush: the flushed ones, frozen, and a row for each added one. -/
theorem Settles.rows (h : s.Settles tl t) : ∃ rows,
    tl.rows = s.base.flushed.db.trustLines.rows.map (TrustLine.freeze s.base.frozen) ++ rows ∧
      List.Forall₂ (Inserted env s.base.flushed.db.trustLines.generated tl.generated) s.base.added rows := by
  have hLines := h.lines
  rw [InjectState.lines] at hLines
  cases hAdded : insertAdded s.base.added s.base.flushed.db.trustLines with
  | error e =>
      rw [hAdded] at hLines
      cases hLines
  | ok u =>
      rw [hAdded] at hLines
      cases hLines
      obtain ⟨_, rows, hRows, hInserted⟩ := insertAdded_rows hAdded
      refine ⟨rows, ?_, hInserted⟩
      change u.rows.map (TrustLine.freeze s.base.frozen) = _
      rw [hRows, List.map_append]
      congr 1
      refine (List.map_congr_left fun l hl => ?_).trans (List.map_id _)
      obtain ⟨x, _, hFresh⟩ := exists_of_mem_results hInserted hl
      obtain ⟨n, hn, _, hId⟩ := hFresh.fresh
      refine if_neg fun hFrozen => issued_not_mem h.issued hn ?_
      rw [← hId]
      exact hFrozen.1

/-- A flushed line is among the settled ones, frozen where the session froze it. -/
theorem Settles.mem_old (h : s.Settles tl t) {l : TrustLine} (hl : l ∈ s.base.flushed.db.trustLines.rows) :
    l.freeze s.base.frozen ∈ tl.rows := by
  obtain ⟨rows, hRows, _⟩ := h.rows
  rw [hRows]
  exact List.mem_append_left _ (List.mem_map_of_mem hl)

/-- Every added line has been inserted as a row with an id issued by the flush. -/
theorem Settles.exists_added (h : s.Settles tl t) {x : NewLine} (hx : x ∈ s.base.added) :
    ∃ l ∈ tl.rows, Inserted env s.base.flushed.db.trustLines.generated tl.generated x l := by
  obtain ⟨rows, hRows, hInserted⟩ := h.rows
  obtain ⟨l, hl, hLine⟩ := exists_of_mem_results (hInserted.flip) hx
  rw [hRows]
  exact ⟨l, List.mem_append_right _ hl, hLine⟩

/-- A settled line is a flushed one, frozen where the session froze it, or the row of an
added one. -/
theorem Settles.line_cases (h : s.Settles tl t) {l : TrustLine} (hl : l ∈ tl.rows) :
    (∃ old ∈ s.base.flushed.db.trustLines.rows, l = old.freeze s.base.frozen) ∨
      ∃ x ∈ s.base.added, Inserted env s.base.flushed.db.trustLines.generated tl.generated x l := by
  obtain ⟨rows, hRows, hInserted⟩ := h.rows
  rw [hRows] at hl
  rcases List.mem_append.mp hl with hOld | hNew
  · obtain ⟨old, hFlushed, rfl⟩ := List.mem_map.mp hOld
    exact Or.inl ⟨old, hFlushed, rfl⟩
  · obtain ⟨x, hx, hLine⟩ := exists_of_mem_results hInserted hNew
    exact Or.inr ⟨x, hx, hLine⟩

/-- The lines that a session adds have no live line in the flushed tables. -/
theorem Settles.added_not_live (h : s.Settles tl t) {x : NewLine} (hx : x ∈ s.base.added) :
    x.key ∉ s.base.flushed.db.trustLines.liveKeys := by
  have hLines := h.lines
  rw [InjectState.lines] at hLines
  cases hAdded : insertAdded s.base.added s.base.flushed.db.trustLines with
  | error e =>
      rw [hAdded] at hLines
      cases hLines
  | ok u => exact ((insertAdded_eq_ok_iff.mp ⟨u, hAdded⟩).2 x hx).1

/-- The live keys after the flush are those before it and those of the added lines. -/
theorem Settles.mem_liveKeys_iff (h : s.Settles tl t) {key : Uuid × Uuid × Uuid} : key ∈ tl.liveKeys ↔
    key ∈ s.base.flushed.db.trustLines.liveKeys ∨ key ∈ s.base.added.map NewLine.key := by
  have hLines := h.lines
  rw [InjectState.lines] at hLines
  cases hAdded : insertAdded s.base.added s.base.flushed.db.trustLines with
  | error e =>
      rw [hAdded] at hLines
      cases hLines
  | ok u =>
      rw [hAdded] at hLines
      cases hLines
      rw [TrustTable.liveKeys_freeze]
      exact mem_liveKeys_insertAdded hAdded

end Lines

section Debts

variable {new : NewDebt}

/-- A session still settles after it has added a debt whose insertion succeeds. -/
theorem Settles.addDebt (h : s.Settles tl t)
    (hInsert : t.insert new.key.1 new.key.2.1 new.key.2.2 new.amount = .ok t') :
    ({ s with addedDebts := s.addedDebts ++ [new] } : InjectSession env).Settles tl t' where
  running := h.running
  lines := h.lines
  debts := by
    have hDebts := h.debts
    rw [InjectSession.debts] at hDebts ⊢
    rw [insertDebts_append, hDebts]
    exact (insertDebts_singleton new t).trans hInsert
  issued := h.issued

/-- A debt that cannot be inserted fails the flush. -/
theorem Settles.addDebt_error (h : s.Settles tl t)
    (hInsert : ¬∃ t', t.insert new.key.1 new.key.2.1 new.key.2.2 new.amount = .ok t') (u : TrustTable env)
    (u' : DebtTable env) : ¬({ s with addedDebts := s.addedDebts ++ [new] } : InjectSession env).Settles u u' := by
  intro hSettles
  have hDebts := h.debts
  have hAfter := hSettles.debts
  rw [InjectSession.debts] at hDebts hAfter
  rw [insertDebts_append, hDebts] at hAfter
  exact hInsert ⟨u', (insertDebts_singleton new t).symm.trans hAfter⟩

/-- Raising a flushed debt and then settling comes to the same as settling and then raising
it. -/
theorem Settles.writeDebt (h : s.Settles tl t) {d : Debt} {x : Amount} {u : DebtTable env}
    (hd : d ∈ s.base.flushed.db.debts.rows) (hWrite : s.base.flushed.db.debts.write d.id x = .ok u) :
    ∃ t', t.write d.id x = .ok t' ∧
      ({ s with base := { s.base with flushed := s.base.flushed.setDebts u } } : InjectSession env).Settles tl t' := by
  obtain ⟨t', hInsert, hWrite'⟩ := insertDebts_write hd hWrite h.debts
  exact ⟨t', hWrite', ⟨h.running, h.lines, hInsert, h.issued⟩⟩

/-- The accounts of an event do not concern what its flush does. -/
theorem Settles.account (h : s.Settles tl t) (eq : String) (creditorPid debtorPid : Pid) (amount : Amount) :
    (s.account eq creditorPid debtorPid amount).Settles tl t := ⟨h.running, h.lines, h.debts, h.issued⟩

/-- A row that is flushed is the row after a flush. -/
theorem Settles.getDebt_of_some (h : s.Settles tl t) {a b e : Uuid} {d : Debt}
    (hGet : s.base.flushed.db.debts.getDebt a b e = some d) : t.getDebt a b e = some d := by
  obtain ⟨hMem, hKey⟩ := DebtTable.getDebt_eq_some_iff.mp hGet
  exact DebtTable.getDebt_eq_some_iff.mpr ⟨mem_insertDebts h.debts hMem, hKey⟩

/-- The keys of the settled debts are those of the flushed and those of the added ones. -/
theorem Settles.mem_keys_iff (h : s.Settles tl t) {key : Uuid × Uuid × Uuid} : key ∈ t.rows.map Debt.key ↔
    key ∈ s.base.flushed.db.debts.rows.map Debt.key ∨ key ∈ s.addedDebts.map NewDebt.key :=
  mem_keys_insertDebts h.debts

/-- The debt that an effect names is a positive amount of cents. -/
theorem named_cents {scenario : Scenario} {eff : DebtEffect} (h : s.named scenario eff = some new) :
    0 < new.amount ∧ new.amount ∈ Grid.multiples cent ∧ eff.amount ≠ .notANumber := by
  unfold named at h
  cases hAmount : eff.amount with
  | unreadable =>
      rw [hAmount] at h
      cases h
  | notANumber =>
      rw [hAmount] at h
      cases h
  | number amount =>
      rw [hAmount] at h
      simp only at h
      split at h
      · cases h
      · next hSkip =>
          simp only [Option.bind_eq_bind, Option.bind_eq_some_iff, Option.pure_def, Option.some.injEq] at h
          obtain ⟨_, _, _, _, _, _, rfl⟩ := h
          rw [not_or, not_or] at hSkip
          exact ⟨not_le.mp hSkip.2.2, Grid.roundDown_mem _ _, by simp⟩

/-- A debt effect injects the debt it names, where the budget leaves room for it and the
trust lines grant it. -/
theorem injection_eq_some_iff {scenario : Scenario} {maxTotalAmount : Option Amount} {eff : DebtEffect} :
    s.injection scenario maxTotalAmount eff = some new ↔ s.named scenario eff = some new ∧
      ¬s.OverBudget maxTotalAmount new.amount ∧
      Granted s.base.flushed.db.trustLines s.base.flushed.db.debts new := by
  simp [injection, Option.filter_eq_some_iff]

/-- A debt is granted by an active line of the other direction with a positive limit that
the raised debt keeps. -/
theorem granted_iff {u : TrustTable env} {w : DebtTable env} : Granted u w new ↔
    ∃ l ∈ u.rows, l.status = .active ∧ l.key = new.line ∧ 0 < l.limit ∧ raised w new ≤ l.limit := by
  unfold Granted
  constructor
  · rintro ⟨l, hLive, hActive, hPos, hRoom⟩
    obtain ⟨hl, _, hKey⟩ := TrustTable.live_eq_some_iff.mp hLive
    exact ⟨l, hl, hActive, hKey, hPos, hRoom⟩
  · rintro ⟨l, hl, hActive, hKey, hPos, hRoom⟩
    exact ⟨l, TrustTable.live_eq_some_iff.mpr ⟨hl, by rw [hActive]; decide, hKey⟩, hActive, hPos, hRoom⟩

/-- Where there is no debt yet, the raised debt is the new amount. -/
theorem raised_of_none {w : DebtTable env} (h : w.getDebt new.key.1 new.key.2.1 new.key.2.2 = none) :
    raised w new = new.amount := by rw [raised, h]

/-- Where there is a debt already, the raised debt is the sum in whole cents, rounded down. -/
theorem raised_of_some {w : DebtTable env} {d : Debt} (h : w.getDebt new.key.1 new.key.2.1 new.key.2.2 = some d) :
    raised w new = centsDown (decimalAdd d.amount new.amount) := by rw [raised, h]

/-- A row that is raised grows, although the sum is rounded down to cents. -/
theorem lt_centsDown_add {x amount : Amount} (hx : 0 ≤ x) (hCents : amount ∈ Grid.multiples cent) (hPos : 0 < amount) :
    x < centsDown (x + amount) := by
  have hCent := Grid.le_of_mem_multiples cent_pos hCents hPos
  have hDown := lt_centsDown_add_cent (show 0 ≤ x + amount by linarith)
  linarith

/-- The column stores cents as they are. -/
theorem cent_mem_grid (hColumn : env.column = .numeric208) : cent ∈ env.column.grid := by
  rw [hColumn]
  exact Grid.mem_multiples_iff.mpr ⟨1000000, by norm_num [cent, AmountColumn.storageQuantum]⟩

/-- What the column holds has at most twelve digits before the point. -/
theorem lt_of_fits (hColumn : env.column = .numeric208) {x : Amount} (h : env.column.fits x = true) :
    x < 1000000000000 := by
  rw [hColumn] at h
  exact lt_of_abs_lt (of_decide_eq_true h)

/-- A debt raised by whole cents is in whole cents. -/
theorem raised_cents (w : DebtTable env) (hCents : new.amount ∈ Grid.multiples cent) :
    raised w new ∈ Grid.multiples cent := by
  unfold raised
  split
  · exact hCents
  · exact Grid.roundDown_mem _ _

theorem raised_nonneg (w : DebtTable env) (hPos : 0 < new.amount) : 0 ≤ raised w new := by
  cases hGet : w.getDebt new.key.1 new.key.2.1 new.key.2.2 with
  | none =>
      rw [raised_of_none hGet]
      exact hPos.le
  | some d =>
      have hRow := w.amount_positive d (DebtTable.getDebt_eq_some_iff.mp hGet).1
      rw [raised_of_some hGet]
      exact centsDown_nonneg (decimalAdd_nonneg hRow.le hPos.le)

/-- A debt that is granted fits the column. -/
theorem Granted.fits {u : TrustTable env} {w : DebtTable env} (h : Granted u w new) (hPos : 0 < new.amount) :
    env.column.fits (raised w new) = true := by
  obtain ⟨l, hl, _, _, _, hRoom⟩ := granted_iff.mp h
  refine env.column.fits_of_abs_le _ _ ?_ (u.limit_fits l hl)
  rw [abs_of_nonneg (raised_nonneg w hPos)]
  exact hRoom.trans (le_abs_self _)

/-- Where the raised debt fits the column, the sum that it is made of has been exact. -/
theorem decimalAdd_debt (hColumn : env.column = .numeric208) {w : DebtTable env} {d : Debt} (hPos : 0 < new.amount)
    (hCents : new.amount ∈ Grid.multiples cent) (hGet : w.getDebt new.key.1 new.key.2.1 new.key.2.2 = some d)
    (hFits : env.column.fits (raised w new) = true) : decimalAdd d.amount new.amount = d.amount + new.amount := by
  have hMem := (DebtTable.getDebt_eq_some_iff.mp hGet).1
  have hRow := w.amount_positive d hMem
  have hStored : ∀ {x : Amount}, x ∈ env.column.grid → x ∈ digitsTo (-8) := by
    intro x hx
    rw [hColumn] at hx
    exact digitsTo_storage ▸ hx
  refine decimalAdd_eq_of_lt (hStored (w.stored d hMem))
    (hStored (AddSubgroup.zmultiples_le_of_mem (cent_mem_grid hColumn) hCents)) (by linarith) ?_
  have hLess := lt_of_fits hColumn hFits
  rw [raised_of_some hGet] at hLess
  have hDown := lt_centsDown_add_cent (decimalAdd_nonneg hRow.le hPos.le)
  have hCent : cent < 1 := by norm_num [cent]
  linarith

/-- A row is raised to no less than the amount. -/
theorem amount_le_raised (hColumn : env.column = .numeric208) {w : DebtTable env} (hPos : 0 < new.amount)
    (hCents : new.amount ∈ Grid.multiples cent) (hFits : env.column.fits (raised w new) = true) :
    new.amount ≤ raised w new := by
  cases hGet : w.getDebt new.key.1 new.key.2.1 new.key.2.2 with
  | none => exact (raised_of_none hGet).ge
  | some d =>
      have hRow := w.amount_positive d (DebtTable.getDebt_eq_some_iff.mp hGet).1
      rw [raised_of_some hGet, decimalAdd_debt hColumn hPos hCents hGet hFits]
      calc new.amount = centsDown new.amount := (Grid.roundDown_of_mem cent_pos hCents).symm
        _ ≤ centsDown (d.amount + new.amount) := Grid.roundDown_mono cent_pos (by linarith)

/-- Cents within a limit are stored as they are. -/
theorem raised_storable (hColumn : env.column = .numeric208) {w : DebtTable env} (hPos : 0 < new.amount)
    (hCents : new.amount ∈ Grid.multiples cent) (hFits : env.column.fits (raised w new) = true) :
    DebtTable.Storable env (raised w new) :=
  ⟨AddSubgroup.zmultiples_le_of_mem (cent_mem_grid hColumn) (raised_cents w hCents), hFits,
    hPos.trans_le (amount_le_raised hColumn hPos hCents hFits)⟩

/-- A debt that is granted does not overrun the digits of a sum. -/
theorem Granted.not_overruns (hColumn : env.column = .numeric208) {u : TrustTable env} {w : DebtTable env}
    (h : Granted u w new) (hPos : 0 < new.amount) : ¬Overruns u w new := by
  rintro ⟨_, d, hGet, hOver⟩
  have hRow := w.amount_positive d (DebtTable.getDebt_eq_some_iff.mp hGet).1
  refine hOver ⟨fun _ hNone => (by cases hNone), ?_, ?_⟩
  · rw [show ((decimalContext.base : ℚ) ^ (-2 : ℤ)) = cent by norm_num [decimalContext, cent]]
    exact Grid.roundDown_mem _ _
  · rw [abs_of_nonneg (centsDown_nonneg (decimalAdd_nonneg hRow.le hPos.le)), ← raised_of_some hGet]
    refine (lt_of_fits hColumn (h.fits hPos)).trans ?_
    norm_num [decimalContext]

/-- A debt that is granted is added to the session, or raises a flushed row. -/
theorem putDebt_cases (hColumn : env.column = .numeric208) (hPos : 0 < new.amount)
    (hCents : new.amount ∈ Grid.multiples cent)
    (hGranted : Granted s.base.flushed.db.trustLines s.base.flushed.db.debts new) :
    (s.base.flushed.db.debts.getDebt new.key.1 new.key.2.1 new.key.2.2 = none ∧
      s.putDebt new = { s with addedDebts := s.addedDebts ++ [new] }) ∨
    ∃ d u, s.base.flushed.db.debts.getDebt new.key.1 new.key.2.1 new.key.2.2 = some d ∧
      s.base.flushed.db.debts.write d.id (raised s.base.flushed.db.debts new) = .ok u ∧
      s.putDebt new = { s with base := { s.base with flushed := s.base.flushed.setDebts u } } := by
  unfold putDebt
  cases hGet : s.base.flushed.db.debts.getDebt new.key.1 new.key.2.1 new.key.2.2 with
  | none => exact Or.inl ⟨rfl, rfl⟩
  | some d =>
      obtain ⟨u, hWrite, _⟩ := @DebtTable.write_storable _ s.base.flushed.db.debts d.id _
        (raised_storable hColumn hPos hCents (hGranted.fits hPos))
      exact Or.inr ⟨d, u, rfl, hWrite, by simp only [hWrite]⟩

/-- The tables with a debt put: a new row, or a raised one. -/
def Puts (t : DebtTable env) (new : NewDebt) (t' : DebtTable env) : Prop :=
  (t.getDebt new.key.1 new.key.2.1 new.key.2.2 = none ∧
    t.insert new.key.1 new.key.2.1 new.key.2.2 new.amount = .ok t') ∨
  ∃ d, t.getDebt new.key.1 new.key.2.1 new.key.2.2 = some d ∧ t.write d.id (raised t new) = .ok t'

/-- The table that a debt is put in determines the table that comes out. -/
theorem Puts.unique {u : DebtTable env} (h : Puts t new t') (h' : Puts t new u) : t' = u := by
  rcases h with ⟨hNone, hInsert⟩ | ⟨d, hSome, hWrite⟩
  · rcases h' with ⟨_, hInsert'⟩ | ⟨d', hSome', _⟩
    · cases hInsert.symm.trans hInsert'
      rfl
    · rw [hNone] at hSome'
      cases hSome'
  · rcases h' with ⟨hNone', _⟩ | ⟨d', hSome', hWrite'⟩
    · rw [hSome] at hNone'
      cases hNone'
    · cases hSome.symm.trans hSome'
      cases hWrite.symm.trans hWrite'
      rfl

/-- A debt raised by whole cents is stored as it is. -/
theorem raised_round (hColumn : env.column = .numeric208) (hCents : new.amount ∈ Grid.multiples cent) (t : DebtTable env) :
    env.column.round (raised t new) = raised t new :=
  env.column.round_of_mem _ (AddSubgroup.zmultiples_le_of_mem (cent_mem_grid hColumn) (raised_cents t hCents))

/-- What is put fits the column. -/
theorem Puts.fits (hColumn : env.column = .numeric208) (hCents : new.amount ∈ Grid.multiples cent) (h : Puts t new t') :
    env.column.fits (raised t new) = true := by
  rw [← raised_round hColumn hCents t]
  rcases h with ⟨hNone, hInsert⟩ | ⟨d, hSome, hWrite⟩
  · rw [raised_of_none hNone]
    exact (DebtTable.insert_eq_ok_iff.mp ⟨t', hInsert⟩).1
  · refine t'.amount_fits { d with amount := env.column.round (raised t new) } ?_
    rw [(DebtTable.rows_of_write hWrite).1]
    exact Rows.mem_update_iff.mpr (Or.inl ⟨d, (DebtTable.getDebt_eq_some_iff.mp hSome).1, rfl, rfl⟩)

/-- A debt that is put changes the table. -/
theorem Puts.ne (hPos : 0 < new.amount) (hCents : new.amount ∈ Grid.multiples cent) (hColumn : env.column = .numeric208)
    (h : Puts t new t') : t' ≠ t := by
  rintro rfl
  have hFits := Puts.fits hColumn hCents h
  rcases h with ⟨hNone, hInsert⟩ | ⟨d, hSome, hWrite⟩
  · have := (DebtTable.rows_of_insert hInsert).2.1
    omega
  · obtain ⟨hMem, _⟩ := DebtTable.getDebt_eq_some_iff.mp hSome
    have hRow : ({ d with amount := env.column.round (raised t' new) } : Debt) ∈ t'.rows := by
      have hRows := (DebtTable.rows_of_write hWrite).1
      rw [hRows]
      exact Rows.mem_update_iff.mpr (Or.inl ⟨d, hMem, rfl, rfl⟩)
    have hSame := Rows.eq_of_column t'.id_unique hRow hMem rfl
    have hAmount : env.column.round (raised t' new) = d.amount := congrArg Debt.amount hSame
    rw [raised_round hColumn hCents, raised_of_some hSome, decimalAdd_debt hColumn hPos hCents hSome hFits] at hAmount
    have hLess := lt_centsDown_add (t'.amount_positive d hMem).le hCents hPos
    rw [hAmount] at hLess
    exact lt_irrefl _ hLess

/-- A granted debt of two participants that is not pending is put in the tables. -/
theorem Settles.putDebt (hColumn : env.column = .numeric208) (h : s.Settles tl t) (hPos : 0 < new.amount)
    (hCents : new.amount ∈ Grid.multiples cent)
    (hGranted : Granted s.base.flushed.db.trustLines s.base.flushed.db.debts new)
    (hNew : new.key ∉ s.addedDebts.map NewDebt.key) (hLoop : new.key.1 ≠ new.key.2.1) :
    ∃ t', Puts t new t' ∧ (s.putDebt new).Settles tl t' ∧ (s.putDebt new).settle tl t' = s.settle tl t' := by
  rcases putDebt_cases hColumn hPos hCents hGranted with ⟨hNone, hPut⟩ | ⟨d, u, hSome, hWrite, hPut⟩
  · have hNoneAfter : t.getDebt new.key.1 new.key.2.1 new.key.2.2 = none :=
      DebtTable.getDebt_eq_none_iff_keys.mpr fun hIn =>
        (h.mem_keys_iff.mp hIn).elim (DebtTable.getDebt_eq_none_iff_keys.mp hNone) hNew
    have hStorable := raised_storable hColumn hPos hCents (hGranted.fits hPos)
    rw [raised_of_none hNone] at hStorable
    have hRound := env.column.round_of_mem _ hStorable.stored
    obtain ⟨t', hInsert⟩ := DebtTable.insert_eq_ok (t := t) (by rw [hRound]; exact hStorable.fits)
      (by rw [hRound]; exact hPos) hLoop hNoneAfter
    rw [hPut]
    exact ⟨t', Or.inl ⟨hNoneAfter, hInsert⟩, h.addDebt hInsert, rfl⟩
  · have hMem := (DebtTable.getDebt_eq_some_iff.mp hSome).1
    obtain ⟨t', hWrite', hSettles⟩ := h.writeDebt hMem hWrite
    have hRaised : raised t new = raised s.base.flushed.db.debts new := by
      rw [raised_of_some hSome, raised_of_some (h.getDebt_of_some hSome)]
    rw [hPut]
    exact ⟨t', Or.inr ⟨d, h.getDebt_of_some hSome, by rwa [hRaised]⟩, hSettles, rfl⟩

/-- A debt of a participant to itself, or one that is pending already, fails the flush. -/
theorem Settles.putDebt_error (hColumn : env.column = .numeric208) (h : s.Settles tl t) (hPos : 0 < new.amount)
    (hCents : new.amount ∈ Grid.multiples cent)
    (hGranted : Granted s.base.flushed.db.trustLines s.base.flushed.db.debts new)
    (hBad : new.key ∈ s.addedDebts.map NewDebt.key ∨ new.key.1 = new.key.2.1) (u : TrustTable env)
    (u' : DebtTable env) : ¬(s.putDebt new).Settles u u' := by
  have hNone : ¬∃ t', t.insert new.key.1 new.key.2.1 new.key.2.2 new.amount = .ok t' := by
    rw [DebtTable.insert_eq_ok_iff]
    rintro ⟨_, _, hLoop, hKey⟩
    exact hBad.elim (fun hIn => hKey (h.mem_keys_iff.mpr (Or.inr hIn))) hLoop
  rcases putDebt_cases hColumn hPos hCents hGranted with ⟨_, hPut⟩ | ⟨d, _, hSome, _, _⟩
  · rw [hPut]
    exact h.addDebt_error hNone u u'
  · exfalso
    obtain ⟨hMem, hKey⟩ := DebtTable.getDebt_eq_some_iff.mp hSome
    rcases hBad with hPending | hLoop
    · obtain ⟨x, hx, hxKey⟩ := List.mem_map.mp hPending
      refine not_mem_keys_of_insertDebts h.debts hx (List.mem_map.mpr ⟨d, hMem, ?_⟩)
      rw [hKey, hxKey]
    · refine s.base.flushed.db.debts.no_self_loop d hMem ?_
      simp only [Debt.key, Prod.mk.injEq] at hKey
      rw [hKey.1, hKey.2.1, hLoop]

end Debts

section Issued

variable {scenario : Scenario} {budget : Option Amount}

/-- Putting a debt keeps that all ids of the session have been issued. -/
theorem putDebt_issued (hIssued : s.Issued) (new : NewDebt) : (s.putDebt new).Issued := by
  unfold putDebt
  cases s.base.flushed.db.debts.getDebt new.key.1 new.key.2.1 new.key.2.2 with
  | none => exact hIssued
  | some d =>
      simp only
      split
      · exact hIssued
      · exact hIssued

/-- A debt effect keeps that all ids of the session have been issued. -/
theorem injectDebt_issued (hIssued : s.Issued) (eff : DebtEffect) : (s.injectDebt scenario budget eff).Issued := by
  unfold injectDebt
  split
  · exact hIssued
  · cases s.injection scenario budget eff with
    | none => exact hIssued
    | some new => exact putDebt_issued hIssued new

/-- Adding lines keeps that all ids of the session have been issued. -/
theorem adds_issued {base : InjectState env} {xs : List NewLine} (hIssued : s.Issued) (hAdds : s.base.Adds base xs) :
    ({ s with base := base } : InjectSession env).Issued := by
  intro id hId
  change id ∈ base.frozen at hId
  rw [hAdds.frozen] at hId
  obtain ⟨n, hn, hEq⟩ := hIssued id hId
  refine ⟨n, ?_, hEq⟩
  change n < base.flushed.db.trustLines.generated
  rwa [hAdds.flushed]

/-- Effects on the base keep the lines that wait to be frozen among the flushed ones. -/
theorem base_apply_issued (hIssued : s.Issued) (eff : InjectEffect)
    (hFlush : s.base.Registers eff → s.base.flush = s.base) :
    ({ s with base := s.base.apply scenario eff } : InjectSession env).Issued := by
  cases hRunning : s.base.failed with
  | true =>
      have hSame : s.base.apply scenario eff = s.base := if_pos hRunning
      rw [hSame]
      exact hIssued
  | false =>
      cases eff with
      | createTrustline fromPid toPid equivalent limit =>
          rw [apply_createTrustline hRunning]
          exact adds_issued hIssued (createTrustline_adds _ _ _ _ _ _)
      | freezeParticipant participantId freezeTrustlines =>
          rw [apply_freezeParticipant hRunning]
          by_cases hSuspends : ∃ p, s.base.Suspends participantId p
          · obtain ⟨p, hp⟩ := hSuspends
            rw [freezeParticipant_of_suspends hp]
            intro id hId
            change id ∈ (if freezeTrustlines = true then _ else _) at hId
            split at hId
            · rcases List.mem_append.mp hId with hOld | hNew
              · exact hIssued id hOld
              · obtain ⟨l, hl, rfl, _⟩ := mem_incidentLines_iff.mp hNew
                exact s.base.flushed.db.trustLines.issued l hl
            · exact hIssued id hId
          · rw [freezeParticipant_of_not_suspends (not_exists.mp hSuspends)]
            exact hIssued
      | addParticipant participant itls =>
          rw [apply_addParticipant hRunning]
          by_cases hRegisters : s.base.Registers (.addParticipant participant itls)
          · cases participant with
            | none => exact absurd hRegisters (fun hIn => hIn)
            | some data =>
                obtain ⟨p, _, hAdd⟩ := @addParticipant_of_registers _ _ scenario _ _ hRegisters
                  (hFlush hRegisters) hRunning
                rw [hAdd]
                exact adds_issued (s := { s with base := s.base.register p (participantStatus data.status) }) hIssued
                  (foldl_addInitialTrustline_adds _ _ _ _ _)
          · by_cases hOverflows : s.base.Overflows (.addParticipant participant itls)
            · rw [addParticipant_of_overflows hOverflows]
              exact hIssued
            · rw [addParticipant_of_not_registers hRegisters hOverflows]
              exact hIssued

/-- Every effect keeps the lines that wait to be frozen among the flushed ones. -/
theorem apply_issued (hIssued : s.Issued) (effect : EventEffect) : (s.apply scenario budget effect).Issued := by
  unfold apply
  split
  · exact hIssued
  · next hRunning =>
      cases effect with
      | injectDebt eff => exact injectDebt_issued hIssued eff
      | unknown => exact hIssued
      | other eff =>
          by_cases hRegisters : s.base.Registers eff
          · simp only [applyOther, if_pos hRegisters]
            refine base_apply_issued (flush_issued hIssued) eff fun _ => ?_
            rcases flush_cases (Bool.not_eq_true _ ▸ hRunning) hIssued with hFailed | ⟨tl, t, h⟩
            · rw [hFailed]
              exact if_pos rfl
            · rw [h.flush_eq, InjectState.flush_eq _ (settles_settle h).running, (settles_settle h).lines]
              rfl
          · simp only [applyOther, if_neg hRegisters]
            exact base_apply_issued hIssued eff fun hIn => absurd hIn hRegisters

end Issued

end InjectSession

end GeoLedger

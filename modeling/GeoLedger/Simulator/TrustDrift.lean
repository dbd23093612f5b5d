import Mathlib
import GeoLedger.Library.Outcomes
import GeoLedger.TrustLines
import GeoLedger.Simulator.Scenario

/-! `TrustDriftEngine`. Growth raises the limits of lines that a clearing
touched, decay lowers those of overloaded lines. Both compute in cents and write
the limit of the active line; the scenario follows after the commit. -/
namespace GeoLedger

variable {env : Env}

/-- `Decimal("0.01")`. -/
def cent : Amount := 1 / 100

theorem cent_pos : 0 < cent := by norm_num [cent]

/-- `quantize(Decimal("0.01"), rounding=ROUND_DOWN)`. -/
def centsDown (x : Amount) : Amount := Grid.roundDown cent x

/-- `quantize(Decimal("0.01"), rounding=ROUND_UP)`. -/
def centsUp (x : Amount) : Amount := Grid.roundUp cent x

/-- `UPDATE trust_lines SET limit = … WHERE … AND status = 'active'`. -/
def TrustTable.setActiveLimit (tl : TrustTable env) (key : Uuid × Uuid × Uuid) (limit : Amount) :
    Except GeoError (TrustTable env) :=
  match tl.active key.1 key.2.1 key.2.2 with
  | none => .ok tl
  | some l => tl.write l.id limit l.policy

structure TrustDriftLimitUpdate where
  creditorPid : Pid
  debtorPid : Pid
  equivalent : String
  newLimit : Amount
deriving DecidableEq, Repr

namespace RunRecord

/-- `{pid: uid for uid, pid in (run._real_participants or [])}`. -/
def pidToUuid (run : RunRecord) : Dict Pid Uuid :=
  Dict.ofList ((run.realParticipants.getD []).map fun p => (p.2, p.1))

/-- The row that an edge of the scenario names, by its ids. -/
def rowKey (run : RunRecord) (directory : Directory) (eqCode : String) (creditorPid debtorPid : Pid) :
    Option (Uuid × Uuid × Uuid) := do
  let creditor ← run.pidToUuid.get? creditorPid
  let debtor ← run.pidToUuid.get? debtorPid
  let equivalent ← directory.equivalentByCode eqCode
  return (creditor, debtor, equivalent.id)

end RunRecord

/-- `f"{creditor_pid}:{debtor_pid}:{eq_code}"`. -/
def historyKey (creditorPid debtorPid : Pid) (eqCode : String) : String :=
  creditorPid ++ ":" ++ debtorPid ++ ":" ++ eqCode

section CommittedEffects

/-- `apply_committed_effects`. `floatText` maps a decimal to the one that the
text of its float denotes. -/
def applyCommittedEffects (floatText : Amount → Amount) (updates : List TrustDriftLimitUpdate)
    (scenario : Scenario) : Scenario :=
  { scenario with
    trustlines := updates.foldl (fun trustlines u =>
      setFirstLimit scenario (u.equivalent, u.creditorPid, u.debtorPid) (floatText u.newLimit) trustlines)
      scenario.trustlines }

end CommittedEffects

section Decay

/-- Debts by debtor, creditor and equivalent code. -/
abbrev DebtSnapshot := Dict (Pid × Pid × String) Amount

/-- What the decay of one entry reads: the limit of the scenario, the limit of
the history, and the debt of the snapshot. -/
structure DecayInput where
  key : Uuid × Uuid × Uuid
  creditorPid : Pid
  debtorPid : Pid
  equivalent : String
  current : Amount
  original : Amount
  debt : Amount
deriving DecidableEq, Repr

/-- The new limit of an overloaded line: the current limit decayed, but neither
below the share of its original limit nor below its debt. -/
def decayedLimit (cfg : TrustDriftConfig) (input : DecayInput) : Amount :=
  centsDown (max (max (input.current * cfg.decayMult) (input.original * cfg.minLimitRatio))
    (centsUp input.debt))

/-- The entries that decay goes through with: active, known to the history, not
just cleared, overloaded, and with a new limit. -/
def decayInput? (run : RunRecord) (cfg : TrustDriftConfig) (directory : Directory) (tickIndex : ℤ)
    (debtSnapshot : DebtSnapshot) (scenario : Scenario) (tl : ScenarioTrustline) : Option DecayInput :=
  let (eqCode, creditorPid, debtorPid) := tl.edge scenario
  if eqCode = "" ∨ creditorPid = "" ∨ debtorPid = "" then none
  else if tl.statusText ≠ "active" then none
  else match run.edgeClearingHistory.get? (historyKey creditorPid debtorPid eqCode) with
    | none => none
    | some hist =>
        if hist.lastClearingTick = tickIndex then none
        else match tl.limit.map centsDown with
          | none => none
          | some current =>
              let debt := debtSnapshot.getD (debtorPid, creditorPid, eqCode) 0
              if current ≤ 0 ∨ debt / current < cfg.overloadThreshold then none
              else
                match run.rowKey directory eqCode creditorPid debtorPid with
                | none => none
                | some key =>
                    let input := ⟨key, creditorPid, debtorPid, eqCode, current,
                      centsDown hist.originalLimit, debt⟩
                    if decayedLimit cfg input = current then none else some input

/-- The update that the decay of an entry stages. -/
def DecayInput.update (cfg : TrustDriftConfig) (input : DecayInput) : TrustDriftLimitUpdate :=
  ⟨input.creditorPid, input.debtorPid, input.equivalent, decayedLimit cfg input⟩

/-- The loop of `apply_trust_decay`. -/
def decayEntries (cfg : TrustDriftConfig) : List DecayInput → TrustTable env → Except GeoError (TrustTable env)
  | [], tl => .ok tl
  | input :: rest, tl => do
      let tl ← tl.setActiveLimit input.key (decayedLimit cfg input)
      decayEntries cfg rest tl

/-- `apply_trust_decay`: the limits it writes, and the updates it stages. -/
def applyTrustDecay (run : RunRecord) (tickIndex : ℤ) (debtSnapshot : DebtSnapshot) (scenario : Scenario)
    (db : Db env) : Except GeoError (Db env × List TrustDriftLimitUpdate) :=
  match run.trustDriftConfig with
  | none => .ok (db, [])
  | some cfg =>
      if !cfg.enabled then .ok (db, [])
      else do
        let inputs := scenario.trustlines.filterMap
          (decayInput? run cfg env.directory tickIndex debtSnapshot scenario)
        let trustLines ← decayEntries cfg inputs db.trustLines
        return ({ db with trustLines := trustLines }, inputs.map (·.update cfg))

end Decay

section Growth

/-- The new limit of a line that a clearing touched. -/
def grownLimit (cfg : TrustDriftConfig) (current original : Amount) : Amount :=
  centsDown (min (current * Grid.roundHalfEven (1 / 10000000) (1 + cfg.growthRate)) (original * cfg.maxGrowth))

/-- What `apply_trust_growth` has done for the edges so far. -/
structure GrowthState (env : Env) where
  history : Dict String EdgeClearingHistory
  trustLines : TrustTable env
  updates : List TrustDriftLimitUpdate

/-- The history of an edge after one more clearing. -/
def EdgeClearingHistory.cleared (hist : EdgeClearingHistory) (tickIndex : ℤ) (amount : Amount) :
    EdgeClearingHistory :=
  { hist with
    clearingCount := hist.clearingCount + 1
    lastClearingTick := tickIndex
    clearedVolume := hist.clearedVolume + centsDown amount }

/-- One edge of `apply_trust_growth`. The history remembers the clearing also
when the write fails. -/
def growEdge (run : RunRecord) (cfg : TrustDriftConfig) (eqUpper : String) (tickIndex : ℤ)
    (clearedAmountPerEdge : Pid × Pid → Amount) (edge : Pid × Pid) (s : GrowthState env) :
    GrowthState env × Option GeoError :=
  match s.history.get? (historyKey edge.1 edge.2 eqUpper) with
  | none => (s, none)
  | some hist =>
      let s := { s with
        history := s.history.set (historyKey edge.1 edge.2 eqUpper)
          (hist.cleared tickIndex (clearedAmountPerEdge edge)) }
      match run.rowKey env.directory eqUpper edge.1 edge.2 with
      | none => (s, none)
      | some key =>
          match s.trustLines.active key.1 key.2.1 key.2.2 with
          | none => (s, none)
          | some l =>
              let current := centsDown l.limit
              let newLimit := grownLimit cfg current (centsDown hist.originalLimit)
              if newLimit = current then (s, none)
              else match s.trustLines.setActiveLimit key newLimit with
                | .error error => (s, some error)
                | .ok trustLines =>
                    ({ s with
                        trustLines := trustLines
                        updates := s.updates ++ [⟨edge.1, edge.2, eqUpper, newLimit⟩] }, none)

/-- The loop of `apply_trust_growth`; it stops at the first write that fails. -/
def growEdges (run : RunRecord) (cfg : TrustDriftConfig) (eqUpper : String) (tickIndex : ℤ)
    (clearedAmountPerEdge : Pid × Pid → Amount) : List (Pid × Pid) → GrowthState env →
    GrowthState env × Option GeoError
  | [], s => (s, none)
  | edge :: rest, s =>
      match growEdge run cfg eqUpper tickIndex clearedAmountPerEdge edge s with
      | (s, some error) => (s, some error)
      | (s, none) => growEdges run cfg eqUpper tickIndex clearedAmountPerEdge rest s

/-- `apply_trust_growth`: the run and the database after it. -/
def applyTrustGrowth (floatText : Amount → Amount) (touchedEdges : List (Pid × Pid)) (eqCode : String)
    (tickIndex : ℤ) (clearedAmountPerEdge : Pid × Pid → Amount) (commits : Bool) (run : RunRecord)
    (db : Db env) : RunRecord × Db env :=
  match run.trustDriftConfig with
  | none => (run, db)
  | some cfg =>
      if !cfg.enabled then (run, db)
      else match env.directory.equivalentByCode (stripUpper eqCode) with
        | none => (run, db)
        | some _ =>
            let (s, error) := growEdges run cfg (stripUpper eqCode) tickIndex clearedAmountPerEdge
              touchedEdges ⟨run.edgeClearingHistory, db.trustLines, []⟩
            let remembered := { run with edgeClearingHistory := s.history }
            if error.isSome ∨ s.updates = [] ∨ !commits then (remembered, db)
            else
              ({ remembered with scenarioRaw := applyCommittedEffects floatText s.updates run.scenarioRaw },
                { db with trustLines := s.trustLines })

end Growth

def loadDebtSnapshotByPid (participants : List (Uuid × Pid)) (equivalents : List String) (db : Db env) :
    DebtSnapshot :=
  let pids := Dict.ofList participants
  let codes := Dict.ofList ((env.directory.equivalents.filter fun e =>
    e.code ∈ (equivalents.map stripUpper).filter (· ≠ "")).map fun e => (e.id, e.code))
  Dict.ofList (db.debts.rows.filterMap fun d => do
    let debtor ← pids.get? d.debtorId
    let creditor ← pids.get? d.creditorId
    let code ← codes.get? d.equivalentId
    if debtor = "" ∨ creditor = "" then none else some ((debtor, creditor, code), d.amount))

end GeoLedger

import Mathlib
import GeoLedger.Library.Binary64

/-! The adaptive clearing policy and the coordinator that asks it, for all real
runs of one process. The state of the policy is kept by equivalent on the one
coordinator; payment counters, clock readings and the outcome of each clearing
are given from outside. Rates, thresholds, volumes and scaled budgets are floats;
integers too large for a float, which the conversion refuses, are left out. -/
namespace AdaptiveClearing
open FloatingPoint

/-- `AdaptiveClearingPolicyConfig`, after `__post_init__`. -/
structure PolicyConfig where
  windowTicks : Nat
  windowTicks_pos : 1 ≤ windowTicks
  noCapacityHigh : Binary64
  noCapacityLow : Binary64
  minIntervalTicks : ℤ
  backoffMaxIntervalTicks : ℤ
  inflightThreshold : ℤ
  queueDepthThreshold : ℤ
  maxDepthMin : ℤ
  maxDepthMax : ℤ
  timeBudgetMsMin : ℤ
  timeBudgetMsMax : ℤ
  globalMaxDepthCeiling : ℤ
  globalTimeBudgetMsCeiling : ℤ
  warmupFallbackCadence : ℤ

/-- The reason codes of a decision. -/
inductive Reason where
  | warmupRun
  | warmupSkip
  | warmupDisabled
  | rateHighEnter
  | rateLowExit
  | runActive
  | skipNotActive
  | skipMinInterval
  | skipBackoff
deriving DecidableEq

structure ClearingDecision where
  shouldRun : Bool
  reason : Reason
  timeBudgetMs : Option ℤ
  maxDepth : Option ℤ
deriving DecidableEq

/-- A decision not to clear. -/
def ClearingDecision.skip (reason : Reason) : ClearingDecision := ⟨false, reason, none, none⟩

structure PerEqState where
  window : List (Nat × Nat)
  lastClearingVolume : Binary64
  lastClearingCostMs : ℚ
  lastClearingTick : ℤ
  backoffInterval : ℤ
  consecutiveZeroYield : Nat
  active : Bool
deriving DecidableEq

/-- `_PerEqState()`. -/
def PerEqState.fresh : PerEqState := ⟨[], .ofRat 0, 0, -1, 0, 0, false⟩

section Policy

variable (cfg : PolicyConfig)

/-- `record_tick_signals`; negative counters count as zero. -/
def recordTickSignals (s : PerEqState) (attemptedPayments rejectedNoCapacity : ℤ) : PerEqState :=
  let window := s.window ++ [(attemptedPayments.toNat, rejectedNoCapacity.toNat)]
  { s with window := window.drop (window.length - cfg.windowTicks) }

def zeroVolumeEps : Binary64 := .ofRat (1 / 1000000000)

def updateClearingResult (s : PerEqState) (volume : Binary64) (costMs : ℚ) (tick : ℤ) : PerEqState :=
  if volume < zeroVolumeEps then
    let minInterval := max 1 cfg.minIntervalTicks
    let maxInterval := max minInterval cfg.backoffMaxIntervalTicks
    let interval := min maxInterval (minInterval * 2 ^ s.consecutiveZeroYield)
    { s with
      lastClearingVolume := volume
      lastClearingCostMs := costMs
      lastClearingTick := tick
      consecutiveZeroYield := s.consecutiveZeroYield + 1
      backoffInterval := max minInterval interval }
  else
    { s with
      lastClearingVolume := volume
      lastClearingCostMs := costMs
      lastClearingTick := tick
      consecutiveZeroYield := 0
      backoffInterval := 0 }

/-- The quotient of the counters of the window. -/
def noCapacityRatio (s : PerEqState) : ℚ :=
  let attempted := (s.window.map Prod.fst).sum
  if attempted = 0 then 0 else ((s.window.map Prod.snd).sum : ℚ) / attempted

/-- `get_no_capacity_rate`: dividing two integers rounds once. -/
def noCapacityRate (s : PerEqState) : Binary64 := .ofRat (noCapacityRatio s)

/-- `int(x)`: towards zero. -/
def truncate (x : ℚ) : ℤ := if 0 ≤ x then ⌊x⌋ else ⌈x⌉

def clamp (v lo hi : ℤ) : ℤ := max lo (min hi v)

/-- `max(0.0, min(1.0, x))`; both keep their first argument where `x` is not a number. -/
def unitInterval : Binary64 → ℚ
  | .finite x _ => max 0 (min 1 x)
  | .infinity negative => if negative then 0 else 1
  | .nan => 1

/-- `_normalize`. -/
def normalizePressure (v lo hi : Binary64) : ℚ := if hi ≤ lo then 1 else unitInterval ((v.sub lo).div (hi.sub lo))

def checkIntervalLimits (s : PerEqState) (tickIndex : ℤ) : Option ClearingDecision :=
  if s.lastClearingTick < 0 then none
  else
    let ticksSince := tickIndex - s.lastClearingTick
    if ticksSince < cfg.minIntervalTicks then some (.skip .skipMinInterval)
    else if 0 < s.backoffInterval ∧ ticksSince < s.backoffInterval then some (.skip .skipBackoff)
    else none

/-- `int(minimum + pressure * (maximum - minimum))`, with each operand and each result a float. -/
def scaledBudget (pressure : ℚ) (minimum maximum : ℤ) : ℤ :=
  truncate (binary64.round (binary64.round minimum + binary64.round (pressure * binary64.round (maximum - minimum))))

/-- `_make_run_decision`: the budgets grow with the pressure. -/
def makeRunDecision (rate : Binary64) (reason : Reason) : ClearingDecision :=
  let pressure := normalizePressure rate cfg.noCapacityLow cfg.noCapacityHigh
  let rawDepth := scaledBudget pressure cfg.maxDepthMin cfg.maxDepthMax
  let rawBudget := scaledBudget pressure cfg.timeBudgetMsMin cfg.timeBudgetMsMax
  ⟨true, reason,
    some (clamp rawBudget cfg.timeBudgetMsMin (min cfg.timeBudgetMsMax cfg.globalTimeBudgetMsCeiling)),
    some (clamp rawDepth cfg.maxDepthMin (min cfg.maxDepthMax cfg.globalMaxDepthCeiling))⟩

def makeMinBudgetDecision (reason : Reason) : ClearingDecision :=
  ⟨true, reason,
    some (max 1 (min cfg.timeBudgetMsMin (min cfg.timeBudgetMsMax cfg.globalTimeBudgetMsCeiling))),
    some (max 1 (min cfg.maxDepthMin (min cfg.maxDepthMax cfg.globalMaxDepthCeiling)))⟩

/-- `evaluate`: the decision, and the state with the hysteresis flag it leaves. -/
def evaluate (s : PerEqState) (tickIndex : ℤ) : ClearingDecision × PerEqState :=
  let rate := noCapacityRate s
  if s.window.length < cfg.windowTicks then
    if cfg.warmupFallbackCadence ≤ 0 then (.skip .warmupDisabled, s)
    else if tickIndex % cfg.warmupFallbackCadence ≠ 0 then (.skip .warmupSkip, s)
    else ((checkIntervalLimits cfg s tickIndex).getD (makeMinBudgetDecision cfg .warmupRun), s)
  else
    let active := if cfg.noCapacityHigh ≤ rate then true else if rate < cfg.noCapacityLow then false else s.active
    let next := { s with active := active }
    if s.active ∧ active = false then (.skip .rateLowExit, next)
    else if active = false then (.skip .skipNotActive, next)
    else
      ((checkIntervalLimits cfg next tickIndex).getD
        (makeRunDecision cfg rate (if s.active then .runActive else .rateHighEnter)), next)

end Policy

section Coordinator

abbrev RunId := String

/-- The counters of one equivalent in the payments of a tick. -/
structure EqStats where
  committed : ℤ
  rejected : ℤ
  errors : ℤ
  timeouts : ℤ
  routingNoCapacity : ℤ

/-- What `maybe_run_clearing` is called with. `committed` tells whether the commit
before the clearing returns. -/
structure TickStart where
  runId : RunId
  tickIndex : ℤ
  equivalents : List String
  clearingEnabled : Bool
  stats : String → EqStats
  inFlight : ℤ
  queueDepth : ℤ
  hasRunner : Bool
  committed : Bool

/-- How the clearing of one equivalent ends. -/
inductive ClearingOutcome where
  | done (volume : Binary64) (costMs : ℚ)
  | timeout (costMs : ℚ)
  | cancelled (costMs : ℚ)
  | failed (costMs : ℚ)

def ClearingOutcome.volume : ClearingOutcome → Binary64
  | .done volume _ => volume
  | _ => .ofRat 0

def ClearingOutcome.costMs : ClearingOutcome → ℚ
  | .done _ costMs | .timeout costMs | .cancelled costMs | .failed costMs => costMs

/-- A cancellation leaves the loop. -/
def ClearingOutcome.leaves : ClearingOutcome → Bool
  | .cancelled _ => true
  | _ => false

/-- The environment of the coordinator. -/
structure Settings where
  policy : PolicyConfig
  realClearingTimeBudgetMs : ℤ
  tickBudgetMs : ℤ
  maxEqPerTick : ℤ

/-- The rest of the clearing loop of a tick. -/
structure Pending where
  tickIndex : ℤ
  index : ℤ
  eqsToClear : List (String × Option ℤ × Option ℤ)

def Pending.idle : Pending := ⟨0, 0, []⟩

/-- The coordinator, with the clearing loop that each run is in. -/
structure Coordinator where
  perEq : String → PerEqState
  pending : RunId → Pending

/-- The coordinator of a new process. -/
def Coordinator.fresh : Coordinator := ⟨fun _ => .fresh, fun _ => .idle⟩

/-- A decision taken for a run: of the policy, or of the clearing loop. -/
inductive Decision where
  | evaluated (eq : String) (decision : ClearingDecision)
  | clearing (eq : String) (timeBudgetMs maxDepth : ℤ)
deriving DecidableEq

variable (settings : Settings)

/-- Feed the signals of a tick to the policy. -/
def recordAll (stats : String → EqStats) (eqs : List String) (perEq : String → PerEqState) :
    String → PerEqState :=
  eqs.foldl (fun perEq eq =>
    let eqStats := stats eq
    Function.update perEq eq (recordTickSignals settings.policy (perEq eq)
      (eqStats.committed + eqStats.rejected + eqStats.errors + eqStats.timeouts) eqStats.routingNoCapacity)) perEq

/-- Ask the policy for every equivalent in order. -/
def evaluateAll (tickIndex : ℤ) : List String → (String → PerEqState) →
    List (String × ClearingDecision) × (String → PerEqState)
  | [], perEq => ([], perEq)
  | eq :: rest, perEq =>
      let evaluated := evaluate settings.policy (perEq eq) tickIndex
      let later := evaluateAll tickIndex rest (Function.update perEq eq evaluated.2)
      ((eq, evaluated.1) :: later.1, later.2)

/-- A guardrail skips the clearing of the tick. -/
def guarded (t : TickStart) : Bool :=
  (0 < settings.policy.inflightThreshold && settings.policy.inflightThreshold < t.inFlight) ||
    (0 < settings.policy.queueDepthThreshold && settings.policy.queueDepthThreshold < t.queueDepth)

/-- The equivalents of a tick, in the order in which they are handled. -/
def TickStart.handled (t : TickStart) : List String :=
  if t.clearingEnabled then t.equivalents.insertionSort (· ≤ ·) else []

/-- `_maybe_run_adaptive` up to the clearing loop. -/
def startTick (t : TickStart) (c : Coordinator) : List Decision × Coordinator :=
  let recorded := recordAll settings t.stats t.handled c.perEq
  if t.clearingEnabled = false ∨ guarded settings t then
    ([], ⟨recorded, Function.update c.pending t.runId .idle⟩)
  else
    let evaluated := evaluateAll settings t.tickIndex t.handled recorded
    let eqsToClear := (evaluated.1.filter (·.2.shouldRun)).map fun p => (p.1, p.2.timeBudgetMs, p.2.maxDepth)
    (evaluated.1.map fun p => .evaluated p.1 p.2,
      ⟨evaluated.2, Function.update c.pending t.runId
        ⟨t.tickIndex, 0, if t.hasRunner && t.committed then eqsToClear else []⟩⟩)

def resolveEffectiveInt (raw : Option ℤ) (cfgMin cfgMax hardCeiling : ℤ) : ℤ :=
  let lo := max 1 cfgMin
  let hi := max lo (min cfgMax hardCeiling)
  clamp (raw.getD lo) lo hi

/-- One round of the clearing loop of a run. -/
def clearNext (runId : RunId) (elapsedMs : ℚ) (outcome : ClearingOutcome) (c : Coordinator) :
    List Decision × Coordinator :=
  let pending := c.pending runId
  match pending.eqsToClear with
  | [] => ([], c)
  | (eq, budgetMs, maxDepth) :: rest =>
      if (0 < settings.maxEqPerTick ∧ settings.maxEqPerTick ≤ pending.index) ∨
          (0 < settings.tickBudgetMs ∧ (settings.tickBudgetMs : ℚ) ≤ elapsedMs) then
        ([], { c with pending := Function.update c.pending runId .idle })
      else
        ([.clearing eq
            (resolveEffectiveInt budgetMs settings.policy.timeBudgetMsMin settings.policy.timeBudgetMsMax
              (min settings.policy.globalTimeBudgetMsCeiling settings.realClearingTimeBudgetMs))
            (resolveEffectiveInt maxDepth settings.policy.maxDepthMin settings.policy.maxDepthMax
              settings.policy.globalMaxDepthCeiling)],
          { perEq := Function.update c.perEq eq (updateClearingResult settings.policy (c.perEq eq) outcome.volume
              outcome.costMs pending.tickIndex)
            pending := Function.update c.pending runId
              ⟨pending.tickIndex, pending.index + 1, if outcome.leaves then [] else rest⟩ })

/-- A stretch of a tick between two points where other runs may go on. -/
inductive Step where
  | start (t : TickStart)
  | clear (runId : RunId) (elapsedMs : ℚ) (outcome : ClearingOutcome)

def Step.runId : Step → RunId
  | .start t => t.runId
  | .clear runId _ _ => runId

/-- The equivalents that a step starts to handle. -/
def Step.handled : Step → List String
  | .start t => t.handled
  | .clear .. => []

def step (s : Step) (c : Coordinator) : List Decision × Coordinator :=
  match s with
  | .start t => startTick settings t c
  | .clear runId elapsedMs outcome => clearNext settings runId elapsedMs outcome c

/-- The decisions taken for one run while the process makes the steps. -/
def decisionsFor (r : RunId) : List Step → Coordinator → List Decision
  | [], _ => []
  | s :: rest, c =>
      (if s.runId = r then (step settings s c).1 else []) ++ decisionsFor r rest (step settings s c).2

end Coordinator

end AdaptiveClearing

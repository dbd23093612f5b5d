import Mathlib
import GeoLedger.Simulator.AdaptiveClearing

/-! The cadence and the budgets of the adaptive policy for one equivalent, over any
run of ticks in which a positive decision is followed by a clearing: how far
apart clearings are, how the backoff grows, when the flag moves, and what the
budgets are bounded by. -/
namespace AdaptiveClearing
open FloatingPoint

section Runs

/-- One tick of an equivalent: the signals recorded up to its decision, and what
a clearing would return. -/
structure Round where
  tick : Nat
  signals : List (ℤ × ℤ)
  volume : Binary64
  costMs : ℚ

/-- A decision with the state it read and the state it leaves. -/
structure Observation where
  round : Round
  before : PerEqState
  decision : ClearingDecision
  after : PerEqState

variable (cfg : PolicyConfig)

/-- Record the signals, decide, and after a positive decision report the clearing. -/
def observe (s : PerEqState) (r : Round) : Observation :=
  let recorded := r.signals.foldl (fun s signal => recordTickSignals cfg s signal.1 signal.2) s
  let evaluated := evaluate cfg recorded r.tick
  ⟨r, recorded, evaluated.1,
    if evaluated.1.shouldRun then updateClearingResult cfg evaluated.2 r.volume r.costMs r.tick else evaluated.2⟩

/-- The observations of a run. -/
def play : PerEqState → List Round → List Observation
  | _, [] => []
  | s, r :: rest => observe cfg s r :: play (observe cfg s r).after rest

/-- The state a run ends in. -/
def finalState (s : PerEqState) (rounds : List Round) : PerEqState :=
  rounds.foldl (fun s r => (observe cfg s r).after) s

/-- The last round of a play is observed from the state that the others left. -/
theorem play_snoc (s : PerEqState) (rounds : List Round) (r : Round) :
    play cfg s (rounds ++ [r]) = play cfg s rounds ++ [observe cfg (finalState cfg s rounds) r] := by
  induction rounds generalizing s with
  | nil => rfl
  | cons first rest ih =>
      rw [List.cons_append, play, play, ih]
      rfl

end Runs

section Properties

variable (cfg : PolicyConfig) (obs : List Observation)

/-- The volumes of the clearings of a run. -/
def clearedVolumes : List Binary64 := (obs.filter (·.decision.shouldRun)).map (·.round.volume)

/-- How many clearings at the end yielded nothing. -/
def zeroStreak (zero : Binary64 → Bool) : Nat := ((clearedVolumes obs).reverse.takeWhile zero).length

/-- Two clearings are the minimum interval apart, and the backoff in force at the later one. -/
def Spaced : Prop := obs.Pairwise fun o o' => o.decision.shouldRun = true → o'.decision.shouldRun = true →
  max cfg.minIntervalTicks o'.before.backoffInterval ≤ (o'.round.tick : ℤ) - o.round.tick

/-- The backoff interval after a streak of clearings that yielded nothing. -/
def backoffAfter (streak : Nat) : ℤ :=
  if streak = 0 then 0
  else min (max cfg.minIntervalTicks cfg.backoffMaxIntervalTicks) (cfg.minIntervalTicks * 2 ^ (streak - 1))

/-- The flag goes up at a high rate and down under a low one only. -/
def FlagMoves : Prop := ∀ o ∈ obs,
  (o.before.active = false → o.after.active = true → cfg.noCapacityHigh ≤ noCapacityRate o.before) ∧
    (o.before.active = true → o.after.active = false → noCapacityRate o.before < cfg.noCapacityLow)

/-- A budget is at least one, at most the configured maximum and at most the ceiling. -/
def WithinBounds (maximum ceiling budget : ℤ) : Prop := 1 ≤ budget ∧ budget ≤ maximum ∧ budget ≤ ceiling

/-- Every clearing has a depth and a time budget within their bounds. -/
def BudgetsWithin : Prop := ∀ o ∈ obs, o.decision.shouldRun = true →
  (∃ depth, o.decision.maxDepth = some depth ∧
      WithinBounds cfg.maxDepthMax cfg.globalMaxDepthCeiling depth) ∧
    ∃ budget, o.decision.timeBudgetMs = some budget ∧
      WithinBounds cfg.timeBudgetMsMax cfg.globalTimeBudgetMsCeiling budget

/-- A clearing that yields nothing. -/
def yieldsNothing (volume : Binary64) : Bool := volume ≤ .ofRat 0

/-- No clearing reports a volume so small that the policy takes it for none. -/
def VolumesCount : Prop := ∀ volume ∈ clearedVolumes obs, ¬(.ofRat 0 < volume ∧ volume < zeroVolumeEps)

/-- What leaves room for a budget: over a full window a minimum of at least one that is within the maximum
and the ceiling, and while the window fills a maximum and a ceiling of at least one. -/
def LeavesRoom (full : Prop) (minimum maximum ceiling : ℤ) : Prop :=
  1 ≤ maximum ∧ 1 ≤ ceiling ∧ (full → 1 ≤ minimum ∧ minimum ≤ maximum ∧ minimum ≤ ceiling)

/-- The policy leaves room for both budgets in the states its decisions are taken in. -/
def BudgetsFit : Prop := ∀ o ∈ obs,
  LeavesRoom (cfg.windowTicks ≤ o.before.window.length) cfg.maxDepthMin cfg.maxDepthMax cfg.globalMaxDepthCeiling ∧
    LeavesRoom (cfg.windowTicks ≤ o.before.window.length) cfg.timeBudgetMsMin cfg.timeBudgetMsMax
      cfg.globalTimeBudgetMsCeiling

end Properties

section Decisions

variable {cfg : PolicyConfig} {s : PerEqState} {tickIndex : ℤ}

/-- Recording signals changes the window only. -/
theorem recorded_state (cfg : PolicyConfig) (s : PerEqState) (signals : List (ℤ × ℤ)) :
    ∃ window, signals.foldl (fun s signal => recordTickSignals cfg s signal.1 signal.2) s =
      { s with window := window } := by
  induction signals generalizing s with
  | nil => exact ⟨s.window, rfl⟩
  | cons signal rest ih =>
      obtain ⟨window, hWindow⟩ := ih (recordTickSignals cfg s signal.1 signal.2)
      exact ⟨window, hWindow⟩

/-- A decision of the interval limits is never to run. -/
theorem checkIntervalLimits_run {decision : ClearingDecision}
    (h : checkIntervalLimits cfg s tickIndex = some decision) : decision.shouldRun = false := by
  simp only [checkIntervalLimits] at h
  split at h
  · cases h
  split at h
  · cases h
    rfl
  split at h
  · cases h
    rfl
  · cases h

/-- Past the interval limits, a clearing is the intervals away from the last one. -/
theorem checkIntervalLimits_none (hPast : 0 ≤ s.lastClearingTick) (hMin : 1 ≤ cfg.minIntervalTicks)
    (h : checkIntervalLimits cfg s tickIndex = none) :
    max cfg.minIntervalTicks s.backoffInterval ≤ tickIndex - s.lastClearingTick := by
  simp only [checkIntervalLimits, if_neg (not_lt.mpr hPast)] at h
  split at h
  · cases h
  next hApart =>
  split at h
  · cases h
  next hBackoff =>
  rw [not_lt] at hApart
  refine max_le hApart ?_
  by_contra hSoon
  exact hBackoff ⟨by omega, by omega⟩

/-- The flag after a decision over a full window. -/
def hysteresis (cfg : PolicyConfig) (s : PerEqState) : Bool :=
  if cfg.noCapacityHigh ≤ noCapacityRate s then true
  else if noCapacityRate s < cfg.noCapacityLow then false else s.active

/-- With a full window the decision is that of the hysteresis, within the interval limits. -/
theorem evaluate_of_full (hFull : ¬s.window.length < cfg.windowTicks) :
    evaluate cfg s tickIndex =
      if s.active = true ∧ hysteresis cfg s = false then
        (.skip .rateLowExit, { s with active := hysteresis cfg s })
      else if hysteresis cfg s = false then (.skip .skipNotActive, { s with active := hysteresis cfg s })
      else
        ((checkIntervalLimits cfg s tickIndex).getD
          (makeRunDecision cfg (noCapacityRate s) (if s.active then .runActive else .rateHighEnter)),
          { s with active := hysteresis cfg s }) := by
  unfold evaluate
  simp only [if_neg hFull]
  rfl

/-- What a decision leaves of the state: the flag, moved by the rate. -/
theorem evaluate_state (cfg : PolicyConfig) (s : PerEqState) (tickIndex : ℤ) :
    ∃ active, (evaluate cfg s tickIndex).2 = { s with active := active } ∧
      (s.active = false → active = true → cfg.noCapacityHigh ≤ noCapacityRate s) ∧
      (s.active = true → active = false → noCapacityRate s < cfg.noCapacityLow) := by
  by_cases hWarm : s.window.length < cfg.windowTicks
  · refine ⟨s.active, ?_, fun hDown hUp => ?_, fun hUp hDown => ?_⟩
    · simp only [evaluate, if_pos hWarm]
      split
      · rfl
      split <;> rfl
    · rw [hDown] at hUp
      cases hUp
    · rw [hDown] at hUp
      cases hUp
  · refine ⟨hysteresis cfg s, ?_, fun hDown hUp => ?_, fun hUp hDown => ?_⟩
    · rw [evaluate_of_full hWarm]
      split
      · rfl
      split <;> rfl
    · by_contra hLow
      rw [hysteresis, if_neg hLow, hDown, ite_self] at hUp
      cases hUp
    · by_contra hKept
      rw [hysteresis, if_neg hKept, hUp, ite_self] at hDown
      cases hDown

/-- A positive decision is past the interval limits, with the smallest budget while the window
fills and a scaled one over a full window. -/
theorem evaluate_run (h : (evaluate cfg s tickIndex).1.shouldRun = true) :
    checkIntervalLimits cfg s tickIndex = none ∧
      ∃ reason, (evaluate cfg s tickIndex).1 = makeMinBudgetDecision cfg reason ∨
        cfg.windowTicks ≤ s.window.length ∧
          (evaluate cfg s tickIndex).1 = makeRunDecision cfg (noCapacityRate s) reason := by
  have hLimits : ∀ decision : ClearingDecision, ((checkIntervalLimits cfg s tickIndex).getD decision).shouldRun = true →
      checkIntervalLimits cfg s tickIndex = none := by
    intro decision hRun
    cases hCheck : checkIntervalLimits cfg s tickIndex with
    | none => rfl
    | some blocked =>
        rw [hCheck, Option.getD_some, checkIntervalLimits_run hCheck] at hRun
        cases hRun
  by_cases hWarm : s.window.length < cfg.windowTicks
  · simp only [evaluate, if_pos hWarm] at h ⊢
    split at h
    · cases h
    next hEnabled =>
    split at h
    · cases h
    next hCadence =>
    have hNone := hLimits _ h
    refine ⟨hNone, .warmupRun, .inl ?_⟩
    rw [if_neg hEnabled, if_neg hCadence, hNone, Option.getD_none]
  · rw [evaluate_of_full hWarm] at h ⊢
    split at h
    · cases h
    next hEntered =>
    split at h
    · cases h
    next hActive =>
    have hNone := hLimits _ h
    refine ⟨hNone, if s.active then .runActive else .rateHighEnter, .inr ⟨not_lt.mp hWarm, ?_⟩⟩
    rw [if_neg hEntered, if_neg hActive, hNone]
    rfl

end Decisions

section Budgets

variable {cfg : PolicyConfig}

/-- A scaled budget is within the bounds that leave room for its minimum. -/
theorem clamp_withinBounds {v minimum maximum ceiling : ℤ} (hMin : 1 ≤ minimum) (hMax : minimum ≤ maximum)
    (hCeiling : minimum ≤ ceiling) : WithinBounds maximum ceiling (clamp v minimum (min maximum ceiling)) := by
  unfold WithinBounds clamp
  omega

/-- The least budget, lowered to the bounds but not below one, is within them. -/
theorem min_withinBounds {minimum maximum ceiling : ℤ} (hMax : 1 ≤ maximum) (hCeiling : 1 ≤ ceiling) :
    WithinBounds maximum ceiling (max 1 (min minimum (min maximum ceiling))) := by
  unfold WithinBounds
  omega

end Budgets

section Steps

variable {cfg : PolicyConfig} {s : PerEqState} {rounds : List Round}

/-- What one tick does to the state of an equivalent. -/
theorem observe_spec (cfg : PolicyConfig) (s : PerEqState) (r : Round) :
    ∃ window active, (observe cfg s r).before = { s with window := window } ∧
      (observe cfg s r).after =
        if (observe cfg s r).decision.shouldRun = true then
          updateClearingResult cfg { s with window := window, active := active } r.volume r.costMs r.tick
        else { s with window := window, active := active } := by
  obtain ⟨window, hWindow⟩ := recorded_state cfg s r.signals
  obtain ⟨active, hActive, _⟩ := evaluate_state cfg { s with window := window } r.tick
  refine ⟨window, active, hWindow, ?_⟩
  simp only [observe, hWindow, hActive]

/-- Recording and deciding leave the tick of the last clearing as it is. -/
theorem before_lastClearingTick (cfg : PolicyConfig) (s : PerEqState) (r : Round) :
    (observe cfg s r).before.lastClearingTick = s.lastClearingTick := by
  obtain ⟨window, active, hBefore, _⟩ := observe_spec cfg s r
  rw [hBefore]

/-- The result of a clearing sets the tick of the last one. -/
theorem updateClearingResult_tick (cfg : PolicyConfig) (s : PerEqState) (volume : Binary64) (costMs : ℚ)
    (tick : ℤ) : (updateClearingResult cfg s volume costMs tick).lastClearingTick = tick := by
  unfold updateClearingResult
  split <;> rfl

/-- The tick of the last clearing is this one after a positive decision, and stays otherwise. -/
theorem after_lastClearingTick (cfg : PolicyConfig) (s : PerEqState) (r : Round) :
    (observe cfg s r).after.lastClearingTick =
      if (observe cfg s r).decision.shouldRun = true then (r.tick : ℤ) else s.lastClearingTick := by
  obtain ⟨window, active, _, hAfter⟩ := observe_spec cfg s r
  rw [hAfter]
  split
  · exact updateClearingResult_tick ..
  · rfl

/-- Later ticks find the last clearing no earlier. -/
theorem le_lastClearingTick (hTicks : rounds.Pairwise (·.tick < ·.tick))
    (hStart : ∀ r ∈ rounds, s.lastClearingTick ≤ r.tick) :
    ∀ o ∈ play cfg s rounds, s.lastClearingTick ≤ o.before.lastClearingTick := by
  induction rounds generalizing s with
  | nil => simp [play]
  | cons r rest ih =>
      obtain ⟨hFirst, hRest⟩ := List.pairwise_cons.mp hTicks
      obtain ⟨hHere, hLater⟩ := List.forall_mem_cons.mp hStart
      intro o ho
      rcases List.mem_cons.mp ho with rfl | ho
      · exact (before_lastClearingTick cfg s r).ge
      · have hAfter := after_lastClearingTick cfg s r
        have hNext : ∀ r' ∈ rest, (observe cfg s r).after.lastClearingTick ≤ r'.tick := by
          intro r' hr'
          rw [hAfter]
          split
          · exact_mod_cast (hFirst r' hr').le
          · exact hLater r' hr'
        refine le_trans ?_ (ih hRest hNext o ho)
        rw [hAfter]
        split
        · exact hHere
        · exact le_rfl

/-- A positive decision keeps its distance from the last clearing. -/
theorem apart_of_run (hMin : 1 ≤ cfg.minIntervalTicks) {o : Observation} (ho : o ∈ play cfg s rounds)
    (hRun : o.decision.shouldRun = true) (hPast : 0 ≤ o.before.lastClearingTick) :
    max cfg.minIntervalTicks o.before.backoffInterval ≤ (o.round.tick : ℤ) - o.before.lastClearingTick := by
  have hObserved : ∃ s r, o = observe cfg s r := by
    clear * - ho
    induction rounds generalizing s with
    | nil => cases ho
    | cons r rest ih =>
        rcases List.mem_cons.mp ho with rfl | ho
        · exact ⟨s, r, rfl⟩
        · exact ih ho
  obtain ⟨s, r, rfl⟩ := hObserved
  exact checkIntervalLimits_none hPast hMin (evaluate_run hRun).1

/-- Clearings keep their distance, in any run. -/
theorem play_spaced (hMin : 1 ≤ cfg.minIntervalTicks) (hTicks : rounds.Pairwise (·.tick < ·.tick)) :
    Spaced cfg (play cfg s rounds) := by
  induction rounds generalizing s with
  | nil => exact List.Pairwise.nil
  | cons r rest ih =>
      obtain ⟨hFirst, hRest⟩ := List.pairwise_cons.mp hTicks
      refine List.pairwise_cons.mpr ⟨fun o ho hRun hLater => ?_, ih hRest⟩
      have hAfter := after_lastClearingTick cfg s r
      rw [if_pos hRun] at hAfter
      have hLast : (observe cfg s r).after.lastClearingTick ≤ o.before.lastClearingTick :=
        le_lastClearingTick hRest (fun r' hr' => by rw [hAfter]; exact_mod_cast (hFirst r' hr').le) o ho
      rw [hAfter] at hLast
      have hApart := apart_of_run hMin ho hLater (le_trans (Int.natCast_nonneg _) hLast)
      change max cfg.minIntervalTicks o.before.backoffInterval ≤ (o.round.tick : ℤ) - r.tick
      linarith

end Steps

section Backoff

variable {cfg : PolicyConfig}

/-- `volume < ZERO_VOLUME_EPS`. -/
def countsAsNone (volume : Binary64) : Bool := volume < zeroVolumeEps

/-- A round that runs adds its volume to the cleared ones. -/
theorem clearedVolumes_snoc (obs : List Observation) (o : Observation) :
    clearedVolumes (obs ++ [o]) =
      if o.decision.shouldRun = true then clearedVolumes obs ++ [o.round.volume] else clearedVolumes obs := by
  by_cases hRun : o.decision.shouldRun = true <;> simp [clearedVolumes, hRun]

/-- A round that runs extends the streak of zero volumes or ends it. -/
theorem zeroStreak_snoc (zero : Binary64 → Bool) (obs : List Observation) (o : Observation) :
    zeroStreak (obs ++ [o]) zero =
      if o.decision.shouldRun = true then if zero o.round.volume then zeroStreak obs zero + 1 else 0
      else zeroStreak obs zero := by
  unfold zeroStreak
  rw [clearedVolumes_snoc]
  by_cases hRun : o.decision.shouldRun = true
  · rw [if_pos hRun, if_pos hRun, List.reverse_append, List.reverse_singleton, List.singleton_append]
    by_cases hZero : zero o.round.volume = true
    · rw [if_pos hZero, List.takeWhile_cons_of_pos hZero, List.length_cons]
    · rw [if_neg hZero, List.takeWhile_cons_of_neg hZero, List.length_nil]
  · rw [if_neg hRun, if_neg hRun]

/-- A clearing that counts as none doubles the interval up to its maximum, any other resets it. -/
theorem updateClearingResult_backoff (hMin : 1 ≤ cfg.minIntervalTicks) (s : PerEqState) (volume : Binary64)
    (costMs : ℚ) (tick : ℤ) :
    (updateClearingResult cfg s volume costMs tick).consecutiveZeroYield =
        (if countsAsNone volume then s.consecutiveZeroYield + 1 else 0) ∧
      (updateClearingResult cfg s volume costMs tick).backoffInterval =
        backoffAfter cfg (if countsAsNone volume then s.consecutiveZeroYield + 1 else 0) := by
  by_cases hZero : volume < zeroVolumeEps
  · have hYields : countsAsNone volume = true := decide_eq_true hZero
    rw [if_pos hYields]
    refine ⟨by simp [updateClearingResult, hZero], ?_⟩
    have hPower : cfg.minIntervalTicks ≤ cfg.minIntervalTicks * 2 ^ s.consecutiveZeroYield :=
      le_mul_of_one_le_right (by omega) (one_le_pow₀ (by norm_num))
    have hBackoff : (updateClearingResult cfg s volume costMs tick).backoffInterval =
        max (max 1 cfg.minIntervalTicks) (min (max (max 1 cfg.minIntervalTicks) cfg.backoffMaxIntervalTicks)
          (max 1 cfg.minIntervalTicks * 2 ^ s.consecutiveZeroYield)) := by
      simp only [updateClearingResult, if_pos hZero]
    rw [hBackoff, backoffAfter, if_neg (Nat.succ_ne_zero _), Nat.add_sub_cancel, max_eq_right hMin]
    exact max_eq_right (le_min (le_max_left _ _) hPower)
  · have hYields : ¬countsAsNone volume = true := by simpa [countsAsNone] using hZero
    rw [if_neg hYields]
    simp [updateClearingResult, hZero, backoffAfter]

/-- The backoff is the one of the streak of clearings that count as none. -/
theorem backoff_eq (hMin : 1 ≤ cfg.minIntervalTicks) (rounds : List Round) :
    (finalState cfg .fresh rounds).consecutiveZeroYield = zeroStreak (play cfg .fresh rounds) countsAsNone ∧
      (finalState cfg .fresh rounds).backoffInterval =
        backoffAfter cfg (zeroStreak (play cfg .fresh rounds) countsAsNone) := by
  induction rounds using List.reverseRecOn with
  | nil => exact ⟨rfl, rfl⟩
  | append_singleton rounds r ih =>
      obtain ⟨hStreak, hBackoff⟩ := ih
      have hFinal : finalState cfg .fresh (rounds ++ [r]) = (observe cfg (finalState cfg .fresh rounds) r).after := by
        simp [finalState]
      obtain ⟨window, active, _, hAfter⟩ := observe_spec cfg (finalState cfg .fresh rounds) r
      rw [hFinal, play_snoc, zeroStreak_snoc, hAfter]
      split
      · obtain ⟨hCount, hInterval⟩ := updateClearingResult_backoff hMin
          { finalState cfg .fresh rounds with window := window, active := active } r.volume r.costMs r.tick
        rw [hCount, hInterval]
        simp only [hStreak]
        exact ⟨rfl, rfl⟩
      · exact ⟨hStreak, hBackoff⟩

/-- Streaks agree where the volumes do. -/
theorem zeroStreak_congr {zero zero' : Binary64 → Bool} {obs : List Observation}
    (h : ∀ volume ∈ clearedVolumes obs, zero volume = zero' volume) : zeroStreak obs zero = zeroStreak obs zero' := by
  have hTake : ∀ volumes : List Binary64, (∀ volume ∈ volumes, zero volume = zero' volume) →
      volumes.takeWhile zero = volumes.takeWhile zero' := by
    intro volumes hSame
    induction volumes with
    | nil => rfl
    | cons volume rest ih =>
        obtain ⟨hFirst, hRest⟩ := List.forall_mem_cons.mp hSame
        rw [List.takeWhile_cons, List.takeWhile_cons, hFirst, ih hRest]
  rw [zeroStreak, zeroStreak, hTake _ fun volume hVolume => h volume (List.mem_reverse.mp hVolume)]

/-- A volume that counts yields nothing exactly when the policy counts it as none. -/
theorem countsAsNone_eq {volume : Binary64} (h : ¬(.ofRat 0 < volume ∧ volume < zeroVolumeEps)) :
    countsAsNone volume = yieldsNothing volume :=
  decide_eq_decide.mpr (Binary64.lt_iff_le_of_gap (by decide +kernel) h)

end Backoff

section Cadence

variable {cfg : PolicyConfig}

/-- Along every play the flag moves by the hysteresis alone. -/
theorem play_flagMoves (cfg : PolicyConfig) (s : PerEqState) (rounds : List Round) :
    FlagMoves cfg (play cfg s rounds) := by
  induction rounds generalizing s with
  | nil => simp [FlagMoves, play]
  | cons r rest ih =>
      refine List.forall_mem_cons.mpr ⟨?_, ih _⟩
      obtain ⟨active, hActive, hUp, hDown⟩ := evaluate_state cfg (observe cfg s r).before r.tick
      have hAfter : (observe cfg s r).after.active = active := by
        have hFlag : (evaluate cfg (observe cfg s r).before r.tick).2.active = active := by rw [hActive]
        rw [← hFlag]
        change (ite _ _ _ : PerEqState).active = _
        split
        · unfold updateClearingResult
          split <;> rfl
        · rfl
      rw [hAfter]
      exact ⟨hUp, hDown⟩

/-- Along every play whose budgets fit, these are within the bounds. -/
theorem play_budgetsWithin {s : PerEqState} {rounds : List Round} (hFit : BudgetsFit cfg (play cfg s rounds)) :
    BudgetsWithin cfg (play cfg s rounds) := by
  induction rounds generalizing s with
  | nil => simp [BudgetsWithin, play]
  | cons r rest ih =>
      obtain ⟨⟨hDepth, hTime⟩, hRest⟩ := List.forall_mem_cons.mp hFit
      refine List.forall_mem_cons.mpr ⟨fun hRun => ?_, ih hRest⟩
      obtain ⟨_, reason, hDecision | ⟨hFull, hDecision⟩⟩ := evaluate_run hRun
      · have hMade : (observe cfg s r).decision = makeMinBudgetDecision cfg reason := hDecision
        rw [hMade]
        exact ⟨⟨_, rfl, min_withinBounds hDepth.1 hDepth.2.1⟩, _, rfl, min_withinBounds hTime.1 hTime.2.1⟩
      · have hMade : (observe cfg s r).decision =
            makeRunDecision cfg (noCapacityRate (observe cfg s r).before) reason := hDecision
        obtain ⟨hDepthMin, hDepthMax, hDepthCeiling⟩ := hDepth.2.2 hFull
        obtain ⟨hTimeMin, hTimeMax, hTimeCeiling⟩ := hTime.2.2 hFull
        rw [hMade]
        exact ⟨⟨_, rfl, clamp_withinBounds hDepthMin hDepthMax hDepthCeiling⟩, _, rfl,
          clamp_withinBounds hTimeMin hTimeMax hTimeCeiling⟩

/-- In every run whose clearings report no volume between zero and the smallest one, and whose decisions
find room for both budgets, clearings are spaced by the intervals, the backoff doubles with every clearing
that yields nothing, the flag follows the rate, and the budgets keep their bounds. -/
theorem adaptive_cadence (cfg : PolicyConfig) (hMin : 1 ≤ cfg.minIntervalTicks) (rounds : List Round)
    (hTicks : rounds.Pairwise (·.tick < ·.tick)) (hVolumes : VolumesCount (play cfg .fresh rounds))
    (hFit : BudgetsFit cfg (play cfg .fresh rounds)) :
    Spaced cfg (play cfg .fresh rounds) ∧
      (finalState cfg .fresh rounds).backoffInterval =
        backoffAfter cfg (zeroStreak (play cfg .fresh rounds) yieldsNothing) ∧
      FlagMoves cfg (play cfg .fresh rounds) ∧ BudgetsWithin cfg (play cfg .fresh rounds) := by
  refine ⟨play_spaced hMin hTicks, ?_, play_flagMoves cfg _ rounds, play_budgetsWithin hFit⟩
  rw [(backoff_eq hMin rounds).2, zeroStreak_congr fun volume hVolume => countsAsNone_eq (hVolumes volume hVolume)]

/-- The policy as it is set by default, with a window of one tick. -/
def shortPolicy : PolicyConfig where
  windowTicks := 1
  windowTicks_pos := le_rfl
  noCapacityHigh := .ofRat (6 / 10)
  noCapacityLow := .ofRat (3 / 10)
  minIntervalTicks := 5
  backoffMaxIntervalTicks := 60
  inflightThreshold := 0
  queueDepthThreshold := 0
  maxDepthMin := 3
  maxDepthMax := 6
  timeBudgetMsMin := 50
  timeBudgetMsMax := 250
  globalMaxDepthCeiling := 6
  globalTimeBudgetMsCeiling := 250
  warmupFallbackCadence := 0

/-- A policy whose smallest depth is above the ceiling of the hub. -/
def deepPolicy : PolicyConfig := { shortPolicy with maxDepthMin := 8, maxDepthMax := 10 }

/-- Three ticks, at first under full pressure and then with 57 of 100 payments rejected, where every
clearing yields the same volume. -/
def pressedRounds (volume : ℚ) : List Round :=
  [⟨0, [(10, 10)], .ofRat volume, 3⟩, ⟨5, [(100, 57)], .ofRat volume, 3⟩, ⟨15, [(100, 57)], .ofRat volume, 3⟩]

/-- Without a yield the third clearing waits for twice the interval. Nine tenths of the pressure
give 229 milliseconds, since the float is a little below the tenths. -/
theorem adaptive_cadence_pressed :
    (play shortPolicy .fresh (pressedRounds 0)).map (·.decision.timeBudgetMs) = [some 250, some 229, some 229] ∧
      (finalState shortPolicy .fresh (pressedRounds 0)).backoffInterval = 20 ∧
      Spaced shortPolicy (play shortPolicy .fresh (pressedRounds 0)) ∧
      BudgetsWithin shortPolicy (play shortPolicy .fresh (pressedRounds 0)) := by
  have hTicks : (pressedRounds 0).Pairwise (·.tick < ·.tick) := by
    unfold pressedRounds
    simp
  have hVolumes : VolumesCount (play shortPolicy .fresh (pressedRounds 0)) := by
    have hZero : clearedVolumes (play shortPolicy .fresh (pressedRounds 0)) = [.ofRat 0, .ofRat 0, .ofRat 0] := by
      decide +kernel
    intro volume hVolume
    rw [hZero] at hVolume
    have hNone : volume = .ofRat 0 := by simpa using hVolume
    rw [hNone]
    decide +kernel
  have hFit : BudgetsFit shortPolicy (play shortPolicy .fresh (pressedRounds 0)) := fun o _ =>
    ⟨⟨by decide, by decide, fun _ => by decide⟩, by decide, by decide, fun _ => by decide⟩
  obtain ⟨hSpaced, _, _, hBudgets⟩ :=
    adaptive_cadence shortPolicy (by decide) (pressedRounds 0) hTicks hVolumes hFit
  exact ⟨by decide +kernel, by decide +kernel, hSpaced, hBudgets⟩

/-- The depth stays above the ceiling, and a positive volume that counts as none
leaves a backoff behind. -/
theorem depth_above_ceiling :
    (play deepPolicy .fresh (pressedRounds (1 / 2000000000))).map (·.decision.maxDepth) = [some 8, some 8, some 8] ∧
      ¬BudgetsWithin deepPolicy (play deepPolicy .fresh (pressedRounds (1 / 2000000000))) ∧
      (finalState deepPolicy .fresh (pressedRounds (1 / 2000000000))).backoffInterval ≠ 0 ∧
      zeroStreak (play deepPolicy .fresh (pressedRounds (1 / 2000000000))) yieldsNothing = 0 := by
  refine ⟨by decide +kernel, fun hWithin => ?_, by decide +kernel, by decide +kernel⟩
  obtain ⟨⟨depth, hDepth, _, _, hCeiling⟩, _⟩ := hWithin _ List.mem_cons_self (by decide +kernel)
  have hEight : some depth = some 8 := hDepth.symm.trans (by decide +kernel)
  rw [Option.some.inj hEight] at hCeiling
  exact absurd hCeiling (by decide)

end Cadence

end AdaptiveClearing

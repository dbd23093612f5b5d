import Mathlib
import GeoLedger.Simulator.ClearingIsolation
import GeoLedger.Simulator.PaymentsCollection

/-! The clearing pressure: the coordinator puts the signals of a tick together from
the counters that the payments executor leaves, and the adaptive policy keeps
them in a window of the last ticks. -/
namespace PaymentsExecutor

open GeoLedger AdaptiveClearing

section Signals

variable {Effects Patch : Type}

def Phase.result? : Phase Effects Patch → Option (Result Effects Patch)
  | .returned result => some result
  | _ => none

/-- The payments of one tick, executed to the end on some schedule. -/
structure Tick (Effects Patch : Type) where
  call : Call Effects
  trace : List (Event Patch)
  numbered : call.Numbered
  finished : (call.run trace).phase.result?.isSome

def Tick.result (t : Tick Effects Patch) : Result Effects Patch := (t.call.run t.trace).phase.result?.get t.finished

/-- What the coordinator reads for an equivalent. -/
def Result.eqStats (r : Result Effects Patch) (eq : String) : EqStats :=
  let c := r.tally.perEq.getD eq EqCounters.zero
  ⟨c.committed, c.rejected, c.errors, c.timeouts,
    ((r.tally.rejectionCodesByEq.getD eq Dict.empty).getD "ROUTING_NO_CAPACITY" 0 : Nat)⟩

/-- `attempted_payments`. -/
def Result.attempted (r : Result Effects Patch) (eq : String) : ℤ :=
  let stats := r.eqStats eq
  stats.committed + stats.rejected + stats.errors + stats.timeouts

/-- The equivalents of a real run, `sorted(eq_set)`. -/
def realEquivalents (codes : List String) : List String := codes.dedup.insertionSort (· ≤ ·)

/-- A step of the coordinator: a tick with its payments, or a round of a clearing loop. -/
inductive PressureStep (Effects Patch : Type) where
  | tick (start : TickStart) (payments : Tick Effects Patch)
  | clear (runId : RunId) (elapsedMs : ℚ) (outcome : ClearingOutcome)

/-- The coordinator gets the equivalents of the run and the counters of the payments. -/
def PressureStep.toStep : PressureStep Effects Patch → Step
  | .tick start payments =>
      .start { start with equivalents := realEquivalents start.equivalents, stats := payments.result.eqStats }
  | .clear runId elapsedMs outcome => .clear runId elapsedMs outcome

/-- The coordinator after a number of steps. -/
def afterSteps (settings : Settings) (steps : List (PressureStep Effects Patch)) : Coordinator :=
  steps.foldl (fun c s => (step settings s.toStep c).2) Coordinator.fresh

/-- The payments that a step feeds the signals of an equivalent with. -/
def PressureStep.feeds (eq : String) : PressureStep Effects Patch → Option (Tick Effects Patch)
  | .tick start payments => if start.clearingEnabled ∧ eq ∈ start.equivalents then some payments else none
  | .clear .. => none

/-- The payments of the ticks that feed the signals of an equivalent. -/
def fedTicks (steps : List (PressureStep Effects Patch)) (eq : String) : List (Tick Effects Patch) :=
  steps.filterMap (·.feeds eq)

end Signals

section Counts

variable {Effects Patch : Type}

/-- A bump changes the value of its own key only. -/
theorem getD_bump {Key Value : Type} [DecidableEq Key] (d : Dict Key Value) (k key : Key) (default : Value)
    (f : Value → Value) :
    (bump d k default f).getD key default = if key = k then f (d.getD k default) else d.getD key default := by
  rw [bump, Dict.getD, Dict.get?_set]
  split
  · rfl
  · rfl

def EqCounters.total (c : EqCounters) : Nat := c.committed + c.rejected + c.errors + c.timeouts

/-- A bump by a weight adds the weight to the total of its own equivalent. -/
theorem total_bump (d : Dict String EqCounters) (k eq : String) {f : EqCounters → EqCounters} {weight : Nat}
    (h : ∀ c, (f c).total = c.total + weight) :
    ((bump d k EqCounters.zero f).getD eq EqCounters.zero).total =
      (d.getD eq EqCounters.zero).total + if eq = k then weight else 0 := by
  rw [getD_bump]
  split
  · rename_i hEq
    rw [h, hEq]
  · rfl

/-- The counters of an equivalent that make up `attempted_payments`. -/
def Tally.attempted (s : Tally Effects Patch) (eq : String) : Nat := (s.perEq.getD eq EqCounters.zero).total

/-- How often a result is counted: a timeout twice. -/
def ActionResult.weight (r : ActionResult Effects) : Nat :=
  match r.errCode with
  | none => 1
  | some code => 1 + (if code = "PAYMENT_TIMEOUT" then 1 else 0) + (if code = "PAYMENT_REJECTED" then 1 else 0)

/-- A recorded payment adds its weight to what was attempted in its equivalent. -/
theorem attempted_record (s : Tally Effects Patch) (nextSeq : Nat) (item : Item Effects Patch) (eq : String) :
    (record s nextSeq item).attempted eq =
      s.attempted eq + if eq = item.result.equivalent then item.result.weight else 0 := by
  rw [record, ActionResult.weight]
  cases hCode : item.result.errCode with
  | some code =>
      refine total_bump s.perEq _ eq fun c => ?_
      simp only [EqCounters.total]
      omega
  | none =>
      simp only
      split
      · refine total_bump s.perEq _ eq fun c => ?_
        simp only [EqCounters.total]
        omega
      · refine total_bump s.perEq _ eq fun c => ?_
        simp only [EqCounters.total]
        omega

/-- The rejections for capacity of an equivalent. -/
def Tally.noCapacity (s : Tally Effects Patch) (eq : String) : Nat :=
  (s.rejectionCodesByEq.getD eq Dict.empty).getD "ROUTING_NO_CAPACITY" 0

/-- A payment turned down for want of capacity. -/
def ActionResult.NoCapacity (r : ActionResult Effects) : Prop :=
  r.errCode = none ∧ r.status ≠ some "COMMITTED" ∧ mapRejectionCode r.errDetails = "ROUTING_NO_CAPACITY"

instance (r : ActionResult Effects) : Decidable r.NoCapacity := inferInstanceAs (Decidable (_ ∧ _))

/-- A recorded payment adds one to the refusals of its equivalent exactly when it was
refused for want of capacity. -/
theorem noCapacity_record (s : Tally Effects Patch) (nextSeq : Nat) (item : Item Effects Patch) (eq : String) :
    (record s nextSeq item).noCapacity eq =
      s.noCapacity eq + if eq = item.result.equivalent ∧ item.result.NoCapacity then 1 else 0 := by
  rw [record]
  cases hCode : item.result.errCode with
  | some code => simp [recordError, Tally.noCapacity, ActionResult.NoCapacity, hCode]
  | none =>
      by_cases hStatus : item.result.status = some "COMMITTED"
      · simp [hStatus, recordCommitted, Tally.noCapacity, ActionResult.NoCapacity]
      · have hIff : item.result.NoCapacity ↔ mapRejectionCode item.result.errDetails = "ROUTING_NO_CAPACITY" :=
          ⟨fun h => h.2.2, fun h => ⟨hCode, hStatus, h⟩⟩
        simp only [if_neg hStatus, recordRejected, Tally.noCapacity, getD_bump, hIff]
        by_cases hEq : eq = item.result.equivalent
        · rw [if_pos hEq, getD_bump, hEq]
          by_cases hCap : mapRejectionCode item.result.errDetails = "ROUTING_NO_CAPACITY"
          · simp [hCap]
          · simp [hCap, Ne.symm hCap]
        · simp [hEq]

/-- The result of a task, by the number of its action. -/
theorem sum_results {call : Call Effects} (hPlan : call.Numbered) {c : Collector Effects Patch}
    {items : Nat → Option (Item Effects Patch)} (h : Collects call c items)
    (hAll : ∀ task < call.tasks.length, task ∈ c.takenTasks ∧ call.Returns task)
    (weight : ActionResult Effects → Nat) (ofTask : Action × Attempt Effects → Nat)
    (hWeight : ∀ t ∈ call.tasks, ∀ r, doOne call.knownSender t.1 t.2 = .returns r → weight r = ofTask t) :
    ((List.range call.tasks.length).map fun k => (items k).elim 0 fun item => weight item.result).sum =
      (call.tasks.map ofTask).sum := by
  rw [← (hPlan.map _).sum_eq, List.map_map]
  congr 1
  refine List.map_congr_left fun t hMem => ?_
  obtain ⟨task, hTask⟩ := List.mem_iff_getElem?.mp hMem
  have hLess := (List.getElem?_eq_some_iff.mp hTask).1
  obtain ⟨hTaken, r, hEnd⟩ := hAll task hLess
  have hDone : doOne call.knownSender t.1 t.2 = .returns r := by
    rw [Call.endOf, hTask] at hEnd
    exact Option.some.inj hEnd
  have hItem := h.complete task hTaken r hEnd
  rw [doOne_seq hDone, Option.map_eq_some_iff] at hItem
  obtain ⟨item, hItem, hResult⟩ := hItem
  simp only [Function.comp_apply, hItem, Option.elim_some, hResult]
  exact hWeight t hMem r hDone

end Counts

section Ticks

variable {Effects Patch : Type}

/-- A payment of a known sender that ends in a timeout. -/
def timesOut (knownSender : Pid → Bool) (t : Action × Attempt Effects) : Bool :=
  knownSender t.1.senderPid && match t.2 with
    | .raised e => e.timeout
    | _ => false

/-- A payment that is turned down for want of capacity. -/
def lacksCapacity (knownSender : Pid → Bool) (t : Action × Attempt Effects) : Bool :=
  match doOne knownSender t.1 t.2 with
  | .returns r => decide r.NoCapacity
  | .raises => false

/-- The payments of an equivalent in a tick. -/
def Tick.processed (t : Tick Effects Patch) (eq : String) : Nat := t.call.tasks.countP (·.1.equivalent = eq)

/-- Those of them that were turned down for want of capacity. -/
def Tick.refused (t : Tick Effects Patch) (eq : String) : Nat :=
  t.call.tasks.countP fun task => task.1.equivalent = eq && lacksCapacity t.call.knownSender task

/-- Those of them that timed out. -/
def Tick.timedOut (t : Tick Effects Patch) (eq : String) : Nat :=
  t.call.tasks.countP fun task => task.1.equivalent = eq && timesOut t.call.knownSender task

/-- Not more payments are refused than are processed. -/
theorem Tick.refused_le (t : Tick Effects Patch) (eq : String) : t.refused eq ≤ t.processed eq :=
  List.countP_mono_left fun task _ h => by simp_all

/-- A result keeps the equivalent of its action and is counted twice when it timed out. -/
theorem doOne_weight {knownSender : Pid → Bool} {t : Action × Attempt Effects} {r : ActionResult Effects}
    (h : doOne knownSender t.1 t.2 = .returns r) :
    r.equivalent = t.1.equivalent ∧ r.weight = 1 + (timesOut knownSender t).toNat := by
  rw [timesOut]
  unfold doOne at h
  split at h
  · rename_i hUnknown
    cases h
    simp_all [ActionResult.weight, Action.failed]
  · rename_i hKnown
    rw [Bool.not_eq_true', Bool.not_eq_false] at hKnown
    rw [hKnown]
    split at h
    · cases h
    · rename_i hAttempt
      cases h
      simp [ActionResult.weight, hAttempt]
    · rename_i e hAttempt
      rw [hAttempt]
      split at h
      · rename_i hTimeout
        cases h
        simp [ActionResult.weight, Action.failed, hTimeout]
      · rename_i hOther
        split at h
        · cases h
          simp [ActionResult.weight, Action.failed, hOther]
        · simp only at h
          split at h <;> cases h <;> simp [ActionResult.weight, Action.failed, hOther]

theorem Tick.collects (t : Tick Effects Patch) :
    ∃ items, Collects t.call (t.call.run t.trace) items ∧
      (∀ task < t.call.tasks.length, task ∈ (t.call.run t.trace).takenTasks ∧ t.call.Returns task) ∧
      t.result.tally =
        { Reorder.handOn record t.call.startTally items t.call.tasks.length with queueDepth := 0 } := by
  obtain ⟨items, h⟩ := @Collects.run _ Patch _ t.numbered t.trace
  obtain ⟨result, hResult⟩ := Option.isSome_iff_exists.mp t.finished
  have hPhase : (t.call.run t.trace).phase = .returned result := by
    revert hResult
    cases (t.call.run t.trace).phase <;> simp [Phase.result?]
  have hHolds := h.phase
  rw [hPhase] at hHolds
  have hEq : t.result = result := by simp [Tick.result, hResult]
  exact ⟨items, h, hHolds.1, by rw [hEq, hHolds.2.1, h.state_eq t.numbered hHolds.1]⟩

/-- A sum of ones and flags counts those that pass the first test and those that pass both. -/
theorem sum_ite_add (tasks : List (Action × Attempt Effects)) (p q : Action × Attempt Effects → Bool) :
    (tasks.map fun t => if p t then 1 + (q t).toNat else 0).sum =
      tasks.countP p + tasks.countP fun t => p t && q t := by
  induction tasks with
  | nil => rfl
  | cons t rest ih =>
      rw [List.map_cons, List.sum_cons, ih, List.countP_cons, List.countP_cons]
      cases p t <;> cases q t <;> simp <;> omega

/-- The signal counts each payment once, and each timeout once more. -/
theorem Tick.attempted_eq (t : Tick Effects Patch) (eq : String) :
    t.result.attempted eq = ((t.processed eq + t.timedOut eq : Nat) : ℤ) := by
  obtain ⟨items, h, hAll, hTally⟩ := t.collects
  have hStart : (t.call.startTally : Tally Effects Patch).attempted eq = 0 := by
    rw [Tally.attempted, Call.startTally, Tally.start]
    simp only [Dict.getD_ofList_const]
    rfl
  have hMeasure := Reorder.handOn_measure record (fun s : Tally Effects Patch => s.attempted eq)
    (fun item => if eq = item.result.equivalent then item.result.weight else 0)
    (fun s k item => attempted_record s k item eq) t.call.startTally items t.call.tasks.length
  have hSum := sum_results t.numbered h hAll
    (fun r => if eq = r.equivalent then r.weight else 0)
    (fun task => if task.1.equivalent = eq then 1 + (timesOut t.call.knownSender task).toNat else 0)
    fun task hMem r hDone => by
      obtain ⟨hEquivalent, hWeight⟩ := doOne_weight hDone
      simp only [hEquivalent, hWeight, eq_comm]
  have hCount := sum_ite_add t.call.tasks (fun task => decide (task.1.equivalent = eq)) (timesOut t.call.knownSender)
  simp only [decide_eq_true_eq] at hCount
  have hAttempted : t.result.tally.attempted eq = t.processed eq + t.timedOut eq := by
    rw [hTally]
    refine hMeasure.trans ?_
    rw [hStart, Nat.zero_add, hSum, hCount]
    rfl
  rw [← hAttempted, Result.attempted, Result.eqStats, Tally.attempted, EqCounters.total]
  push_cast
  ring

/-- The statistics of a tick count as refused exactly the payments that were. -/
theorem Tick.noCapacity_eq (t : Tick Effects Patch) (eq : String) :
    (t.result.eqStats eq).routingNoCapacity = (t.refused eq : ℤ) := by
  obtain ⟨items, h, hAll, hTally⟩ := t.collects
  have hStart : (t.call.startTally : Tally Effects Patch).noCapacity eq = 0 := by
    rw [Tally.noCapacity, Call.startTally, Tally.start]
    simp only [Dict.getD_ofList_const]
    rfl
  have hMeasure := Reorder.handOn_measure record (fun s : Tally Effects Patch => s.noCapacity eq)
    (fun item => if eq = item.result.equivalent ∧ item.result.NoCapacity then 1 else 0)
    (fun s k item => noCapacity_record s k item eq) t.call.startTally items t.call.tasks.length
  have hSum := sum_results t.numbered h hAll
    (fun r => if eq = r.equivalent ∧ r.NoCapacity then 1 else 0)
    (fun task => if task.1.equivalent = eq && lacksCapacity t.call.knownSender task then 1 else 0)
    fun task hMem r hDone => by
      have hEquivalent : (eq = r.equivalent) = (task.1.equivalent = eq) := by
        rw [(doOne_weight hDone).1]
        exact propext eq_comm
      simp [hEquivalent, lacksCapacity, hDone]
  have hCount := sum_ite_add t.call.tasks
    (fun task => task.1.equivalent = eq && lacksCapacity t.call.knownSender task) fun _ => false
  simp only [Bool.toNat_false, Nat.add_zero, Bool.and_false, List.countP_false] at hCount
  have hRefused : t.result.tally.noCapacity eq = t.refused eq := by
    rw [hTally]
    refine hMeasure.trans ?_
    rw [hStart, Nat.zero_add, hSum, hCount]
    rfl
  rw [← hRefused]
  rfl

end Ticks

section Window

variable {settings : Settings} {Effects Patch : Type}

theorem evaluate_window (cfg : PolicyConfig) (s : PerEqState) (tickIndex : ℤ) :
    (evaluate cfg s tickIndex).2.window = s.window := by
  simp only [evaluate]
  repeat' split
  all_goals rfl

theorem evaluateAll_window (settings : Settings) (tickIndex : ℤ) (eqs : List String) (perEq : String → PerEqState)
    (eq : String) : ((evaluateAll settings tickIndex eqs perEq).2 eq).window = (perEq eq).window := by
  induction eqs generalizing perEq with
  | nil => rfl
  | cons first rest ih =>
      rw [evaluateAll, ih]
      by_cases hEq : eq = first
      · rw [hEq, Function.update_self, evaluate_window]
      · rw [Function.update_of_ne hEq]

/-- The last entries that a window has room for. -/
def lastTicks (cfg : PolicyConfig) {Entry : Type} (entries : List Entry) : List Entry :=
  entries.drop (entries.length - cfg.windowTicks)

/-- The signals of an equivalent with these counters. -/
def signalsOf (stats : EqStats) : Nat × Nat :=
  ((stats.committed + stats.rejected + stats.errors + stats.timeouts).toNat, stats.routingNoCapacity.toNat)

/-- The signals of a tick are recorded once for each equivalent that it handles, and for no
other. -/
theorem recordAll_window (stats : String → EqStats) {eqs : List String} (hNodup : eqs.Nodup)
    (perEq : String → PerEqState) (eq : String) :
    (recordAll settings stats eqs perEq eq).window =
      if eq ∈ eqs then lastTicks settings.policy ((perEq eq).window ++ [signalsOf (stats eq)])
      else (perEq eq).window := by
  induction eqs generalizing perEq with
  | nil => rfl
  | cons first rest ih =>
      obtain ⟨hNew, hRest⟩ := List.nodup_cons.mp hNodup
      rw [recordAll, List.foldl_cons, ← recordAll, ih hRest]
      by_cases hEq : eq = first
      · rw [if_neg (hEq ▸ hNew), if_pos (hEq ▸ List.mem_cons_self), hEq, Function.update_self]
        rfl
      · rw [Function.update_of_ne hEq]
        by_cases hMem : eq ∈ rest
        · rw [if_pos hMem, if_pos (List.mem_cons_of_mem _ hMem)]
        · rw [if_neg hMem, if_neg fun h => (List.mem_cons.mp h).elim hEq hMem]

/-- A window of the last entries moves on by one. -/
theorem lastTicks_append (cfg : PolicyConfig) {Entry : Type} (entries : List Entry) (entry : Entry) :
    lastTicks cfg (lastTicks cfg entries ++ [entry]) = lastTicks cfg (entries ++ [entry]) := by
  have hPos := cfg.windowTicks_pos
  have hDrop : lastTicks cfg entries ++ [entry] = (entries ++ [entry]).drop (entries.length - cfg.windowTicks) :=
    (List.drop_append_of_le_length (Nat.sub_le _ _)).symm
  rw [hDrop, lastTicks, List.drop_drop, List.length_drop, List.length_append, List.length_singleton, lastTicks,
    List.length_append, List.length_singleton]
  congr 1
  omega

theorem mem_realEquivalents {codes : List String} {eq : String} : eq ∈ realEquivalents codes ↔ eq ∈ codes := by
  rw [realEquivalents, List.mem_insertionSort, List.mem_dedup]

theorem nodup_realEquivalents (codes : List String) : (realEquivalents codes).Nodup :=
  (List.perm_insertionSort _ _).nodup_iff.mpr codes.nodup_dedup

theorem nodup_handled {start : TickStart} {codes : List String} (h : start.equivalents = realEquivalents codes) :
    start.handled.Nodup := by
  rw [TickStart.handled]
  split
  · exact (List.perm_insertionSort _ _).nodup_iff.mpr (h ▸ nodup_realEquivalents codes)
  · exact List.nodup_nil

/-- The start of a tick feeds the window of each handled equivalent with one entry. -/
theorem startTick_window (settings : Settings) {start : TickStart} (hNodup : start.handled.Nodup)
    (c : Coordinator) (eq : String) :
    ((startTick settings start c).2.perEq eq).window =
      if eq ∈ start.handled then lastTicks settings.policy ((c.perEq eq).window ++ [signalsOf (start.stats eq)])
      else (c.perEq eq).window := by
  rw [← recordAll_window start.stats hNodup c.perEq eq]
  simp only [startTick]
  split
  · rfl
  · exact evaluateAll_window settings start.tickIndex start.handled _ eq

/-- The result of a clearing leaves the window of signals as it is. -/
theorem updateClearingResult_window (cfg : PolicyConfig) (s : PerEqState) (volume : FloatingPoint.Binary64) (costMs : ℚ)
    (tick : ℤ) : (updateClearingResult cfg s volume costMs tick).window = s.window := by
  simp only [updateClearingResult]
  split
  · rfl
  · rfl

/-- A clearing leaves the windows of signals as they are. -/
theorem clearNext_window (settings : Settings) (runId : RunId) (elapsedMs : ℚ) (outcome : ClearingOutcome)
    (c : Coordinator) (eq : String) :
    ((clearNext settings runId elapsedMs outcome c).2.perEq eq).window = (c.perEq eq).window := by
  simp only [clearNext]
  split
  · rfl
  · rename_i first budgetMs maxDepth rest hPending
    split
    · rfl
    · simp only
      by_cases hEq : eq = first
      · rw [hEq, Function.update_self, updateClearingResult_window]
      · rw [Function.update_of_ne hEq]

/-- The last step of a run feeds at most one more tick. -/
theorem fedTicks_append (steps : List (PressureStep Effects Patch)) (s : PressureStep Effects Patch) (eq : String) :
    fedTicks (steps ++ [s]) eq = fedTicks steps eq ++ (s.feeds eq).toList := by
  rw [fedTicks, List.filterMap_append, fedTicks]
  cases h : s.feeds eq with
  | none => rw [List.filterMap_cons_none h, List.filterMap_nil, Option.toList_none]
  | some payments => rw [List.filterMap_cons_some h, List.filterMap_nil, Option.toList_some]

/-- The window of an equivalent holds the signals of the last ticks that fed it. -/
theorem window_afterSteps (settings : Settings) (steps : List (PressureStep Effects Patch)) (eq : String) :
    ((afterSteps settings steps).perEq eq).window =
      lastTicks settings.policy ((fedTicks steps eq).map fun t => signalsOf (t.result.eqStats eq)) := by
  induction steps using List.reverseRecOn with
  | nil =>
      rw [lastTicks]
      exact List.drop_nil.symm
  | append_singleton steps s ih =>
      rw [afterSteps, List.foldl_append, List.foldl_cons, List.foldl_nil, ← afterSteps, fedTicks_append]
      cases s with
      | clear runId elapsedMs outcome =>
          refine (clearNext_window settings runId elapsedMs outcome _ eq).trans ?_
          rw [PressureStep.feeds, Option.toList_none, List.append_nil, ih]
      | tick start payments =>
          have hWindow := @startTick_window settings
            ({ start with
              equivalents := realEquivalents start.equivalents, stats := payments.result.eqStats })
            (nodup_handled rfl) (afterSteps settings steps) eq
          have hHandled : eq ∈ ({ start with
              equivalents := realEquivalents start.equivalents, stats := payments.result.eqStats } :
                TickStart).handled ↔ start.clearingEnabled ∧ eq ∈ start.equivalents := by
            rw [TickStart.handled]
            cases start.clearingEnabled <;> simp [mem_realEquivalents]
          refine hWindow.trans ?_
          rw [PressureStep.feeds]
          by_cases hFed : start.clearingEnabled ∧ eq ∈ start.equivalents
          · rw [if_pos (hHandled.mpr hFed), if_pos hFed, Option.toList_some, List.map_append, List.map_singleton,
              ih, lastTicks_append]
          · rw [if_neg fun h => hFed (hHandled.mp h), if_neg hFed, Option.toList_none, List.append_nil, ih]

end Window

section Statements

variable {Effects Patch : Type}

/-- The share of the payments of these ticks that was turned down for want of capacity. -/
def noCapacityShare (ticks : List (Tick Effects Patch)) (eq : String) : ℚ :=
  let processed : Nat := (ticks.map (·.processed eq)).sum
  let refused : Nat := (ticks.map (·.refused eq)).sum
  if processed = 0 then 0 else (refused : ℚ) / processed

/-- Each payment is counted once: in the signals of every tick, and in the rate
over the window, which is the float of the ratio here. -/
def CountsOnce (settings : Settings) (steps : List (PressureStep Effects Patch)) (eq : String) : Prop :=
  (∀ t ∈ fedTicks steps eq, t.result.attempted eq = t.processed eq ∧
    (t.result.eqStats eq).routingNoCapacity ≤ t.result.attempted eq) ∧
  noCapacityRatio ((afterSteps settings steps).perEq eq) =
    noCapacityShare (lastTicks settings.policy (fedTicks steps eq)) eq

/-- The signals of a tick are its attempts, timeouts counted twice, and its refusals. -/
theorem Tick.signals_eq (t : Tick Effects Patch) (eq : String) :
    signalsOf (t.result.eqStats eq) = (t.processed eq + t.timedOut eq, t.refused eq) := by
  have hAttempted := t.attempted_eq eq
  rw [Result.attempted] at hAttempted
  rw [signalsOf, hAttempted, t.noCapacity_eq, Int.toNat_natCast, Int.toNat_natCast]

theorem map_lastTicks (cfg : PolicyConfig) {Entry Entry' : Type} (f : Entry → Entry') (entries : List Entry) :
    (lastTicks cfg entries).map f = lastTicks cfg (entries.map f) := by
  rw [lastTicks, lastTicks, List.map_drop, List.length_map]

/-- Without a timeout the rate over the window is the share. -/
theorem noCapacityRatio_eq (settings : Settings) {steps : List (PressureStep Effects Patch)} {eq : String}
    (hOnTime : ∀ t ∈ fedTicks steps eq, t.timedOut eq = 0) :
    noCapacityRatio ((afterSteps settings steps).perEq eq) =
      noCapacityShare (lastTicks settings.policy (fedTicks steps eq)) eq := by
  have hSignals : (fedTicks steps eq).map (fun t => signalsOf (t.result.eqStats eq)) =
      (fedTicks steps eq).map fun t => (t.processed eq, t.refused eq) :=
    List.map_congr_left fun t hMem => by rw [t.signals_eq, hOnTime t hMem, Nat.add_zero]
  rw [noCapacityRatio, window_afterSteps, hSignals, ← map_lastTicks, List.map_map, List.map_map]
  rfl

/-- The signals and the rate count each payment once exactly when none of the
payments timed out. -/
theorem pressure_counts_once_iff (settings : Settings) (steps : List (PressureStep Effects Patch)) (eq : String) :
    CountsOnce settings steps eq ↔ ∀ t ∈ fedTicks steps eq, ∀ task ∈ t.call.tasks,
      task.1.equivalent = eq → timesOut t.call.knownSender task = false := by
  have hNone (t : Tick Effects Patch) : t.timedOut eq = 0 ↔
      ∀ task ∈ t.call.tasks, task.1.equivalent = eq → timesOut t.call.knownSender task = false := by
    rw [Tick.timedOut, List.countP_eq_zero]
    simp
  constructor
  · intro h t hMem
    have hOnce := (h.1 t hMem).1
    rw [t.attempted_eq, Nat.cast_inj] at hOnce
    exact (hNone t).mp (by omega)
  · intro h
    have hOnTime : ∀ t ∈ fedTicks steps eq, t.timedOut eq = 0 := fun t hMem => (hNone t).mpr (h t hMem)
    refine ⟨fun t hMem => ?_, noCapacityRatio_eq settings hOnTime⟩
    rw [t.attempted_eq, t.noCapacity_eq, hOnTime t hMem, Nat.add_zero]
    exact ⟨rfl, Nat.cast_le.mpr (t.refused_le eq)⟩

/-- One payment of one tick, which times out. -/
def timeoutTick : Tick Unit Unit where
  call := {
    tasks := [(⟨0, "ALICE", "BOB", "UAH", "1"⟩, .raised ⟨"TimeoutException", true, some 504, some "E007", "Timeout"⟩)]
    knownSender := fun _ => true
    equivalents := ["UAH"]
    maxTimeoutsPerTick := 5
    queueDepth := 1
    allRejectedTicks := 0 }
  trace := [.ends 0, .take true none none, .leave true]
  numbered := by decide
  finished := rfl

def timeoutTicks : List (PressureStep Unit Unit) :=
  [.tick ⟨"run", 0, ["UAH"], true, fun _ => ⟨0, 0, 0, 0, 0⟩, 0, 0, true, true⟩ timeoutTick]

/-- The one payment counts as two attempts. -/
theorem timeout_counted_twice : ¬ ∀ (settings : Settings) (steps : List (PressureStep Unit Unit)) (eq : String),
    CountsOnce settings steps eq := by
  intro h
  have hFed : fedTicks timeoutTicks "UAH" = [timeoutTick] := rfl
  have hOnce := ((h .sample timeoutTicks "UAH").1 timeoutTick (hFed ▸ List.mem_singleton_self _)).1
  revert hOnce
  decide +kernel

end Statements

end PaymentsExecutor

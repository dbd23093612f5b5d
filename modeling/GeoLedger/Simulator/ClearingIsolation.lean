import Mathlib
import GeoLedger.Simulator.AdaptiveClearing

/-! Whether the decisions for one run depend on the other runs of the process.
The coordinator of a process that also serves other runs is compared with that
of a process that serves the run alone: they agree on every equivalent that no
other run has handled. -/
namespace AdaptiveClearing

variable (settings : Settings) {r : RunId} {c c' : Coordinator}

/-- The policy states agree outside the equivalents that other runs handled. -/
def AgreeOff (foreign : Set String) (perEq perEq' : String → PerEqState) : Prop :=
  ∀ eq ∉ foreign, perEq eq = perEq' eq

theorem AgreeOff.update {foreign : Set String} {perEq perEq' : String → PerEqState}
    (h : AgreeOff foreign perEq perEq') {eq : String} {s s' : PerEqState} (hState : eq ∉ foreign → s = s') :
    AgreeOff foreign (Function.update perEq eq s) (Function.update perEq' eq s') := by
  intro other hOther
  by_cases hEq : other = eq
  · subst hEq
    simp only [Function.update_self]
    exact hState hOther
  · simp only [Function.update_of_ne hEq]
    exact h other hOther

section Frame

/-- A tick records signals only for the equivalents it handles. -/
theorem recordAll_of_notMem (stats : String → EqStats) {eqs : List String} {eq : String} (hEq : eq ∉ eqs)
    (perEq : String → PerEqState) : recordAll settings stats eqs perEq eq = perEq eq := by
  induction eqs generalizing perEq with
  | nil => rfl
  | cons first rest ih =>
      rw [List.mem_cons, not_or] at hEq
      rw [recordAll, List.foldl_cons, ← recordAll, ih hEq.2, Function.update_of_ne hEq.1]

theorem evaluateAll_of_notMem (tickIndex : ℤ) {eqs : List String} {eq : String} (hEq : eq ∉ eqs)
    (perEq : String → PerEqState) : (evaluateAll settings tickIndex eqs perEq).2 eq = perEq eq := by
  induction eqs generalizing perEq with
  | nil => rfl
  | cons first rest ih =>
      rw [List.mem_cons, not_or] at hEq
      rw [evaluateAll, ih hEq.2, Function.update_of_ne hEq.1]

theorem evaluateAll_fst (tickIndex : ℤ) (eqs : List String) (perEq : String → PerEqState) :
    (evaluateAll settings tickIndex eqs perEq).1.map Prod.fst = eqs := by
  induction eqs generalizing perEq with
  | nil => rfl
  | cons first rest ih => rw [evaluateAll, List.map_cons, ih]

theorem startTick_of_notMem {t : TickStart} {eq : String} (hEq : eq ∉ t.handled) :
    (startTick settings t c).2.perEq eq = c.perEq eq := by
  rw [startTick]
  split
  · exact recordAll_of_notMem settings _ hEq _
  · exact (evaluateAll_of_notMem settings _ hEq _).trans (recordAll_of_notMem settings _ hEq _)

/-- A tick leaves the clearing loops of the other runs alone. -/
theorem startTick_pending_of_ne {t : TickStart} (hRun : t.runId ≠ r) :
    (startTick settings t c).2.pending r = c.pending r := by
  rw [startTick]
  split <;> exact Function.update_of_ne hRun.symm _ _

/-- A tick clears only equivalents that it handles. -/
theorem startTick_pending_mem {t : TickStart} {eq : String}
    (h : eq ∈ ((startTick settings t c).2.pending t.runId).eqsToClear.map Prod.fst) : eq ∈ t.handled := by
  rw [startTick] at h
  split at h
  · simp [Pending.idle] at h
  · simp only [Function.update_self] at h
    split at h
    · rw [List.map_map, List.mem_map] at h
      obtain ⟨p, hp, rfl⟩ := h
      rw [← evaluateAll_fst settings t.tickIndex t.handled (recordAll settings t.stats t.handled c.perEq)]
      exact List.mem_map_of_mem (List.mem_of_mem_filter hp)
    · cases h

end Frame

section Agreement

variable {foreign : Set String} {perEq perEq' : String → PerEqState}

theorem recordAll_agree (stats : String → EqStats) (eqs : List String) (h : AgreeOff foreign perEq perEq') :
    AgreeOff foreign (recordAll settings stats eqs perEq) (recordAll settings stats eqs perEq') := by
  induction eqs generalizing perEq perEq' with
  | nil => exact h
  | cons eq rest ih =>
      rw [recordAll, recordAll, List.foldl_cons, List.foldl_cons]
      exact ih (h.update fun hEq => by rw [h eq hEq])

theorem evaluateAll_agree (tickIndex : ℤ) {eqs : List String} (hOwn : ∀ eq ∈ eqs, eq ∉ foreign)
    (h : AgreeOff foreign perEq perEq') :
    (evaluateAll settings tickIndex eqs perEq).1 = (evaluateAll settings tickIndex eqs perEq').1 ∧
    AgreeOff foreign (evaluateAll settings tickIndex eqs perEq).2 (evaluateAll settings tickIndex eqs perEq').2 := by
  induction eqs generalizing perEq perEq' with
  | nil => exact ⟨rfl, h⟩
  | cons eq rest ih =>
      have hEq := h eq (hOwn eq List.mem_cons_self)
      have hNext : AgreeOff foreign (Function.update perEq eq (evaluate settings.policy (perEq eq) tickIndex).2)
          (Function.update perEq' eq (evaluate settings.policy (perEq' eq) tickIndex).2) :=
        h.update fun _ => by rw [hEq]
      obtain ⟨hLater, hAgree⟩ := ih (fun e he => hOwn e (List.mem_cons_of_mem _ he)) hNext
      simp only [evaluateAll]
      exact ⟨by rw [hLater, hEq], hAgree⟩

end Agreement

section ClearingLoop

/-- A round of the loop changes the state of an equivalent still to be cleared. -/
theorem clearNext_of_notMem {q : RunId} {elapsedMs : ℚ} {outcome : ClearingOutcome} {eq : String}
    (hEq : eq ∉ (c.pending q).eqsToClear.map Prod.fst) :
    (clearNext settings q elapsedMs outcome c).2.perEq eq = c.perEq eq := by
  unfold clearNext
  simp only
  split
  · rfl
  · next first budgetMs maxDepth rest hPending =>
      rw [hPending, List.map_cons, List.mem_cons, not_or] at hEq
      split
      · rfl
      · exact Function.update_of_ne hEq.1 _ _

theorem clearNext_pending_of_ne {q : RunId} {elapsedMs : ℚ} {outcome : ClearingOutcome} (hRun : q ≠ r) :
    (clearNext settings q elapsedMs outcome c).2.pending r = c.pending r := by
  unfold clearNext
  simp only
  split
  · rfl
  · split <;> exact Function.update_of_ne hRun.symm _ _

theorem clearNext_pending_mem {q : RunId} {elapsedMs : ℚ} {outcome : ClearingOutcome} {eq : String}
    (h : eq ∈ ((clearNext settings q elapsedMs outcome c).2.pending q).eqsToClear.map Prod.fst) :
    eq ∈ (c.pending q).eqsToClear.map Prod.fst := by
  unfold clearNext at h
  simp only at h
  split at h
  · exact h
  · next first budgetMs maxDepth rest hPending =>
      rw [hPending, List.map_cons]
      split at h
      · simp [Pending.idle] at h
      · simp only [Function.update_self] at h
        split at h
        · cases h
        · exact List.mem_cons_of_mem _ h

/-- A round decides from the loop alone, and keeps the agreement. -/
theorem clearNext_agree {foreign : Set String} {elapsedMs : ℚ} {outcome : ClearingOutcome}
    (hOwn : c.pending r = c'.pending r) (hAgree : AgreeOff foreign c.perEq c'.perEq) :
    (clearNext settings r elapsedMs outcome c).1 = (clearNext settings r elapsedMs outcome c').1 ∧
    AgreeOff foreign (clearNext settings r elapsedMs outcome c).2.perEq
      (clearNext settings r elapsedMs outcome c').2.perEq ∧
    (clearNext settings r elapsedMs outcome c).2.pending r =
      (clearNext settings r elapsedMs outcome c').2.pending r := by
  unfold clearNext
  simp only [← hOwn]
  split
  · exact ⟨rfl, hAgree, hOwn⟩
  · split
    · exact ⟨rfl, hAgree, by simp only [Function.update_self]⟩
    · refine ⟨rfl, hAgree.update fun hEq => ?_, by simp only [Function.update_self]⟩
      rw [hAgree _ hEq]

end ClearingLoop

section Runs

/-- The coordinator of the process and that of the run alone: they agree outside
the equivalents that other runs handled, and other runs clear only those. -/
structure Separate (r : RunId) (foreign : Set String) (c c' : Coordinator) : Prop where
  agree : AgreeOff foreign c.perEq c'.perEq
  own : c.pending r = c'.pending r
  confined : ∀ q, q ≠ r → ∀ eq ∈ (c.pending q).eqsToClear.map Prod.fst, eq ∈ foreign

/-- A step of the run itself takes the same decisions in both. -/
theorem Separate.own_step {foreign : Set String} (h : Separate r foreign c c') {s : Step} (hRun : s.runId = r)
    (hOwn : ∀ eq ∈ s.handled, eq ∉ foreign) :
    (step settings s c).1 = (step settings s c').1 ∧
    Separate r foreign (step settings s c).2 (step settings s c').2 := by
  cases s with
  | start t =>
      obtain rfl : t.runId = r := hRun
      have hOwn : ∀ eq ∈ t.handled, eq ∉ foreign := hOwn
      have hRecorded := recordAll_agree settings t.stats t.handled h.agree
      obtain ⟨hDecisions, hEvaluated⟩ := evaluateAll_agree settings t.tickIndex hOwn hRecorded
      have hConfined : ∀ q, q ≠ t.runId →
          ∀ eq ∈ ((startTick settings t c).2.pending q).eqsToClear.map Prod.fst, eq ∈ foreign := by
        intro q hq
        rw [startTick_pending_of_ne settings hq.symm]
        exact h.confined q hq
      simp only [step]
      by_cases hSkip : t.clearingEnabled = false ∨ guarded settings t = true
      · refine ⟨by simp only [startTick, if_pos hSkip], ?_, ?_, hConfined⟩
        · simpa only [startTick, if_pos hSkip] using hRecorded
        · simp only [startTick, if_pos hSkip, Function.update_self]
      · refine ⟨by simp only [startTick, if_neg hSkip, hDecisions], ?_, ?_, hConfined⟩
        · simpa only [startTick, if_neg hSkip] using hEvaluated
        · simp only [startTick, if_neg hSkip, Function.update_self, hDecisions]
  | clear runId elapsedMs outcome =>
      obtain rfl : runId = r := hRun
      obtain ⟨hDecisions, hAgree, hPending⟩ := clearNext_agree settings h.own h.agree
      refine ⟨hDecisions, hAgree, hPending, fun q hq => ?_⟩
      simp only [step]
      rw [clearNext_pending_of_ne settings hq.symm]
      exact h.confined q hq

/-- A step of another run changes only what that run handled. -/
theorem Separate.foreign_step {foreign : Set String} (h : Separate r foreign c c') {s : Step} (hRun : s.runId ≠ r) :
    Separate r (foreign ∪ {eq | eq ∈ s.handled}) (step settings s c).2 c' := by
  cases s with
  | start t =>
      refine ⟨fun eq hEq => ?_, ?_, fun q hq eq hEq => ?_⟩
      · have hNot : eq ∉ t.handled := fun hMem => hEq (.inr hMem)
        rw [← h.agree eq fun hMem => hEq (.inl hMem)]
        exact startTick_of_notMem settings hNot
      · exact (startTick_pending_of_ne settings hRun).trans h.own
      · simp only [step] at hEq
        by_cases hOther : t.runId = q
        · subst hOther
          exact .inr (startTick_pending_mem settings hEq)
        · rw [startTick_pending_of_ne settings hOther] at hEq
          exact .inl (h.confined q hq eq hEq)
  | clear runId elapsedMs outcome =>
      refine ⟨fun eq hEq => ?_, ?_, fun q hq eq hEq => ?_⟩
      · have hForeign : eq ∉ foreign := fun hMem => hEq (.inl hMem)
        rw [← h.agree eq hForeign]
        exact clearNext_of_notMem settings fun hMem => hForeign (h.confined runId hRun eq hMem)
      · exact (clearNext_pending_of_ne settings hRun).trans h.own
      · simp only [step] at hEq
        by_cases hOther : runId = q
        · subst hOther
          exact .inl (h.confined runId hq eq (clearNext_pending_mem settings hEq))
        · rw [clearNext_pending_of_ne settings hOther] at hEq
          exact .inl (h.confined q hq eq hEq)

/-- Before a run handles an equivalent, no other run has handled it. -/
def Separated (r : RunId) (steps : List Step) : Prop :=
  steps.Pairwise fun s u => s.runId ≠ r → u.runId = r → ∀ eq ∈ s.handled, eq ∉ u.handled

/-- The decisions for a run are those of a process that serves the run alone. -/
theorem decisionsFor_alone {steps : List Step} {foreign : Set String} (hSeparated : Separated r steps)
    (hForeign : ∀ u ∈ steps, u.runId = r → ∀ eq ∈ u.handled, eq ∉ foreign) (h : Separate r foreign c c') :
    decisionsFor settings r steps c = decisionsFor settings r (steps.filter (·.runId = r)) c' := by
  induction steps generalizing c c' foreign with
  | nil => rfl
  | cons s rest ih =>
      obtain ⟨hFirst, hRest⟩ := List.pairwise_cons.mp hSeparated
      by_cases hRun : s.runId = r
      · obtain ⟨hSame, hNext⟩ := h.own_step settings hRun (hForeign s List.mem_cons_self hRun)
        rw [List.filter_cons_of_pos (by simpa using hRun), decisionsFor, decisionsFor, hSame,
          ih hRest (fun u hu => hForeign u (List.mem_cons_of_mem _ hu)) hNext]
      · have hNext := h.foreign_step settings hRun
        have hLater : ∀ u ∈ rest, u.runId = r → ∀ eq ∈ u.handled, eq ∉ foreign ∪ {eq | eq ∈ s.handled} := by
          intro u hu hOwn eq hEq hMem
          rcases hMem with hMem | hMem
          · exact hForeign u (List.mem_cons_of_mem _ hu) hOwn eq hEq hMem
          · exact hFirst u hu hRun hOwn eq hMem hEq
        rw [List.filter_cons_of_neg (by simpa using hRun), decisionsFor, if_neg hRun, List.nil_append,
          ih hRest hLater hNext]

/-- Two interleavings with the same steps of a run take the same decisions for it,
when no other run handles an equivalent before the run does. -/
theorem adaptive_decisions_isolated {steps steps' : List Step}
    (hSame : steps.filter (·.runId = r) = steps'.filter (·.runId = r)) (hSeparated : Separated r steps)
    (hSeparated' : Separated r steps') :
    decisionsFor settings r steps .fresh = decisionsFor settings r steps' .fresh := by
  have hFresh : Separate r ∅ .fresh .fresh := ⟨fun _ _ => rfl, rfl, by simp [Coordinator.fresh, Pending.idle]⟩
  rw [decisionsFor_alone settings hSeparated (by simp) hFresh,
    decisionsFor_alone settings hSeparated' (by simp) hFresh, hSame]

/-- Default thresholds, with a window of two ticks. -/
def Settings.sample : Settings where
  policy := ⟨2, by decide, .ofRat (3 / 5), .ofRat (3 / 10), 5, 60, 0, 0, 3, 6, 50, 250, 6, 250, 0⟩
  realClearingTimeBudgetMs := 250
  tickBudgetMs := 0
  maxEqPerTick := 0

/-- A tick whose ten payments all fail for want of capacity. -/
def TickStart.starved (runId : RunId) (eq : String) : TickStart where
  runId := runId
  tickIndex := 0
  equivalents := [eq]
  clearingEnabled := true
  stats _ := ⟨0, 10, 0, 0, 10⟩
  inFlight := 0
  queueDepth := 0
  hasRunner := true
  committed := true

/-- Run a decides alike whether run b starves in another equivalent before it or after it. -/
theorem adaptive_decisions_isolated_sample :
    decisionsFor .sample "a" [.start (.starved "b" "HOUR"), .start (.starved "a" "UAH")] .fresh =
      decisionsFor .sample "a" [.start (.starved "a" "UAH"), .start (.starved "b" "HOUR")] .fresh := by
  apply adaptive_decisions_isolated
  · simp [Step.runId, TickStart.starved]
  · simp [Separated, Step.runId, Step.handled, TickStart.handled, TickStart.starved]
  · simp [Separated, Step.runId, Step.handled, TickStart.handled, TickStart.starved]

/-- The first tick of a run is a warm-up; after a tick of another run in the same
equivalent the window counts as filled, and the same tick clears. -/
theorem adaptive_decisions_leak :
    ¬ ∀ (settings : Settings) (r : RunId) (steps steps' : List Step),
      steps.filter (·.runId = r) = steps'.filter (·.runId = r) →
        decisionsFor settings r steps .fresh = decisionsFor settings r steps' .fresh := by
  intro h
  have hSame := h .sample "a" [.start (.starved "a" "UAH")]
    [.start (.starved "b" "UAH"), .start (.starved "a" "UAH")] (by simp [Step.runId, TickStart.starved])
  revert hSame
  decide +kernel

end Runs

end AdaptiveClearing

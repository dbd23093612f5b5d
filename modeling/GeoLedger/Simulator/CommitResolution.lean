import Mathlib
import GeoLedger.Library.Runs

/-! `resolve_commit_under_cancellation`: a commit and, when it fails, a rollback run
as tasks of their own, and the caller waits for each behind a shield. A task may
end in any way at any time, the caller may be cancelled at any time, and what
the caller learns when it resumes is what has happened until then. -/
namespace CommitResolution

section Model

/-- How a task ends. -/
inductive Outcome where
  | succeeded
  | failed
  | cancelled
deriving DecidableEq, Repr

inductive TaskState where
  | absent
  | running
  | done (outcome : Outcome)
deriving DecidableEq, Repr

inductive TaskName where
  | commit
  | rollback
deriving DecidableEq, Repr

inductive Callback where
  | onCommit
  | onRollback
  | onUnknown
deriving DecidableEq, Repr

/-- How the function ends. -/
inductive Ending where
  | returned
  | raisedCancellation
  | raisedCommitError
deriving DecidableEq, Repr

/-- The task that the function drains, or its end. -/
inductive Phase where
  | draining (task : TaskName)
  | ended (ending : Ending)
deriving DecidableEq, Repr

/-- The function with its tasks. `pendingCancel` tells that the caller resumes with a
`CancelledError`; further requests until then merge with it. -/
structure Resolver where
  commit : TaskState
  rollback : TaskState
  cancelling : Nat
  pendingCancel : Bool
  cancellation : Bool
  childCancelRequests : Nat
  calls : List Callback
  phase : Phase
deriving DecidableEq, Repr

/-- The commit has been started and the caller waits for it. -/
def Resolver.start : Resolver where
  commit := .running
  rollback := .absent
  cancelling := 0
  pendingCancel := false
  cancellation := false
  childCancelRequests := 0
  calls := []
  phase := .draining .commit

/-- A task ends, `cancel()` is called on the caller, or the caller resumes. -/
inductive Event where
  | taskEnds (task : TaskName) (outcome : Outcome)
  | cancelCaller
  | resume
deriving DecidableEq, Repr

def Resolver.task (s : Resolver) : TaskName → TaskState
  | .commit => s.commit
  | .rollback => s.rollback

/-- A callback, and the end of the function. -/
def Resolver.finish (s : Resolver) (callback : Callback) : Resolver :=
  { s with
    calls := s.calls ++ [callback]
    phase := .ended
      (if s.cancellation then .raisedCancellation
      else if s.commit = .done .succeeded then .returned
      else .raisedCommitError) }

/-- What follows the drain of a task. -/
def Resolver.drained (s : Resolver) (task : TaskName) (outcome : Outcome) : Resolver :=
  match task, outcome with
  | .commit, .succeeded => s.finish .onCommit
  | .commit, _ => { s with rollback := .running, phase := .draining .rollback }
  | .rollback, .succeeded => s.finish (if s.commit = .done .cancelled then .onUnknown else .onRollback)
  | .rollback, _ => s.finish .onUnknown

/-- A cancellation that finds the task running is kept, or passed on to the task
when one has been kept before. -/
def Resolver.hear (s : Resolver) : Resolver :=
  { s with
    pendingCancel := false
    cancellation := true
    childCancelRequests := if s.cancellation then s.childCancelRequests + 1 else s.childCancelRequests }

/-- The caller resumes in the loop of `_drain_task`. -/
def Resolver.resume (s : Resolver) : Resolver :=
  match s.phase with
  | .ended _ => s
  | .draining task =>
      match s.task task with
      | .absent => s
      | .running => if s.pendingCancel then s.hear else s
      -- whatever the shield raised, a task that is done ends the loop
      | .done outcome => { s with pendingCancel := false }.drained task outcome

def step (s : Resolver) : Event → Resolver
  | .taskEnds .commit outcome => if s.commit = .running then { s with commit := .done outcome } else s
  | .taskEnds .rollback outcome => if s.rollback = .running then { s with rollback := .done outcome } else s
  | .cancelCaller =>
      match s.phase with
      | .ended _ => s
      | .draining _ => { s with cancelling := s.cancelling + 1, pendingCancel := true }
  | .resume => s.resume

/-- The state after a schedule. -/
def run (trace : List Event) : Resolver := trace.foldl step .start

end Model

section Truth

/-- The callback tells what became of the commit. -/
structure Truthful (s : Resolver) : Prop where
  one : ∃ callback, s.calls = [callback]
  onCommit : .onCommit ∈ s.calls ↔ s.commit = .done .succeeded
  onRollback : .onRollback ∈ s.calls → s.commit = .done .failed ∧ s.rollback = .done .succeeded
  settled : s.commit ≠ .running ∧ s.rollback ≠ .running

/-- The end that the results ask for. -/
def Resolver.ending (s : Resolver) : Ending :=
  if s.cancellation then .raisedCancellation
  else if s.commit = .done .succeeded then .returned
  else .raisedCommitError

/-- What holds of the function in each phase. -/
def Resolver.Holds (s : Resolver) : Prop :=
  match s.phase with
  | .draining .commit => s.commit ≠ .absent ∧ s.rollback = .absent ∧ s.calls = []
  | .draining .rollback => s.rollback ≠ .absent ∧ s.calls = [] ∧ (s.commit = .done .failed ∨ s.commit = .done .cancelled)
  | .ended ending => Truthful s ∧ ending = s.ending

/-- The invariant holds when the commit task is started. -/
theorem Resolver.start_holds : Resolver.start.Holds := ⟨by decide, rfl, rfl⟩

/-- The invariant is kept when the wait for the commit is over. -/
theorem Resolver.drained_commit {s : Resolver} {outcome : Outcome} (hPhase : s.phase = .draining .commit)
    (h : s.Holds) (hDone : s.commit = .done outcome) : (s.drained .commit outcome).Holds := by
  rw [Resolver.Holds, hPhase] at h
  obtain ⟨-, hRollback, hCalls⟩ := h
  cases outcome with
  | succeeded =>
      refine ⟨⟨⟨.onCommit, ?_⟩, ?_, ?_, ?_, ?_⟩, rfl⟩
      · simp [Resolver.drained, Resolver.finish, hCalls]
      · simp [Resolver.drained, Resolver.finish, hCalls, hDone]
      · simp [Resolver.drained, Resolver.finish, hCalls]
      · simp [Resolver.drained, Resolver.finish, hDone]
      · simp [Resolver.drained, Resolver.finish, hRollback]
  | failed => exact ⟨by simp [Resolver.drained], hCalls, Or.inl hDone⟩
  | cancelled => exact ⟨by simp [Resolver.drained], hCalls, Or.inr hDone⟩

/-- The invariant is kept when the wait for the rollback is over. -/
theorem Resolver.drained_rollback {s : Resolver} {outcome : Outcome} (hPhase : s.phase = .draining .rollback)
    (h : s.Holds) (hDone : s.rollback = .done outcome) : (s.drained .rollback outcome).Holds := by
  rw [Resolver.Holds, hPhase] at h
  obtain ⟨-, hCalls, hCommit⟩ := h
  -- the callback, by the outcomes of the two tasks
  have hFinish : ∀ callback, callback ≠ .onCommit →
      (callback = .onRollback → s.commit = .done .failed ∧ outcome = .succeeded) → (s.finish callback).Holds := by
    intro callback hNot hTrue
    have hCalled : (s.finish callback).calls = [callback] := by simp [Resolver.finish, hCalls]
    have hCommit' : (s.finish callback).commit = s.commit := rfl
    have hRollback' : (s.finish callback).rollback = s.rollback := rfl
    refine ⟨⟨⟨callback, hCalled⟩, ?_, fun hMem => ?_, ?_, ?_⟩, rfl⟩
    · rw [hCalled, List.mem_singleton, hCommit']
      rcases hCommit with hFailed | hCancelled
      · simp [hFailed, Ne.symm hNot]
      · simp [hCancelled, Ne.symm hNot]
    · rw [hCalled, List.mem_singleton] at hMem
      obtain ⟨hFailed, rfl⟩ := hTrue hMem.symm
      exact ⟨hFailed, hDone⟩
    · rw [hCommit']
      rcases hCommit with hFailed | hCancelled
      · simp [hFailed]
      · simp [hCancelled]
    · simp [hRollback', hDone]
  cases outcome with
  | succeeded =>
      rcases hCommit with hFailed | hCancelled
      · rw [Resolver.drained, if_neg (by simp [hFailed])]
        exact hFinish .onRollback (by decide) fun _ => ⟨hFailed, rfl⟩
      · rw [Resolver.drained, if_pos hCancelled]
        exact hFinish .onUnknown (by decide) fun h => nomatch h
  | failed => exact hFinish .onUnknown (by decide) fun h => nomatch h
  | cancelled => exact hFinish .onUnknown (by decide) fun h => nomatch h

/-- The invariant is kept when the resolver goes on after a wait. -/
theorem Resolver.resume_holds {s : Resolver} (h : s.Holds) : s.resume.Holds := by
  rw [Resolver.resume]
  split
  · exact h
  · next task hPhase =>
      split
      · exact h
      · split
        · rw [Resolver.Holds, hPhase] at h
          rw [Resolver.Holds, Resolver.hear]
          simp only [hPhase]
          cases task with
          | commit => exact h
          | rollback => exact h
        · exact h
      · next outcome hDone =>
          have hQuiet : Resolver.Holds { s with pendingCancel := false } := by
            rw [Resolver.Holds, hPhase] at h
            rw [Resolver.Holds]
            simp only [hPhase]
            cases task with
            | commit => exact h
            | rollback => exact h
          cases task with
          | commit => exact Resolver.drained_commit (s := { s with pendingCancel := false }) hPhase hQuiet hDone
          | rollback => exact Resolver.drained_rollback (s := { s with pendingCancel := false }) hPhase hQuiet hDone

/-- Every event keeps the invariant. -/
theorem Resolver.step_holds {s : Resolver} (h : s.Holds) (event : Event) : (step s event).Holds := by
  cases event with
  | resume => exact Resolver.resume_holds h
  | cancelCaller =>
      rw [step]
      split
      · exact h
      · next task hPhase =>
          rw [Resolver.Holds, hPhase] at h
          rw [Resolver.Holds]
          simp only [hPhase]
          cases task with
          | commit => exact h
          | rollback => exact h
  | taskEnds task outcome =>
      cases task with
      | commit =>
          rw [step]
          split
          · next hRunning =>
              rw [Resolver.Holds] at h ⊢
              simp only
              split at h
              · exact ⟨by simp, h.2⟩
              · rcases h.2.2 with hFailed | hCancelled
                · rw [hRunning] at hFailed
                  cases hFailed
                · rw [hRunning] at hCancelled
                  cases hCancelled
              · exact absurd hRunning h.1.settled.1
          · exact h
      | rollback =>
          rw [step]
          split
          · next hRunning =>
              rw [Resolver.Holds] at h ⊢
              simp only
              split at h
              · rw [hRunning] at h
                cases h.2.1
              · exact ⟨by simp, h.2⟩
              · exact absurd hRunning h.1.settled.2
          · exact h

/-- The invariant holds after any sequence of events. -/
theorem run_holds (trace : List Event) : (run trace).Holds :=
  Transition.foldl_invariant (P := Resolver.Holds) trace .start Resolver.start_holds
    fun _ event h => Resolver.step_holds h event

end Truth

section Cancellation

/-- The caller resumes with a cancellation while the task it waits for is running. -/
def Resolver.Hears (s : Resolver) : Prop :=
  s.pendingCancel = true ∧ ∃ task, s.phase = .draining task ∧ s.task task = .running

/-- Some cancellation of the caller is delivered while the task is running. -/
def Heard (trace : List Event) : Prop :=
  ∃ before after, trace = before ++ .resume :: after ∧ (run before).Hears

/-- A cancellation has been heard when one was before, or when the resolver goes on with one
pending that it does hear. -/
theorem heard_append (trace : List Event) (event : Event) :
    Heard (trace ++ [event]) ↔ Heard trace ∨ (event = .resume ∧ (run trace).Hears) := by
  constructor
  · rintro ⟨before, after, hTrace, hHears⟩
    rcases List.eq_nil_or_concat after with rfl | ⟨rest, last, rfl⟩
    · obtain ⟨rfl, hLast⟩ := List.append_inj' hTrace rfl
      exact Or.inr ⟨List.singleton_inj.mp hLast, hHears⟩
    · rw [List.concat_eq_append, ← List.cons_append, ← List.append_assoc] at hTrace
      obtain ⟨rfl, -⟩ := List.append_inj' hTrace rfl
      exact Or.inl ⟨before, rest, rfl, hHears⟩
  · rintro (⟨before, after, rfl, hHears⟩ | ⟨rfl, hHears⟩)
    · exact ⟨before, after ++ [event], by simp, hHears⟩
    · exact ⟨trace, [], rfl, hHears⟩

theorem run_append (trace : List Event) (event : Event) : run (trace ++ [event]) = step (run trace) event := by
  rw [run, List.foldl_append]
  rfl

theorem Resolver.drained_cancellation (s : Resolver) (task : TaskName) (outcome : Outcome) :
    (s.drained task outcome).cancellation = s.cancellation := by
  cases task <;> cases outcome <;> rfl

theorem Resolver.drained_cancelling (s : Resolver) (task : TaskName) (outcome : Outcome) :
    (s.drained task outcome).cancelling = s.cancelling := by
  cases task <;> cases outcome <;> rfl

/-- A cancellation is kept exactly when the caller hears it. -/
theorem Resolver.resume_cancellation (s : Resolver) :
    s.resume.cancellation = true ↔ s.cancellation = true ∨ s.Hears := by
  rw [Resolver.resume, Resolver.Hears]
  split
  · next hPhase => simp [hPhase]
  · next task hPhase =>
      split
      · next hTask => simp [hPhase, hTask]
      · next hTask =>
          split
          · next hPending => simp [hPhase, hTask, hPending, Resolver.hear]
          · next hPending => simp [hPending]
      · next outcome hTask => simp [hPhase, hTask, Resolver.drained_cancellation]

theorem Resolver.resume_cancelling (s : Resolver) : s.resume.cancelling = s.cancelling := by
  rw [Resolver.resume]
  split
  · rfl
  · split
    · rfl
    · split
      · rfl
      · rfl
    · exact Resolver.drained_cancelling _ _ _

/-- Going on brings no new cancellation. -/
theorem Resolver.resume_pending (s : Resolver) (h : s.resume.pendingCancel = true) : s.pendingCancel = true := by
  revert h
  rw [Resolver.resume]
  split
  · exact id
  · next task _ =>
      split
      · exact id
      · split
        · simp [Resolver.hear]
        · exact id
      · next outcome _ => cases task <;> cases outcome <;> simp [Resolver.drained, Resolver.finish]

/-- The resolver remembers a cancellation exactly when it has heard one. -/
theorem cancellation_iff_heard (trace : List Event) : (run trace).cancellation = true ↔ Heard trace := by
  induction trace using List.reverseRecOn with
  | nil =>
      constructor
      · intro h
        cases h
      · rintro ⟨before, after, hTrace, -⟩
        simp at hTrace
  | append_singleton trace event ih =>
      rw [run_append, heard_append, ← ih]
      cases event with
      | resume =>
          have hResume : step (run trace) .resume = (run trace).resume := rfl
          rw [hResume, Resolver.resume_cancellation]
          simp
      | cancelCaller =>
          rw [step]
          split
          · simp
          · simp
      | taskEnds task outcome =>
          cases task with
          | commit =>
              rw [step]
              split
              · simp
              · simp
          | rollback =>
              rw [step]
              split
              · simp
              · simp

/-- What is pending has been requested, and so has what was kept. -/
def Resolver.Requested (s : Resolver) : Prop := s.pendingCancel = true ∨ s.cancellation = true → 0 < s.cancelling

/-- Every event keeps that only requested cancellations are pending or remembered. -/
theorem Resolver.step_requested {s : Resolver} (h : s.Requested) (event : Event) : (step s event).Requested := by
  cases event with
  | cancelCaller =>
      rw [step]
      split
      · exact h
      · exact fun _ => Nat.succ_pos _
  | taskEnds task outcome =>
      cases task with
      | commit =>
          rw [step]
          split
          · exact h
          · exact h
      | rollback =>
          rw [step]
          split
          · exact h
          · exact h
  | resume =>
      intro hSome
      have hCancelling : (step s .resume).cancelling = s.cancelling := s.resume_cancelling
      rw [hCancelling]
      rcases hSome with hPending | hCancellation
      · exact h (Or.inl (s.resume_pending hPending))
      · rcases s.resume_cancellation.mp hCancellation with hOld | hHears
        · exact h (Or.inr hOld)
        · exact h (Or.inl hHears.1)

/-- After any sequence of events only requested cancellations are pending or remembered. -/
theorem run_requested (trace : List Event) : (run trace).Requested :=
  Transition.foldl_invariant (P := Resolver.Requested) trace .start (fun h => by simp [Resolver.start] at h)
    fun _ event h => Resolver.step_requested h event

end Cancellation

section Ends

/-- A task that has ended, one way or the other. -/
def TaskState.Done (s : TaskState) : Prop := ∃ outcome, s = .done outcome

/-- While the resolver waits for the commit, the end of the commit task leaves it waiting
for a task that is done. -/
theorem step_commit_done {s : Resolver} (h : s.Holds) (hPhase : s.phase = .draining .commit) (outcome : Outcome) :
    (step s (.taskEnds .commit outcome)).phase = .draining .commit ∧
      (step s (.taskEnds .commit outcome)).commit.Done := by
  rw [Resolver.Holds, hPhase] at h
  rw [step]
  cases hCommit : s.commit with
  | absent => exact absurd hCommit h.1
  | running => exact ⟨hPhase, outcome, rfl⟩
  | done earlier => exact ⟨hPhase, earlier, hCommit⟩

/-- While the resolver waits for the rollback, the end of the rollback task leaves it
waiting for a task that is done. -/
theorem step_rollback_done {s : Resolver} (h : s.Holds) (hPhase : s.phase = .draining .rollback) (outcome : Outcome) :
    (step s (.taskEnds .rollback outcome)).phase = .draining .rollback ∧
      (step s (.taskEnds .rollback outcome)).rollback.Done := by
  rw [Resolver.Holds, hPhase] at h
  rw [step]
  cases hRollback : s.rollback with
  | absent => exact absurd hRollback h.1
  | running => exact ⟨hPhase, outcome, rfl⟩
  | done earlier => exact ⟨hPhase, earlier, hRollback⟩

/-- Once the commit task is done, the resolver that goes on no longer waits for it. -/
theorem resume_leaves_commit {s : Resolver} (hPhase : s.phase = .draining .commit) (hDone : s.commit.Done) :
    (step s .resume).phase ≠ .draining .commit := by
  obtain ⟨outcome, hDone⟩ := hDone
  have hStep : step s .resume = { s with pendingCancel := false }.drained .commit outcome := by
    rw [step, Resolver.resume, hPhase]
    simp only [Resolver.task, hDone]
  rw [hStep]
  cases outcome with
  | succeeded => exact fun h => nomatch h
  | failed => exact fun h => nomatch h
  | cancelled => exact fun h => nomatch h

/-- Once the rollback task is done, the resolver that goes on ends. -/
theorem resume_ends {s : Resolver} (hPhase : s.phase = .draining .rollback) (hDone : s.rollback.Done) :
    ∃ ending, (step s .resume).phase = .ended ending := by
  obtain ⟨outcome, hDone⟩ := hDone
  have hStep : step s .resume = { s with pendingCancel := false }.drained .rollback outcome := by
    rw [step, Resolver.resume, hPhase]
    simp only [Resolver.task, hDone]
  rw [hStep]
  cases outcome with
  | succeeded => exact ⟨_, rfl⟩
  | failed => exact ⟨_, rfl⟩
  | cancelled => exact ⟨_, rfl⟩

/-- A resolver that has ended stays so. -/
theorem step_ended {s : Resolver} {ending : Ending} (h : s.phase = .ended ending) (event : Event) :
    (step s event).phase = .ended ending := by
  cases event with
  | resume => simp only [step, Resolver.resume, h]
  | cancelCaller => simp only [step, h]
  | taskEnds task outcome =>
      cases task with
      | commit =>
          rw [step]
          split
          · exact h
          · exact h
      | rollback =>
          rw [step]
          split
          · exact h
          · exact h

/-- Once the commit has ended and the caller has resumed, the commit is not waited for. -/
theorem past_commit {s : Resolver} (h : s.Holds) (outcome : Outcome) :
    (step (step s (.taskEnds .commit outcome)) .resume).phase ≠ .draining .commit := by
  cases hPhase : s.phase with
  | ended ending =>
      rw [step_ended (step_ended hPhase _)]
      exact fun h => nomatch h
  | draining task =>
      cases task with
      | commit =>
          obtain ⟨hSame, hDone⟩ := step_commit_done h hPhase outcome
          exact resume_leaves_commit hSame hDone
      | rollback =>
          have hQuiet : step s (.taskEnds .commit outcome) = s := by
            rw [Resolver.Holds, hPhase] at h
            rcases h.2.2 with hFailed | hCancelled
            · rw [step, if_neg (by simp [hFailed])]
            · rw [step, if_neg (by simp [hCancelled])]
          rw [hQuiet]
          intro hBack
          by_cases hDone : s.rollback.Done
          · obtain ⟨ending, hEnded⟩ := resume_ends hPhase hDone
            rw [hEnded] at hBack
            cases hBack
          · rw [step, Resolver.resume, hPhase] at hBack
            simp only [Resolver.task] at hBack
            split at hBack
            · rw [hPhase] at hBack
              cases hBack
            · split at hBack
              · rw [Resolver.hear, hPhase] at hBack
                cases hBack
              · rw [hPhase] at hBack
                cases hBack
            · next earlier hEarlier => exact hDone ⟨earlier, hEarlier⟩

/-- Past the commit, the end of the rollback and one more step are enough to end the
resolver. -/
theorem past_rollback {s : Resolver} (h : s.Holds) (hPast : s.phase ≠ .draining .commit) (outcome : Outcome) :
    ∃ ending, (step (step s (.taskEnds .rollback outcome)) .resume).phase = .ended ending := by
  cases hPhase : s.phase with
  | ended ending => exact ⟨ending, step_ended (step_ended hPhase _) _⟩
  | draining task =>
      cases task with
      | commit => exact absurd hPhase hPast
      | rollback =>
          obtain ⟨hSame, hDone⟩ := step_rollback_done h hPhase outcome
          exact resume_ends hSame hDone

end Ends

section Resolution

/-- What the function owes its caller when it ends. -/
structure Resolves (s : Resolver) (ending : Ending) : Prop where
  truthful : Truthful s
  cancelled : 0 < s.cancelling → ending = .raisedCancellation
  otherwise : s.cancelling = 0 →
    (ending = .returned ↔ s.commit = .done .succeeded) ∧ (s.commit ≠ .done .succeeded → ending = .raisedCommitError)

/-- The resolver ends with a cancellation exactly when it remembers one. -/
theorem Resolver.ending_eq_cancellation_iff (s : Resolver) :
    s.ending = .raisedCancellation ↔ s.cancellation = true := by
  rw [Resolver.ending]
  split
  · next h => simp [h]
  · next h =>
      split
      · simp [h]
      · simp [h]

/-- Without a kept cancellation the commit decides. -/
theorem Resolver.ending_of_quiet {s : Resolver} (h : s.cancellation = false) :
    (s.ending = .returned ↔ s.commit = .done .succeeded) ∧
      (s.commit ≠ .done .succeeded → s.ending = .raisedCommitError) := by
  rw [Resolver.ending, h]
  by_cases hCommit : s.commit = .done .succeeded
  · simp [hCommit]
  · simp [hCommit]

/-- The function calls the one truthful callback and leaves no task running on every
schedule, and it ends once its tasks have. It raises the cancellation of its
caller exactly when some cancellation reaches it while a task is running. -/
theorem commit_resolution_iff (trace : List Event) :
    (∀ ending, (run trace).phase = .ended ending →
      Truthful (run trace) ∧ (Resolves (run trace) ending ↔ (run trace).cancelling = 0 ∨ Heard trace)) ∧
    ∀ outcome outcome', ∃ ending, (run (trace ++ [.taskEnds .commit outcome, .resume,
      .taskEnds .rollback outcome', .resume])).phase = .ended ending := by
  refine ⟨fun ending hEnded => ?_, fun outcome outcome' => ?_⟩
  · have h := run_holds trace
    rw [Resolver.Holds, hEnded] at h
    obtain ⟨hTruthful, rfl⟩ := h
    refine ⟨hTruthful, fun hResolves => ?_, fun hWhen => ?_⟩
    · rcases Nat.eq_zero_or_pos (run trace).cancelling with hNever | hCancelled
      · exact Or.inl hNever
      · have hRaised := hResolves.cancelled hCancelled
        rw [Resolver.ending_eq_cancellation_iff, cancellation_iff_heard] at hRaised
        exact Or.inr hRaised
    · rcases hWhen with hNever | hHeard
      · have hQuiet : (run trace).cancellation = false := by
          rw [← Bool.not_eq_true]
          intro hKept
          exact absurd (run_requested trace (Or.inr hKept)) (by omega)
        exact ⟨hTruthful, fun hCancelled => absurd hNever hCancelled.ne', fun _ => Resolver.ending_of_quiet hQuiet⟩
      · have hKept := (cancellation_iff_heard trace).mpr hHeard
        have hPos := run_requested trace (Or.inr hKept)
        exact ⟨hTruthful, fun _ => (Resolver.ending_eq_cancellation_iff _).mpr hKept,
          fun hNever => absurd hNever hPos.ne'⟩
  · have h := run_holds trace
    have h' : (step (step (run trace) (.taskEnds .commit outcome)) .resume).Holds :=
      Resolver.step_holds (Resolver.step_holds h _) _
    obtain ⟨ending, hEnded⟩ := past_rollback h' (past_commit h outcome) outcome'
    refine ⟨ending, ?_⟩
    rw [run, List.foldl_append]
    exact hEnded

/-- A cancellation that comes after the commit has ended and before the caller
resumes is lost: the function returns. -/
theorem cancellation_lost : ¬ ∀ (trace : List Event) (ending : Ending), (run trace).phase = .ended ending →
    Resolves (run trace) ending := by
  intro h
  have hResolves := h [.taskEnds .commit .succeeded, .cancelCaller, .resume] .returned (by decide)
  exact absurd (hResolves.cancelled (by decide)) (by decide)

end Resolution

end CommitResolution

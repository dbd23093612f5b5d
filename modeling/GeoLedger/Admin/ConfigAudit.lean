import Mathlib
import GeoLedger.Library.Runs
import GeoLedger.Admin.ConfigPatch

/-! The live settings follow the audit log. Only the request that holds the lock has
a row that is durable and not yet published. -/
namespace GeoLedger.ConfigPatch
open Transition

/-- The phases in which a request holds the lock. -/
def Phase.holds : Phase → Bool
  | .draining _ _ | .rollingBack => true
  | .arriving | .ended _ => false

/-- The draft whose row is durable and whose settings are not published yet. -/
def Phase.landed : Phase → Option Draft
  | .draining draft (.committing true _) => some draft
  | _ => none

/-- The request will not return normally: it resumes with an exception, has kept
one, or its child has failed. -/
def Request.doomed (q : Request) : Prop :=
  match q.phase with
  | .arriving => q.pendingCancel = true
  | .draining _ .failed | .rollingBack => True
  | .draining _ _ => q.pendingCancel = true ∨ q.cancellation = true
  | .ended ending => ∃ error, ending = .raised error

/-- The invariant of the runs in which no cancellation is lost. -/
structure Inv (initial : Settings) (s : System) : Prop where
  holder : ∀ r, (s.requests r).phase.holds = true → s.lock = some r
  settled : (∀ r, (s.requests r).phase.landed = none) → s.settings = replay initial s.log
  landed : ∀ r draft, (s.requests r).phase.landed = some draft →
    setAll s.settings draft.publish = replay initial s.log ∧ draft.row ∈ s.log
  drafts : ∀ r draft child, (s.requests r).phase = .draining draft child → draft.row.settings = draft.publish
  cancelled : ∀ r, (s.requests r).cancelled = true → (s.requests r).doomed

/-- The invariant holds at the start, where no request is at work. -/
theorem inv_initial (settings : Settings) (patches : Nat → Patch) :
    Inv settings (System.initial settings patches) where
  holder := nofun
  settled := fun _ => rfl
  landed := nofun
  drafts := nofun
  cancelled := nofun

section Requests

variable {initial : Settings} {s s' : System} {r : Nat} {request : Request}

@[simp] theorem setRequest_self : (s.setRequest r request).requests r = request := Function.update_self ..

theorem setRequest_of_ne {v : Nat} (hNe : v ≠ r) : (s.setRequest r request).requests v = s.requests v :=
  Function.update_of_ne hNe ..

/-- A request whose audit row has landed holds the lock. -/
theorem holds_of_landed {phase : Phase} {draft : Draft} (h : phase.landed = some draft) : phase.holds = true := by
  unfold Phase.landed at h
  split at h
  · rfl
  · cases h

/-- No other request holds the lock. -/
def System.Alone (s : System) (r : Nat) : Prop := ∀ v, v ≠ r → (s.requests v).phase.holds = false

/-- The holder of the lock is the only request between its draft and its publication. -/
theorem Inv.alone (hInv : Inv initial s) (hHolds : (s.requests r).phase.holds = true) : s.Alone r := by
  intro v hNe
  by_contra hOther
  have hLock := hInv.holder v (by simpa using hOther)
  exact hNe (Option.some.inj (hLock.symm.trans (hInv.holder r hHolds)))

/-- While the lock is free no request is between its draft and its publication. -/
theorem Inv.alone_of_free (hInv : Inv initial s) (hFree : s.lock = none) : s.Alone r := by
  intro v _
  by_contra hOther
  have hLock := hInv.holder v (by simpa using hOther)
  rw [hFree] at hLock
  cases hLock

/-- With no row waiting for its publication the settings show the log. -/
theorem Inv.settled_of_alone (hInv : Inv initial s) (hAlone : s.Alone r)
    (hNone : (s.requests r).phase.landed = none) : s.settings = replay initial s.log := by
  refine hInv.settled fun v => ?_
  by_cases hEq : v = r
  · rw [hEq, hNone]
  · cases hLanded : (s.requests v).phase.landed with
    | none => rfl
    | some draft => exact absurd ((hAlone v hEq).symm.trans (holds_of_landed hLanded)) nofun

/-- A step of the request that has the lock, or takes it while it is free. -/
theorem inv_alone (hInv : Inv initial s) (hAlone : s.Alone r)
    (hRequests : s'.requests = Function.update s.requests r request)
    (hHolds : request.phase.holds = true → s'.lock = some r)
    (hSettled : request.phase.landed = none → s'.settings = replay initial s'.log)
    (hLanded : ∀ draft, request.phase.landed = some draft →
      setAll s'.settings draft.publish = replay initial s'.log ∧ draft.row ∈ s'.log)
    (hDraft : ∀ draft child, request.phase = .draining draft child → draft.row.settings = draft.publish)
    (hDoomed : request.cancelled = true → request.doomed) : Inv initial s' := by
  have hSelf : s'.requests r = request := by
    rw [hRequests]
    exact Function.update_self ..
  have hOther : ∀ v, v ≠ r → s'.requests v = s.requests v := by
    intro v hNe
    rw [hRequests]
    exact Function.update_of_ne hNe ..
  have hFree : ∀ v, v ≠ r → (s'.requests v).phase.holds = false := fun v hNe => by
    rw [hOther v hNe]
    exact hAlone v hNe
  refine ⟨fun v hHoldsV => ?_, fun hNone => hSettled (hSelf ▸ hNone r), fun v draft hLandedV => ?_,
    fun v draft child hPhase => ?_, fun v hCancelled => ?_⟩
  · by_cases hEq : v = r
    · rw [hEq, hSelf] at hHoldsV
      rw [hEq]
      exact hHolds hHoldsV
    · exact absurd ((hFree v hEq).symm.trans hHoldsV) nofun
  · by_cases hEq : v = r
    · rw [hEq, hSelf] at hLandedV
      exact hLanded draft hLandedV
    · exact absurd ((hFree v hEq).symm.trans (holds_of_landed hLandedV)) nofun
  · by_cases hEq : v = r
    · rw [hEq, hSelf] at hPhase
      exact hDraft draft child hPhase
    · rw [hOther v hEq] at hPhase
      exact hInv.drafts v draft child hPhase
  · by_cases hEq : v = r
    · rw [hEq, hSelf] at hCancelled ⊢
      exact hDoomed hCancelled
    · rw [hOther v hEq] at hCancelled ⊢
      exact hInv.cancelled v hCancelled

/-- A change of a request that leaves the lock, its draft and its row as they are. -/
theorem inv_setRequest (hInv : Inv initial s) (hHolds : request.phase.holds = (s.requests r).phase.holds)
    (hLanded : request.phase.landed = (s.requests r).phase.landed)
    (hDraft : ∀ draft child, request.phase = .draining draft child → draft.row.settings = draft.publish)
    (hDoomed : request.cancelled = true → request.doomed) : Inv initial (s.setRequest r request) := by
  have hSame : ∀ v, ((s.setRequest r request).requests v).phase.holds = (s.requests v).phase.holds ∧
      ((s.setRequest r request).requests v).phase.landed = (s.requests v).phase.landed := by
    intro v
    by_cases hEq : v = r
    · rw [hEq, setRequest_self]
      exact ⟨hHolds, hLanded⟩
    · rw [setRequest_of_ne hEq]
      exact ⟨rfl, rfl⟩
  refine ⟨fun v h => hInv.holder v ((hSame v).1.symm.trans h),
    fun hNone => hInv.settled fun v => (hSame v).2.symm.trans (hNone v),
    fun v draft h => hInv.landed v draft ((hSame v).2.symm.trans h), fun v draft child hPhase => ?_,
    fun v hCancelled => ?_⟩
  · by_cases hEq : v = r
    · rw [hEq, setRequest_self] at hPhase
      exact hDraft draft child hPhase
    · rw [setRequest_of_ne hEq] at hPhase
      exact hInv.drafts v draft child hPhase
  · by_cases hEq : v = r
    · rw [hEq, setRequest_self] at hCancelled ⊢
      exact hDoomed hCancelled
    · rw [setRequest_of_ne hEq] at hCancelled ⊢
      exact hInv.cancelled v hCancelled

/-- The request that holds the lock ends with its row published or not durable. -/
theorem inv_release (hInv : Inv initial s) (hHolds : (s.requests r).phase.holds = true)
    (hNone : (s.requests r).phase.landed = none) {ending : Ending}
    (hDoomed : (s.requests r).cancelled = true → ∃ error, ending = .raised error) :
    Inv initial (s.release r ending) := by
  have hAlone := hInv.alone hHolds
  exact inv_alone hInv hAlone rfl nofun (fun _ => hInv.settled_of_alone hAlone hNone) nofun nofun hDoomed

end Requests

section Steps

variable {initial : Settings} {s : System}

/-- The request loses its cancellation: it resumes with one when its child has
published, without having kept one before. -/
def System.Loses (s : System) (r : Nat) : Prop :=
  (∃ draft, (s.requests r).phase = .draining draft .published) ∧ (s.requests r).pendingCancel = true ∧
    (s.requests r).cancellation = false

/-- The condition on a step: no cancellation is lost, and a child whose row is durable
publishes. -/
def Orderly (s : System) : Action → Prop
  | .resume r => ¬s.Loses r
  | .childFails r => (s.requests r).phase.landed = none
  | _ => True

/-- A cancellation of a request keeps the invariant. -/
theorem inv_cancel (hInv : Inv initial s) (r : Nat) : Inv initial (s.cancel r) := by
  unfold System.cancel
  split
  · exact hInv
  · next hEnded =>
    refine inv_setRequest hInv rfl rfl (hInv.drafts r) fun _ => ?_
    cases hPhase : (s.requests r).phase with
    | arriving => simp only [Request.doomed, hPhase]
    | draining draft child => cases child <;> simp [Request.doomed, hPhase]
    | rollingBack => simp only [Request.doomed, hPhase]
    | ended ending =>
        rw [hPhase] at hEnded
        exact absurd rfl hEnded

/-- Entering the lock keeps the invariant. -/
theorem inv_enter (hInv : Inv initial s) {r : Nat} (hPhase : (s.requests r).phase = .arriving)
    (hFree : s.lock = none) (hPending : (s.requests r).pendingCancel = false) : Inv initial (s.enter r) := by
  have hNot : (s.requests r).cancelled = true → False := by
    intro hCancelled
    have hDoomed := hInv.cancelled r hCancelled
    simp only [Request.doomed, hPhase, hPending] at hDoomed
    cases hDoomed
  have hNone : (s.requests r).phase.landed = none := by rw [hPhase]; rfl
  unfold System.enter
  split
  · next error hPrepare =>
    exact inv_setRequest hInv (by rw [hPhase]; rfl) (by rw [hPhase]; rfl) nofun fun _ => ⟨_, rfl⟩
  · next draft hPrepare =>
    have hAlone := hInv.alone_of_free (r := r) hFree
    refine inv_alone hInv hAlone rfl (fun _ => rfl) (fun _ => hInv.settled_of_alone hAlone hNone) nofun ?_
      fun hCancelled => (hNot hCancelled).elim
    rintro _ _ ⟨⟩
    exact prepare_row hPrepare

/-- Going on keeps the invariant, unless a cancellation is lost by it. -/
theorem inv_resume (hInv : Inv initial s) {r : Nat} (hOrderly : ¬s.Loses r) : Inv initial (s.resume r) := by
  have hDoomed := hInv.cancelled r
  unfold System.resume
  split
  · next hPhase =>
    split
    · exact inv_setRequest hInv (by rw [hPhase]; rfl) (by rw [hPhase]; rfl) nofun fun _ => ⟨_, rfl⟩
    · next hPending =>
      split
      · next hFree => exact inv_enter hInv hPhase hFree (by simpa using hPending)
      · exact hInv
  · next draft durable cancelRequested hPhase =>
    split
    · refine inv_setRequest hInv (by rw [hPhase]; rfl) (by rw [hPhase]; cases durable <;> rfl) ?_
        fun _ => Or.inr rfl
      rintro _ _ ⟨⟩
      exact hInv.drafts r draft _ hPhase
    · exact hInv
  · next draft hPhase =>
    refine inv_release hInv (by rw [hPhase]; rfl) (by rw [hPhase]; rfl) fun hCancelled => ?_
    have hKept : (s.requests r).cancellation = true := by
      by_contra hLost
      have hEither := hDoomed hCancelled
      simp only [Request.doomed, hPhase] at hEither
      exact hOrderly ⟨⟨draft, hPhase⟩, hEither.resolve_right hLost, by simpa using hLost⟩
    rw [if_pos hKept]
    exact ⟨_, rfl⟩
  · next draft hPhase =>
    exact inv_setRequest hInv (by rw [hPhase]; rfl) (by rw [hPhase]; rfl) nofun fun _ => trivial
  · next hPhase =>
    split
    · exact inv_release hInv (by rw [hPhase]; rfl) (by rw [hPhase]; rfl) fun _ => ⟨_, rfl⟩
    · exact hInv
  · exact hInv

/-- The landing of a commit keeps the invariant: its row is the last one of the log. -/
theorem inv_commitLands (hInv : Inv initial s) (r : Nat) : Inv initial (s.commitLands r) := by
  unfold System.commitLands
  split
  · next draft cancelRequested hPhase =>
    have hAlone := hInv.alone (r := r) (by rw [hPhase]; rfl)
    have hSettings := hInv.settled_of_alone hAlone (by rw [hPhase]; rfl)
    have hDraft := hInv.drafts r draft _ hPhase
    have hLock := hInv.holder r (by rw [hPhase]; rfl)
    refine inv_alone hInv hAlone rfl (fun _ => hLock) nofun ?_ ?_ fun hCancelled => ?_
    · rintro _ ⟨⟩
      refine ⟨?_, List.mem_append_right _ (List.mem_singleton_self _)⟩
      show setAll s.settings draft.publish = replay initial (s.log ++ [draft.row])
      rw [replay, List.foldl_append, List.foldl_cons, List.foldl_nil, hDraft, hSettings, replay]
    · rintro _ _ ⟨⟩
      exact hDraft
    · have hDoomed := hInv.cancelled r hCancelled
      rw [Request.doomed, hPhase] at hDoomed
      exact hDoomed
  · exact hInv

/-- The publication of a landed draft keeps the invariant: the settings follow the log
again. -/
theorem inv_childPublishes (hInv : Inv initial s) (r : Nat) : Inv initial (s.childPublishes r) := by
  unfold System.childPublishes
  split
  · next draft cancelRequested hPhase =>
    have hAlone := hInv.alone (r := r) (by rw [hPhase]; rfl)
    have hLock := hInv.holder r (by rw [hPhase]; rfl)
    have hLanded := hInv.landed r draft (by rw [hPhase]; rfl)
    refine inv_alone hInv hAlone rfl (fun _ => hLock) (fun _ => hLanded.1) nofun ?_ fun hCancelled => ?_
    · rintro _ _ ⟨⟩
      exact hInv.drafts r draft _ hPhase
    · have hDoomed := hInv.cancelled r hCancelled
      rw [Request.doomed, hPhase] at hDoomed
      exact hDoomed
  · exact hInv

/-- The failure of a commit keeps the invariant, where its row has not landed. -/
theorem inv_childFails (hInv : Inv initial s) {r : Nat} (hOrderly : (s.requests r).phase.landed = none) :
    Inv initial (s.childFails r) := by
  unfold System.childFails
  split
  · next draft durable cancelRequested hPhase =>
    split
    · refine inv_setRequest hInv (by rw [hPhase]; rfl) (hOrderly.symm ▸ rfl) ?_ fun _ => trivial
      rintro _ _ ⟨⟩
      exact hInv.drafts r draft _ hPhase
    · exact hInv
  · exact hInv

/-- The end of a rollback keeps the invariant, whether it fails or not. -/
theorem inv_rollbackEnds (hInv : Inv initial s) (r : Nat) (fails : Bool) : Inv initial (s.rollbackEnds r fails) := by
  unfold System.rollbackEnds
  split
  · next hRolling => exact inv_release hInv (by rw [hRolling.1]; rfl) (by rw [hRolling.1]; rfl) fun _ => ⟨_, rfl⟩
  · exact hInv

/-- Every orderly action keeps the invariant. -/
theorem step_inv (hInv : Inv initial s) {a : Action} (hOrderly : Orderly s a) : Inv initial (step s a) := by
  cases a with
  | cancel r => exact inv_cancel hInv r
  | resume r => exact inv_resume hInv hOrderly
  | commitLands r => exact inv_commitLands hInv r
  | childPublishes r => exact inv_childPublishes hInv r
  | childFails r => exact inv_childFails hInv hOrderly
  | rollbackEnds r fails => exact inv_rollbackEnds hInv r fails

/-- Only a child that publishes changes the settings. -/
theorem step_settings {a : Action} (hChanged : (step s a).settings ≠ s.settings) :
    ∃ r draft, (s.requests r).phase.landed = some draft ∧
      (step s a).settings = setAll s.settings draft.publish := by
  cases a with
  | cancel r =>
      refine absurd ?_ hChanged
      rw [step, System.cancel]
      split <;> rfl
  | resume r =>
      refine absurd ?_ hChanged
      rw [step, System.resume]
      split
      · split
        · rfl
        · split
          · rw [System.enter]
            split <;> rfl
          · rfl
      · split <;> rfl
      · rfl
      · rfl
      · split <;> rfl
      · rfl
  | commitLands r =>
      refine absurd ?_ hChanged
      rw [step, System.commitLands]
      split <;> rfl
  | childPublishes r =>
      rw [step, System.childPublishes] at hChanged ⊢
      split at hChanged
      · next draft cancelRequested hPhase =>
        exact ⟨r, draft, by rw [hPhase]; rfl, rfl⟩
      · exact absurd rfl hChanged
  | childFails r =>
      refine absurd ?_ hChanged
      rw [step, System.childFails]
      split
      · split <;> rfl
      · rfl
  | rollbackEnds r fails =>
      refine absurd ?_ hChanged
      rw [step, System.rollbackEnds]
      split <;> rfl

/-- What the configuration keeps: a setting changes only to what a durable audit row
tells, the settings show the log while the lock is free, and a request whose caller
was cancelled does not return. -/
structure FollowsAudit (initial : Settings) (s : System) : Prop where
  durable : ∀ a, (step s a).settings ≠ s.settings →
    ∃ row ∈ s.log, (step s a).settings = setAll s.settings row.settings
  agrees : s.lock = none → s.settings = replay initial s.log
  cancelled : ∀ r, (s.requests r).cancelled = true → ∀ response, (s.requests r).phase ≠ .ended (.returned response)

/-- A draft whose row has landed is being drained. -/
theorem landed_draft {phase : Phase} {draft : Draft} (h : phase.landed = some draft) :
    ∃ child, phase = .draining draft child := by
  unfold Phase.landed at h
  split at h
  · cases h
    exact ⟨_, rfl⟩
  · cases h

/-- From the invariant follows that the settings are those of the audit log whenever no
request is at work. -/
theorem Inv.followsAudit (hInv : Inv initial s) : FollowsAudit initial s where
  durable := by
    intro a hChanged
    obtain ⟨r, draft, hLanded, hSettings⟩ := step_settings hChanged
    obtain ⟨child, hPhase⟩ := landed_draft hLanded
    refine ⟨draft.row, (hInv.landed r draft hLanded).2, ?_⟩
    rw [hSettings, hInv.drafts r draft child hPhase]
  agrees := by
    intro hFree
    refine hInv.settled fun r => ?_
    cases hLanded : (s.requests r).phase.landed with
    | none => rfl
    | some draft =>
        have hLock := hInv.holder r (holds_of_landed hLanded)
        rw [hFree] at hLock
        cases hLock
  cancelled := by
    intro r hCancelled response hPhase
    have hDoomed := hInv.cancelled r hCancelled
    simp only [Request.doomed, hPhase] at hDoomed
    obtain ⟨error, hEnding⟩ := hDoomed
    cases hEnding

/-- A request resumes with a `CancelledError` only when its caller was cancelled. -/
def Marked (s : System) : Prop := ∀ r, (s.requests r).pendingCancel = true → (s.requests r).cancelled = true

theorem Marked.setRequest (h : Marked s) {r : Nat} {request : Request}
    (hMarked : request.pendingCancel = true → request.cancelled = true) : Marked (s.setRequest r request) := by
  intro v
  by_cases hEq : v = r
  · rw [hEq, setRequest_self]
    exact hMarked
  · rw [setRequest_of_ne hEq]
    exact h v

/-- Every action keeps that pending cancellations are marked. -/
theorem step_marked (h : Marked s) (a : Action) : Marked (step s a) := by
  cases a with
  | cancel r =>
      rw [step, System.cancel]
      split
      · exact h
      · exact h.setRequest fun _ => rfl
  | resume r =>
      rw [step, System.resume]
      split
      · split
        · exact h.setRequest (h r)
        · split
          · rw [System.enter]
            split <;> exact h.setRequest (h r)
          · exact h
      · split
        · exact h.setRequest nofun
        · exact h
      · exact h.setRequest (h r)
      · exact h.setRequest nofun
      · split
        · exact h.setRequest (h r)
        · exact h
      · exact h
  | commitLands r =>
      rw [step, System.commitLands]
      split
      · exact h.setRequest (h r)
      · exact h
  | childPublishes r =>
      rw [step, System.childPublishes]
      split
      · exact h.setRequest (h r)
      · exact h
  | childFails r =>
      rw [step, System.childFails]
      split
      · split
        · exact h.setRequest (h r)
        · exact h
      · exact h
  | rollbackEnds r fails =>
      rw [step, System.rollbackEnds]
      split
      · exact h.setRequest (h r)
      · exact h

/-- A cancellation that is lost lets its request return. -/
theorem not_followsAudit_of_loses {settings : Settings} {patches : Nat → Patch} {trace : List Action}
    (run : Run step (fun _ _ => True) (System.initial settings patches) trace s) {r : Nat} (hLoses : s.Loses r) :
    ¬FollowsAudit initial (step s (.resume r)) := by
  intro hFollows
  obtain ⟨⟨draft, hPhase⟩, hPending, hNotKept⟩ := hLoses
  have hMarked : Marked s := run.invariant nofun fun s a h _ => step_marked h a
  have hStep : step s (.resume r) = s.release r (.returned draft.response) := by
    rw [step, System.resume]
    simp only [hPhase, hNotKept, Bool.false_eq_true, if_false]
  rw [hStep] at hFollows
  refine hFollows.cancelled r ?_ draft.response ?_
  · show ((s.setPhase r _).requests r).cancelled = true
    rw [System.setPhase, setRequest_self]
    exact hMarked r hPending
  · show ((s.setPhase r _).requests r).phase = _
    rw [System.setPhase, setRequest_self]

/-- A child that fails after its row became durable leaves the settings behind the
log, unless the row tells what was set already. -/
theorem not_followsAudit_of_interrupted (hInv : Inv initial s) {r : Nat} {draft : Draft}
    (hPhase : (s.requests r).phase = .draining draft (.committing true true))
    (hChanges : setAll s.settings draft.publish ≠ s.settings) :
    ¬FollowsAudit initial (step (step (step s (.childFails r)) (.resume r)) (.rollbackEnds r false)) := by
  intro hFollows
  set failed := s.setPhase r (.draining draft .failed) with hFailed
  have hFails : step s (.childFails r) = failed := by
    rw [step, System.childFails]
    simp only [hPhase, or_true, if_true, hFailed]
  set rolling := failed.setRequest r
    { failed.requests r with pendingCancel := false, phase := .rollingBack } with hRolling
  have hResume : step failed (.resume r) = rolling := by
    have hPhaseFailed : (failed.requests r).phase = .draining draft .failed := by
      rw [hFailed, System.setPhase, setRequest_self]
    rw [step, System.resume]
    simp only [hPhaseFailed, hRolling]
  have hEnds : ∃ ending, step rolling (.rollbackEnds r false) = rolling.release r ending := by
    rw [step, System.rollbackEnds, if_pos]
    · exact ⟨_, rfl⟩
    · rw [hRolling, setRequest_self]
      exact ⟨rfl, rfl⟩
  obtain ⟨ending, hEnds⟩ := hEnds
  rw [hFails, hResume, hEnds] at hFollows
  have hAgrees : s.settings = replay initial s.log := hFollows.agrees rfl
  exact hChanges ((hInv.landed r draft (by rw [hPhase]; rfl)).1.trans hAgrees.symm)

/-- In a run whose steps are orderly the configuration follows the audit log. -/
theorem config_follows_audit {patches : Nat → Patch} {trace : List Action}
    (run : Run step Orderly (System.initial initial patches) trace s) : FollowsAudit initial s :=
  (run.invariant (inv_initial initial patches) fun _ _ hInv hOrderly => step_inv hInv hOrderly).followsAudit

end Steps

/-- Every setting off, and every request asks for four paths. -/
def fourPaths : System :=
  System.initial (fun _ => .bool false) fun _ => .config [("ROUTING_MAX_PATHS", .int 4)] none

/-- A caller that is cancelled while the child commits: the row is durable and published. -/
theorem config_follows_audit_cancelled :
    FollowsAudit (fun _ => .bool false)
      ([.resume 0, .cancel 0, .resume 0, .commitLands 0, .childPublishes 0, .resume 0].foldl step fourPaths) := by
  have committing : Run step Orderly fourPaths [.resume 0, .cancel 0] _ :=
    (Run.nil.snoc (a := Action.resume 0) (by rintro ⟨⟨_, ⟨⟩⟩, -⟩)).snoc (a := Action.cancel 0) trivial
  have landed := (committing.snoc (a := Action.resume 0) (by rintro ⟨⟨_, ⟨⟩⟩, -⟩)).snoc
    (a := Action.commitLands 0) (by trivial)
  have published := (landed.snoc (a := Action.childPublishes 0) (by trivial)).snoc
    (a := Action.resume 0) (by rintro ⟨-, ⟨⟩, -⟩)
  exact config_follows_audit published

/-- A caller that is cancelled when its child has published, before it resumes,
returns normally. -/
theorem late_cancellation_lost :
    ¬∀ (settings : Settings) (patches : Nat → Patch) (trace : List Action) (s : System),
      Run step (fun _ _ => True) (System.initial settings patches) trace s → FollowsAudit settings s := by
  intro h
  have hFollows := h _ _ [.resume 0, .commitLands 0, .childPublishes 0, .cancel 0, .resume 0] _
    (Run.of_foldl step fourPaths _)
  exact hFollows.cancelled 0 rfl _ rfl

end GeoLedger.ConfigPatch

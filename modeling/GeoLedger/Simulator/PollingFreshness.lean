import Mathlib
import GeoLedger.Library.Runs
import GeoLedger.Simulator.MetricsPolling

/-! What the metrics streams show. The pairs of requests keep a register of the latest
answer; the slot that suppresses a second pair for one subject can belong to a pair that a
change of subject has orphaned, and then the streams stay idle. -/
namespace MetricsPolling
open LatestAnswers
open Transition (Run)

variable {M B D : Type}

section Core

/-- What a stream shows for a register. -/
def shownStream {A : Type} (result : A → Except Rejection D) (g : Register PairRequest A) : StreamState D :=
  match g.shown with
  | some (_, a) => applyResult (result a) {}
  | none => if g.latest.isSome then { phase := .loading } else {}

/-- A stream that starts loading shows what it shows for a register in which a request
waits. -/
theorem load_shownStream {A : Type} (result : A → Except Rejection D) (g : Register PairRequest A)
    (r : PairRequest) : (shownStream result g).load = shownStream result { g with latest := some r, waiting := true } := by
  unfold shownStream
  rcases g.shown with _ | ⟨q, a⟩
  · dsimp only
    split <;> rfl
  · dsimp only
    rw [StreamState.load, if_neg]
    unfold applyResult
    rcases result a with reason | value
    · dsimp only
      split <;> exact fun h => by cases h
    · exact fun h => by cases h

/-- The pair is about the subject. -/
def About (subject : Option String × String) (r : PairRequest) : Prop := subject = (some r.runId, r.equivalent)

/-- The registers of the streams, for a subject. -/
structure Core (subject : Option String × String) (w : World M B) : Prop where
  tracks : w.disposed = false → Tracks (·.seq) (some w.seq) w.seq w.inFlight w.log
  bound : w.inFlightSeq ≤ w.seq
  slot : w.disposed = false → w.inFlightIdentity.isSome → w.inFlightSeq = w.seq →
    (register w.log).latest.isSome
  answers : ∀ r, Entry.answered r none ∉ w.log
  latest : ∀ r, (register w.log).latest = some r → About subject r
  shown : ∀ r a, (register w.log).shown = some (r, a) → About subject r
  metrics : w.metricsStream = shownStream Prod.fst (register w.log)
  bottlenecks : w.bottlenecksStream = shownStream Prod.snd (register w.log)

variable {w : World M B} {subject subject' : Option String × String}

/-- An entry that shows something keeps every answer of the log one that shows something. -/
theorem answers_snoc {A : Type} {log : List (Entry PairRequest A)} {entry : Entry PairRequest A}
    (h : ∀ r, Entry.answered r none ∉ log) (hEntry : ∀ r, entry ≠ .answered r none) :
    ∀ r, Entry.answered r none ∉ log ++ [entry] := by
  intro r hr
  rcases List.mem_append.mp hr with hLog | hLast
  · exact h r hLog
  · exact hEntry r (List.mem_singleton.mp hLast).symm

/-- A reset starts the registers anew. -/
theorem Core.reset (h : Core subject w) (hLive : w.disposed = false) : Core subject' w.reset := by
  have hLog : w.reset.log = w.log ++ [.cleared] := if_neg (by rw [hLive]; exact Bool.false_ne_true)
  have hRegister : register w.reset.log = {} := by
    rw [hLog, register_snoc]
    rfl
  constructor
  · intro _
    rw [hLog]
    refine (h.tracks hLive).cleared (Nat.le_succ _) fun r hr hEq => ?_
    have hBounded : r.seq ≤ w.seq := (h.tracks hLive).bounded r hr
    have hNext : w.seq + 1 = r.seq := Option.some.inj hEq
    omega
  · exact h.bound.trans (Nat.le_succ _)
  · intro _ _ hOwn
    have hOwn : w.inFlightSeq = w.seq + 1 := hOwn
    have := h.bound
    omega
  · rw [hLog]
    exact answers_snoc h.answers fun _ hEntry => by cases hEntry
  · rw [hRegister]
    exact fun _ hLatest => by cases hLatest
  · rw [hRegister]
    exact fun _ _ hShown => by cases hShown
  · rw [hRegister]
    rfl
  · rw [hRegister]
    rfl

/-- Issuing a pair of requests for the subject keeps the invariant of the streams. -/
theorem Core.send (h : Core subject w) (hLive : w.disposed = false) {runId equivalent : String}
    (hSubject : subject = (some runId, equivalent)) (identity : String) :
    Core subject (w.send runId equivalent identity) := by
  have hLog : (w.send runId equivalent identity).log = w.log ++ [.sent ⟨w.seq + 1, runId, equivalent⟩] :=
    if_neg (by rw [hLive]; exact Bool.false_ne_true)
  have hRegister : register (w.send runId equivalent identity).log =
      { register w.log with latest := some ⟨w.seq + 1, runId, equivalent⟩, waiting := true } := by
    rw [hLog, register_snoc]
    rfl
  constructor
  · intro _
    rw [hLog]
    exact (h.tracks hLive).sent (r := ⟨w.seq + 1, runId, equivalent⟩) (Nat.lt_succ_self _)
  · exact Nat.le_refl _
  · intro _ _ _
    rw [hRegister]
    rfl
  · rw [hLog]
    exact answers_snoc h.answers fun _ hEntry => by cases hEntry
  · intro r hr
    rw [hRegister] at hr
    cases hr
    exact hSubject
  · intro r a hr
    rw [hRegister] at hr
    exact h.shown r a hr
  · rw [hRegister, ← load_shownStream, ← h.metrics]
    rfl
  · rw [hRegister, ← load_shownStream, ← h.bottlenecks]
    rfl

/-- A poll keeps the invariant of the streams, whether it issues a pair or not. -/
theorem Core.poll (h : Core w.inputs.subject w) : Core w.inputs.subject w.poll := by
  unfold World.poll
  split
  · exact h
  · next hDisposed =>
    split
    · exact h
    · next runId hRun =>
      split
      · exact h
      · dsimp only
        split
        · exact h
        · exact h.send (Bool.eq_false_iff.mpr hDisposed) (by rw [Inputs.subject, hRun]) _

/-- After a poll of a live poller the subject is asked for, unless an orphaned pair keeps the slot. -/
theorem Core.poll_latest (h : Core w.inputs.subject w) (hLive : w.disposed = false)
    (hPolls : w.inputs.shouldPoll = true)
    (hOrphan : w.inFlightIdentity = some w.inputs.identity → w.inFlightSeq = w.seq) :
    (register w.poll.log).latest.isSome := by
  rw [Inputs.shouldPoll] at hPolls
  simp only [Bool.and_eq_true, decide_eq_true_eq] at hPolls
  obtain ⟨⟨⟨-, hSome⟩, hEquivalent⟩, -⟩ := hPolls
  obtain ⟨runId, hRun⟩ := Option.isSome_iff_exists.mp hSome
  have hIdentity : w.inputs.identity = runId ++ "|" ++ w.inputs.equivalentKey := by
    rw [Inputs.identity, hRun]
    rfl
  unfold World.poll
  rw [if_neg (by rw [hLive]; exact Bool.false_ne_true), hRun]
  dsimp only
  rw [if_neg hEquivalent, ← hIdentity]
  by_cases hSlot : w.inFlightIdentity = some w.inputs.identity
  · rw [if_pos hSlot]
    exact h.slot hLive (by rw [hSlot]; rfl) (hOrphan hSlot)
  · rw [if_neg hSlot, World.send, World.record, if_neg (by rw [hLive]; exact Bool.false_ne_true), register_snoc]
    rfl

/-- A request is current when it is the last one and about the subject that is now selected. -/
theorem isCurrent_iff {r : PairRequest} (hLive : w.disposed = false) :
    w.isCurrent r = true ↔ w.seq = r.seq ∧ About w.inputs.subject r := by
  unfold World.isCurrent About Inputs.subject
  simp [hLive, and_assoc]

section Settle

variable {r : PairRequest} {metricsResult : Except Rejection M} {bottlenecksResult : Except Rejection B}

/-- The results of a pair that is not current leave the streams as they are. -/
theorem settle_streams (hStale : w.isCurrent r = false) :
    (w.settle r metricsResult bottlenecksResult).metricsStream = w.metricsStream ∧
      (w.settle r metricsResult bottlenecksResult).bottlenecksStream = w.bottlenecksStream := by
  have hNot : ¬w.isCurrent r = true := by
    rw [hStale]
    exact Bool.false_ne_true
  exact ⟨if_neg hNot, if_neg hNot⟩

theorem settle_log (hLive : w.disposed = false) : (w.settle r metricsResult bottlenecksResult).log =
    w.log ++ [.answered r (some (metricsResult, bottlenecksResult))] :=
  if_neg (by rw [hLive]; exact Bool.false_ne_true)

/-- After the disposal nothing is logged and nothing is shown. -/
theorem Core.settle_disposed (h : Core w.inputs.subject w) (hGone : w.disposed = true) :
    Core w.inputs.subject (w.settle r metricsResult bottlenecksResult) := by
  have hStale : w.isCurrent r = false := by
    unfold World.isCurrent
    rw [hGone]
    rfl
  have hLog : (w.settle r metricsResult bottlenecksResult).log = w.log := if_pos hGone
  obtain ⟨hMetrics, hBottlenecks⟩ := @settle_streams _ _ _ _ metricsResult bottlenecksResult hStale
  constructor
  · exact fun hOther => absurd (hOther.symm.trans hGone) Bool.false_ne_true
  · exact h.bound
  · exact fun hOther => absurd (hOther.symm.trans hGone) Bool.false_ne_true
  · rw [hLog]
    exact h.answers
  · rw [hLog]
    exact h.latest
  · rw [hLog]
    exact h.shown
  · rw [hLog, hMetrics, h.metrics]
  · rw [hLog, hBottlenecks, h.bottlenecks]

/-- Before the disposal the pair leaves the requests in flight, and its slot if it holds it,
whatever it makes of the streams. -/
theorem Core.settle_live (h : Core w.inputs.subject w) (hr : r ∈ w.inFlight) (hLive : w.disposed = false)
    (hShown : ∀ q a, (register (w.settle r metricsResult bottlenecksResult).log).shown = some (q, a) →
      About w.inputs.subject q)
    (hMetrics : (w.settle r metricsResult bottlenecksResult).metricsStream =
      shownStream Prod.fst (register (w.settle r metricsResult bottlenecksResult).log))
    (hBottlenecks : (w.settle r metricsResult bottlenecksResult).bottlenecksStream =
      shownStream Prod.snd (register (w.settle r metricsResult bottlenecksResult).log)) :
    Core w.inputs.subject (w.settle r metricsResult bottlenecksResult) := by
  have hLog := @settle_log _ _ _ r metricsResult bottlenecksResult hLive
  have hLatest : (register (w.settle r metricsResult bottlenecksResult).log).latest = (register w.log).latest := by
    rw [hLog, register_snoc, Register.next]
    split <;> rfl
  refine ⟨?_, h.bound, ?_, ?_, ?_, hShown, hMetrics, hBottlenecks⟩
  · intro _
    rw [hLog]
    exact (h.tracks hLive).answered hr _
  · intro _ hSome hOwn
    rw [hLatest]
    refine h.slot hLive ?_ hOwn
    unfold World.settle at hSome
    dsimp only at hSome
    split at hSome
    · cases hSome
    · exact hSome
  · rw [hLog]
    exact answers_snoc h.answers fun _ hEntry => by cases hEntry
  · rw [hLatest]
    exact h.latest

/-- The settling of a pair, of whatever age and with whatever results, keeps the invariant
of the streams. -/
theorem Core.settle (h : Core w.inputs.subject w) (hr : r ∈ w.inFlight) (metricsResult : Except Rejection M)
    (bottlenecksResult : Except Rejection B) :
    Core w.inputs.subject (w.settle r metricsResult bottlenecksResult) := by
  cases hLive : w.disposed with
  | true => exact h.settle_disposed hLive
  | false =>
      have hTracks := h.tracks hLive
      have hLog := @settle_log _ _ _ r metricsResult bottlenecksResult hLive
      by_cases hOwn : (register w.log).latest = some r
      · -- The latest pair is current, and both streams take its results.
        have hCurrent : w.isCurrent r = true :=
          (isCurrent_iff hLive).mpr ⟨Option.some.inj ((hTracks.owned r hr).mpr hOwn), h.latest r hOwn⟩
        have hRegister : register (w.settle r metricsResult bottlenecksResult).log =
            ⟨(register w.log).latest, false, some (r, metricsResult, bottlenecksResult)⟩ := by
          rw [hLog, register_snoc, Register.next, if_pos hOwn]
          rfl
        refine h.settle_live hr hLive ?_ ?_ ?_
        · intro q a hq
          rw [hRegister] at hq
          cases hq
          exact h.latest r hOwn
        · rw [hRegister]
          exact (if_pos hCurrent).trans (applyResult_eq _ _)
        · rw [hRegister]
          exact (if_pos hCurrent).trans (applyResult_eq _ _)
      · -- An older pair is not current, as the sequence number has gone on.
        have hStale : w.isCurrent r = false := by
          refine Bool.eq_false_iff.mpr fun hCurrent => hOwn ?_
          exact (hTracks.owned r hr).mp (congrArg some ((isCurrent_iff hLive).mp hCurrent).1)
        have hRegister : register (w.settle r metricsResult bottlenecksResult).log = register w.log := by
          rw [hLog, register_snoc, Register.next, if_neg hOwn]
        obtain ⟨hMetrics, hBottlenecks⟩ := @settle_streams _ _ _ _ metricsResult bottlenecksResult hStale
        refine h.settle_live hr hLive ?_ ?_ ?_
        · rw [hRegister]
          exact h.shown
        · rw [hRegister, hMetrics, h.metrics]
        · rw [hRegister, hBottlenecks, h.bottlenecks]

end Settle

/-- Disposing of the poller keeps the invariant of the streams. -/
theorem Core.dispose (h : Core subject w) : Core subject w.dispose where
  tracks h := by cases h
  bound := h.bound.trans (Nat.le_succ _)
  slot h := by cases h
  answers := h.answers
  latest := h.latest
  shown := h.shown
  metrics := h.metrics
  bottlenecks := h.bottlenecks

end Core

section Runs

variable {w : World M B} {subject : Option String × String}

structure Inv (w : World M B) : Prop where
  core : Core w.inputs.subject w
  last : w.lastIdentity = w.inputs.identity
  timer : w.timer = true ↔ w.inputs.shouldPoll = true ∧ w.disposed = false
  polled : w.inputs.shouldPoll = true → w.disposed = false → (register w.log).latest.isSome

/-- When a step keeps what is shown truthful. A change of the subject shows in its identity, and none
comes after dispose; the watcher does not start to poll a subject while a pair for it, sent
before it last became current, still keeps the slot. -/
def Fits (w : World M B) : Event M B → Prop
  | .inputs inputs =>
      (inputs.subject ≠ w.inputs.subject → inputs.identity ≠ w.inputs.identity) ∧
        (w.disposed = true → inputs.identity = w.inputs.identity) ∧
        (w.disposed = false → inputs.shouldPoll = true →
          inputs.identity ≠ w.inputs.identity ∨ w.inputs.shouldPoll = false →
          w.inFlightIdentity = some inputs.identity →
          inputs.identity = w.inputs.identity ∧ w.inFlightSeq = w.seq)
  | _ => True

/-- A poll changes the streams and the requests only. -/
theorem poll_frame (w : World M B) :
    w.poll.inputs = w.inputs ∧ w.poll.disposed = w.disposed ∧ w.poll.lastIdentity = w.lastIdentity ∧
      w.poll.timer = w.timer := by
  unfold World.poll
  split
  · exact ⟨rfl, rfl, rfl, rfl⟩
  · split
    · exact ⟨rfl, rfl, rfl, rfl⟩
    · split
      · exact ⟨rfl, rfl, rfl, rfl⟩
      · dsimp only
        split <;> exact ⟨rfl, rfl, rfl, rfl⟩

/-- A poll forgets no request. -/
theorem poll_keeps (h : (register w.log).latest.isSome) : (register w.poll.log).latest.isSome := by
  unfold World.poll
  split
  · exact h
  · next hDisposed =>
    split
    · exact h
    · split
      · exact h
      · dsimp only
        split
        · exact h
        · rw [World.send, World.record, if_neg hDisposed, register_snoc]
          rfl

/-- A poll keeps the invariant. -/
theorem Inv.poll (h : Inv w) : Inv w.poll := by
  obtain ⟨hInputs, hDisposed, hLast, hTimer⟩ := poll_frame w
  constructor
  · rw [hInputs]
    exact h.core.poll
  · rw [hLast, hInputs]
    exact h.last
  · rw [hTimer, hInputs, hDisposed]
    exact h.timer
  · rw [hInputs, hDisposed]
    exact fun hPolls hLive => poll_keeps (h.polled hPolls hLive)

/-- The timer and the identity that the watcher remembers do not matter to the registers. -/
theorem Core.frame (h : Core subject w) (timer : Bool) (lastIdentity : String) :
    Core subject { w with timer := timer, lastIdentity := lastIdentity } :=
  ⟨h.tracks, h.bound, h.slot, h.answers, h.latest, h.shown, h.metrics, h.bottlenecks⟩

/-- The end of the watcher, after a possible reset. -/
theorem inv_watched (h : Core w.inputs.subject w) (hLast : w.lastIdentity = w.inputs.identity)
    {starts : Prop} [Decidable starts]
    (hStarts : w.disposed = false → w.inputs.shouldPoll = true → starts →
      w.inFlightIdentity = some w.inputs.identity → w.inFlightSeq = w.seq)
    (hContinues : w.disposed = false → ¬starts → (register w.log).latest.isSome)
    (hTimer : w.disposed = true → w.timer = false) :
    Inv (if (!w.inputs.shouldPoll) = true then { w with timer := false }
      else (if starts then w.poll else w).start) := by
  cases hPolls : w.inputs.shouldPoll with
  | false =>
      have hStops : (!false) = true := rfl
      rw [if_pos hStops]
      refine ⟨h.frame false w.lastIdentity, hLast, ?_, ?_⟩
      · exact iff_of_false Bool.false_ne_true fun hTrue => absurd (hPolls.symm.trans hTrue.1) Bool.false_ne_true
      · exact fun hTrue => absurd (hPolls.symm.trans hTrue) Bool.false_ne_true
  | true =>
      have hRuns : ¬(!true) = true := Bool.false_ne_true
      rw [if_neg hRuns]
      obtain ⟨w', hw', hInputs, hDisposed, hLast', hTimer', hCore, hLatest⟩ : ∃ w', w' = (if starts then w.poll else w) ∧
          w'.inputs = w.inputs ∧ w'.disposed = w.disposed ∧ w'.lastIdentity = w.lastIdentity ∧ w'.timer = w.timer ∧
          Core w.inputs.subject w' ∧ (w.disposed = false → (register w'.log).latest.isSome) := by
        by_cases hStart : starts
        · obtain ⟨hInputs, hDisposed, hLast', hTimer'⟩ := poll_frame w
          exact ⟨w.poll, (if_pos hStart).symm, hInputs, hDisposed, hLast', hTimer', h.poll, fun hLive =>
            h.poll_latest hLive hPolls (hStarts hLive hPolls hStart)⟩
        · exact ⟨w, (if_neg hStart).symm, rfl, rfl, rfl, rfl, h, fun hLive => hContinues hLive hStart⟩
      rw [← hw']
      refine ⟨?_, ?_, ?_, ?_⟩
      · have hStarted := hCore.frame (w'.timer || !w'.disposed) w'.lastIdentity
        rw [← hInputs] at hStarted
        exact hStarted
      · exact hLast'.trans (hLast.trans (congrArg Inputs.identity hInputs.symm))
      · change (w'.timer || !w'.disposed) = true ↔ w'.inputs.shouldPoll = true ∧ w'.disposed = false
        rw [hInputs, hPolls, hTimer', hDisposed]
        cases hLive : w.disposed with
        | false => simp
        | true => simp [hTimer hLive]
      · exact fun _ hLive => hLatest (hDisposed.symm.trans hLive)

/-- The watcher, when the changes that woke it fit. -/
theorem inv_watch (h : Core subject w) (hSame : w.inputs.identity = w.lastIdentity → subject = w.inputs.subject)
    (hLive : w.disposed = true → w.inputs.identity = w.lastIdentity)
    (hStarts : w.disposed = false → w.inputs.shouldPoll = true →
      w.inputs.identity ≠ w.lastIdentity ∨ w.timer = false → w.inFlightIdentity = some w.inputs.identity →
      w.inputs.identity = w.lastIdentity ∧ w.inFlightSeq = w.seq)
    (hContinues : w.timer = true → w.disposed = false ∧ (register w.log).latest.isSome) : Inv w.watch := by
  have hStored : Core subject { w with lastIdentity := w.inputs.identity } := h.frame w.timer w.inputs.identity
  have hTimer : w.disposed = true → w.timer = false := fun hDisposed =>
    Bool.eq_false_iff.mpr fun hTimer => absurd ((hContinues hTimer).1.symm.trans hDisposed) Bool.false_ne_true
  unfold World.watch
  dsimp only
  by_cases hChanged : w.inputs.identity ≠ w.lastIdentity
  · have hNotDisposed : w.disposed = false :=
      Bool.eq_false_iff.mpr fun hDisposed => hChanged (hLive hDisposed)
    rw [if_pos hChanged]
    refine inv_watched (w := { w with lastIdentity := w.inputs.identity : World M B }.reset)
      (hStored.reset hNotDisposed) rfl ?_ ?_ hTimer
    · intro _ hPolls hStart hSlot
      exact absurd (hStarts hNotDisposed hPolls hStart hSlot).1 hChanged
    · exact fun _ hStop => absurd (Or.inl hChanged) hStop
  · rw [if_neg hChanged]
    have hEqual := not_not.mp hChanged
    rw [hSame hEqual] at hStored
    refine inv_watched (w := { w with lastIdentity := w.inputs.identity }) hStored rfl ?_ ?_ hTimer
    · intro hNotDisposed hPolls hStart hSlot
      exact (hStarts hNotDisposed hPolls hStart hSlot).2
    · intro _ hStop
      have hRuns : w.timer = true := Bool.ne_false_iff.mp fun hOff => hStop (Or.inr hOff)
      exact (hContinues hRuns).2

/-- A change of the inputs that fits keeps the invariant: a new subject is polled for. -/
theorem Inv.setInputs (h : Inv w) {inputs : Inputs} (hFits : Fits w (.inputs inputs)) : Inv (w.setInputs inputs) := by
  obtain ⟨hSubject, hFrozen, hOrphan⟩ := hFits
  have hCore : Core w.inputs.subject { w with inputs := inputs } :=
    ⟨h.core.tracks, h.core.bound, h.core.slot, h.core.answers, h.core.latest, h.core.shown, h.core.metrics,
      h.core.bottlenecks⟩
  have hSame (hIdentity : inputs.identity = w.inputs.identity) : w.inputs.subject = inputs.subject :=
    Decidable.byContradiction fun hOther => hSubject (Ne.symm hOther) hIdentity
  unfold World.setInputs
  dsimp only
  split
  · refine inv_watch hCore (fun hIdentity => hSame (hIdentity.trans h.last))
      (fun hDisposed => (hFrozen hDisposed).trans h.last.symm) ?_ ?_
    · intro hLive hPolls hStart hSlot
      have hIdle : inputs.identity ≠ w.inputs.identity ∨ w.inputs.shouldPoll = false := by
        refine hStart.imp (fun hNe hEq => hNe (hEq.trans h.last.symm)) fun hOff => ?_
        exact Bool.eq_false_iff.mpr fun hPolled => absurd (hOff.symm.trans (h.timer.mpr ⟨hPolled, hLive⟩)) Bool.false_ne_true
      obtain ⟨hIdentity, hOwn⟩ := hOrphan hLive hPolls hIdle hSlot
      exact ⟨hIdentity.trans h.last.symm, hOwn⟩
    · intro hTimer
      obtain ⟨hPolled, hLive⟩ := h.timer.mp hTimer
      exact ⟨hLive, h.polled hPolled hLive⟩
  · next hUnchanged =>
    rw [not_or, not_or, not_not, not_not, not_not] at hUnchanged
    obtain ⟨hPolls, hRun, hEquivalent⟩ := hUnchanged
    have hSubjectEq : inputs.subject = w.inputs.subject := Prod.ext hRun hEquivalent
    have hIdentity : inputs.identity = w.inputs.identity := by
      rw [Inputs.identity, hRun, hEquivalent]
      rfl
    constructor
    · rw [← hSubjectEq] at hCore
      exact hCore
    · exact h.last.trans hIdentity.symm
    · exact h.timer.trans (by rw [← hPolls])
    · exact fun hPolled hLive => h.polled (hPolls ▸ hPolled) hLive

/-- The settling of a pair keeps the invariant. -/
theorem Inv.settle (h : Inv w) {r : PairRequest} (hr : r ∈ w.inFlight) (metricsResult : Except Rejection M)
    (bottlenecksResult : Except Rejection B) : Inv (w.settle r metricsResult bottlenecksResult) := by
  refine ⟨h.core.settle hr metricsResult bottlenecksResult, h.last, h.timer, fun hPolls hLive => ?_⟩
  have hLatest := h.polled hPolls hLive
  rw [World.settle, World.record]
  dsimp only
  split
  · exact hLatest
  · rw [register_snoc, Register.next]
    split <;> exact hLatest

/-- Every event that fits keeps the invariant. -/
theorem Inv.step (h : Inv w) {event : Event M B} (hFits : Fits w event) : Inv (w.step event) := by
  cases event with
  | inputs inputs => exact h.setInputs hFits
  | tick =>
      unfold World.step
      dsimp only
      split
      · exact h.poll
      · exact h
  | poll => exact h.poll
  | answer seq metricsResult bottlenecksResult =>
      unfold World.step
      dsimp only
      split
      · exact h
      · next r hFind => exact h.settle (List.mem_of_find?_eq_some hFind) metricsResult bottlenecksResult
  | dispose =>
      refine ⟨h.core.dispose, h.last, iff_of_false Bool.false_ne_true fun hLive => ?_, fun _ hLive => ?_⟩
      · cases hLive.2
      · cases hLive

/-- The invariant holds when the composable is set up. -/
theorem Inv.init (inputs : Inputs) : Inv (World.init inputs : World M B) := by
  have hCore : Core inputs.subject ({ inputs := inputs } : World M B) :=
    ⟨fun _ => Tracks.start _ _, Nat.le_refl _, fun _ hSlot => (by cases hSlot), fun _ hMem => (by cases hMem),
      fun _ hLatest => (by cases hLatest), fun _ _ hShown => (by cases hShown), rfl, rfl⟩
  exact inv_watch hCore (fun _ => rfl) (fun h => by cases h) (fun _ _ _ => (fun h => by cases h)) (fun h => by cases h)

/-- After the disposal the watcher leaves the streams as they are. -/
theorem watch_frozen (hDisposed : w.disposed = true) (hIdentity : w.inputs.identity = w.lastIdentity) :
    w.watch.disposed = true ∧ w.watch.metricsStream = w.metricsStream ∧
      w.watch.bottlenecksStream = w.bottlenecksStream := by
  unfold World.watch
  dsimp only
  rw [if_neg (not_not.mpr hIdentity)]
  split
  · exact ⟨hDisposed, rfl, rfl⟩
  · split
    · rw [World.poll, if_pos hDisposed]
      exact ⟨hDisposed, rfl, rfl⟩
    · exact ⟨hDisposed, rfl, rfl⟩

/-- A disposed poller shows what it showed, as long as its subject stays. -/
theorem Inv.frozen (h : Inv w) (hDisposed : w.disposed = true) {event : Event M B} (hFits : Fits w event) :
    (w.step event).disposed = true ∧ (w.step event).metricsStream = w.metricsStream ∧
      (w.step event).bottlenecksStream = w.bottlenecksStream := by
  cases event with
  | inputs inputs =>
      have hIdentity : inputs.identity = w.lastIdentity := (hFits.2.1 hDisposed).trans h.last.symm
      unfold World.step World.setInputs
      dsimp only
      split
      · exact watch_frozen (w := { w with inputs := inputs }) hDisposed hIdentity
      · exact ⟨hDisposed, rfl, rfl⟩
  | tick =>
      have hOff : ¬w.timer = true := fun hTimer => absurd ((h.timer.mp hTimer).2.symm.trans hDisposed) Bool.false_ne_true
      unfold World.step
      dsimp only
      rw [if_neg hOff]
      exact ⟨hDisposed, rfl, rfl⟩
  | poll =>
      rw [World.step, World.poll, if_pos hDisposed]
      exact ⟨hDisposed, rfl, rfl⟩
  | answer seq metricsResult bottlenecksResult =>
      unfold World.step
      dsimp only
      split
      · exact ⟨hDisposed, rfl, rfl⟩
      · next r hFind =>
        have hStale : w.isCurrent r = false := by
          rw [World.isCurrent, hDisposed]
          rfl
        rw [World.settle, hStale]
        exact ⟨hDisposed, rfl, rfl⟩
  | dispose => exact ⟨rfl, rfl, rfl⟩

end Runs

section Faithful

/-- Both streams show what a pair of the current subject has brought, both say that such a pair is
under way, or no pair has been asked for since the subject became current and both are as new. -/
structure Faithful (w : World M B) : Prop where
  current :
    (∃ r a, Published w.log r a ∧ About w.inputs.subject r ∧ w.metricsStream = applyResult a.1 {} ∧
      w.bottlenecksStream = applyResult a.2 {}) ∨
    (∃ r, LastSent w.log r ∧ About w.inputs.subject r ∧ (w.disposed = false → r ∈ w.inFlight) ∧
      w.metricsStream = { phase := .loading } ∧ w.bottlenecksStream = { phase := .loading }) ∨
    (∀ r, ¬LastSent w.log r) ∧ w.metricsStream = {} ∧ w.bottlenecksStream = {}
  notIdle : w.isPolling = true → w.metricsStream.phase ≠ .idle ∧ w.bottlenecksStream.phase ≠ .idle

/-- The last pair that a live poller asked for is in flight until an answer of it is shown. -/
theorem Core.waits {w : World M B} {subject : Option String × String} (h : Core subject w)
    (hLive : w.disposed = false) {r : PairRequest} (hLatest : (register w.log).latest = some r)
    (hShown : (register w.log).shown = none) : r ∈ w.inFlight := by
  have hWaiting : (register w.log).waiting = true := by
    refine Bool.ne_false_iff.mp fun hSettled => ?_
    obtain ⟨a, ha⟩ := shown_of_settled h.answers hLatest hSettled
    cases hShown.symm.trans ha
  obtain ⟨q, hq, hLast⟩ := (h.tracks hLive).waiting_iff.mp hWaiting
  obtain rfl : r = q := Option.some.inj (hLatest.symm.trans (latest_iff.mpr hLast))
  exact hq

/-- A stream that has been given a result is not idle. -/
theorem applyResult_notIdle (result : Except Rejection D) (stream : StreamState D) :
    (applyResult result stream).phase ≠ .idle := by
  unfold applyResult
  cases result with
  | ok value => exact fun h => by cases h
  | error reason =>
      dsimp only
      split <;> exact fun h => by cases h

/-- A stream for which a request was issued is not idle. -/
theorem shownStream_notIdle {A : Type} (result : A → Except Rejection D) {g : Register PairRequest A}
    (h : g.latest.isSome) : (shownStream result g).phase ≠ .idle := by
  unfold shownStream
  split
  · exact applyResult_notIdle _ _
  · rw [if_pos h]
    exact fun h => by cases h

variable {w w' : World M B}

/-- From the invariant follows that the streams are faithful to the subject. -/
theorem Inv.faithful (h : Inv w) : Faithful w := by
  constructor
  · rw [h.core.metrics, h.core.bottlenecks]
    cases hShown : (register w.log).shown with
    | none =>
        cases hLatest : (register w.log).latest with
        | none =>
            refine Or.inr (Or.inr ⟨fun r hr => ?_, ?_, ?_⟩)
            · cases hLatest.symm.trans (latest_iff.mpr hr)
            · rw [shownStream, hShown, hLatest]
              rfl
            · rw [shownStream, hShown, hLatest]
              rfl
        | some r =>
            refine Or.inr (Or.inl ⟨r, latest_iff.mp hLatest, h.core.latest r hLatest, ?_, ?_, ?_⟩)
            · exact fun hLive => h.core.waits hLive hLatest hShown
            · rw [shownStream, hShown, hLatest]
              rfl
            · rw [shownStream, hShown, hLatest]
              rfl
    | some answer =>
        obtain ⟨r, a⟩ := answer
        refine Or.inl ⟨r, a, published_of_shown hShown, h.core.shown r a hShown, ?_, ?_⟩
        · rw [shownStream, hShown]
        · rw [shownStream, hShown]
  · intro hPolling
    rw [World.isPolling, Bool.and_eq_true, Bool.not_eq_true'] at hPolling
    have hLatest := h.polled hPolling.1 hPolling.2
    rw [h.core.metrics, h.core.bottlenecks]
    exact ⟨shownStream_notIdle _ hLatest, shownStream_notIdle _ hLatest⟩

/-- In a run whose changes fit, the poller shows the current subject and is not idle while it
polls, and nothing that is shown changes once it is disposed. -/
theorem polling_faithful {inputs : Inputs} {events later : List (Event M B)}
    (run : Run World.step Fits (World.init inputs) events w) (rest : Run World.step Fits w later w') :
    Faithful w ∧ (w.disposed = true → w'.metricsStream = w.metricsStream ∧
      w'.bottlenecksStream = w.bottlenecksStream) := by
  have hInv : Inv w := run.invariant (Inv.init inputs) fun _ _ h hFits => h.step hFits
  refine ⟨hInv.faithful, fun hDisposed => ?_⟩
  have hRest : Inv w' ∧ w'.disposed = true ∧ w'.metricsStream = w.metricsStream ∧
      w'.bottlenecksStream = w.bottlenecksStream := by
    induction rest with
    | nil => exact ⟨hInv, hDisposed, rfl, rfl⟩
    | snoc prior hFits ih =>
        obtain ⟨hPrior, hClosed, hMetrics, hBottlenecks⟩ := ih
        obtain ⟨hStill, hMetrics', hBottlenecks'⟩ := hPrior.frozen hClosed hFits
        exact ⟨hPrior.step hFits, hStill, hMetrics'.trans hMetrics, hBottlenecks'.trans hBottlenecks⟩
  exact hRest.2.2

/-- The metrics of a run and an equivalent. -/
def pollsFor (equivalent : String) : Inputs := ⟨some "run", equivalent, true, some "running"⟩

/-- A pair is answered, the equivalent changes while nothing is in flight, and the poller is disposed. -/
theorem polling_faithful_changed :
    ∃ w w' : World Unit Unit,
      Run World.step Fits (World.init (pollsFor "UAH"))
        [.answer 2 (.ok ()) (.error ⟨some 503, some "db_read_failed", ""⟩), .inputs (pollsFor "EUR"), .dispose] w ∧
      Run World.step Fits w [.poll] w' ∧ Faithful w ∧
        (w.disposed = true → w'.metricsStream = w.metricsStream ∧ w'.bottlenecksStream = w.bottlenecksStream) := by
  have hAnswer : Fits (World.init (pollsFor "UAH") : World Unit Unit)
      (.answer 2 (.ok ()) (.error ⟨some 503, some "db_read_failed", ""⟩)) := trivial
  have hChange : Fits ((World.init (pollsFor "UAH") : World Unit Unit).step
      (.answer 2 (.ok ()) (.error ⟨some 503, some "db_read_failed", ""⟩))) (.inputs (pollsFor "EUR")) :=
    ⟨fun _ => by decide +kernel, fun hDisposed => absurd hDisposed (by decide +kernel),
      fun _ _ _ hSlot => absurd hSlot (by decide +kernel)⟩
  have hDispose : ∀ v : World Unit Unit, Fits v .dispose := fun _ => trivial
  have hPoll : ∀ v : World Unit Unit, Fits v .poll := fun _ => trivial
  have run := Run.snoc (Run.snoc (Run.snoc Run.nil hAnswer) hChange) (hDispose _)
  have hRest (v : World Unit Unit) : Run World.step Fits v [.poll] (v.step .poll) := Run.snoc Run.nil (hPoll v)
  exact ⟨_, _, run, hRest _, polling_faithful run (hRest _)⟩

/-- The equivalent changes while the panel is closed, and the panel opens again on the old one
before its first pair is answered. -/
theorem left_idle :
    ¬∀ (inputs : Inputs) (events : List (Event Unit Unit)), Faithful (events.foldl World.step (World.init inputs)) := by
  intro h
  have hFaithful := h (pollsFor "UAH") [.inputs { pollsFor "EUR" with enabled := false }, .inputs (pollsFor "UAH")]
  exact (hFaithful.notIdle (by decide +kernel)).1 (by decide +kernel)

end Faithful

end MetricsPolling

import Mathlib
import GeoLedger.Simulator.PaymentIds

/-! Committed observations and the payments they stand for. Between two restarts
of a run the tick index only grows, so ids repeat only across a restart; and an
id that is new is of a payment newly applied. -/
namespace PaymentIds

open RunLifecycle (Run)

variable {digest : String → String} {runId : String} {s : State}

theorem tickIndex_pause (r : Run) : r.pause.tickIndex = r.tickIndex := by
  unfold Run.pause
  split <;> rfl

theorem tickIndex_resume (r : Run) : r.resume.tickIndex = r.tickIndex := by
  unfold Run.resume
  split <;> rfl

theorem tickIndex_fail (now : Nat) (code message : String) (ownTask : Bool) (r : Run) :
    (r.fail now code message ownTask).tickIndex = r.tickIndex := by
  unfold Run.fail
  split <;> rfl

/-- A live and running run goes on to its next tick when it wakes. -/
theorem tickIndex_wake_running (tickMsBase : Nat) {r : Run} (hLive : r.heartbeat = .live)
    (hRunning : r.state = .running) : (r.wake tickMsBase id).tickIndex = r.tickIndex + 1 := by
  rw [Run.wake, if_pos hLive, hRunning]

/-- A run that is not both live and running stays at its tick when it wakes. -/
theorem tickIndex_wake_idle (tickMsBase : Nat) {r : Run} (h : ¬ (r.heartbeat = .live ∧ r.state = .running)) :
    (r.wake tickMsBase id).tickIndex = r.tickIndex := by
  unfold Run.wake
  split
  · next hLive =>
      split
      · rfl
      · rfl
      · rfl
      · next hRunning => exact absurd ⟨hLive, hRunning⟩ h
      · rfl
  · rfl

/-- The executed payments since the last restart carry tick indices up to the
current one, and those with the current one belong to the last tick started. -/
structure Inv (digest : String → String) (runId : String) (s : State) : Prop where
  ticks : ∀ e ∈ s.executions, e.tick ≤ s.tick
  restarts : ∀ e ∈ s.executions, e.restarts ≤ s.restarts
  ids : ∀ e ∈ s.executions, e.txId = simIdempotencyKey digest runId e.tickIndex e.action
  indices : ∀ e ∈ s.executions, e.restarts = s.restarts →
    e.tickIndex < s.run.tickIndex ∨ (e.tickIndex = s.run.tickIndex ∧ e.tick = s.tick)
  pending : ∀ a ∈ s.pending, ∀ e ∈ s.executions, e.tick = s.tick → e.action.seq ≠ a.seq
  rows : ∀ p ∈ s.staged ++ s.rows, ∃ e ∈ s.executions, e.txId = p.1

/-- The invariant holds for a run that has just been created. -/
theorem inv_initial (ownerId : String) : Inv digest runId (State.initial ownerId) := by
  constructor <;> simp [State.initial]

/-- A step that leaves the executed payments and the tick index keeps the
invariant, if it invents neither pending actions nor rows. -/
theorem Inv.mono {s' : State} (hInv : Inv digest runId s) (hExecutions : s'.executions = s.executions)
    (hTick : s'.tick = s.tick) (hRestarts : s'.restarts = s.restarts)
    (hIndex : s'.run.tickIndex = s.run.tickIndex) (hPending : s'.pending ⊆ s.pending)
    (hRows : s'.staged ++ s'.rows ⊆ s.staged ++ s.rows) : Inv digest runId s' := by
  constructor
  · rw [hExecutions, hTick]
    exact hInv.ticks
  · rw [hExecutions, hRestarts]
    exact hInv.restarts
  · rw [hExecutions]
    exact hInv.ids
  · rw [hExecutions, hRestarts, hIndex, hTick]
    exact hInv.indices
  · rw [hExecutions, hTick]
    exact fun a ha => hInv.pending a (hPending ha)
  · rw [hExecutions]
    exact fun p hp => hInv.rows p (hRows hp)

/-- The end of a tick, durable or not, keeps the invariant. -/
theorem inv_endTick (durable : Bool) (hInv : Inv digest runId s) : Inv digest runId (endTick durable s) := by
  refine hInv.mono rfl rfl rfl rfl (List.nil_subset _) ?_
  cases durable
  · exact List.subset_append_right s.staged s.rows
  · exact fun p hp => hp

/-- The wake of a run keeps the invariant. -/
theorem inv_wake (tickMsBase : Nat) (payments : List Payment) (hInv : Inv digest runId s) :
    Inv digest runId (wake tickMsBase payments s) := by
  unfold wake
  split
  · exact hInv
  · split
    · next hRunning =>
        have hIndex := tickIndex_wake_running tickMsBase hRunning.1 hRunning.2
        constructor
        · exact fun e he => Nat.le_succ_of_le (hInv.ticks e he)
        · exact hInv.restarts
        · exact hInv.ids
        · intro e he hSame
          refine Or.inl ?_
          dsimp only
          rw [hIndex]
          rcases hInv.indices e he hSame with hLess | ⟨hEq, -⟩ <;> omega
        · intro a _ e he hTick
          exact absurd hTick (Nat.lt_succ_of_le (hInv.ticks e he)).ne
        · exact hInv.rows
    · next hIdle =>
        exact hInv.mono rfl rfl rfl (tickIndex_wake_idle tickMsBase hIdle) (fun _ ha => ha) (fun _ hp => hp)

/-- The payment executed by a step, and what it leaves. -/
theorem execute_cases (digest : String → String) (runId : String) (seq : Nat) (result : Result) (s : State) :
    (s.pending.find? (·.seq = seq) = none ∧ execute digest runId seq result s = s) ∨
      ∃ a, s.pending.find? (·.seq = seq) = some a ∧ a ∈ s.pending ∧ a.seq = seq ∧
        (execute digest runId seq result s).executions = execution digest runId a result s :: s.executions := by
  unfold execute
  cases hFind : s.pending.find? (·.seq = seq) with
  | none => exact Or.inl ⟨rfl, rfl⟩
  | some a =>
      have hSeq := List.find?_some hFind
      exact Or.inr ⟨a, rfl, List.mem_of_find?_eq_some hFind, of_decide_eq_true hSeq, rfl⟩

/-- The execution of a planned payment keeps the invariant. -/
theorem inv_execute (seq : Nat) (result : Result) (hInv : Inv digest runId s) :
    Inv digest runId (execute digest runId seq result s) := by
  unfold execute
  split
  · exact hInv
  · next a hFind =>
      have hFound := List.find?_some hFind
      have hSeq : a.seq = seq := of_decide_eq_true hFound
      constructor
      · intro e he
        rcases List.mem_cons.mp he with rfl | he
        · exact Nat.le_refl _
        · exact hInv.ticks e he
      · intro e he
        rcases List.mem_cons.mp he with rfl | he
        · exact Nat.le_refl _
        · exact hInv.restarts e he
      · intro e he
        rcases List.mem_cons.mp he with rfl | he
        · rfl
        · exact hInv.ids e he
      · intro e he hSame
        rcases List.mem_cons.mp he with rfl | he
        · exact Or.inr ⟨rfl, rfl⟩
        · exact hInv.indices e he hSame
      · intro other hOther e he hTick
        obtain ⟨hPending, hNe⟩ := List.mem_filter.mp hOther
        rcases List.mem_cons.mp he with rfl | he
        · intro hSame
          exact absurd (hSame.symm.trans hSeq) (by simpa using hNe)
        · exact hInv.pending other hPending e he hTick
      · intro p hp
        rw [List.mem_append] at hp
        rcases hp with hStaged | hRow
        · dsimp only at hStaged
          split at hStaged
          · rcases List.mem_cons.mp hStaged with rfl | hOld
            · exact ⟨_, List.mem_cons_self, rfl⟩
            · obtain ⟨e, he, hId⟩ := hInv.rows p (List.mem_append_left _ hOld)
              exact ⟨e, List.mem_cons_of_mem _ he, hId⟩
          · obtain ⟨e, he, hId⟩ := hInv.rows p (List.mem_append_left _ hStaged)
            exact ⟨e, List.mem_cons_of_mem _ he, hId⟩
        · obtain ⟨e, he, hId⟩ := hInv.rows p (List.mem_append_right _ hRow)
          exact ⟨e, List.mem_cons_of_mem _ he, hId⟩

/-- Every step keeps the invariant. -/
theorem inv_step (x : Step) (hInv : Inv digest runId s) : Inv digest runId (step digest runId s x) := by
  suffices hPerform : Inv digest runId (perform digest runId s x) from
    hPerform.mono rfl rfl rfl rfl (fun _ ha => ha) (fun _ hp => hp)
  cases x with
  | wake tickMsBase payments => exact inv_wake tickMsBase payments hInv
  | execute seq result => exact inv_execute seq result hInv
  | endTick durable => exact inv_endTick durable hInv
  | pause => exact hInv.mono rfl rfl rfl (tickIndex_pause s.run) (fun _ ha => ha) (fun _ hp => hp)
  | resume => exact hInv.mono rfl rfl rfl (tickIndex_resume s.run) (fun _ ha => ha) (fun _ hp => hp)
  | stop source reason client durable =>
      exact (inv_endTick durable hInv).mono rfl rfl rfl rfl (fun _ ha => ha) (fun _ hp => hp)
  | restart =>
      constructor
      · exact hInv.ticks
      · exact fun e he => Nat.le_succ_of_le (hInv.restarts e he)
      · exact hInv.ids
      · intro e he hSame
        exact absurd hSame (Nat.lt_succ_of_le (hInv.restarts e he)).ne
      · exact hInv.pending
      · exact hInv.rows
  | fail code message ownTask =>
      exact hInv.mono rfl rfl rfl (tickIndex_fail s.now code message ownTask s.run) (fun _ ha => ha) (fun _ hp => hp)

/-- The ids tell the payments of different times apart, and what is observed as committed
has moved money: the two things that a transaction id is for. -/
def Good (s : State) : Prop := IdsDistinct s ∧ CommitsGenuine s

/-- An id that no execution has used has no row. -/
theorem row?_eq_none (hInv : Inv digest runId s) {txId : String} (hNew : ∀ e ∈ s.executions, e.txId ≠ txId) :
    s.row? txId = none := by
  cases hRow : s.row? txId with
  | none => rfl
  | some p =>
      obtain ⟨before, after, hSplit, -⟩ := List.lookup_eq_some_iff.mp hRow
      have hMem : (txId, p) ∈ s.staged ++ s.rows := by
        rw [hSplit]
        exact List.mem_append_right _ List.mem_cons_self
      obtain ⟨e, he, hId⟩ := hInv.rows _ hMem
      exact absurd hId (hNew e he)

/-- Since the last restart, the text of a pending payment has not been used. -/
theorem keyMaterial_new (hInv : Inv digest runId s) {a : Action} (ha : a ∈ s.pending) {e : Execution}
    (he : e ∈ s.executions) (hSame : e.restarts = s.restarts) :
    keyMaterial runId e.tickIndex e.action ≠ keyMaterial runId s.run.tickIndex a := by
  intro hText
  obtain ⟨hIndex, hSeq⟩ := keyMaterial_inj hText
  rcases hInv.indices e he hSame with hLess | ⟨-, hTick⟩
  · omega
  · exact hInv.pending a ha e he hTick hSeq

/-- Ids tell executed payments from pending ones exactly as the digested texts do. -/
theorem txId_eq_iff (hDigest : Function.Injective digest) (hInv : Inv digest runId s) {e : Execution}
    (he : e ∈ s.executions) (a : Action) (result : Result) :
    e.txId = (execution digest runId a result s).txId ↔
      keyMaterial runId e.tickIndex e.action = keyMaterial runId s.run.tickIndex a := by
  rw [hInv.ids e he]
  exact simIdempotencyKey_inj hDigest

/-- An executed payment whose text is not that of one from before a restart gets a new id, and
under a new id it is applied when it is observed as committed. -/
theorem good_execute (hDigest : Function.Injective digest) (hInv : Inv digest runId s) (hGood : Good s)
    {seq : Nat} (result : Result)
    (hText : ∀ a, s.pending.find? (·.seq = seq) = some a → ∀ e ∈ s.executions, e.restarts < s.restarts →
      keyMaterial runId e.tickIndex e.action ≠ keyMaterial runId s.run.tickIndex a) :
    Good (execute digest runId seq result s) := by
  rcases execute_cases digest runId seq result s with ⟨-, hSame⟩ | ⟨a, hFind, hPending, -, hExecutions⟩
  · rw [hSame]
    exact hGood
  · have hNew : ∀ e ∈ s.executions, e.txId ≠ (execution digest runId a result s).txId := by
      intro e he hId
      have hEqual := (txId_eq_iff hDigest hInv he a result).mp hId
      rcases (hInv.restarts e he).lt_or_eq with hBefore | hSince
      · exact hText a hFind e he hBefore hEqual
      · exact keyMaterial_new hInv hPending he hSince hEqual
    constructor
    · unfold IdsDistinct
      rw [hExecutions]
      intro e he e' he' hApart
      rcases List.mem_cons.mp he with rfl | he <;> rcases List.mem_cons.mp he' with rfl | he'
      · exact absurd hApart (by simp)
      · exact (hNew e' he').symm
      · exact hNew e he
      · exact hGood.1 e he e' he' hApart
    · unfold CommitsGenuine
      rw [hExecutions]
      intro e he hCommitted
      rcases List.mem_cons.mp he with rfl | he
      · have hRow := row?_eq_none hInv hNew
        simp only [execution] at hRow hCommitted ⊢
        rw [hRow] at hCommitted ⊢
        simpa using hCommitted
      · exact hGood.2 e he hCommitted

/-- A payment that repeats one from before a restart has its text, and with it its id. -/
theorem fresh_of_good_execute {seq : Nat} {result : Result} (hInv : Inv digest runId s)
    (hGood : Good (execute digest runId seq result s)) : Fresh s (.execute seq result) := by
  intro a hFind e he _ hIndex hSeq hPayment
  rcases execute_cases digest runId seq result s with ⟨hNone, -⟩ | ⟨b, hFound, hPending, -, hExecutions⟩
  · exact absurd (hNone.symm.trans hFind) nofun
  · obtain rfl : a = b := Option.some.inj (hFind.symm.trans hFound)
    obtain ⟨hDistinct, -⟩ := hGood
    unfold IdsDistinct at hDistinct
    rw [hExecutions] at hDistinct
    have hApart : e.tick ≠ s.tick ∨ e.action.seq ≠ a.seq := by
      by_cases hTick : e.tick = s.tick
      · exact Or.inr (hInv.pending a hPending e he hTick)
      · exact Or.inl hTick
    refine hDistinct e (List.mem_cons_of_mem _ he) _ List.mem_cons_self hApart ?_
    have hAction : e.action = a := by
      obtain ⟨seq', payment⟩ := a
      exact Action.mk.injEq .. ▸ ⟨hSeq, hPayment⟩
    rw [hInv.ids e he, hAction, hIndex]
    rfl

/-- A wake executes nothing. -/
theorem executions_wake (tickMsBase : Nat) (payments : List Payment) (s : State) :
    (wake tickMsBase payments s).executions = s.executions := by
  unfold wake
  repeat' split
  all_goals rfl

/-- Pending and executed payments are among those that were planned. -/
structure NoBars (s : State) : Prop where
  pending : ∀ a ∈ s.pending, a.payment.NoBar
  executions : ∀ e ∈ s.executions, e.action.payment.NoBar

/-- A planned action carries one of the payments. -/
theorem mem_plan {payments : List Payment} {a : Action} (h : a ∈ plan payments) : a.payment ∈ payments := by
  obtain ⟨p, hp, rfl⟩ := List.mem_map.mp h
  exact List.fst_mem_of_mem_zipIdx hp

/-- Ids stay free of bars where all planned payments are. -/
theorem NoBars.step (h : NoBars s) (digest : String → String) (runId : String) {x : Step} (hPlans : PlansNoBar x) :
    NoBars (step digest runId s x) := by
  cases x with
  | wake tickMsBase payments =>
      refine ⟨fun a ha => ?_, fun e he => ?_⟩
      · change a ∈ (wake tickMsBase payments s).pending at ha
        unfold wake at ha
        split at ha
        · exact h.pending a ha
        · split at ha
          · exact hPlans _ (mem_plan ha)
          · exact h.pending a ha
      · change e ∈ (wake tickMsBase payments s).executions at he
        rw [executions_wake] at he
        exact h.executions e he
  | execute seq result =>
      refine ⟨fun a ha => ?_, fun e he => ?_⟩
      · change a ∈ (execute digest runId seq result s).pending at ha
        unfold execute at ha
        split at ha
        · exact h.pending a ha
        · exact h.pending a (List.mem_of_mem_filter ha)
      · change e ∈ (execute digest runId seq result s).executions at he
        rcases execute_cases digest runId seq result s with ⟨-, hSame⟩ | ⟨a, -, hPending, -, hExecutions⟩
        · rw [hSame] at he
          exact h.executions e he
        · rw [hExecutions] at he
          rcases List.mem_cons.mp he with rfl | he
          · exact h.pending a hPending
          · exact h.executions e he
  | endTick durable => exact ⟨fun _ ha => absurd ha List.not_mem_nil, h.executions⟩
  | pause => exact ⟨h.pending, h.executions⟩
  | resume => exact ⟨h.pending, h.executions⟩
  | stop source reason client durable => exact ⟨fun _ ha => absurd ha List.not_mem_nil, h.executions⟩
  | restart => exact ⟨h.pending, h.executions⟩
  | fail code message ownTask => exact ⟨h.pending, h.executions⟩

/-- A step that executes nothing leaves the ids and the commits as they are. -/
theorem Good.of_executions {s' : State} (h : Good s) (hSame : s'.executions = s.executions) : Good s' := by
  simpa only [Good, IdsDistinct, CommitsGenuine, hSame] using h

/-- Between payments without separators, a fresh step keeps the ids distinct and the commits genuine. -/
theorem good_step (hDigest : Function.Injective digest) (hInv : Inv digest runId s) (hBars : NoBars s)
    (hGood : Good s) {x : Step} (hFresh : Fresh s x) : Good (step digest runId s x) := by
  cases x with
  | wake tickMsBase payments => exact hGood.of_executions (executions_wake tickMsBase payments s)
  | execute seq result =>
      have hNext : Good (execute digest runId seq result s) := by
        refine good_execute hDigest hInv hGood result fun a hFind e he hBefore hText => ?_
        obtain ⟨hIndex, hSeq⟩ := keyMaterial_inj hText
        have hPayment := keyMaterial_payment (hBars.executions e he)
          (hBars.pending a (List.mem_of_find?_eq_some hFind)) hText
        exact hFresh a hFind e he hBefore hIndex hSeq hPayment
      exact hNext
  | endTick durable => exact hGood.of_executions rfl
  | pause => exact hGood.of_executions rfl
  | resume => exact hGood.of_executions rfl
  | stop source reason client durable => exact hGood.of_executions rfl
  | restart => exact hGood.of_executions rfl
  | fail code message ownTask => exact hGood.of_executions rfl

/-- A step after which the ids are distinct was fresh. -/
theorem fresh_of_good_step (hInv : Inv digest runId s) {x : Step} (hGood : Good (step digest runId s x)) :
    Fresh s x := by
  cases x with
  | execute seq result =>
      have hNext : Good (execute digest runId seq result s) := hGood
      exact fresh_of_good_execute hInv hNext
  | wake tickMsBase payments => trivial
  | endTick durable => trivial
  | pause => trivial
  | resume => trivial
  | stop source reason client durable => trivial
  | restart => trivial
  | fail code message ownTask => trivial

/-- Executed payments are only added. -/
theorem executions_step (x : Step) (s : State) : s.executions ⊆ (step digest runId s x).executions := by
  cases x with
  | wake tickMsBase payments =>
      have hSame : (step digest runId s (.wake tickMsBase payments)).executions = s.executions :=
        executions_wake tickMsBase payments s
      rw [hSame]
      exact fun _ he => he
  | execute seq result =>
      rcases execute_cases digest runId seq result s with ⟨-, hSame⟩ | ⟨a, -, -, -, hExecutions⟩
      · intro e he
        have hMem : e ∈ (execute digest runId seq result s).executions := by rwa [hSame]
        exact hMem
      · intro e he
        have hMem : e ∈ (execute digest runId seq result s).executions := by
          rw [hExecutions]
          exact List.mem_cons_of_mem _ he
        exact hMem
  | endTick durable => exact fun _ he => he
  | pause => exact fun _ he => he
  | resume => exact fun _ he => he
  | stop source reason client durable => exact fun _ he => he
  | restart => exact fun _ he => he
  | fail code message ownTask => exact fun _ he => he

/-- Executions are never forgotten. -/
theorem executions_run (steps : List Step) (s : State) :
    s.executions ⊆ (steps.foldl (step digest runId) s).executions := by
  induction steps generalizing s with
  | nil => exact fun _ he => he
  | cons x rest ih => exact List.Subset.trans (executions_step x s) (ih (step digest runId s x))

/-- What holds of more executions holds of fewer. -/
theorem Good.of_subset {s' : State} (hGood : Good s') (hSubset : s.executions ⊆ s'.executions) : Good s :=
  ⟨fun e he e' he' => hGood.1 e (hSubset he) e' (hSubset he'), fun e he => hGood.2 e (hSubset he)⟩

/-- Fresh steps keep a run good, when its planned payments hold no separator. -/
theorem good_run (hDigest : Function.Injective digest) (hInv : Inv digest runId s) (hBars : NoBars s)
    (hGood : Good s) {steps : List Step} (hPlans : ∀ x ∈ steps, PlansNoBar x)
    (hFresh : EachFresh digest runId s steps) : Good (steps.foldl (step digest runId) s) := by
  induction steps generalizing s with
  | nil => exact hGood
  | cons x rest ih =>
      obtain ⟨hFirst, hRest⟩ := hFresh
      have hNext := good_step hDigest hInv hBars hGood hFirst
      have hNoBars := hBars.step digest runId (hPlans x List.mem_cons_self)
      exact ih (inv_step x hInv) hNoBars hNext (fun y hy => hPlans y (List.mem_cons_of_mem x hy)) hRest

/-- A run that ends with distinct ids was fresh at every step, since payments that are executed
stay among the executed ones. -/
theorem eachFresh_of_good (hInv : Inv digest runId s) {steps : List Step}
    (hFinal : Good (steps.foldl (step digest runId) s)) : EachFresh digest runId s steps := by
  induction steps generalizing s with
  | nil => trivial
  | cons x rest ih =>
      rw [List.foldl_cons] at hFinal
      have hNext : Good (step digest runId s x) := hFinal.of_subset (executions_run rest _)
      exact ⟨fresh_of_good_step hInv hNext, ih (inv_step x hInv) hFinal⟩

/-- Over every run, with an injective digest. A run whose payments executed at different times
carry different ids, and whose committed observations are of payments newly applied, repeats no
payment from before a restart; and a run that repeats none is such a run, when the endpoints and
amounts of its planned payments do not hold the separator of the digested text. -/
theorem genuine_commits_iff (digest : String → String) (hDigest : Function.Injective digest)
    (runId ownerId : String) (steps : List Step) :
    (IdsDistinct (steps.foldl (step digest runId) (State.initial ownerId)) ∧
        CommitsGenuine (steps.foldl (step digest runId) (State.initial ownerId)) →
      EachFresh digest runId (State.initial ownerId) steps) ∧
    ((∀ x ∈ steps, PlansNoBar x) → EachFresh digest runId (State.initial ownerId) steps →
      IdsDistinct (steps.foldl (step digest runId) (State.initial ownerId)) ∧
        CommitsGenuine (steps.foldl (step digest runId) (State.initial ownerId))) := by
  have hInv : Inv digest runId (State.initial ownerId) := inv_initial ownerId
  refine ⟨fun hGood => eachFresh_of_good hInv hGood, fun hPlans hFresh => ?_⟩
  have hBars : NoBars (State.initial ownerId) :=
    ⟨fun _ ha => absurd ha List.not_mem_nil, fun _ he => absurd he List.not_mem_nil⟩
  have hGood : Good (State.initial ownerId) := by
    constructor
    · simp [IdsDistinct, State.initial]
    · simp [CommitsGenuine, State.initial]
  exact good_run hDigest hInv hBars hGood hPlans hFresh

/-- A run that is restarted after its first tick but plans another amount: both parts apply to it. -/
theorem genuine_commits_other_amount :
    Function.Injective (fun material : String => material) ∧
      EachFresh (fun material => material) "run_1" (State.initial "admin")
        [.wake 1000 [⟨"A", "B", "UAH", "5"⟩], .execute 0 .passed, .endTick true, .restart,
          .wake 1000 [⟨"A", "B", "UAH", "6"⟩], .execute 0 .passed] ∧
      CommitsGenuine ([Step.wake 1000 [⟨"A", "B", "UAH", "5"⟩], .execute 0 .passed, .endTick true, .restart,
          .wake 1000 [⟨"A", "B", "UAH", "6"⟩], .execute 0 .passed].foldl
        (step (fun material => material) "run_1") (State.initial "admin")) := by
  have hBoth := genuine_commits_iff (fun material => material) (fun _ _ h => h) "run_1" "admin"
    [.wake 1000 [⟨"A", "B", "UAH", "5"⟩], .execute 0 .passed, .endTick true, .restart,
      .wake 1000 [⟨"A", "B", "UAH", "6"⟩], .execute 0 .passed]
  have hFresh := hBoth.1 (by unfold IdsDistinct CommitsGenuine; decide +kernel)
  have hPlans : ∀ x ∈ [Step.wake 1000 [⟨"A", "B", "UAH", "5"⟩], .execute 0 .passed, .endTick true, .restart,
      .wake 1000 [⟨"A", "B", "UAH", "6"⟩], .execute 0 .passed], PlansNoBar x := by
    simp [PlansNoBar, Payment.NoBar]
  exact ⟨fun _ _ h => h, hFresh, (hBoth.2 hPlans hFresh).2⟩

/-- A run that is restarted after its first tick and plans the same payment: the
replay of the first one is observed as committed. -/
theorem restarted_run_replays :
    ¬ ∀ (digest : String → String), Function.Injective digest → ∀ (runId ownerId : String) (steps : List Step),
      IdsDistinct (steps.foldl (step digest runId) (State.initial ownerId)) ∧
        CommitsGenuine (steps.foldl (step digest runId) (State.initial ownerId)) := by
  intro hClaim
  have hRun := hClaim (fun material => material) (fun _ _ h => h) "run_1" "admin"
    [.wake 1000 [⟨"A", "B", "UAH", "5"⟩], .execute 0 .passed, .endTick true, .restart,
      .wake 1000 [⟨"A", "B", "UAH", "5"⟩], .execute 0 .passed]
  unfold IdsDistinct CommitsGenuine at hRun
  revert hRun
  decide +kernel

end PaymentIds

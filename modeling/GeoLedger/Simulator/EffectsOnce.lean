import Mathlib
import GeoLedger.Simulator.TickEffects

/-! The deferred observations of a tick are resolved exactly once, by whichever
commit or rollback ends the transaction of its payments, and a payment's effects
happen exactly when that is a commit that returned. -/
namespace TickEffects

/-- What the resolution of an observation does for its payment. -/
def itemEvents (resolution : Resolution) (item : Observation) : List Event :=
  match item.outcome with
  | .committed =>
      match resolution with
      | .commit =>
          (if item.paymentEffects then [⟨item.seq, .cacheInvalidated⟩, ⟨item.seq, .postCommitEffects⟩] else []) ++
            [⟨item.seq, .txUpdated⟩, ⟨item.seq, .counted⟩]
      | .rollback => []
      | .unknown => if item.paymentEffects then [⟨item.seq, .cacheInvalidated⟩] else []
  | .rejected deltaDrift =>
      (if deltaDrift then [⟨item.seq, .auditDrift⟩] else []) ++ [⟨item.seq, .counted⟩, ⟨item.seq, .txFailed⟩]
  | .error _ => [⟨item.seq, .counted⟩, ⟨item.seq, .txFailed⟩]

/-- The effects of the payment have not been touched. -/
def World.Fresh (w : World) (seq : Nat) : Prop := seq ∉ w.effectsApplied ∧ seq ∉ w.cachesInvalidated

variable {resolution : Resolution} {w : World} {item : Observation} {s : TickState}

/-- Resolving a fresh observation appends its events to the journal. -/
theorem resolveItem_journal (hFresh : w.Fresh item.seq) :
    (w.resolveItem resolution item).journal = w.journal ++ itemEvents resolution item := by
  obtain ⟨hEffects, hCaches⟩ := hFresh
  cases hOutcome : item.outcome with
  | committed =>
      cases resolution <;> cases hPayment : item.paymentEffects <;>
        simp [World.resolveItem, World.applyObservation, World.applyOnce, World.invalidateRoutingCacheOnce,
          World.record, itemEvents, hOutcome, hPayment, hEffects, hCaches]
  | rejected deltaDrift =>
      cases deltaDrift <;> simp [World.resolveItem, World.applyObservation, World.record, itemEvents, hOutcome]
  | error timeout => simp [World.resolveItem, World.applyObservation, World.record, itemEvents, hOutcome]

/-- Resolving one observation leaves the others fresh. -/
theorem resolveItem_fresh {seq : Nat} (hNe : seq ≠ item.seq) (hFresh : w.Fresh seq) :
    (w.resolveItem resolution item).Fresh seq := by
  obtain ⟨hEffects, hCaches⟩ := hFresh
  unfold World.resolveItem World.applyObservation World.applyOnce World.invalidateRoutingCacheOnce
  constructor
  · repeat' split
    all_goals simp [World.record, hEffects, hNe]
  · repeat' split
    all_goals simp [World.record, hCaches, hNe]

/-- The counters after one observation. -/
theorem resolveItem_totals (resolution : Resolution) (w : World) (item : Observation) :
    (w.resolveItem resolution item).committedTotal =
        w.committedTotal + (if resolution = .commit ∧ item.isCommitted then 1 else 0) ∧
      (w.resolveItem resolution item).rejectedTotal = w.rejectedTotal + (if item.isRejected then 1 else 0) ∧
      (w.resolveItem resolution item).errorsTotal = w.errorsTotal + (if item.isError then 1 else 0) := by
  have hOnce (seq : Nat) (w : World) : (w.invalidateRoutingCacheOnce seq).committedTotal = w.committedTotal ∧
      (w.invalidateRoutingCacheOnce seq).rejectedTotal = w.rejectedTotal ∧
      (w.invalidateRoutingCacheOnce seq).errorsTotal = w.errorsTotal := by
    unfold World.invalidateRoutingCacheOnce
    split <;> exact ⟨rfl, rfl, rfl⟩
  have hApply (seq : Nat) (w : World) : (w.applyOnce seq).committedTotal = w.committedTotal ∧
      (w.applyOnce seq).rejectedTotal = w.rejectedTotal ∧ (w.applyOnce seq).errorsTotal = w.errorsTotal := by
    unfold World.applyOnce
    split
    · exact ⟨rfl, rfl, rfl⟩
    · exact hOnce seq _
  cases hOutcome : item.outcome with
  | committed =>
      cases resolution <;> cases hPayment : item.paymentEffects <;>
        simp [World.resolveItem, World.applyObservation, World.record, Observation.isCommitted,
          Observation.isRejected, Observation.isError, hOutcome, hPayment, hOnce, hApply]
  | rejected deltaDrift =>
      cases deltaDrift <;> simp [World.resolveItem, World.applyObservation, World.record, Observation.isCommitted,
        Observation.isRejected, Observation.isError, hOutcome]
  | error timeout =>
      simp [World.resolveItem, World.applyObservation, World.record, Observation.isCommitted,
        Observation.isRejected, Observation.isError, hOutcome]

/-- What the resolution of all observations does, when their payments are
distinct and untouched. -/
theorem foldl_resolveItem_journal (items : List Observation) (w : World)
    (hUnique : (items.map Observation.seq).Nodup) (hFresh : ∀ item ∈ items, w.Fresh item.seq) :
    (items.foldl (World.resolveItem resolution) w).journal = w.journal ++ items.flatMap (itemEvents resolution) := by
  induction items generalizing w with
  | nil => simp
  | cons item rest ih =>
      rw [List.map_cons, List.nodup_cons] at hUnique
      rw [List.foldl_cons, ih _ hUnique.2, resolveItem_journal (hFresh item List.mem_cons_self), List.append_assoc,
        List.flatMap_cons]
      intro other hOther
      refine resolveItem_fresh (fun hSame => hUnique.1 ?_) (hFresh other (List.mem_cons_of_mem _ hOther))
      exact hSame ▸ List.mem_map_of_mem hOther

/-- The counters after all observations. -/
theorem foldl_resolveItem_totals (items : List Observation) (w : World) :
    (items.foldl (World.resolveItem resolution) w).committedTotal =
        w.committedTotal + (if resolution = .commit then items.countP Observation.isCommitted else 0) ∧
      (items.foldl (World.resolveItem resolution) w).rejectedTotal =
        w.rejectedTotal + items.countP Observation.isRejected ∧
      (items.foldl (World.resolveItem resolution) w).errorsTotal =
        w.errorsTotal + items.countP Observation.isError := by
  induction items generalizing w with
  | nil => simp
  | cons item rest ih =>
      obtain ⟨hCommitted, hRejected, hErrors⟩ := ih (w.resolveItem resolution item)
      obtain ⟨hItemCommitted, hItemRejected, hItemErrors⟩ := resolveItem_totals resolution w item
      rw [List.foldl_cons, hCommitted, hRejected, hErrors, hItemCommitted, hItemRejected, hItemErrors,
        List.countP_cons, List.countP_cons, List.countP_cons]
      refine ⟨?_, by omega, by omega⟩
      by_cases hCommit : resolution = .commit
      · simp only [hCommit, true_and, if_true]
        omega
      · simp [hCommit]

/-- The observations of the tick in the order of the plan. -/
def ordered (items : List Observation) : List Observation := items.insertionSort fun a b => a.seq ≤ b.seq

/-- The observations are resolved, with the truth about their commit. -/
structure Settled (items : List Observation) (resolution : Resolution) (s : TickState) : Prop where
  items_eq : s.items = items
  resolved : s.resolution = some resolution
  closed : s.staged = false
  journal : s.world.journal = (ordered items).flatMap (itemEvents resolution)
  totals : TotalsExact s (if resolution = .commit then items.countP Observation.isCommitted else 0)
  commitReturned : s.commitReturned = decide (resolution = .commit)
  durable : s.commitReturned = true → s.durable = true

/-- The observations wait for the end of the transaction of their payments. -/
structure Waiting (items : List Observation) (s : TickState) : Prop where
  items_eq : s.items = items
  unresolved : s.resolution = none
  world : s.world = {}
  staged : s.staged = true
  commitReturned : s.commitReturned = false
  durable : s.durable = false

/-- At the start of a tick all observations are waiting. -/
theorem waiting_initial (items : List Observation) : Waiting items (TickState.initial items) :=
  ⟨rfl, rfl, rfl, rfl, rfl, rfl⟩

/-- A tick is resolved only once. -/
theorem resolve_resolved (h : s.resolution ≠ none) (resolution : Resolution) : resolve resolution s = s := if_pos h

/-- The first resolution settles the observations. -/
theorem settled_resolve {items : List Observation} (hUnique : (items.map Observation.seq).Nodup)
    (hItems : s.items = items) (hUnresolved : s.resolution = none) (hWorld : s.world = {})
    (hClosed : s.staged = false) (hReturned : s.commitReturned = decide (resolution = .commit))
    (hDurable : s.commitReturned = true → s.durable = true) : Settled items resolution (resolve resolution s) := by
  have hResolve : resolve resolution s =
      { s with
        resolution := some resolution
        world := (ordered items).foldl (World.resolveItem resolution) {} } := by
    rw [resolve, if_neg (by simp [hUnresolved]), hItems, hWorld]
    rfl
  have hPerm : (ordered items).Perm items := List.perm_insertionSort _ items
  obtain ⟨hCommitted, hRejected, hErrors⟩ := @foldl_resolveItem_totals resolution (ordered items) {}
  rw [hResolve]
  refine ⟨hItems, rfl, hClosed, ?_, ⟨?_, ?_, ?_⟩, hReturned, hDurable⟩
  · rw [foldl_resolveItem_journal (ordered items) {} ((hPerm.map Observation.seq).nodup_iff.mpr hUnique)
      (fun _ _ => ⟨by simp, by simp⟩)]
    rfl
  · rw [hCommitted, hPerm.countP_eq, Nat.zero_add]
  · simpa [hItems, hPerm.countP_eq] using hRejected
  · simpa [hItems, hPerm.countP_eq] using hErrors

/-- A commit is resolved as such exactly when its attempt is done. -/
theorem resolveCommit_eq_commit_iff (commit rollback : Attempt) :
    (resolveCommit commit rollback).1 = .commit ↔ commit.result = .done := by
  unfold resolveCommit
  by_cases hDone : commit.result = .done
  · simp [hDone]
  · rw [if_neg hDone]
    dsimp only
    split <;> simp [hDone]

/-- A rollback is never resolved as a commit. -/
theorem resolveRollback_ne_commit (rollback : Attempt) : (resolveRollback rollback).1 ≠ .commit := by
  unfold resolveRollback
  dsimp only
  split <;> simp

variable {items : List Observation}

/-- A commit that ends the transaction of the payments settles their observations. -/
theorem settled_commit (hUnique : (items.map Observation.seq).Nodup) (hWaiting : Waiting items s) (p : CommitPoint) :
    Settled items (resolveCommit p.commit p.rollback).1
      (resolve (resolveCommit p.commit p.rollback).1 (endTransaction p s)) := by
  refine settled_resolve hUnique hWaiting.items_eq hWaiting.unresolved hWaiting.world rfl ?_ ?_
  · simp only [endTransaction, hWaiting.commitReturned, hWaiting.staged, resolveCommit_eq_commit_iff,
      Bool.false_or, Bool.true_and]
  · simp only [endTransaction, hWaiting.commitReturned, hWaiting.durable, hWaiting.staged, Bool.false_or,
      Bool.true_and, decide_eq_true_eq]
    exact p.durable_of_done

/-- A rollback of the transaction of the payments settles their observations. -/
theorem settled_rollback (hUnique : (items.map Observation.seq).Nodup) (hWaiting : Waiting items s)
    (rollback : Attempt) :
    Settled items (resolveRollback rollback).1
      (resolve (resolveRollback rollback).1 { s with staged := false }) := by
  refine settled_resolve hUnique hWaiting.items_eq hWaiting.unresolved hWaiting.world rfl ?_ ?_
  · simp only [hWaiting.commitReturned, resolveRollback_ne_commit, decide_false]
  · simp [hWaiting.commitReturned]

/-- What is settled is not resolved again. -/
theorem Settled.resolve (hSettled : Settled items resolution s) (other : Resolution) :
    Settled items resolution (TickEffects.resolve other s) := by
  rwa [resolve_resolved (by simp [hSettled.resolved])]

/-- A later commit holds nothing of the payments. -/
theorem Settled.endTransaction (hSettled : Settled items resolution s) (p : CommitPoint) :
    Settled items resolution (TickEffects.endTransaction p s) := by
  obtain ⟨hItems, hResolved, hClosed, hJournal, hTotals, hReturned, hDurable⟩ := hSettled
  refine ⟨hItems, hResolved, rfl, hJournal, hTotals, ?_, ?_⟩
  · simpa [TickEffects.endTransaction, hClosed] using hReturned
  · simpa [TickEffects.endTransaction, hClosed] using hDurable

/-- A rollback on an error leaves what is settled as it is. -/
theorem Settled.rollbackOnError (hSettled : Settled items resolution s) (rollback : Attempt) :
    Settled items resolution (TickEffects.rollbackOnError rollback s) := by
  have hClosed : Settled items resolution { s with staged := false } :=
    ⟨hSettled.items_eq, hSettled.resolved, rfl, hSettled.journal, hSettled.totals, hSettled.commitReturned,
      hSettled.durable⟩
  exact hClosed.resolve _

/-- Once settled, the observations stay as they are for the rest of the tick. -/
theorem Settled.runStages (hSettled : Settled items resolution s) (onError : Attempt) (stages : List Stage) :
    Settled items resolution (TickEffects.runStages onError stages s) := by
  induction stages generalizing s with
  | nil => exact hSettled
  | cons stage rest ih =>
      cases stage with
      | work raises =>
          rw [TickEffects.runStages]
          split
          · exact hSettled.rollbackOnError onError
          · exact ih hSettled
      | commit p =>
          have hNext := (hSettled.endTransaction p).resolve (resolveCommit p.commit p.rollback).1
          rw [TickEffects.runStages]
          split
          · exact ih hNext
          · exact hNext.rollbackOnError onError
          · exact hNext

/-- Stages with a commit among them settle the observations: at the first
commit, or at the rollback of an exception before it. -/
theorem settled_runStages (hUnique : (items.map Observation.seq).Nodup) (onError : Attempt) {stages : List Stage}
    (hCommit : ∃ p, Stage.commit p ∈ stages) (hWaiting : Waiting items s) :
    ∃ resolution, Settled items resolution (runStages onError stages s) := by
  induction stages generalizing s with
  | nil =>
      obtain ⟨p, hp⟩ := hCommit
      cases hp
  | cons stage rest ih =>
      cases stage with
      | work raises =>
          rw [runStages]
          split
          · exact ⟨_, settled_rollback hUnique hWaiting onError⟩
          · obtain ⟨p, hp⟩ := hCommit
            exact ih ⟨p, by simpa using hp⟩ hWaiting
      | commit p =>
          have hSettled := settled_commit hUnique hWaiting p
          refine ⟨(resolveCommit p.commit p.rollback).1, ?_⟩
          rw [runStages]
          split
          · exact hSettled.runStages onError rest
          · exact hSettled.rollbackOnError onError
          · exact hSettled

/-- Every tick settles the observations of its payments. -/
theorem settled_runTick (script : TickScript) (hUnique : (items.map Observation.seq).Nodup) :
    ∃ resolution, Settled items resolution (runTick script items) := by
  unfold runTick
  split
  · exact ⟨_, settled_rollback hUnique (waiting_initial items) _⟩
  · refine settled_runStages hUnique script.onError ⟨script.tail, ?_⟩ (waiting_initial items)
    simp [TickScript.stages]

/-- The events of an observation carry its number. -/
theorem seq_of_mem_itemEvents : ∀ e ∈ itemEvents resolution item, e.seq = item.seq := by
  cases hOutcome : item.outcome with
  | committed => cases resolution <;> cases hEffects : item.paymentEffects <;> simp [itemEvents, hOutcome, hEffects]
  | rejected deltaDrift => cases deltaDrift <;> simp [itemEvents, hOutcome]
  | error timeout => simp [itemEvents, hOutcome]

/-- What is done for one payment is what the resolution of its observation does. -/
theorem count_flatMap_itemEvents (hUnique : (items.map Observation.seq).Nodup) (hMem : item ∈ items)
    (kind : EventKind) :
    (items.flatMap (itemEvents resolution)).count ⟨item.seq, kind⟩ =
      (itemEvents resolution item).count ⟨item.seq, kind⟩ := by
  induction items with
  | nil => cases hMem
  | cons head tail ih =>
      rw [List.map_cons, List.nodup_cons] at hUnique
      rw [List.flatMap_cons, List.count_append]
      rcases List.mem_cons.mp hMem with rfl | hTail
      · have hNone : (tail.flatMap (itemEvents resolution)).count ⟨item.seq, kind⟩ = 0 := by
          rw [List.count_eq_zero]
          intro hEvent
          obtain ⟨other, hOther, hOwn⟩ := List.mem_flatMap.mp hEvent
          have hSeq : item.seq = other.seq := seq_of_mem_itemEvents _ hOwn
          exact hUnique.1 (hSeq ▸ List.mem_map_of_mem hOther)
        rw [hNone, Nat.add_zero]
      · have hNone : (itemEvents resolution head).count ⟨item.seq, kind⟩ = 0 := by
          rw [List.count_eq_zero]
          intro hEvent
          have hSeq : item.seq = head.seq := seq_of_mem_itemEvents _ hEvent
          exact hUnique.1 (hSeq ▸ List.mem_map_of_mem hTail)
        rw [hNone, Nat.zero_add, ih hUnique.2 hTail]

/-- Each event of an observation has happened as often as its resolution says. -/
theorem Settled.times (hUnique : (items.map Observation.seq).Nodup) (hSettled : Settled items resolution s)
    (hMem : item ∈ items) (kind : EventKind) :
    s.times item.seq kind = (itemEvents resolution item).count ⟨item.seq, kind⟩ := by
  have hPerm : (ordered items).Perm items := List.perm_insertionSort _ items
  rw [TickState.times, hSettled.journal]
  exact count_flatMap_itemEvents ((hPerm.map Observation.seq).nodup_iff.mpr hUnique) (hPerm.mem_iff.mpr hMem) kind

/-- A committed payment has had its effects once if the commit returned, and not at all
otherwise. -/
theorem Settled.effects (hUnique : (items.map Observation.seq).Nodup) (hSettled : Settled items resolution s)
    (hMem : item ∈ items) (hCommitted : item.isCommitted) :
    EffectsHappened s item (if s.commitReturned then 1 else 0) := by
  have hOutcome : item.outcome = .committed := of_decide_eq_true hCommitted
  have hTimes := hSettled.times hUnique hMem
  refine ⟨?_, ?_, fun hEffects => ?_⟩
  · rw [hTimes, hSettled.commitReturned]
    cases resolution <;> cases hEffects : item.paymentEffects <;> simp [itemEvents, hOutcome, hEffects]
  · rw [hTimes, hSettled.commitReturned]
    cases resolution <;> cases hEffects : item.paymentEffects <;> simp [itemEvents, hOutcome, hEffects]
  · rw [hTimes, hSettled.commitReturned]
    cases resolution <;> simp [itemEvents, hOutcome, hEffects]

/-- A payment that failed is counted once, whatever became of the transaction. -/
theorem Settled.failures (hUnique : (items.map Observation.seq).Nodup) (hSettled : Settled items resolution s)
    (hMem : item ∈ items) (hFailed : item.isCommitted = false) : FailureCounted s item := by
  have hTimes := hSettled.times hUnique hMem
  rw [FailureCounted, hTimes, hTimes]
  cases hOutcome : item.outcome with
  | committed => simp [Observation.isCommitted, hOutcome] at hFailed
  | rejected deltaDrift => cases deltaDrift <;> simp [itemEvents, hOutcome]
  | error timeout => simp [itemEvents, hOutcome]

/-- The observations are resolved in the order of their numbers. -/
theorem Settled.inOrder (hSettled : Settled items resolution s) : InOrder s := by
  have hSorted : (ordered items).Pairwise fun a b => a.seq ≤ b.seq := List.pairwise_insertionSort _ items
  rw [InOrder, hSettled.journal, List.pairwise_map, List.pairwise_flatMap]
  refine ⟨fun a _ => ?_, hSorted.imp fun {a b} hLe x hx y hy => ?_⟩
  · refine List.pairwise_of_forall_mem_list fun x hx y hy => ?_
    rw [seq_of_mem_itemEvents x hx, seq_of_mem_itemEvents y hy]
  · rw [seq_of_mem_itemEvents x hx, seq_of_mem_itemEvents y hy]
    exact hLe

/-- For every tick and every list of observations of distinct payments: the
effects of a committed payment happen once if the commit of its transaction
returned, and then it is durable, and never otherwise; rejections and errors are
counted and reported once in any case; the counters add up; and everything is
done in the order of the plan. -/
theorem tick_effects_once (script : TickScript) (items : List Observation)
    (hUnique : (items.map Observation.seq).Nodup) :
    (∀ item ∈ items, item.isCommitted →
        EffectsHappened (runTick script items) item (if (runTick script items).commitReturned then 1 else 0)) ∧
      (∀ item ∈ items, item.isCommitted = false → FailureCounted (runTick script items) item) ∧
      TotalsExact (runTick script items)
        (if (runTick script items).commitReturned then items.countP Observation.isCommitted else 0) ∧
      InOrder (runTick script items) ∧
      ((runTick script items).commitReturned = true → (runTick script items).durable = true) := by
  obtain ⟨resolution, hSettled⟩ := settled_runTick script hUnique
  refine ⟨fun item hMem => hSettled.effects hUnique hMem, fun item hMem => hSettled.failures hUnique hMem, ?_,
    hSettled.inOrder, hSettled.durable⟩
  have hTotals := hSettled.totals
  rw [hSettled.commitReturned]
  simpa using hTotals

/-- A commit that returns although its caller is cancelled meanwhile. -/
def returnedCommit : CommitPoint := ⟨⟨.done, true⟩, ⟨.done, false⟩, true, fun _ => rfl⟩

/-- A commit that a repeated cancellation of the caller cancels, when the
database has already made it durable; the rollback then returns. -/
def cancelledDurableCommit : CommitPoint := ⟨⟨.cancelled, true⟩, ⟨.done, false⟩, true, fun _ => rfl⟩

/-- A tick without clearing and decay, whose tail commits like this. -/
def tailOnly (tail : CommitPoint) : TickScript := ⟨none, false, none, false, none, false, tail, ⟨.done, false⟩⟩

/-- A committed and a rejected payment in a tick that is cancelled while its
tail commits. -/
theorem tick_effects_once_tail :
    EffectsHappened (runTick (tailOnly returnedCommit) [⟨0, .committed, true⟩, ⟨1, .rejected false, false⟩])
        ⟨0, .committed, true⟩ 1 ∧
      FailureCounted (runTick (tailOnly returnedCommit) [⟨0, .committed, true⟩, ⟨1, .rejected false, false⟩])
        ⟨1, .rejected false, false⟩ := by
  obtain ⟨hCommitted, hFailed, -⟩ := tick_effects_once (tailOnly returnedCommit)
    [⟨0, .committed, true⟩, ⟨1, .rejected false, false⟩] (by decide)
  exact ⟨hCommitted ⟨0, .committed, true⟩ (by simp) rfl, hFailed ⟨1, .rejected false, false⟩ (by simp) rfl⟩

/-- A payment can be durable without its effects. -/
theorem durable_without_effects :
    ¬ ∀ (script : TickScript) (items : List Observation), (items.map Observation.seq).Nodup →
      (runTick script items).durable = true →
        ∀ item ∈ items, item.isCommitted → EffectsHappened (runTick script items) item 1 := by
  intro hClaim
  have hEffects := hClaim (tailOnly cancelledDurableCommit) [⟨0, .committed, true⟩] (by decide) rfl
    ⟨0, .committed, true⟩ (by simp) rfl
  exact absurd hEffects.1 (by decide)

end TickEffects

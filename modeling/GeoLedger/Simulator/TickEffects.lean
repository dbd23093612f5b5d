import Mathlib

/-! The observations of a tick's payments, deferred until the transaction that
holds the payments has ended, and the places of a tick that may end it: the
commit before clearing, the commit of the decay, the commit of the tail, and the
rollbacks on a stop or an error. The outcomes of the database operations, the
cancellations of the caller while they run and the failures between them are
arbitrary. A tick is followed from the return of its payments phase: a phase
that raises, as on a `RetryablePaymentConflictException`, returns no observations
and is not modelled. -/
namespace TickEffects

/-- The outcomes of `_PaymentObservation`: a rejection may report a drift of the
payment's deltas, an error may be a timeout. -/
inductive Outcome where
  | committed
  | rejected (deltaDrift : Bool)
  | error (timeout : Bool)
deriving DecidableEq

/-- `_PaymentObservation`. -/
structure Observation where
  seq : Nat
  outcome : Outcome
  paymentEffects : Bool
deriving DecidableEq

def Observation.isCommitted (item : Observation) : Bool := item.outcome = .committed

def Observation.isRejected (item : Observation) : Bool :=
  match item.outcome with
  | .rejected _ => true
  | _ => false

def Observation.isError (item : Observation) : Bool :=
  match item.outcome with
  | .error _ => true
  | _ => false

inductive Resolution where
  | commit
  | rollback
  | unknown
deriving DecidableEq

inductive EventKind where
  | cacheInvalidated
  | postCommitEffects
  | txUpdated
  | txFailed
  | auditDrift
  | counted
deriving DecidableEq

/-- Something observable done for the payment with this place in the plan. -/
structure Event where
  seq : Nat
  kind : EventKind
deriving DecidableEq

/-- The counters of the run, the once-flags of the payments' effects, and a
journal of what was done. -/
structure World where
  journal : List Event := []
  effectsApplied : List Nat := []
  cachesInvalidated : List Nat := []
  attemptsTotal : Nat := 0
  committedTotal : Nat := 0
  rejectedTotal : Nat := 0
  errorsTotal : Nat := 0
  timeoutsTotal : Nat := 0

namespace World

def record (seq : Nat) (kind : EventKind) (w : World) : World :=
  { w with journal := w.journal ++ [⟨seq, kind⟩] }

def invalidateRoutingCacheOnce (seq : Nat) (w : World) : World :=
  if seq ∈ w.cachesInvalidated then w
  else record seq .cacheInvalidated { w with cachesInvalidated := seq :: w.cachesInvalidated }

def applyOnce (seq : Nat) (w : World) : World :=
  if seq ∈ w.effectsApplied then w
  else
    record seq .postCommitEffects
      (invalidateRoutingCacheOnce seq { w with effectsApplied := seq :: w.effectsApplied })

def applyObservation (item : Observation) (w : World) : World :=
  match item.outcome with
  | .committed =>
      let effects := if item.paymentEffects then applyOnce item.seq w else w
      let emitted := record item.seq .txUpdated effects
      record item.seq .counted
        { emitted with
          attemptsTotal := emitted.attemptsTotal + 1
          committedTotal := emitted.committedTotal + 1 }
  | .rejected deltaDrift =>
      let reported := if deltaDrift then record item.seq .auditDrift w else w
      record item.seq .txFailed (record item.seq .counted
        { reported with
          attemptsTotal := reported.attemptsTotal + 1
          rejectedTotal := reported.rejectedTotal + 1 })
  | .error timeout =>
      record item.seq .txFailed (record item.seq .counted
        { w with
          attemptsTotal := w.attemptsTotal + 1
          errorsTotal := w.errorsTotal + 1
          timeoutsTotal := if timeout then w.timeoutsTotal + 1 else w.timeoutsTotal })

/-- One round of the loop of `_resolve`. -/
def resolveItem (resolution : Resolution) (w : World) (item : Observation) : World :=
  if resolution ≠ .commit ∧ item.outcome = .committed then
    if resolution = .unknown ∧ item.paymentEffects then invalidateRoutingCacheOnce item.seq w else w
  else applyObservation item w

end World

/-- How a database operation ends that runs in a task of its own. -/
inductive TaskResult where
  | done
  | failed
  | cancelled
deriving DecidableEq

/-- A database operation that is drained: how it ends, and whether the caller
was cancelled meanwhile. -/
structure Attempt where
  result : TaskResult
  callerCancelled : Bool

/-- What leaves a function instead of its result: an exception, or the
cancellation of the task. -/
inductive Interruption where
  | error
  | cancelled
deriving DecidableEq

def TaskResult.raised : TaskResult → Option Interruption
  | .done => none
  | .failed => some .error
  | .cancelled => some .cancelled

/-- A commit, the rollback that follows it if it does not return, and whether
the database made the transaction durable. A commit that returns did. -/
structure CommitPoint where
  commit : Attempt
  rollback : Attempt
  durable : Bool
  durable_of_done : commit.result = .done → durable = true

/-- `resolve_rollback_under_cancellation`: the callback that is called, and what
is raised afterwards. -/
def resolveRollback (rollback : Attempt) : Resolution × Option Interruption :=
  (if rollback.result = .done then .rollback else .unknown,
    if rollback.callerCancelled then some .cancelled else rollback.result.raised)

/-- `resolve_commit_under_cancellation`. -/
def resolveCommit (commit rollback : Attempt) : Resolution × Option Interruption :=
  if commit.result = .done then
    (.commit, if commit.callerCancelled then some .cancelled else none)
  else
    (if rollback.result = .done ∧ commit.result ≠ .cancelled then .rollback else .unknown,
      if commit.callerCancelled ∨ rollback.callerCancelled then some .cancelled else commit.result.raised)

/-- A tick once its payments are staged: the deferred observations and their
resolution, what was done, whether the payments are still in the open
transaction, whether a commit of theirs returned, and whether they are durable. -/
structure TickState where
  items : List Observation
  resolution : Option Resolution
  world : World
  staged : Bool
  commitReturned : Bool
  durable : Bool

def TickState.initial (items : List Observation) : TickState := ⟨items, none, {}, true, false, false⟩

def resolve (resolution : Resolution) (s : TickState) : TickState :=
  if s.resolution ≠ none then s
  else
    { s with
      resolution := some resolution
      world := (s.items.insertionSort fun a b => a.seq ≤ b.seq).foldl (World.resolveItem resolution) s.world }

/-- The transaction ends by a commit. -/
def endTransaction (p : CommitPoint) (s : TickState) : TickState :=
  { s with
    staged := false
    commitReturned := s.commitReturned || (s.staged && p.commit.result = .done)
    durable := s.durable || (s.staged && p.durable) }

/-- The rollback of `tick_real_mode` after an exception. -/
def rollbackOnError (rollback : Attempt) (s : TickState) : TickState :=
  resolve (resolveRollback rollback).1 { s with staged := false }

/-- The parts of a tick after its payments phase: work that may raise, and commits. -/
inductive Stage where
  | work (raises : Bool)
  | commit (p : CommitPoint)

/-- The stages in turn. An exception leads to the rollback; a cancellation
leaves the tick. -/
def runStages (onError : Attempt) : List Stage → TickState → TickState
  | [], s => s
  | .work raises :: rest, s => if raises then rollbackOnError onError s else runStages onError rest s
  | .commit p :: rest, s =>
      let resolved := resolve (resolveCommit p.commit p.rollback).1 (endTransaction p s)
      match (resolveCommit p.commit p.rollback).2 with
      | none => runStages onError rest resolved
      | some .error => rollbackOnError onError resolved
      | some .cancelled => resolved

/-- What happens to a tick: a stop with its rollback, or the commits it makes
and the failures of the work before each; the tail always commits. -/
structure TickScript where
  stop : Option Attempt
  clearingDecisionRaises : Bool
  clearing : Option CommitPoint
  clearingRaises : Bool
  decay : Option CommitPoint
  metricsRaise : Bool
  tail : CommitPoint
  onError : Attempt

def TickScript.stages (script : TickScript) : List Stage :=
  [.work script.clearingDecisionRaises] ++ script.clearing.toList.map .commit ++
    [.work script.clearingRaises] ++ script.decay.toList.map .commit ++
    [.work script.metricsRaise, .commit script.tail]

/-- `tick_real_mode` from the end of its payments phase. A stop is rolled back
by the payments coordinator itself; if that raises, the tick has no result of
the phase to resolve. -/
def runTick (script : TickScript) (items : List Observation) : TickState :=
  match script.stop with
  | some rollback => resolve (resolveRollback rollback).1 { TickState.initial items with staged := false }
  | none => runStages script.onError script.stages (TickState.initial items)

section Properties

/-- How often something was done for a payment. -/
def TickState.times (s : TickState) (seq : Nat) (kind : EventKind) : Nat := s.world.journal.count ⟨seq, kind⟩

/-- The effects of a committed payment happened this many times. -/
def EffectsHappened (s : TickState) (item : Observation) (n : Nat) : Prop :=
  s.times item.seq .counted = n ∧ s.times item.seq .txUpdated = n ∧
    (item.paymentEffects → s.times item.seq .postCommitEffects = n)

/-- A rejection or an error is counted and reported once. -/
def FailureCounted (s : TickState) (item : Observation) : Prop :=
  s.times item.seq .counted = 1 ∧ s.times item.seq .txFailed = 1

/-- The counters of the run add up to what was observed. -/
def TotalsExact (s : TickState) (committed : Nat) : Prop :=
  s.world.committedTotal = committed ∧ s.world.rejectedTotal = s.items.countP Observation.isRejected ∧
    s.world.errorsTotal = s.items.countP Observation.isError

/-- What is done for the payments follows their places in the plan. -/
def InOrder (s : TickState) : Prop := (s.world.journal.map Event.seq).Pairwise (· ≤ ·)

end Properties

end TickEffects

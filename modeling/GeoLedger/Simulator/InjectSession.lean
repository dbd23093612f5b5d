import Mathlib
import GeoLedger.Debts
import GeoLedger.Simulator.Inject
import GeoLedger.Simulator.TrustDrift

/-! `apply_inject_event` with its debts. An `inject_debt` effect raises the row of a
pair, or adds a row to the session. Rows and lines that are added are seen by
later effects after the next flush, while a raised amount is seen at once. -/
namespace GeoLedger

variable {env : Env}

/-- Replace the debts. -/
def SimDb.setDebts (s : SimDb env) (t : DebtTable env) : SimDb env := { s with db := { s.db with debts := t } }

/-- What `Decimal(str(amount))` gives: a number, a quiet NaN, or a value that has no
cents. -/
inductive InjectAmount where
  | unreadable
  | notANumber
  | number (amount : Amount)
deriving DecidableEq

/-- An `inject_debt` effect. A missing text is empty. -/
structure DebtEffect where
  creditor : String
  fromPid : String
  debtor : String
  toPid : String
  equivalent : String
  amount : InjectAmount

namespace DebtEffect

variable (eff : DebtEffect)

def creditorPid : Pid := strip (if eff.creditor = "" then eff.fromPid else eff.creditor)

def debtorPid : Pid := strip (if eff.debtor = "" then eff.toPid else eff.debtor)

/-- The effect has its equivalent, its debtor and its creditor. -/
def Complete (scenario : Scenario) : Prop :=
  effectiveEquivalent scenario eff.equivalent ≠ "" ∧ eff.debtorPid ≠ "" ∧ eff.creditorPid ≠ ""

instance (scenario : Scenario) : Decidable (eff.Complete scenario) := by
  unfold Complete
  infer_instance

end DebtEffect

/-- An entry of `effects`. An entry that is no object, or that has an op of
another name, is skipped. -/
inductive EventEffect where
  | injectDebt (effect : DebtEffect)
  | other (effect : InjectEffect)
  | unknown

/-- A debt of a debtor to a creditor in an equivalent. -/
structure NewDebt where
  key : Uuid × Uuid × Uuid
  amount : Amount

/-- The line that a debt is granted on. -/
def NewDebt.line (new : NewDebt) : Uuid × Uuid × Uuid := (new.key.2.1, new.key.1, new.key.2.2)

/-- What an event has done so far, with the debts that are added to the session
and not flushed. -/
structure InjectSession (env : Env) where
  base : InjectState env
  addedDebts : List NewDebt
  totalApplied : Amount
  injectDebtEdges : List (String × Pid × Pid)

/-- An `add_participant` that reaches its flush, with a row that fits. -/
def InjectState.Registers (s : InjectState env) : InjectEffect → Prop
  | .addParticipant (some data) _ => strip data.id ≠ "" ∧ strip data.id ∉ s.flushed.participants.keys ∧
      data.Fits ∧ (env.directory.participantByPid (strip data.id)).isSome
  | _ => False

instance (s : InjectState env) (effect : InjectEffect) : Decidable (s.Registers effect) := by
  unfold InjectState.Registers
  split
  · infer_instance
  · infer_instance

namespace InjectSession

variable (s : InjectSession env)

def start (sim : SimDb env) (pidToParticipantId : Dict Pid Uuid) : InjectSession env :=
  ⟨.start sim pidToParticipantId, [], 0, []⟩

/-- Insert the added debts in order. -/
def insertDebts : List NewDebt → DebtTable env → Except GeoError (DebtTable env)
  | [], t => .ok t
  | new :: rest, t => do
      let t ← t.insert new.key.1 new.key.2.1 new.key.2.2 new.amount
      insertDebts rest t

/-- An exception or a failed flush: the event will be undone. -/
def fail : InjectSession env := { s with base := { s.base with failed := true } }

/-- `session.flush()`. -/
def flush : InjectSession env :=
  if s.base.flush.failed then { s with base := s.base.flush }
  else match insertDebts s.addedDebts s.base.flushed.db.debts with
    | .error _ => s.fail
    | .ok debts =>
        { s with base := { s.base.flush with flushed := s.base.flush.flushed.setDebts debts }, addedDebts := [] }

/-- `quantize(Decimal("0.01"))` does not raise: the context has room for the cents. -/
def Quantizable (x : Amount) : Prop := decimalContext.Fits (-2) (centsDown x)

instance (x : Amount) : Decidable (Quantizable x) := by
  unfold Quantizable
  infer_instance

/-- The pair and the equivalent that an effect names, with its amount in cents. -/
def named (scenario : Scenario) (eff : DebtEffect) : Option NewDebt :=
  match eff.amount with
  | .unreadable | .notANumber => none
  | .number amount =>
      if ¬eff.Complete scenario ∨ ¬Quantizable amount ∨ centsDown amount ≤ 0 then none
      else do
        let debtorId ← s.base.pidToParticipantId.get? eff.debtorPid
        let creditorId ← s.base.pidToParticipantId.get? eff.creditorPid
        let equivalent ← env.directory.equivalentByCode (stripUpper (effectiveEquivalent scenario eff.equivalent))
        return ⟨(debtorId, creditorId, equivalent.id), centsDown amount⟩

/-- The total would exceed the budget of the event. -/
def OverBudget (maxTotalAmount : Option Amount) (amount : Amount) : Prop :=
  ∃ m ∈ maxTotalAmount, m < decimalAdd s.totalApplied amount

instance (maxTotalAmount : Option Amount) (amount : Amount) : Decidable (s.OverBudget maxTotalAmount amount) := by
  unfold OverBudget
  infer_instance

/-- What the row of the pair becomes. -/
def raised (t : DebtTable env) (new : NewDebt) : Amount :=
  match t.getDebt new.key.1 new.key.2.1 new.key.2.2 with
  | none => new.amount
  | some existing => centsDown (decimalAdd existing.amount new.amount)

/-- The live line of the pair is active and has room for the debt. -/
def Granted (tl : TrustTable env) (t : DebtTable env) (new : NewDebt) : Prop :=
  ∃ l ∈ tl.live new.line.1 new.line.2.1 new.line.2.2, l.status = .active ∧ 0 < l.limit ∧ raised t new ≤ l.limit

instance (tl : TrustTable env) (t : DebtTable env) (new : NewDebt) : Decidable (Granted tl t new) := by
  unfold Granted
  infer_instance

/-- A line that is active with a positive limit leads to a sum that `quantize` refuses, outside of the
`try` that reads the amount. -/
def Overruns (tl : TrustTable env) (t : DebtTable env) (new : NewDebt) : Prop :=
  (∃ l ∈ tl.live new.line.1 new.line.2.1 new.line.2.2, l.status = .active ∧ 0 < l.limit) ∧
    ∃ existing ∈ t.getDebt new.key.1 new.key.2.1 new.key.2.2, ¬Quantizable (decimalAdd existing.amount new.amount)

instance (tl : TrustTable env) (t : DebtTable env) (new : NewDebt) : Decidable (Overruns tl t new) := by
  unfold Overruns
  infer_instance

/-- The effect raises: a NaN is compared with zero, or the sum is quantized. -/
def Raises (scenario : Scenario) (maxTotalAmount : Option Amount) (eff : DebtEffect) : Prop :=
  (eff.Complete scenario ∧ eff.amount = .notANumber) ∨
    ∃ new ∈ s.named scenario eff, ¬s.OverBudget maxTotalAmount new.amount ∧
      Overruns s.base.flushed.db.trustLines s.base.flushed.db.debts new

instance (scenario : Scenario) (maxTotalAmount : Option Amount) (eff : DebtEffect) :
    Decidable (s.Raises scenario maxTotalAmount eff) := by
  unfold Raises
  infer_instance

/-- The debt of an effect that is not skipped. -/
def injection (scenario : Scenario) (maxTotalAmount : Option Amount) (eff : DebtEffect) : Option NewDebt :=
  (s.named scenario eff).filter fun new => ¬s.OverBudget maxTotalAmount new.amount ∧
    Granted s.base.flushed.db.trustLines s.base.flushed.db.debts new

/-- Raise the row of the pair, or add one to the session. Cents are stored as they
are, so the row is written at once. -/
def putDebt (new : NewDebt) : InjectSession env :=
  match s.base.flushed.db.debts.getDebt new.key.1 new.key.2.1 new.key.2.2 with
  | none => { s with addedDebts := s.addedDebts ++ [new] }
  | some existing =>
      match s.base.flushed.db.debts.write existing.id (raised s.base.flushed.db.debts new) with
      | .error _ => s.fail
      | .ok debts => { s with base := { s.base with flushed := s.base.flushed.setDebts debts } }

/-- Account for a debt that was put. -/
def account (eq : String) (creditorPid debtorPid : Pid) (amount : Amount) : InjectSession env :=
  { s with
    base := { s.base with affectedEquivalents := s.base.affectedEquivalents ++ [eq] }
    totalApplied := decimalAdd s.totalApplied amount
    injectDebtEdges := s.injectDebtEdges ++ [(eq, creditorPid, debtorPid)] }

/-- `op_inject_debt`. -/
def injectDebt (scenario : Scenario) (maxTotalAmount : Option Amount) (eff : DebtEffect) : InjectSession env :=
  if s.Raises scenario maxTotalAmount eff then s.fail
  else match s.injection scenario maxTotalAmount eff with
    | none => s
    | some new =>
        (s.putDebt new).account (effectiveEquivalent scenario eff.equivalent) eff.creditorPid eff.debtorPid
          new.amount

/-- An effect on participants and trust lines. The flush of a registration is one
of the whole session. -/
def applyOther (scenario : Scenario) (eff : InjectEffect) : InjectSession env :=
  let s := if s.base.Registers eff then s.flush else s
  { s with base := s.base.apply scenario eff }

/-- One effect of an event. -/
def apply (scenario : Scenario) (maxTotalAmount : Option Amount) (s : InjectSession env) (effect : EventEffect) :
    InjectSession env :=
  if s.base.failed then s
  else match effect with
    | .injectDebt eff => s.injectDebt scenario maxTotalAmount eff
    | .other eff => s.applyOther scenario eff
    | .unknown => s

end InjectSession

/-- `max_total_amount`; one that is not positive is ignored, and nothing exceeds an infinite one. -/
def maxTotalAmount : ParsedDecimal → Option Amount
  | .number x => if 0 < x then some x else none
  | _ => none

/-- `apply_inject_event`, up to its commit; `none` when the event is undone. The comparison of a
`max_total_amount` that is NaN with zero raises, outside of the `try` that reads it. -/
def InjectSession.applyInjectEvent (scenario : Scenario) (metadata : ParsedDecimal)
    (pidToParticipantId : Dict Pid Uuid) (effects : List EventEffect) (s : SimDb env) :
    Option (InjectSession env) :=
  if effects = [] ∨ metadata = .notANumber then none
  else
    let final := ((effects.take 500).foldl (apply scenario (maxTotalAmount metadata)) (start s pidToParticipantId)).flush
    if final.base.failed then none else some final

end GeoLedger

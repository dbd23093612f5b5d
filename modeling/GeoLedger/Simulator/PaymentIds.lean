import Mathlib
import GeoLedger.Library.Delimited
import GeoLedger.Simulator.RunLifecycle

/-! The transaction ids of simulated payments, over the life of one run: ticks
that plan payments and execute them under ids derived from the tick index, and
the lifecycle operations that rewrite the run meanwhile. -/
namespace PaymentIds

open RunLifecycle (Run Progress)

/-- What a planned payment asks for. -/
structure Payment where
  senderPid : String
  receiverPid : String
  equivalent : String
  amount : String
deriving DecidableEq

/-- `_RealPaymentAction`: a payment and its place in the plan of its tick. -/
structure Action where
  seq : Nat
  payment : Payment
deriving DecidableEq

/-- How the checks and the routing of a payment end, apart from the lookup of its
transaction id. -/
inductive Result where
  | passed
  | rejected
  | failed
deriving DecidableEq

/-- One executed payment: the tick it was executed in, the restarts before it,
what its id is made of, and what its observation says and stands for. -/
structure Execution where
  tick : Nat
  restarts : Nat
  tickIndex : Nat
  action : Action
  txId : String
  committed : Bool
  applied : Bool

/-- The run, its tick in progress, and the rows of its transactions. `tick`
counts the ticks that were started; `rows` are durable, `staged` are rows of
the tick in progress. -/
structure State where
  run : Run
  now : Nat
  tick : Nat
  restarts : Nat
  inTick : Bool
  pending : List Action
  staged : List (String × Payment)
  rows : List (String × Payment)
  executions : List Execution

/-- A run that was just created. -/
def State.initial (ownerId : String) : State :=
  ⟨Run.created 0 0 ownerId false, 1, 0, 0, false, [], [], [], []⟩

section Source

variable (digest : String → String) (runId : String)

/-- The text that `_sim_idempotency_key` digests. -/
def keyMaterial (tickIndex : Nat) (a : Action) : String :=
  runId ++ "|" ++ Nat.repr tickIndex ++ "|" ++ a.payment.senderPid ++ "|" ++ a.payment.receiverPid ++ "|" ++
    a.payment.equivalent ++ "|" ++ a.payment.amount ++ "|" ++ Nat.repr a.seq

/-- `_sim_idempotency_key`; `digest` is the truncated hash. -/
def simIdempotencyKey (tickIndex : Nat) (a : Action) : String :=
  "sim:" ++ digest (keyMaterial runId tickIndex a)

/-- `plan_payments` numbers the actions of a tick from zero. -/
def plan (payments : List Payment) : List Action :=
  payments.zipIdx.map fun p => ⟨p.2, p.1⟩

/-- The row under a transaction id, if there is one. -/
def State.row? (s : State) (txId : String) : Option Payment := (s.staged ++ s.rows).lookup txId

/-- `_do_one` on an action of the running tick: the id is made of the tick index
at this moment. A row under the id is answered as a replay when it is of the
same payment, and as a conflict otherwise. -/
def execution (a : Action) (result : Result) (s : State) : Execution :=
  let txId := simIdempotencyKey digest runId s.run.tickIndex a
  { tick := s.tick
    restarts := s.restarts
    tickIndex := s.run.tickIndex
    action := a
    txId
    committed := result = .passed ∧ (s.row? txId).all (· = a.payment)
    applied := result = .passed ∧ s.row? txId = none }

/-- The observation is recorded, and a payment that is applied leaves its row. -/
def execute (seq : Nat) (result : Result) (s : State) : State :=
  match s.pending.find? (·.seq = seq) with
  | none => s
  | some a =>
      let e := execution digest runId a result s
      { s with
        pending := s.pending.filter (·.seq ≠ seq)
        staged := if e.applied then (e.txId, a.payment) :: s.staged else s.staged
        executions := e :: s.executions }

/-- The tick ends: its rows become durable, or are rolled back. -/
def endTick (durable : Bool) (s : State) : State :=
  { s with
    inTick := false
    pending := []
    staged := []
    rows := if durable then s.staged ++ s.rows else s.rows }

/-- The heartbeat wakes up between ticks. A running run starts its next tick. -/
def wake (tickMsBase : Nat) (payments : List Payment) (s : State) : State :=
  if s.inTick then s
  else if s.run.heartbeat = .live ∧ s.run.state = .running then
    { s with
      run := s.run.wake tickMsBase id
      tick := s.tick + 1
      inTick := true
      pending := plan payments }
  else { s with run := s.run.wake tickMsBase id }

/-- What happens to a run. `stop` cancels a tick in progress, whose commit may
have become durable. -/
inductive Step where
  | wake (tickMsBase : Nat) (payments : List Payment)
  | execute (seq : Nat) (result : Result)
  | endTick (durable : Bool)
  | pause
  | resume
  | stop (source reason client : Option String) (durable : Bool)
  | restart
  | fail (code message : String) (ownTask : Bool)

def perform (s : State) : Step → State
  | .wake tickMsBase payments => wake tickMsBase payments s
  | .execute seq result => execute digest runId seq result s
  | .endTick durable => endTick durable s
  | .pause => { s with run := s.run.pause }
  | .resume => { s with run := s.run.resume }
  | .stop source reason client durable => { endTick durable s with run := s.run.stop s.now source reason client }
  | .restart => { s with run := s.run.restart s.now, restarts := s.restarts + 1 }
  | .fail code message ownTask => { s with run := s.run.fail s.now code message ownTask }

def step (s : State) (x : Step) : State := { perform digest runId s x with now := s.now + 1 }

end Source

section Properties

variable (digest : String → String) (runId : String)

/-- Payments executed at different times carry different transaction ids. -/
def IdsDistinct (s : State) : Prop :=
  ∀ e ∈ s.executions, ∀ e' ∈ s.executions, e.tick ≠ e'.tick ∨ e.action.seq ≠ e'.action.seq → e.txId ≠ e'.txId

/-- Every observation with outcome committed is of a payment newly applied. -/
def CommitsGenuine (s : State) : Prop := ∀ e ∈ s.executions, e.committed → e.applied

/-- No payment that is executed was already executed before a restart of the run: with the
tick index it has now, at the same place in the plan, between the same endpoints, in the same
equivalent and for the same amount. -/
def Fresh (s : State) : Step → Prop
  | .execute seq _ => ∀ a, s.pending.find? (·.seq = seq) = some a → ∀ e ∈ s.executions, e.restarts < s.restarts →
      e.tickIndex = s.run.tickIndex → e.action.seq = a.seq → e.action.payment ≠ a.payment
  | _ => True

/-- Every step is fresh where it happens. -/
def EachFresh : State → List Step → Prop
  | _, [] => True
  | s, x :: rest => Fresh s x ∧ EachFresh (step digest runId s x) rest

/-- A payment whose endpoints and amount do not hold the separator of the digested text. -/
def Payment.NoBar (p : Payment) : Prop :=
  '|' ∉ p.senderPid.toList ∧ '|' ∉ p.receiverPid.toList ∧ '|' ∉ p.amount.toList

/-- The payments that a step plans hold no separator. -/
def PlansNoBar : Step → Prop
  | .wake _ payments => ∀ p ∈ payments, p.NoBar
  | _ => True

end Properties

theorem keyMaterial_first (runId : String) (tickIndex : Nat) (a : Action) :
    ∃ rest, (keyMaterial runId tickIndex a).toList =
      runId.toList ++ '|' :: ((Nat.repr tickIndex).toList ++ '|' :: rest) := by
  refine ⟨(a.payment.senderPid ++ "|" ++ a.payment.receiverPid ++ "|" ++ a.payment.equivalent ++ "|" ++
    a.payment.amount ++ "|" ++ Nat.repr a.seq).toList, ?_⟩
  simp [keyMaterial, String.toList_append]

theorem keyMaterial_last (runId : String) (tickIndex : Nat) (a : Action) :
    ∃ before, (keyMaterial runId tickIndex a).toList = before ++ '|' :: (Nat.repr a.seq).toList := by
  refine ⟨(runId ++ "|" ++ Nat.repr tickIndex ++ "|" ++ a.payment.senderPid ++ "|" ++ a.payment.receiverPid ++
    "|" ++ a.payment.equivalent ++ "|" ++ a.payment.amount).toList, ?_⟩
  simp [keyMaterial, String.toList_append]

/-- Equal texts come from the same tick index and the same place in the plan, whatever the
identifiers between these two look like. -/
theorem keyMaterial_inj {runId : String} {tickIndex tickIndex' : Nat} {a a' : Action}
    (h : keyMaterial runId tickIndex a = keyMaterial runId tickIndex' a') :
    tickIndex = tickIndex' ∧ a.seq = a'.seq := by
  have hBar {n : Nat} : '|' ∉ (Nat.repr n).toList := Delimited.not_mem_digits (by decide) n
  have hChars := congrArg String.toList h
  constructor
  · obtain ⟨rest, hRest⟩ := keyMaterial_first runId tickIndex a
    obtain ⟨rest', hRest'⟩ := keyMaterial_first runId tickIndex' a'
    rw [hRest, hRest', List.append_cancel_left_eq] at hChars
    have hDigits := (Delimited.first_field hBar hBar (List.cons.inj hChars).2).1
    exact Nat.repr_injective (String.toList_injective hDigits)
  · obtain ⟨before, hBefore⟩ := keyMaterial_last runId tickIndex a
    obtain ⟨before', hBefore'⟩ := keyMaterial_last runId tickIndex' a'
    rw [hBefore, hBefore'] at hChars
    have hDigits := (Delimited.last_field hBar hBar hChars).2
    exact Nat.repr_injective (String.toList_injective hDigits)

/-- Without separators in the endpoints and the amounts, equal texts come from the same payment
as well: the endpoints stand in front of the equivalent, and the amount behind it. -/
theorem keyMaterial_payment {runId : String} {tickIndex tickIndex' : Nat} {a a' : Action}
    (ha : a.payment.NoBar) (ha' : a'.payment.NoBar)
    (h : keyMaterial runId tickIndex a = keyMaterial runId tickIndex' a') : a.payment = a'.payment := by
  obtain ⟨hIndex, hSeq⟩ := keyMaterial_inj h
  obtain ⟨hSender, hReceiver, hAmount⟩ := ha
  obtain ⟨hSender', hReceiver', hAmount'⟩ := ha'
  have hChars := congrArg String.toList h
  rw [hIndex] at hChars
  simp only [keyMaterial, String.toList_append, List.append_assoc, List.append_cancel_left_eq, hSeq] at hChars
  have hBar : "|".toList = ['|'] := rfl
  simp only [hBar, List.cons_append, List.nil_append] at hChars
  obtain ⟨hSenders, hChars⟩ := Delimited.first_field hSender hSender' hChars
  obtain ⟨hReceivers, hChars⟩ := Delimited.first_field hReceiver hReceiver' hChars
  have hFields : (a.payment.equivalent.toList ++ '|' :: a.payment.amount.toList) ++ '|' :: (Nat.repr a'.seq).toList =
      (a'.payment.equivalent.toList ++ '|' :: a'.payment.amount.toList) ++ '|' :: (Nat.repr a'.seq).toList := by
    simpa using hChars
  obtain ⟨hEquivalents, hAmounts⟩ := Delimited.last_field hAmount hAmount' (List.append_cancel_right hFields)
  obtain ⟨seq, ⟨sender, receiver, equivalent, amount⟩⟩ := a
  obtain ⟨seq', ⟨sender', receiver', equivalent', amount'⟩⟩ := a'
  rw [Payment.mk.injEq]
  exact ⟨String.toList_injective hSenders, String.toList_injective hReceivers,
    String.toList_injective hEquivalents, String.toList_injective hAmounts⟩

theorem simIdempotencyKey_inj {digest : String → String} (hDigest : Function.Injective digest) {runId : String}
    {tickIndex tickIndex' : Nat} {a a' : Action} :
    simIdempotencyKey digest runId tickIndex a = simIdempotencyKey digest runId tickIndex' a' ↔
      keyMaterial runId tickIndex a = keyMaterial runId tickIndex' a' := by
  constructor
  · intro h
    have hChars := congrArg String.toList h
    simp only [simIdempotencyKey, String.toList_append, List.append_cancel_left_eq] at hChars
    exact hDigest (String.toList_injective hChars)
  · intro h
    rw [simIdempotencyKey, simIdempotencyKey, h]

end PaymentIds

import Mathlib
import GeoLedger.Library.Dict
import GeoLedger.Library.LatestAnswers
import GeoLedger.Simulator.InteractFsm

/-! `useInteractDataCache`: the fetched participants, trust lines and payment targets of
the interact mode, with the requests that are in flight. -/
namespace InteractDataCache
open LatestAnswers
open InteractFsm (jsTrim)

/-- `normalizeRunId`, and `normalizePid`. -/
def normalizeId (text : String) : String := jsTrim text

/-- `normalizeEq`, where `toUpperCase` meets only ASCII letters: codes have no others. -/
def normalizeEq (text : String) : String := String.ofList ((jsTrim text).toList.map Char.toUpper)

/-- What a request throws: the message, where it is an `Error`, and the text `String(error ?? '')`. -/
structure Thrown where
  message : Option String
  text : String
deriving DecidableEq

def getErrorMessage (error : Thrown) (fallback : String) : String :=
  match error.message.filter (· ≠ "") with
  | some message => message
  | none => if jsTrim error.text = "" then fallback else jsTrim error.text

/-- `paymentTargetsKey`; the number of hops is finite. -/
structure PaymentTargetsKey where
  runId : String
  eq : String
  fromPid : String
  maxHops : ℚ
deriving DecidableEq

structure ParticipantsRequest where
  epoch : ℕ
  runId : String
  now : ℤ
deriving DecidableEq

structure TrustlinesRequest where
  epoch : ℕ
  runId : String
  eq : String
  now : ℤ
deriving DecidableEq

structure TargetsRequest where
  epoch : ℕ
  key : PaymentTargetsKey
  now : ℤ
deriving DecidableEq

def PAYMENT_TARGETS_TTL_MS : ℤ := 10000

section Cache

variable (P T : Type)

/-- The refs of the composable, and what its getters watch. -/
structure Cache where
  runId : String
  equivalent : String
  generatedAt : String
  fetchedParticipants : Option (List P) := none
  fetchedParticipantsRunId : String := ""
  participantsFetchedAtMs : ℤ := 0
  participantsFetchEpoch : ℕ := 0
  fetchedTrustlines : Option (List T) := none
  fetchedTrustlinesEq : String := ""
  fetchedTrustlinesRunId : String := ""
  trustlinesFetchedAtMs : ℤ := 0
  trustlinesFetchEpoch : ℕ := 0
  trustlinesLoading : Bool := false
  trustlinesLastError : Option String := none
  paymentTargetsByKey : Dict PaymentTargetsKey (Finset String) := Dict.empty
  paymentTargetsLoadingByKey : Dict PaymentTargetsKey Bool := Dict.empty
  paymentTargetsLastErrorByKey : Dict PaymentTargetsKey String := Dict.empty
  paymentTargetsFetchEpochByKey : Dict PaymentTargetsKey ℕ := Dict.empty
  paymentTargetsFetchedAtMsByKey : Dict PaymentTargetsKey ℤ := Dict.empty
  paymentTargetsRequestSerial : ℕ := 0

end Cache

namespace Cache

variable {P T : Type} (c : Cache P T)

def run : String := normalizeId c.runId

def eq : String := normalizeEq c.equivalent

/-- The fetched list of `participants`, unless it falls back on the snapshot. -/
def shownParticipants : Option (List P) :=
  if c.fetchedParticipantsRunId = c.run then c.fetchedParticipants else none

/-- The fetched list of `trustlines`, unless it falls back on the snapshot. -/
def shownTrustlines : Option (List T) :=
  if c.fetchedTrustlinesRunId = c.run ∧ normalizeEq c.fetchedTrustlinesEq = c.eq then c.fetchedTrustlines else none

/-- `refreshParticipants`, up to its request. -/
def refreshParticipants (force : Bool) (now : ℤ) : Cache P T × Option ParticipantsRequest :=
  if c.run = "" then (c, none)
  else if !force ∧ c.shownParticipants.isSome ∧ now - c.participantsFetchedAtMs < 30000 then (c, none)
  else
    let myEpoch := c.participantsFetchEpoch + 1
    ({ c with participantsFetchEpoch := myEpoch }, some ⟨myEpoch, c.run, now⟩)

/-- `refreshParticipants`, from its answer on. -/
def answerParticipants (r : ParticipantsRequest) (answer : Except Thrown (List P)) : Cache P T :=
  match answer with
  | .error _ => c
  | .ok items =>
      if c.participantsFetchEpoch ≠ r.epoch ∨ c.run ≠ r.runId then c
      else if items.length > 0 then
        { c with
          fetchedParticipants := some items
          fetchedParticipantsRunId := r.runId
          participantsFetchedAtMs := r.now }
      else c

/-- `refreshTrustlines`, up to its request. -/
def refreshTrustlines (force : Bool) (now : ℤ) : Cache P T × Option TrustlinesRequest :=
  if c.run = "" ∨ c.eq = "" then (c, none)
  else if !force ∧ c.shownTrustlines.isSome ∧ now - c.trustlinesFetchedAtMs < 15000 then (c, none)
  else
    let myEpoch := c.trustlinesFetchEpoch + 1
    ({ c with trustlinesLoading := true, trustlinesFetchEpoch := myEpoch }, some ⟨myEpoch, c.run, c.eq, now⟩)

/-- `refreshTrustlines`, from its answer on. -/
def answerTrustlines (r : TrustlinesRequest) (answer : Except Thrown (List T)) : Cache P T :=
  if c.trustlinesFetchEpoch ≠ r.epoch ∨ c.run ≠ r.runId ∨ c.eq ≠ r.eq then c
  else
    match answer with
    | .ok items =>
        { c with
          fetchedTrustlines := some items
          fetchedTrustlinesEq := r.eq
          fetchedTrustlinesRunId := r.runId
          trustlinesFetchedAtMs := r.now
          trustlinesLastError := none
          trustlinesLoading := false }
    | .error error =>
        { c with
          trustlinesLastError := some (getErrorMessage error "Trustlines refresh failed")
          trustlinesLoading := false }

/-- `refreshPaymentTargets`, up to its request. -/
def refreshPaymentTargets (fromPid : String) (maxHops : ℚ) (force : Bool) (now : ℤ) :
    Cache P T × Option TargetsRequest :=
  if c.run = "" ∨ c.eq = "" ∨ normalizeId fromPid = "" ∨ ¬1 ≤ maxHops then (c, none)
  else
    let key : PaymentTargetsKey := ⟨c.run, c.eq, normalizeId fromPid, maxHops⟩
    let fetchedAt := c.paymentTargetsFetchedAtMsByKey.getD key 0
    if !force ∧ (c.paymentTargetsByKey.get? key).isSome ∧ 0 < fetchedAt ∧ now - fetchedAt < PAYMENT_TARGETS_TTL_MS then
      (c, none)
    else
      let myEpoch := c.paymentTargetsRequestSerial + 1
      ({ c with
          paymentTargetsLoadingByKey := c.paymentTargetsLoadingByKey.set key true
          paymentTargetsRequestSerial := myEpoch
          paymentTargetsFetchEpochByKey := c.paymentTargetsFetchEpochByKey.set key myEpoch },
        some ⟨myEpoch, key, now⟩)

/-- The PIDs of an answer; a failure is known to be empty. -/
def targetIds : Except Thrown (List String) → Finset String
  | .ok items => ((items.map normalizeId).filter (· ≠ "")).toFinset
  | .error _ => ∅

/-- `refreshPaymentTargets`, from its answer on. -/
def answerTargets (r : TargetsRequest) (answer : Except Thrown (List String)) : Cache P T :=
  if c.paymentTargetsFetchEpochByKey.get? r.key ≠ some r.epoch then c
  else
    { c with
      paymentTargetsByKey := c.paymentTargetsByKey.set r.key (targetIds answer)
      paymentTargetsLastErrorByKey :=
        match answer with
        | .ok _ => c.paymentTargetsLastErrorByKey.pop r.key
        | .error error =>
            c.paymentTargetsLastErrorByKey.set r.key (getErrorMessage error "Payment targets refresh failed")
      paymentTargetsFetchedAtMsByKey := c.paymentTargetsFetchedAtMsByKey.set r.key r.now
      paymentTargetsLoadingByKey := c.paymentTargetsLoadingByKey.pop r.key }

/-- The watchers that clear the payment targets. -/
def clearTargets : Cache P T :=
  { c with
    paymentTargetsByKey := Dict.empty
    paymentTargetsLoadingByKey := Dict.empty
    paymentTargetsLastErrorByKey := Dict.empty
    paymentTargetsFetchEpochByKey := Dict.empty
    paymentTargetsFetchedAtMsByKey := Dict.empty }

/-- The watcher of the run, before it refreshes the participants. -/
def resetParticipants : Cache P T :=
  { c with
    participantsFetchEpoch := c.participantsFetchEpoch + 1
    fetchedParticipants := none
    fetchedParticipantsRunId := ""
    participantsFetchedAtMs := 0 }

/-- The watcher of the run and the equivalent, before it refreshes the trust lines. -/
def resetTrustlines : Cache P T :=
  { c with
    trustlinesFetchEpoch := c.trustlinesFetchEpoch + 1
    fetchedTrustlines := none
    fetchedTrustlinesEq := ""
    fetchedTrustlinesRunId := ""
    trustlinesFetchedAtMs := 0
    trustlinesLoading := false
    trustlinesLastError := none }

end Cache

section World

/-- The requests of one kind that are not answered yet, and what happened so far. -/
structure Channel (Request Answer : Type) where
  inFlight : List Request := []
  log : List (Entry Request Answer) := []

namespace Channel

variable {Request Answer : Type} (ch : Channel Request Answer)

def clear : Channel Request Answer := { ch with log := ch.log ++ [.cleared] }

def send : Option Request → Channel Request Answer
  | none => ch
  | some r => ⟨ch.inFlight ++ [r], ch.log ++ [.sent r]⟩

def answer (idOf : Request → ℕ) (r : Request) (a : Option Answer) : Channel Request Answer :=
  ⟨ch.inFlight.filter fun q => idOf q ≠ idOf r, ch.log ++ [.answered r a]⟩

end Channel

variable (P T : Type)

/-- The cache and its requests. -/
structure World where
  cache : Cache P T
  participants : Channel ParticipantsRequest (List P) := {}
  trustlines : Channel TrustlinesRequest (List T) := {}
  targets : Channel TargetsRequest (Finset String) := {}

inductive Event where
  | refreshParticipants (force : Bool) (now : ℤ)
  | refreshTrustlines (force : Bool) (now : ℤ)
  | refreshPaymentTargets (fromPid : String) (maxHops : ℚ) (force : Bool) (now : ℤ)
  | context (runId equivalent : String) (now : ℤ)
  | snapshot (generatedAt : String)
  | answerParticipants (epoch : ℕ) (answer : Except Thrown (List P))
  | answerTrustlines (epoch : ℕ) (answer : Except Thrown (List T))
  | answerTargets (epoch : ℕ) (answer : Except Thrown (List String))

variable {P T}

/-- What an answer lets the cache show: an empty list of participants and a failure show nothing. -/
def publishedParticipants : Except Thrown (List P) → Option (List P)
  | .ok items => if items.length > 0 then some items else none
  | .error _ => none

def publishedTrustlines : Except Thrown (List T) → Option (List T)
  | .ok items => some items
  | .error _ => none

namespace World

variable (w : World P T)

def refreshParticipants (force : Bool) (now : ℤ) : World P T :=
  { w with
    cache := (w.cache.refreshParticipants force now).1
    participants := w.participants.send (w.cache.refreshParticipants force now).2 }

def refreshTrustlines (force : Bool) (now : ℤ) : World P T :=
  { w with
    cache := (w.cache.refreshTrustlines force now).1
    trustlines := w.trustlines.send (w.cache.refreshTrustlines force now).2 }

def refreshPaymentTargets (fromPid : String) (maxHops : ℚ) (force : Bool) (now : ℤ) : World P T :=
  { w with
    cache := (w.cache.refreshPaymentTargets fromPid maxHops force now).1
    targets := w.targets.send (w.cache.refreshPaymentTargets fromPid maxHops force now).2 }

/-- The two watchers that clear the payment targets. -/
def clearTargets : World P T := { w with cache := w.cache.clearTargets, targets := w.targets.clear }

/-- The watcher of the run. -/
def watchRun (now : ℤ) : World P T :=
  { w with cache := w.cache.resetParticipants, participants := w.participants.clear : World P T }.refreshParticipants
    false now

/-- The watcher of the run and the equivalent that resets the trust lines. -/
def watchTrustlines (now : ℤ) : World P T :=
  { w with cache := w.cache.resetTrustlines, trustlines := w.trustlines.clear : World P T }.refreshTrustlines
    false now

/-- The refs change, and the watchers whose getters changed run in the order in which they were made. -/
def setContext (runId equivalent : String) (now : ℤ) : World P T :=
  let w' : World P T := { w with cache := { w.cache with runId := runId, equivalent := equivalent } }
  let runChanged := w'.cache.run ≠ w.cache.run
  let changed := runChanged ∨ w'.cache.eq ≠ w.cache.eq
  let cleared := if changed then w'.clearTargets else w'
  let watched := if runChanged then cleared.watchRun now else cleared
  if changed then watched.watchTrustlines now else watched

def setSnapshot (generatedAt : String) : World P T :=
  let w' : World P T := { w with cache := { w.cache with generatedAt := generatedAt } }
  if generatedAt ≠ w.cache.generatedAt then w'.clearTargets else w'

def step : Event P T → World P T
  | .refreshParticipants force now => w.refreshParticipants force now
  | .refreshTrustlines force now => w.refreshTrustlines force now
  | .refreshPaymentTargets fromPid maxHops force now => w.refreshPaymentTargets fromPid maxHops force now
  | .context runId equivalent now => w.setContext runId equivalent now
  | .snapshot generatedAt => w.setSnapshot generatedAt
  | .answerParticipants epoch answer =>
      match w.participants.inFlight.find? (·.epoch = epoch) with
      | none => w
      | some r =>
          { w with
            cache := w.cache.answerParticipants r answer
            participants := w.participants.answer (·.epoch) r (publishedParticipants answer) }
  | .answerTrustlines epoch answer =>
      match w.trustlines.inFlight.find? (·.epoch = epoch) with
      | none => w
      | some r =>
          { w with
            cache := w.cache.answerTrustlines r answer
            trustlines := w.trustlines.answer (·.epoch) r (publishedTrustlines answer) }
  | .answerTargets epoch answer =>
      match w.targets.inFlight.find? (·.epoch = epoch) with
      | none => w
      | some r =>
          { w with
            cache := w.cache.answerTargets r answer
            targets := w.targets.answer (·.epoch) r (some (Cache.targetIds answer)) }

/-- The composable is made: the watchers run at once. -/
def start (runId equivalent generatedAt : String) (now : ℤ) : World P T :=
  let cache : Cache P T := { runId := runId, equivalent := equivalent, generatedAt := generatedAt }
  ({ cache := cache : World P T }.clearTargets.watchRun now).watchTrustlines now

end World

end World

end InteractDataCache

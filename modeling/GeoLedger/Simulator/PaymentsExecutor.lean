import Mathlib
import GeoLedger.Library.Reorder
import GeoLedger.Schema

/-! `RealPaymentsExecutor`: the payments of one tick run as tasks, their results are
taken as they complete and recorded in the order of the plan. The patches built
for an observation are what the database and the run give at that moment; they
come from outside, and so do the outcomes of the payments. -/
namespace PaymentsExecutor

open GeoLedger

section Actions

structure Action where
  seq : Nat
  senderPid : Pid
  receiverPid : Pid
  equivalent : String
  amount : String

/-- An exception of a payment: its class, and what a `GeoException` carries. -/
structure PaymentException where
  typeName : String
  timeout : Bool
  geoStatus : Option ℤ
  geoCode : Option String
  message : String
deriving DecidableEq, Repr

/-- How `create_payment_internal_staged` ends. A retryable conflict is raised again. -/
inductive Attempt (Effects : Type) where
  | returned (status : String) (routes : List (List Pid)) (effects : Option Effects)
  | raised (e : PaymentException)
  | conflict

/-- `err_details`. -/
structure ErrorDetails where
  exc : Option String
  geoCode : Option String
  message : Option String
  statusCode : Option ℤ
  reason : Option String
deriving DecidableEq, Repr

/-- What `_do_one` returns. -/
structure ActionResult (Effects : Type) where
  seq : Nat
  equivalent : String
  senderPid : Pid
  receiverPid : Pid
  amount : String
  status : Option String
  errCode : Option String
  errDetails : Option ErrorDetails
  avgRouteLen : ℚ
  routeEdges : List (Pid × Pid)
  effects : Option Effects

/-- How a task ends: with a result, or with an exception. -/
inductive TaskEnd (Effects : Type) where
  | returns (result : ActionResult Effects)
  | raises

variable {Effects : Type}

/-- The edges of the first route with an edge. -/
def firstRouteEdges (routes : List (List Pid)) : List (Pid × Pid) :=
  match routes.find? (2 ≤ ·.length) with
  | none => []
  | some path => path.zip path.tail

/-- The mean number of edges of the routes with an edge. -/
def averageRouteLength (routes : List (List Pid)) : ℚ :=
  let lens := (routes.filter (2 ≤ ·.length)).map fun path => ((path.length - 1 : Nat) : ℚ)
  if lens = [] then 0 else lens.sum / lens.length

/-- A result of an action without a payment. -/
def Action.failed (action : Action) (status errCode : Option String) (details : ErrorDetails) :
    ActionResult Effects :=
  ⟨action.seq, action.equivalent, action.senderPid, action.receiverPid, action.amount, status, errCode,
    some details, 0, [], none⟩

def doOne (knownSender : Pid → Bool) (action : Action) (attempt : Attempt Effects) : TaskEnd Effects :=
  if !knownSender action.senderPid then
    .returns { action.failed none (some "SENDER_NOT_FOUND") ⟨none, none, none, none, some "SENDER_NOT_FOUND"⟩ with
      amount := "None" }
  else match attempt with
    | .conflict => .raises
    | .returned status routes effects =>
        .returns ⟨action.seq, action.equivalent, action.senderPid, action.receiverPid, action.amount, some status,
          none, none, averageRouteLength routes, firstRouteEdges routes, effects⟩
    | .raised e =>
        if e.timeout then
          .returns (action.failed none (some "PAYMENT_TIMEOUT")
            ⟨some e.typeName, e.geoCode, some e.message, none, none⟩)
        else match e.geoStatus with
          | none =>
              .returns (action.failed none (some "INTERNAL_ERROR")
                ⟨some e.typeName, none, some e.message, none, none⟩)
          | some geoStatus =>
              let details : ErrorDetails := ⟨some e.typeName, e.geoCode, some e.message, some geoStatus, none⟩
              if 400 ≤ geoStatus ∧ geoStatus < 500 then .returns (action.failed (some "REJECTED") none details)
              else .returns (action.failed none (some "INTERNAL_ERROR") details)

end Actions

section Codes

/-- `needle in text`. -/
def contains (needle text : String) : Bool :=
  text.toList.tails.any (needle.toList.isPrefixOf ·)

def mapRejectionCode : Option ErrorDetails → String
  | none => "PAYMENT_REJECTED"
  | some details =>
      let excName := details.exc.getD ""
      let geoCode := details.geoCode.getD ""
      if excName = "RoutingException" then
        if geoCode = "E002" then "ROUTING_NO_CAPACITY"
        else if geoCode = "E001" then "ROUTING_NO_ROUTE"
        else "ROUTING_REJECTED"
      else if excName = "TrustLineException" then
        if geoCode = "E003" then "TRUSTLINE_LIMIT_EXCEEDED"
        else if geoCode = "E004" then "TRUSTLINE_NOT_ACTIVE"
        else "TRUSTLINE_REJECTED"
      else if excName = "NotFoundException" then
        let m := String.ofList ((details.message.getD "").toList.map Char.toLower)
        if contains "equivalent" m then "EQUIVALENT_NOT_FOUND"
        else if contains "participant" m then "PARTICIPANT_NOT_FOUND"
        else if contains "transaction" m || contains "tx" m then "TX_NOT_FOUND"
        else "PAYMENT_REJECTED"
      else if excName = "BadRequestException" then "INVALID_INPUT"
      else if excName = "ConflictException" then "CONFLICT"
      else if excName = "UnauthorizedException" then "UNAUTHORIZED"
      else if excName = "ForbiddenException" then "FORBIDDEN"
      else if excName = "InvalidSignatureException" ∨ excName = "CryptoException" then "INVALID_SIGNATURE"
      else "PAYMENT_REJECTED"

end Codes

section Records

variable {Effects Patch : Type}

/-- An entry of the reorder buffer: a result with the patches built for it. -/
structure Item (Effects Patch : Type) where
  result : ActionResult Effects
  edgePatch : Option Patch
  nodePatch : Option Patch

inductive Outcome where
  | committed
  | rejected
  | error
deriving DecidableEq, Repr

/-- `_PaymentObservation`. -/
structure Observation (Effects Patch : Type) where
  seq : Nat
  outcome : Outcome
  equivalent : String
  senderPid : Pid
  receiverPid : Pid
  amount : String
  edges : List (Pid × Pid)
  effects : Option Effects
  edgePatch : Option Patch
  nodePatch : Option Patch
  errorCode : Option String
  errorDetails : Option ErrorDetails

/-- The counters of `per_eq`. -/
structure EqCounters where
  committed : Nat
  rejected : Nat
  errors : Nat
  timeouts : Nat
deriving DecidableEq, Repr

/-- The counters of `per_eq_edge_stats`. -/
structure EdgeStats where
  attempts : Nat
  committed : Nat
  rejected : Nat
  errors : Nat
  timeouts : Nat
deriving DecidableEq, Repr

/-- The entries of `per_eq_route`. -/
structure RouteStats where
  routeLenSum : ℚ
  routeLenN : ℚ
deriving DecidableEq, Repr

def EqCounters.zero : EqCounters := ⟨0, 0, 0, 0⟩

def EdgeStats.zero : EdgeStats := ⟨0, 0, 0, 0, 0⟩

def RouteStats.zero : RouteStats := ⟨0, 0⟩

/-- What has been recorded. -/
structure Tally (Effects Patch : Type) where
  committed : Nat
  rejected : Nat
  errors : Nat
  timeouts : Nat
  perEq : Dict String EqCounters
  perEqRoute : Dict String RouteStats
  perEqEdgeStats : Dict String (Dict (Pid × Pid) EdgeStats)
  rejectionCodesByEq : Dict String (Dict String Nat)
  observations : List (Observation Effects Patch)
  queueDepth : Nat

/-- `d.setdefault(k, default)` and a change of it. -/
def bump {Key Value : Type} [DecidableEq Key] (d : Dict Key Value) (k : Key) (default : Value)
    (f : Value → Value) : Dict Key Value := d.set k (f (d.getD k default))

/-- `_edge_inc` along all edges of a payment. -/
def bumpEdges (d : Dict String (Dict (Pid × Pid) EdgeStats)) (eq : String) (edges : List (Pid × Pid))
    (f : EdgeStats → EdgeStats) : Dict String (Dict (Pid × Pid) EdgeStats) :=
  edges.foldl (fun d edge => bump d eq Dict.empty fun m => bump m edge EdgeStats.zero f) d

/-- `route_edges or [(sender_pid, receiver_pid)]`. -/
def ActionResult.edgesPairs (r : ActionResult Effects) : List (Pid × Pid) :=
  if r.routeEdges = [] then [(r.senderPid, r.receiverPid)] else r.routeEdges

/-- The branch of `_record_if_ready` for an error. -/
def recordError (s : Tally Effects Patch) (nextSeq : Nat) (item : Item Effects Patch) (code : String) :
    Tally Effects Patch :=
  let r := item.result
  let timeout := if code = "PAYMENT_TIMEOUT" then 1 else 0
  let rejected := if code = "PAYMENT_REJECTED" then 1 else 0
  { s with
    errors := s.errors + 1
    timeouts := s.timeouts + timeout
    perEq := bump s.perEq r.equivalent EqCounters.zero fun c =>
      { c with errors := c.errors + 1, timeouts := c.timeouts + timeout, rejected := c.rejected + rejected }
    perEqEdgeStats := bumpEdges s.perEqEdgeStats r.equivalent r.edgesPairs fun st =>
      { st with
        attempts := st.attempts + 1
        errors := st.errors + 1
        timeouts := st.timeouts + timeout
        rejected := st.rejected + rejected }
    observations := s.observations ++ [{
      seq := nextSeq, outcome := .error, equivalent := r.equivalent, senderPid := r.senderPid
      receiverPid := r.receiverPid, amount := r.amount, edges := r.edgesPairs, effects := none
      edgePatch := none, nodePatch := none, errorCode := some code, errorDetails := r.errDetails }]
    queueDepth := s.queueDepth - 1 }

/-- The branch for a committed payment. -/
def recordCommitted (s : Tally Effects Patch) (nextSeq : Nat) (item : Item Effects Patch) : Tally Effects Patch :=
  let r := item.result
  { s with
    committed := s.committed + 1
    perEq := bump s.perEq r.equivalent EqCounters.zero fun c => { c with committed := c.committed + 1 }
    perEqRoute :=
      if 0 < r.avgRouteLen then
        bump s.perEqRoute r.equivalent RouteStats.zero fun d =>
          ⟨d.routeLenSum + r.avgRouteLen, d.routeLenN + 1⟩
      else s.perEqRoute
    perEqEdgeStats := bumpEdges s.perEqEdgeStats r.equivalent r.edgesPairs fun st =>
      { st with attempts := st.attempts + 1, committed := st.committed + 1 }
    observations := s.observations ++ [{
      seq := nextSeq, outcome := .committed, equivalent := r.equivalent, senderPid := r.senderPid
      receiverPid := r.receiverPid, amount := r.amount, edges := r.edgesPairs, effects := r.effects
      edgePatch := item.edgePatch, nodePatch := item.nodePatch, errorCode := none, errorDetails := none }]
    queueDepth := s.queueDepth - 1 }

/-- The branch for a payment that was turned down. -/
def recordRejected (s : Tally Effects Patch) (nextSeq : Nat) (item : Item Effects Patch) : Tally Effects Patch :=
  let r := item.result
  let rejectionCode := mapRejectionCode r.errDetails
  { s with
    rejected := s.rejected + 1
    perEq := bump s.perEq r.equivalent EqCounters.zero fun c => { c with rejected := c.rejected + 1 }
    perEqEdgeStats := bumpEdges s.perEqEdgeStats r.equivalent r.edgesPairs fun st =>
      { st with attempts := st.attempts + 1, rejected := st.rejected + 1 }
    rejectionCodesByEq := bump s.rejectionCodesByEq r.equivalent Dict.empty fun m =>
      bump m rejectionCode 0 (· + 1)
    observations := s.observations ++ [{
      seq := nextSeq, outcome := .rejected, equivalent := r.equivalent, senderPid := r.senderPid
      receiverPid := r.receiverPid, amount := r.amount, edges := r.edgesPairs, effects := none
      edgePatch := none, nodePatch := none, errorCode := some rejectionCode, errorDetails := r.errDetails }]
    queueDepth := s.queueDepth - 1 }

/-- The body of the loop of `_record_if_ready`. -/
def record (s : Tally Effects Patch) (nextSeq : Nat) (item : Item Effects Patch) : Tally Effects Patch :=
  match item.result.errCode with
  | some code => recordError s nextSeq item code
  | none =>
      if item.result.status = some "COMMITTED" then recordCommitted s nextSeq item
      else recordRejected s nextSeq item

/-- The tally that a tick starts from. -/
def Tally.start (equivalents : List String) (queueDepth : Nat) : Tally Effects Patch where
  committed := 0
  rejected := 0
  errors := 0
  timeouts := 0
  perEq := Dict.ofList (equivalents.map (·, EqCounters.zero))
  perEqRoute := Dict.ofList (equivalents.map (·, RouteStats.zero))
  perEqEdgeStats := Dict.ofList (equivalents.map (·, Dict.empty))
  rejectionCodesByEq := Dict.ofList (equivalents.map (·, Dict.empty))
  observations := []
  queueDepth := queueDepth

end Records

end PaymentsExecutor

import Mathlib
import GeoLedger.Validation
import GeoLedger.Payments.Engine

/-! `PaymentRouter`: the capacity graph of an equivalent, and the search for
routes in it. The graph is built from the trust lines, the debts and the live
locks; a route search takes breadth-first paths from a residual copy of it. -/
namespace GeoLedger

variable {env : Env}

section Policies

/-- `bool(value)`. -/
def pyTruthy : PolicyValue → Bool
  | .null => false
  | .bool value => value
  | .int n => n ≠ 0
  | .float x => x ≠ 0
  | .nan | .infinity _ => true
  | .str text => text ≠ ""
  | .list items => items ≠ []
  | .dict isEmpty => !isEmpty

/-- White space around a number for `int`, which `str.strip` takes four more characters for. -/
def isIntWhitespace (c : Char) : Bool := isPyWhitespace c && !(28 ≤ c.toNat && c.toNat ≤ 31)

/-- `int(text)`: digits with single underscores between them, perhaps signed, and not more
digits than `int` converts. -/
def pyIntText (text : List Char) : Option ℤ :=
  let digits (body : List Char) : Option ℤ :=
    match (body.splitOn '_').mapM pyDigits? with
    | none => none
    | some parts =>
        if parts.flatten.length ≤ intMaxStrDigits then some (digitsValue parts.flatten : ℤ) else none
  match ((text.dropWhile isIntWhitespace).reverse.dropWhile isIntWhitespace).reverse with
  | '-' :: body => (digits body).map (- ·)
  | '+' :: body => digits body
  | body => digits body

/-- `int(value)`; `none` when it raises. -/
def pyInt : PolicyValue → Option ℤ
  | .bool value => some (if value then 1 else 0)
  | .int n => some n
  | .float x => some (if 0 ≤ x then ⌊x⌋ else ⌈x⌉)
  | .str text => pyIntText text.toList
  | .null | .nan | .infinity _ | .list _ | .dict _ => none

/-- Whether the debtor may pass payments on over a line with this policy. -/
def canBeIntermediate : Option Policy → Bool
  | none => true
  | some policy =>
      pyTruthy ((policy.get? "can_be_intermediate").getD (.bool true)) &&
        pyInt ((policy.get? "max_hop_usage").getD (.int 1)) ≠ some 0

def blockedParticipants : Option Policy → List Pid
  | none => []
  | some policy =>
      match policy.get? "blocked_participants" with
      | some (.list items) => (items.filterMap id).filter (· ≠ "")
      | _ => []

end Policies

abbrev CapacityGraph := Dict Pid (Dict Pid Amount)

structure PaymentRouter where
  graph : CapacityGraph
  edgeCanBeIntermediate : Dict Pid (Dict Pid Bool)
  edgeBlockedParticipants : Dict Pid (Dict Pid (List Pid))

namespace PaymentRouter

def empty : PaymentRouter := ⟨Dict.empty, Dict.empty, Dict.empty⟩

section Build

/-- The ids looked up in the participants table. -/
def allParticipantIds (trustlines : List TrustLine) (debts : List Debt) (activeLocks : List PrepareLock) :
    List Uuid :=
  (trustlines.flatMap fun l => [l.fromParticipantId, l.toParticipantId]) ++
    (debts.flatMap fun d => [d.debtorId, d.creditorId]) ++
    activeLocks.flatMap fun l => l.participantId :: l.flows.flatMap fun f => [f.fromId, f.toId]

/-- `reserved_map`: what live locks reserve along each ordered pair. -/
def reservedMap (pids : Dict Uuid Pid) (e : Uuid) (activeLocks : List PrepareLock) :
    Dict (Pid × Pid) Amount :=
  Dict.empty.tally ((activeLocks.flatMap (·.flows)).filterMap fun f =>
    if f.equivalentId ≠ e then none
    else match pids.get? f.fromId, pids.get? f.toId with
      | some fromPid, some toPid => some ((fromPid, toPid), f.amount)
      | _, _ => none)

/-- The capacity that a line gives from its debtor to its creditor, without the rounding of the context. Limits
and debts are amounts of the column, and only reservations of more than sixteen decimals could need more digits. -/
def lineCapacity (debtMap : Dict (Uuid × Uuid) Amount) (reserved : Dict (Pid × Pid) Amount)
    (creditorPid debtorPid : Pid) (l : TrustLine) : Amount :=
  l.limit - debtMap.getD (l.toParticipantId, l.fromParticipantId) 0 +
    debtMap.getD (l.fromParticipantId, l.toParticipantId) 0 - reserved.getD (debtorPid, creditorPid) 0

/-- The edge of one trust line, added when its capacity is positive. -/
def addLine (pids : Dict Uuid Pid) (debtMap : Dict (Uuid × Uuid) Amount)
    (reserved : Dict (Pid × Pid) Amount) (r : PaymentRouter) (l : TrustLine) : PaymentRouter :=
  match pids.get? l.fromParticipantId, pids.get? l.toParticipantId with
  | some creditorPid, some debtorPid =>
      let cap := lineCapacity debtMap reserved creditorPid debtorPid l
      if 0 < cap then
        { graph := r.graph.set₂ debtorPid creditorPid (r.graph.getD₂ debtorPid creditorPid 0 + cap)
          edgeCanBeIntermediate :=
            r.edgeCanBeIntermediate.set₂ debtorPid creditorPid (canBeIntermediate l.policy)
          edgeBlockedParticipants :=
            r.edgeBlockedParticipants.set₂ debtorPid creditorPid (blockedParticipants l.policy) }
      else r
  | _, _ => r

/-- `_build_graph_impl`, without the shared cache. -/
def buildGraphImpl (order : ReadOrder) (now : Time) (code : String) (db : Db env) : PaymentRouter :=
  match env.directory.equivalentByCode code with
  | none => empty
  | some equivalent =>
      let trustlines := order.trustLines
        (db.trustLines.rows.filter fun l => l.equivalentId = equivalent.id ∧ l.status = .active)
      let debts := order.debts (db.debts.rows.filter (·.equivalentId = equivalent.id))
      let activeLocks := db.prepareLocks.live now
      let ids := allParticipantIds trustlines debts activeLocks
      if ids = [] then empty
      else
        let pids := Dict.ofList
          ((env.directory.participants.filter (·.id ∈ ids)).map fun p => (p.id, p.pid))
        let debtMap := Dict.ofList (debts.map fun d => ((d.debtorId, d.creditorId), d.amount))
        let nodes := pids.items.map (·.2)
        trustlines.foldl (addLine pids debtMap (reservedMap pids equivalent.id activeLocks))
          { graph := Dict.ofList (nodes.map (·, Dict.empty))
            edgeCanBeIntermediate := Dict.ofList (nodes.map (·, Dict.empty))
            edgeBlockedParticipants := Dict.ofList (nodes.map (·, Dict.empty)) }

/-- `build_graph` with nothing in the cache. -/
def buildGraph (order : ReadOrder) (now : Time) (code : String) (db : Db env) :
    Except GeoError PaymentRouter := do
  validateEquivalentCode code
  return buildGraphImpl order now code db

end Build

section Search

/-- An entry of the search queue: a node, the path to it, and the participants
that the policies along the path block. -/
structure SearchEntry where
  current : Pid
  path : List Pid
  blockedSoFar : List Pid

/-- What one search asks for. -/
structure PathQuery where
  fromPid : Pid
  toPid : Pid
  amount : Amount
  maxHops : ℤ
  forbiddenEdges : List (Pid × Pid)
  forbiddenNodes : List Pid

/-- Whether the edge from the entry's node to a neighbor extends its path. -/
def admits (r : PaymentRouter) (q : PathQuery) (entry : SearchEntry) (neighbor : Pid)
    (capacity : Amount) : Bool :=
  let endpoint := neighbor = q.fromPid ∨ neighbor = q.toPid
  let edgeBlocked := r.edgeBlockedParticipants.getD₂ entry.current neighbor []
  (entry.current, neighbor) ∉ q.forbiddenEdges ∧ neighbor ∉ q.forbiddenNodes ∧
    0 < capacity ∧ q.amount ≤ capacity ∧ neighbor ∉ entry.path ∧
    (endpoint ∨ neighbor ∉ entry.blockedSoFar) ∧ (endpoint ∨ neighbor ∉ edgeBlocked) ∧
    (2 < entry.path.length → ∀ p ∈ entry.path.tail.dropLast, p ∉ edgeBlocked) ∧
    (endpoint ∨ r.edgeCanBeIntermediate.getD₂ entry.current neighbor true)

/-- The entries that the edges of a node append to the queue. -/
def expand (r : PaymentRouter) (q : PathQuery) (graph : CapacityGraph) (entry : SearchEntry) :
    List SearchEntry :=
  ((graph.getD entry.current Dict.empty).items.filter fun edge => r.admits q entry edge.1 edge.2).map
    fun edge => ⟨edge.1, entry.path ++ [edge.1],
      entry.blockedSoFar ++ r.edgeBlockedParticipants.getD₂ entry.current edge.1 []⟩

/-- The loop over the queue. The deadline is the number of entries that are taken
before it passes; what is left of it is returned. -/
def bfsLoop (r : PaymentRouter) (q : PathQuery) (graph : CapacityGraph) :
    Nat → List SearchEntry → Except GeoError (Option (List Pid) × Nat)
  | deadline, [] => .ok (none, deadline)
  | 0, _ :: _ => .error (.timeout "Routing timed out")
  | deadline + 1, entry :: queue =>
      if entry.current = q.toPid then .ok (some entry.path, deadline)
      else if q.maxHops ≤ (entry.path.length : ℤ) - 1 then bfsLoop r q graph deadline queue
      else bfsLoop r q graph deadline (queue ++ expand r q graph entry)

def bfsSinglePath (r : PaymentRouter) (q : PathQuery) (graph : CapacityGraph) (deadline : Nat) :
    Except GeoError (Option (List Pid) × Nat) :=
  if q.fromPid ∉ graph.keys ∨ q.toPid ∉ graph.keys then .ok (none, deadline)
  else if q.fromPid ∈ q.forbiddenNodes ∨ q.toPid ∈ q.forbiddenNodes then .ok (none, deadline)
  else bfsLoop r q graph deadline [⟨q.fromPid, [q.fromPid], []⟩]

/-- `min(b, capacity)`; `none` is infinity. -/
def narrow (graph : CapacityGraph) (b : Option Amount) (hop : Pid × Pid) : Option Amount :=
  let capacity := graph.getD₂ hop.1 hop.2 0
  match b with
  | none => some capacity
  | some x => some (min x capacity)

def pathBottleneck (path : List Pid) (graph : CapacityGraph) : Option Amount :=
  (hops path).foldl (narrow graph) none

/-- Take an amount off one edge, which goes when nothing is left. -/
def reduceEdge (alloc : Amount) (residual : CapacityGraph) (hop : Pid × Pid) : CapacityGraph :=
  let newCap := decimalSub (residual.getD₂ hop.1 hop.2 0) alloc
  if newCap ≤ 0 then
    match residual.get? hop.1 with
    | none => residual
    | some edges => residual.set hop.1 (edges.pop hop.2)
  else residual.set₂ hop.1 hop.2 newCap

structure FlowSearch where
  residual : CapacityGraph
  remaining : Amount
  routes : List Route

/-- The loop of `find_flow_routes`, for at most `paths` more routes. -/
def searchRoutes (r : PaymentRouter) (q : PathQuery) : Nat → Nat → FlowSearch → Except GeoError FlowSearch
  | 0, _, s => .ok s
  | paths + 1, deadline, s =>
      if s.remaining ≤ 0 then .ok s
      else match deadline with
        | 0 => .error (.timeout "Routing timed out")
        | deadline + 1 =>
            match bfsSinglePath r q s.residual deadline with
            | .error error => .error error
            | .ok (none, _) => .ok s
            | .ok (some path, left) =>
                let alloc := match pathBottleneck path s.residual with
                  | none => s.remaining
                  | some bottleneck => min s.remaining bottleneck
                if path = [] ∨ alloc ≤ 0 then .ok s
                else searchRoutes r q paths left
                  { residual := (hops path).foldl (reduceEdge alloc) s.residual
                    remaining := decimalSub s.remaining alloc
                    routes := s.routes ++ [⟨path, alloc⟩] }

def findFlowRoutes (r : PaymentRouter) (fromPid toPid : Pid) (amount : Amount) (maxHops maxPaths : ℤ)
    (deadline : Nat) (avoidParticipants : List Pid) : Except GeoError (List Route) :=
  if amount ≤ 0 ∨ maxPaths ≤ 0 then .ok []
  else do
    let q : PathQuery := {
      fromPid := fromPid
      toPid := toPid
      amount := 0
      maxHops := maxHops
      forbiddenEdges := []
      forbiddenNodes := avoidParticipants.filter fun x => pyStrip x.toList ≠ [] }
    let s ← searchRoutes r q maxPaths.toNat deadline ⟨r.graph, amount, []⟩
    return if 0 < s.remaining then [] else s.routes

end Search

end PaymentRouter

end GeoLedger

import Mathlib
import GeoLedger.Library.Trails
import GeoLedger.Clearing.Execute

/-! `ClearingService.find_cycles`. Two self-joins look for cycles of three and
of four debts; when neither leaves a candidate, a depth-first search over the
debts of the equivalent looks for cycles of any length up to the bound. -/
namespace GeoLedger
open Trails

variable {env : Env}

section Filters

/-- A perimeter admits every listed participant. -/
def insideScope (scope : Option (List Uuid)) (ids : List Uuid) : Bool :=
  scope.all fun allowed => ∀ id ∈ ids, id ∈ allowed

/-- The sorted ids of a cycle, by which cycles are told apart. -/
def cycleKey (cycle : List Debt) : List Uuid := (cycle.map Debt.id).insertionSort (· ≤ ·)

def deduplicateCycles (cycles : List (List Debt)) : List (List Debt) :=
  Rows.distinctOn cycleKey [] (cycles.filter (· ≠ []))

/-- Cycles without an edge between participants that a live lock reserves. -/
def filterLocked (locked : List (Uuid × Uuid)) (cycles : List (List Debt)) : List (List Debt) :=
  cycles.filter fun cycle => !cycle.any (pairLocked locked)

/-- `_filter_cycles_by_auto_clearing_policy_sql`. The debts are read again by their ids. -/
def filterCyclesByAutoClearingPolicy (db : Db env) (e : Uuid) (cycles : List (List Debt)) :
    List (List Debt) :=
  cycles.filter fun cycle =>
    match cycle.mapM fun d => db.debts.rows.find? (·.id = d.id) with
    | some (first :: rest) =>
        first.equivalentId = e && cycleRespectsAutoClearing db.trustLines (first :: rest)
    | _ => false

end Filters

section Joins

/-- `_sql_auto_clearing_ok`: what the SQL of each dialect makes of the policy. -/
def sqlAutoClearingOk (postgres : Bool) (policy : Option Policy) : Bool :=
  match policy.bind (·.get? "auto_clearing") with
  | none | some .null => true
  | some (.bool value) => value
  | some (.int n) => n ≠ 0
  | some (.float x) => postgres || x ≠ 0
  -- read as null and as a huge number; PostgreSQL stores neither
  | some .nan | some (.infinity _) => true
  | some (.str text) =>
      (if postgres then String.ofList (pyLower text.toList) else text) ∉ ["false", "0", "no", "off"]
  | some (.list _) | some (.dict _) => true

/-- The join of a debt with an active line of its creditor. -/
def joinsTrustLine (tl : TrustTable env) (d : Debt) : Bool :=
  tl.rows.any fun l => l.key = (d.creditorId, d.debtorId, d.equivalentId) ∧ l.status = .active ∧
    sqlAutoClearingOk env.postgres l.policy

/-- `:min_amount`. -/
def minAmount : Amount := 1 / 100

/-- `LEAST(d1.amount, …)`. -/
def leastAmount : List Debt → Amount
  | [] => 0
  | first :: rest => clearAmount first rest

/-- The conditions that both queries put on the debts of a row. -/
def sqlWhere (tl : TrustTable env) (e : Uuid) (scope : Option (List Uuid)) : List Debt → Bool
  | [] => false
  | first :: rest =>
      first.equivalentId = e ∧ (∀ d ∈ first :: rest, 0 < d.amount) ∧ minAmount < leastAmount (first :: rest) ∧
        insideScope scope (first.debtorId :: (first :: rest).dropLast.map Debt.creditorId) ∧
        ∀ d ∈ first :: rest, joinsTrustLine tl d

/-- `debts d2` joined to `debts d1`. -/
def followers (t : DebtTable env) (d : Debt) : List Debt :=
  t.rows.filter fun next => d.creditorId = next.debtorId ∧ d.equivalentId = next.equivalentId

/-- `ORDER BY clear_amount DESC LIMIT limit`; the order of equal amounts is the database's. -/
def orderByClearAmount (order : ReadOrder) (limit : Nat) (cycles : List (List Debt)) : List (List Debt) :=
  ((order.cycles cycles).insertionSort fun c c' => leastAmount c' ≤ leastAmount c).take limit

def findTrianglesSql (order : ReadOrder) (db : Db env) (e : Uuid) (scope : Option (List Uuid)) :
    List (List Debt) :=
  orderByClearAmount order 100 <| (db.debts.rows.flatMap fun d₁ =>
    (followers db.debts d₁).flatMap fun d₂ =>
      ((followers db.debts d₂).filter fun d₃ => d₃.creditorId = d₁.debtorId).map fun d₃ =>
        [d₁, d₂, d₃]).filter (sqlWhere db.trustLines e scope)

def findQuadranglesSql (order : ReadOrder) (db : Db env) (e : Uuid) (scope : Option (List Uuid)) :
    List (List Debt) :=
  orderByClearAmount order 50 <| (db.debts.rows.flatMap fun d₁ =>
    (followers db.debts d₁).flatMap fun d₂ => (followers db.debts d₂).flatMap fun d₃ =>
      ((followers db.debts d₃).filter fun d₄ => d₄.creditorId = d₁.debtorId ∧
        d₁.debtorId ≠ d₂.creditorId ∧ d₁.debtorId ≠ d₃.creditorId ∧ d₁.creditorId ≠ d₃.creditorId).map
          fun d₄ => [d₁, d₂, d₃, d₄]).filter (sqlWhere db.trustLines e scope)

/-- The candidates of the joins: triangles, or quadrangles when no triangle is left. -/
def searchSql (order : ReadOrder) (now : Time) (db : Db env) (e : Uuid) (maxDepth : ℤ)
    (scope : Option (List Uuid)) : List (List Debt) :=
  let locked := lockedPairsForEquivalent db now e
  let candidates := fun cycles =>
    filterCyclesByAutoClearingPolicy db e (deduplicateCycles (filterLocked locked cycles))
  let triangles := candidates (findTrianglesSql order db e scope)
  if 4 ≤ maxDepth ∧ triangles = [] then candidates (findQuadranglesSql order db e scope) else triangles

end Joins

section Search

/-- The loop of `dfs` over the debts of one debtor. A debt that returns to the
start is recorded and ends the loop. -/
def scanEdges (start : Uuid) (path : List Debt) (visitedInPath : List Uuid)
    (descend : Debt → List (List Debt)) : List Debt → List (List Debt)
  | [] => []
  | edge :: rest =>
      if edge.creditorId = start then [path ++ [edge]]
      else (if edge.creditorId ∈ visitedInPath then [] else descend edge) ++
        scanEdges start path visitedInPath descend rest

/-- `dfs`: the cycles through `start` that are found below a path, when it may
grow by `depth` debts. -/
def dfs (adjacency : Dict Uuid (List Debt)) (start : Uuid) :
    Nat → Uuid → List Debt → List Uuid → List (List Debt)
  | 0, _, _, _ => []
  | depth + 1, current, path, visitedInPath =>
      scanEdges start path visitedInPath
        (fun edge => dfs adjacency start depth edge.creditorId (path ++ [edge]) (edge.creditorId :: visitedInPath))
        (adjacency.getD current [])

/-- The debts that the search runs on. -/
def searchedDebts (order : ReadOrder) (now : Time) (db : Db env) (e : Uuid) (scope : Option (List Uuid)) :
    List Debt :=
  (order.debts (db.debts.rows.filter fun d => d.equivalentId = e ∧ 0 < d.amount ∧
    insideScope scope [d.debtorId, d.creditorId])).filter
      fun d => !pairLocked (lockedPairsForEquivalent db now e) d

/-- The search from every debtor in turn, until more than fifty cycles are listed. -/
def searchFromNodes (adjacency : Dict Uuid (List Debt)) (maxDepth : ℤ) : List (List Debt) :=
  adjacency.keys.foldl (fun cycles start =>
    if 50 < cycles.length then cycles
    else cycles ++ dfs adjacency start maxDepth.toNat start [] [start]) []

/-- The candidates of the search, the shorter ones first. -/
def searchDfs (order : ReadOrder) (now : Time) (db : Db env) (e : Uuid) (maxDepth : ℤ)
    (scope : Option (List Uuid)) : List (List Debt) :=
  let adjacency := Dict.groupBy Debt.debtorId (searchedDebts order now db e scope)
  filterCyclesByAutoClearingPolicy db e
    ((Rows.distinctOn cycleKey [] (searchFromNodes adjacency maxDepth)).insertionSort
      fun c c' => c.length ≤ c'.length)

end Search

/-- A cycle as it is returned. -/
def cycleData (directory : Directory) (cycle : List Debt) : List ClearingEdge :=
  cycle.map fun d => ⟨d.id, directory.pidText d.debtorId, directory.pidText d.creditorId, d.amount⟩

/-- `find_cycles`. The joins are skipped when they raise. -/
def findCycles (now : Time) (order : ReadOrder) (sqlFails : Bool) (equivalentCode : String) (maxDepth : ℤ)
    (allowedPids : Option (List Pid)) (db : Db env) : Except GeoError (List (List ClearingEdge)) :=
  match env.directory.equivalentByCode equivalentCode with
  | none => .error (.geo ("Equivalent " ++ equivalentCode ++ " not found"))
  | some e =>
      let scope := resolveScopeIds env.directory allowedPids
      if scope = some [] then .ok []
      else
        let cycles := if 3 ≤ maxDepth ∧ sqlFails = false then searchSql order now db e.id maxDepth scope else []
        .ok ((if cycles = [] then searchDfs order now db e.id maxDepth scope else cycles).map
          (cycleData env.directory))

end GeoLedger

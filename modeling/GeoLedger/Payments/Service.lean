import Mathlib
import GeoLedger.Payments.Locks

/-! `PaymentService`. -/
namespace GeoLedger

variable {env : Env}

/-- The engine call that prepares the routes found for a payment. -/
def preparePayment (now : Time) (txId : TxId) (routes : List Route) (amount : Amount) (equivalentId : Uuid)
    (db : Db env) : Except GeoError (Db env) :=
  match routes with
  | [route] => prepare now txId route.path amount equivalentId db
  | _ => prepareRoutes now txId routes equivalentId db

theorem resolveRoutes_singleton {directory : Directory} {route : Route} {nodes : List Participant}
    (h : resolvePath directory route.path = some nodes) :
    resolveRoutes directory [route] = some [(nodes, route.amount)] := by
  simp [resolveRoutes, h]

/-- Preparing a new payment stores the flows of its routes. -/
theorem preparePayment_prepares {db db' : Db env} {now : Time} {tx : Transaction} {routes : List Route}
    {amount : Amount} {e : Uuid} (hTx : db.transactions.get? tx.txId = some tx) (hNew : tx.state = .NEW)
    (hTotal : (routes.map (·.amount)).sum = amount)
    (h : preparePayment now tx.txId routes amount e db = .ok db') :
    ∃ resolved, resolveRoutes env.directory routes = some resolved ∧
      Prepares now e tx (routeFlows e resolved) db db' := by
  unfold preparePayment at h
  split at h
  · next route =>
      obtain rfl : route.amount = amount := by simpa using hTotal
      rcases prepare_cases h with ⟨_, tx', hTx', hPast⟩ | ⟨tx', nodes, hId, hNodes, hPrepares⟩
      · exact absurd hPast (not_alreadyPrepared hTx hNew hTx')
      · obtain rfl := hPrepares.eq_of_txId hTx hId
        exact ⟨_, resolveRoutes_singleton hNodes, routeFlows_singleton (e := e) nodes _ ▸ hPrepares⟩
  · rcases prepareRoutes_cases h with ⟨_, tx', hTx', hPast⟩ | ⟨tx', resolved, hId, _, hResolved, hPrepares⟩
    · exact absurd hPast (not_alreadyPrepared hTx hNew hTx')
    · obtain rfl := hPrepares.eq_of_txId hTx hId
      exact ⟨resolved, hResolved, hPrepares⟩

end GeoLedger

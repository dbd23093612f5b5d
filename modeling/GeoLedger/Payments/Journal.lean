import Mathlib
import GeoLedger.Clearing.CycleEffect
import GeoLedger.Payments.CommitOutcome
import GeoLedger.Payments.ReservedRoom
import GeoLedger.Payments.Lifecycle
import GeoLedger.Payments.Service

/-! The transactions table as a journal of the debts. The balance of every pair is what
the committed payments moved along their recorded routes, less what the committed
clearings took off their recorded edges. -/
namespace GeoLedger
open Outcomes

variable {env : Env} {db db' : Db env} {now : Time} {txId : TxId} {op : LedgerOp} {e : Uuid}

section Payloads

/-- What a route moves from one node directly to another. -/
def Route.moved (route : Route) (x y : Pid) : Amount :=
  ((hops route.path).map fun hop => if hop = (x, y) then route.amount else 0).sum

/-- What a recorded transaction adds to the debt of one participant to another. -/
def Payload.moved (payload : Payload) (code : String) (x y : Pid) : Amount :=
  match payload with
  | .payment _ _ _ equivalent routes _ => if equivalent = code then (routes.map (·.moved x y)).sum else 0
  | .clearing _ _ equivalent edges =>
      if equivalent = code then
        -(edges.map fun edge => if edge.debtor = x ∧ edge.creditor = y then edge.amount else 0).sum
      else 0

/-- What the committed transactions add up to. -/
def TxTable.posted (t : TxTable) (value : Payload → Amount) : Amount :=
  (t.rows.map fun tx => if tx.state = .COMMITTED then value tx.payload else 0).sum

/-- What the committed transactions add to the debt of one participant to another. -/
def TxTable.journal (t : TxTable) (code : String) (x y : Pid) : Amount := t.posted (·.moved code x y)

variable {t t' : TxTable} {tx : Transaction} {value : Payload → Amount}

/-- An inserted transaction posts its payload if it comes committed. -/
theorem TxTable.posted_insert (h : t.insert tx = .ok t') :
    t'.posted value = t.posted value + if tx.state = .COMMITTED then value tx.payload else 0 := by
  rw [posted, (TxTable.insert_eq_ok_iff.mp h).2, List.map_append, List.sum_append, List.map_singleton,
    List.sum_singleton]
  rfl

/-- Moving an uncommitted transaction posts its payload when it becomes COMMITTED. -/
theorem TxTable.posted_update {state : TxState} {error : Option TxError} (hTx : t.get? tx.txId = some tx)
    (hOpen : tx.state ≠ .COMMITTED) :
    (t.update tx.txId state error now).posted value =
      t.posted value + if state = .COMMITTED then value tx.payload else 0 := by
  have hSum := Rows.sum_update (f := fun tx => { tx with state := state, error := error, updatedAt := now })
    (g := fun tx => if tx.state = .COMMITTED then value tx.payload else 0)
    t.tx_id_unique (TxTable.get?_eq_some_iff.mp hTx).1 rfl
  rw [if_neg hOpen, add_zero] at hSum
  exact hSum

end Payloads

section Hops

variable {p q : Participant}

/-- The flows of a path between two participants are the hops of its nodes' PIDs. -/
theorem localReserved_pathFlows {path : List Pid} {nodes : List Participant} {amount : Amount}
    (hp : p ∈ env.directory.participants) (hq : q ∈ env.directory.participants)
    (hNodes : resolvePath env.directory path = some nodes) :
    localReserved (pathFlows e nodes amount) p.id q.id e = Route.moved ⟨path, amount⟩ p.pid q.pid := by
  obtain ⟨hPids, hMem⟩ := resolvePath_registered hNodes
  rw [localReserved, Rows.sum_filter, pathFlows, List.map_map, Route.moved, ← hPids, hops_map, List.map_map]
  congr 1
  refine List.map_congr_left fun hop hHop => ?_
  obtain ⟨hFrom, hTo⟩ := mem_of_mem_hops hHop
  have hEnds : (hop.1.id = p.id ∧ hop.2.id = q.id ∧ e = e) ↔ (hop.1.pid, hop.2.pid) = (p.pid, q.pid) := by
    rw [Prod.mk.injEq]
    constructor
    · rintro ⟨hP, hQ, _⟩
      rw [env.directory.id_injective (hMem _ hFrom) hp hP, env.directory.id_injective (hMem _ hTo) hq hQ]
      exact ⟨rfl, rfl⟩
    · rintro ⟨hP, hQ⟩
      rw [env.directory.pid_injective (hMem _ hFrom) hp hP, env.directory.pid_injective (hMem _ hTo) hq hQ]
      exact ⟨rfl, rfl, rfl⟩
  exact if_congr hEnds rfl rfl

/-- What the flows of the routes reserve along a segment is what the routes move there. -/
theorem localReserved_routeFlows {routes : List Route} {resolved : List (List Participant × Amount)}
    (hp : p ∈ env.directory.participants) (hq : q ∈ env.directory.participants)
    (hResolved : resolveRoutes env.directory routes = some resolved) :
    localReserved (routeFlows e resolved) p.id q.id e = (routes.map (·.moved p.pid q.pid)).sum := by
  have hAll := resolveRoutes_eq_some hResolved
  clear hResolved
  induction hAll with
  | nil => simp [routeFlows, routeSegments, localReserved]
  | @cons route nodes routes resolved hHead _ ih =>
      obtain ⟨hNodes, hAmount⟩ := hHead
      rw [routeFlows_cons, localReserved_append, ih, localReserved_pathFlows hp hq hNodes, List.map_cons,
        List.sum_cons, hAmount]

/-- The flows of the routes are of one equivalent. -/
theorem routeFlows_equivalent {resolved : List (List Participant × Amount)} {f : Flow}
    (hf : f ∈ routeFlows e resolved) : f.equivalentId = e := by
  obtain ⟨segment, _, rfl⟩ := List.mem_map.mp hf
  rfl

end Hops

section Clearing

variable {order : ReadOrder} {cycle : List (Option Uuid)} {allowedPids : Option (List Pid)} {debtIds : List Uuid}
  {first : Debt} {rest : List Debt} {p q : Participant}

/-- A clearing records one edge for each debt. -/
theorem Clears.edges_perm (h : Clears now order cycle allowedPids db db' debtIds first rest) (amount : Amount) :
    (edgesPayload env.directory (first :: rest) amount debtIds).Perm ((first :: rest).map fun d =>
      ⟨d.id, env.directory.pidText d.debtorId, env.directory.pidText d.creditorId, amount⟩) := by
  have hIn : (first :: rest).map Debt.id ⊆ debtIds := by
    intro id hId
    obtain ⟨d, hd, rfl⟩ := List.mem_map.mp hId
    rw [← h.read] at hd
    exact (mem_debtsByIds.mp hd).2
  have hIds : ((first :: rest).map Debt.id).Perm debtIds := by
    refine (List.subperm_of_subset h.ids_unique hIn).perm_of_length_le ?_
    rw [List.length_map, h.complete]
  rw [← edgesPayload_perm env.directory amount (List.Perm.refl (first :: rest)) h.ids_unique]
  exact hIds.symm.filterMap _

/-- One debt at most runs between two participants. -/
theorem Clears.sum_between (h : Clears now order cycle allowedPids db db' debtIds first rest)
    (hOne : ∀ d ∈ first :: rest, d.equivalentId = first.equivalentId) (a b : Uuid) (amount : Amount) :
    ((first :: rest).map fun d => if d.debtorId = a ∧ d.creditorId = b then amount else 0).sum =
      if ∃ d ∈ first :: rest, d.key = (a, b, first.equivalentId) then amount else 0 := by
  have hKeys : ((first :: rest).map Debt.key).Nodup := by
    refine List.Nodup.map_on (fun d hd d' hd' hKey => ?_) (h.ids_unique.of_map _)
    exact Rows.eq_of_column db.debts.key_unique (h.mem_rows d hd) (h.mem_rows d' hd') hKey
  have hSame : ((first :: rest).map fun d => if d.debtorId = a ∧ d.creditorId = b then amount else 0) =
      (first :: rest).map fun d => if d.key = (a, b, first.equivalentId) then amount else 0 := by
    refine List.map_congr_left fun d hd => ?_
    simp only [Debt.key, Prod.mk.injEq, hOne d hd, and_true]
  rw [hSame, Rows.sum_ite_key (g := fun _ => amount) hKeys]
  cases hFind : (first :: rest).find? (·.key = (a, b, first.equivalentId)) with
  | none =>
      rw [if_neg]
      · rfl
      · rintro ⟨d, hd, hKey⟩
        have hNone := List.find?_eq_none.mp hFind d hd
        exact hNone (decide_eq_true hKey)
  | some d =>
      have hKey := List.find?_some hFind
      simp only [decide_eq_true_eq] at hKey
      rw [if_pos ⟨d, List.mem_of_find?_eq_some hFind, hKey⟩]
      rfl

/-- The recorded edges of a clearing take off the journal what it took off the debts. -/
theorem Clears.owed_eq_moved (h : Clears now order cycle allowedPids db db' debtIds first rest)
    (hParties : PartiesRegistered db) (hOne : ∀ d ∈ first :: rest, d.equivalentId = first.equivalentId)
    {w : Equivalent} (hw : w ∈ env.directory.equivalents) (hp : p ∈ env.directory.participants)
    (hq : q ∈ env.directory.participants) :
    db'.debts.owed p.id q.id w.id = db.debts.owed p.id q.id w.id +
      (clearingTransaction env now debtIds first (first :: rest) (clearAmount first rest)).payload.moved
        w.code p.pid q.pid := by
  rw [h.effect.2.2]
  show _ = db.debts.owed p.id q.id w.id + if env.directory.codeText first.equivalentId = w.code then _ else _
  by_cases hE : first.equivalentId = w.id
  · rw [if_pos ((Directory.codeText_eq_code_iff hw).mpr hE), ((h.edges_perm _).map _).sum_eq, List.map_map]
    have hSame : ((first :: rest).map ((fun edge : ClearingEdge =>
        if edge.debtor = p.pid ∧ edge.creditor = q.pid then edge.amount else 0) ∘ fun d =>
          ⟨d.id, env.directory.pidText d.debtorId, env.directory.pidText d.creditorId, clearAmount first rest⟩)) =
        (first :: rest).map fun d => if d.debtorId = p.id ∧ d.creditorId = q.id then clearAmount first rest else 0 := by
      refine List.map_congr_left fun d hd => ?_
      have hRow := h.mem_rows d hd
      have hOwed : 0 < db.debts.owed d.debtorId d.creditorId d.equivalentId := by
        rw [DebtTable.owed_of_mem hRow rfl]
        exact db.debts.amount_positive d hRow
      obtain ⟨hDebtor, hCreditor⟩ := hParties.debts _ _ _ hOwed
      simp only [Function.comp_apply, Directory.pidText_eq_iff hp hDebtor, Directory.pidText_eq_iff hq hCreditor]
    rw [hSame, h.sum_between hOne, ← hE]
    split
    · rw [sub_eq_add_neg]
    · rw [neg_zero, add_zero]
  · rw [if_neg fun hCode => hE ((Directory.codeText_eq_code_iff hw).mp hCode), add_zero, if_neg]
    rintro ⟨d, hd, hKey⟩
    simp only [Debt.key, Prod.mk.injEq] at hKey
    exact hE ((hOne d hd).symm.trans hKey.2.2)

end Clearing

section Posts

/-- An abort posts nothing. -/
theorem posted_abort (txId : TxId) (reason : String) (code : Option ErrorCode)
    (details : Option (List (String × String))) (value : Payload → Amount) :
    (abort now txId reason code details db).2.transactions.posted value = db.transactions.posted value := by
  rw [abort_eq]
  cases hTx : db.transactions.get? txId with
  | none => rfl
  | some tx =>
      obtain rfl : tx.txId = txId := (TxTable.get?_eq_some_iff.mp hTx).2
      simp only
      by_cases hCommitted : tx.state = .COMMITTED
      · rw [if_pos hCommitted]
      · rw [if_neg hCommitted, TxTable.posted_update hTx hCommitted, if_neg (by simp), add_zero]

/-- A preparation posts nothing. -/
theorem Prepares.posted {tx : Transaction} {flows : List Flow} (h : Prepares now e tx flows db db')
    (value : Payload → Amount) : db'.transactions.posted value = db.transactions.posted value := by
  rw [h.transactions, TxTable.posted_update h.found (tx.state.open_iff.mp h.isOpen).1, if_neg (by simp), add_zero]

/-- A commit posts the payload of its transaction. -/
theorem Commits.posted {tx : Transaction} (h : Commits now db db' tx) (value : Payload → Amount) :
    db'.transactions.posted value = db.transactions.posted value + value tx.payload := by
  have hOpen : tx.state ≠ .COMMITTED := by
    rw [h.prepared]
    simp
  rw [h.transactions, TxTable.posted_update h.found hOpen, if_pos rfl]

/-- The committed transaction is a clearing that records this payload. -/
def ClearsAs (now : Time) (db db' : Db env) (op : LedgerOp) (payload : Payload) : Prop :=
  ∃ order fate cycle allowedPids debtIds first rest, op = .clear order fate cycle allowedPids ∧
    Clears now order cycle allowedPids db db' debtIds first rest ∧
    payload = (clearingTransaction env now debtIds first (first :: rest) (clearAmount first rest)).payload

/-- A change posts nothing and leaves the debts, or it is a commit or a clearing, and posts
its payload. -/
theorem Change.posts (hChange : Change now db op db') :
    (db'.debts = db.debts ∧ ∀ value, db'.transactions.posted value = db.transactions.posted value) ∨
      ∃ payload, ((∃ tx, Commits now db db' tx ∧ payload = tx.payload) ∨ ClearsAs now db db' op payload) ∧
        ∀ value, db'.transactions.posted value = db.transactions.posted value + value payload := by
  cases hChange with
  | inserted hInsert =>
      refine Or.inl ⟨rfl, fun value => ?_⟩
      rw [TxTable.posted_insert hInsert, if_neg (by simp [newPaymentTransaction]), add_zero]
  | prepared _ hPrepares => exact Or.inl ⟨hPrepares.debts, hPrepares.posted⟩
  | preparedRoutes _ _ hPrepares => exact Or.inl ⟨hPrepares.debts, hPrepares.posted⟩
  | @committed op tx db' _ hCommit => exact Or.inr ⟨tx.payload, Or.inl ⟨tx, hCommit, rfl⟩, hCommit.posted⟩
  | aborted txId reason code details =>
      refine Or.inl ⟨?_, posted_abort txId reason code details⟩
      rw [abort_eq]
  | @cleared order fate cycle allowedPids debtIds first rest db' hClears =>
      obtain ⟨hInsert, _⟩ := stageClearing_eq_ok hClears.staged
      refine Or.inr ⟨_, Or.inr ⟨order, fate, cycle, allowedPids, debtIds, first, rest, rfl, hClears, rfl⟩,
        fun value => ?_⟩
      rw [TxTable.posted_insert hInsert]
      rfl
  | opened hOk =>
      obtain ⟨_, _, _, _, _, _, _, _, _, rfl⟩ := createTrustLine_effect hOk
      exact Or.inl ⟨rfl, fun _ => rfl⟩
  | updated hOk =>
      obtain ⟨_, _, _, _, _, _, _, _, _, rfl⟩ := updateTrustLine_effect hOk
      exact Or.inl ⟨rfl, fun _ => rfl⟩
  | closed hOk =>
      obtain ⟨_, _, _, _, _, _, _, rfl⟩ := closeTrustLine_effect hOk
      exact Or.inl ⟨rfl, fun _ => rfl⟩

end Posts

section Held

/-- The flows that a transaction has locked stand in a relation to its payload. -/
def LocksHold (P : List Flow → Payload → Prop) (db : Db env) : Prop :=
  ∀ tx ∈ db.transactions.rows, db.prepareLocks.ofTx tx.txId ≠ [] →
    P ((db.prepareLocks.ofTx tx.txId).flatMap (·.flows)) tx.payload

/-- A relation that does not depend on the order of the flows. -/
def OrderFree (P : List Flow → Payload → Prop) : Prop :=
  ∀ flows others payload, flows.Perm others → P others payload → P flows payload

/-- The routes that an operation prepares a payment with. -/
def LedgerOp.requested : LedgerOp → Option (TxId × List Route × Uuid)
  | .prepare txId path amount e => some (txId, [⟨path, amount⟩], e)
  | .prepareRoutes txId routes e => some (txId, routes, e)
  | _ => none

variable {P : List Flow → Payload → Prop} {tx : Transaction} {flows : List Flow}

/-- A new row has no locks yet. -/
theorem LocksHold.insert (h : LocksHold P db) (hLocks : LocksSound db)
    (hInsert : db.transactions.insert tx = .ok db'.transactions) (hSame : db'.prepareLocks = db.prepareLocks) :
    LocksHold P db' := by
  intro row hRow
  rw [hSame]
  rw [(TxTable.insert_eq_ok_iff.mp hInsert).2] at hRow
  rcases List.mem_append.mp hRow with hOld | hNew
  · exact h row hOld
  · intro hLocked
    obtain ⟨held, hHeld, _⟩ := hLocks.prepared hLocked
    rw [List.mem_singleton.mp hNew, TxTable.get?_fresh hInsert] at hHeld
    cases hHeld

theorem LockTable.ofTx_deleteTx_of_ne (t : LockTable env) {other : TxId} (hNe : other ≠ txId) :
    (t.deleteTx txId).ofTx other = t.ofTx other := by
  show (t.rows.filter fun l => l.txId ≠ txId).filter _ = _
  rw [List.filter_filter, LockTable.ofTx]
  refine List.filter_congr fun l _ => ?_
  by_cases hTx : l.txId = other
  · simp [hTx, hNe]
  · simp [hTx]

/-- An update keeps the payload of the row. -/
theorem TxTable.payload_of_update {t : TxTable} {row : Transaction} {state : TxState} {error : Option TxError}
    (h : row ∈ (t.update txId state error now).rows) :
    ∃ tx ∈ t.rows, tx.txId = row.txId ∧ tx.payload = row.payload := by
  rcases TxTable.mem_update_iff.mp h with ⟨old, hOld, _, rfl⟩ | ⟨hOld, _⟩
  · exact ⟨old, hOld, rfl, rfl⟩
  · exact ⟨row, hOld, rfl, rfl⟩

/-- An abort keeps the payloads. -/
theorem payload_of_abort {reason : String} {code : Option ErrorCode} {details : Option (List (String × String))}
    {row : Transaction} (h : row ∈ (abort now txId reason code details db).2.transactions.rows) :
    ∃ tx ∈ db.transactions.rows, tx.txId = row.txId ∧ tx.payload = row.payload := by
  rw [abort_eq] at h
  cases hTx : db.transactions.get? txId with
  | none =>
      simp only [hTx] at h
      exact ⟨row, h, rfl, rfl⟩
  | some tx =>
      simp only [hTx] at h
      by_cases hCommitted : tx.state = .COMMITTED
      · rw [if_pos hCommitted] at h
        exact ⟨row, h, rfl, rfl⟩
      · rw [if_neg hCommitted] at h
        exact TxTable.payload_of_update h

/-- One transaction without its locks, and the others with theirs. -/
theorem LocksHold.delete (h : LocksHold P db) (hLocks : db'.prepareLocks = db.prepareLocks.deleteTx txId)
    (hRows : ∀ row ∈ db'.transactions.rows, ∃ tx ∈ db.transactions.rows,
      tx.txId = row.txId ∧ tx.payload = row.payload) : LocksHold P db' := by
  intro row hRow hLocked
  obtain ⟨old, hOld, hId, hPayload⟩ := hRows row hRow
  rw [hLocks] at hLocked ⊢
  by_cases hTx : row.txId = txId
  · rw [hTx, LockTable.ofTx_deleteTx] at hLocked
    exact absurd rfl hLocked
  · rw [LockTable.ofTx_deleteTx_of_ne _ hTx, ← hId] at hLocked ⊢
    rw [← hPayload]
    exact h old hOld hLocked

/-- A preparation keeps what holds of the flows and the payload of every locked payment. -/
theorem Prepares.locksHold (hPrepares : Prepares now e tx flows db db') (h : LocksHold P db)
    (hOrder : OrderFree P) (hNew : P flows tx.payload) : LocksHold P db' := by
  obtain ⟨new, hRows, hFlows, hOwned⟩ := hPrepares.locks
  have hSplit (other : TxId) : db'.prepareLocks.ofTx other = db.prepareLocks.ofTx other ++
      new.filter (·.txId = other) := by
    rw [LockTable.ofTx, hRows, List.filter_append]
    rfl
  intro row hRow hLocked
  rw [hPrepares.transactions] at hRow
  rcases TxTable.mem_update_iff.mp hRow with ⟨old, hOld, hId, rfl⟩ | ⟨hOld, hNe⟩
  · have hSame : old = tx := Rows.eq_of_column db.transactions.tx_id_unique hOld
      (TxTable.get?_eq_some_iff.mp hPrepares.found).1 hId
    subst hSame
    have hAll : new.filter (fun l => decide (l.txId = old.txId)) = new :=
      List.filter_eq_self.mpr fun l hl => decide_eq_true (hOwned l hl).1
    have hOwn : db'.prepareLocks.ofTx old.txId = new := by
      rw [hSplit, hPrepares.unlocked, hAll, List.nil_append]
    show P ((db'.prepareLocks.ofTx old.txId).flatMap (·.flows)) old.payload
    rw [hOwn]
    exact hOrder _ _ _ hFlows hNew
  · have hNone : new.filter (fun l => decide (l.txId = row.txId)) = [] := by
      refine List.filter_eq_nil_iff.mpr fun l hl => ?_
      rw [(hOwned l hl).1]
      simpa using Ne.symm hNe
    rw [hSplit, hNone, List.append_nil] at hLocked ⊢
    exact h row hOld hLocked

/-- What holds of the locks holds of the flows that a commit applies. -/
theorem LocksHold.commit_flows (h : LocksHold P db) (hOrder : OrderFree P) (hCommit : Commits now db db' tx) :
    P (Commits.flows db tx.txId) tx.payload := by
  have hHeld := h tx (TxTable.get?_eq_some_iff.mp hCommit.found).1 hCommit.locked
  exact hOrder _ _ _ (Commits.flows_perm_locks db tx.txId) hHeld

/-- What holds of the flows of every preparation holds of the flows of every lock. -/
theorem locksHold_change (hLocks : LocksSound db) (h : LocksHold P db) (hOrder : OrderFree P)
    (hPrepared : ∀ {tx : Transaction} {routes e resolved}, op.requested = some (tx.txId, routes, e) →
      tx ∈ db.transactions.rows → resolveRoutes env.directory routes = some resolved →
      P (routeFlows e resolved) tx.payload)
    (hChange : Change now db op db') : LocksHold P db' := by
  cases hChange with
  | inserted hInsert => exact h.insert hLocks hInsert rfl
  | prepared hNodes hPrepares =>
      refine hPrepares.locksHold h hOrder ?_
      rw [← routeFlows_singleton]
      exact hPrepared rfl (TxTable.get?_eq_some_iff.mp hPrepares.found).1 (resolveRoutes_singleton hNodes)
  | preparedRoutes _ hResolved hPrepares =>
      exact hPrepares.locksHold h hOrder
        (hPrepared rfl (TxTable.get?_eq_some_iff.mp hPrepares.found).1 hResolved)
  | committed _ hCommit =>
      refine h.delete hCommit.prepareLocks fun row hRow => ?_
      rw [hCommit.transactions] at hRow
      exact TxTable.payload_of_update hRow
  | aborted txId reason code details =>
      have hDeleted : (abort now txId reason code details db).2.prepareLocks = db.prepareLocks.deleteTx txId := by
        rw [abort_eq]
      exact h.delete hDeleted fun row hRow => payload_of_abort hRow
  | cleared hClears =>
      obtain ⟨hInsert, _, _, _, hSame⟩ := stageClearing_eq_ok hClears.staged
      exact h.insert hLocks hInsert hSame
  | opened hOk =>
      obtain ⟨_, _, _, _, _, _, _, _, _, rfl⟩ := createTrustLine_effect hOk
      exact h
  | updated hOk =>
      obtain ⟨_, _, _, _, _, _, _, _, _, rfl⟩ := updateTrustLine_effect hOk
      exact h
  | closed hOk =>
      obtain ⟨_, _, _, _, _, _, _, rfl⟩ := closeTrustLine_effect hOk
      exact h

end Held

section Carried

/-- Flows that move between any two participants what a payload records. -/
def Carries (env : Env) (flows : List Flow) (payload : Payload) : Prop :=
  ∀ p ∈ env.directory.participants, ∀ q ∈ env.directory.participants, ∀ w ∈ env.directory.equivalents,
    localReserved flows p.id q.id w.id = payload.moved w.code p.pid q.pid

/-- Whether flows carry a payload does not depend on their order. -/
theorem carries_orderFree : OrderFree (Carries env) := by
  intro flows others payload hPerm h p hp q hq w hw
  rw [localReserved_perm hPerm]
  exact h p hp q hq w hw

/-- The payment is recorded with the routes and the equivalent that it is prepared with. -/
def Requests (db : Db env) (txId : TxId) (routes : List Route) (e : Uuid) : Prop :=
  ∀ tx ∈ db.transactions.rows, tx.txId = txId → ∃ sender receiver amount fingerprint,
    tx.payload = .payment sender receiver amount (env.directory.codeText e) routes fingerprint

/-- The flows of the recorded routes carry the payload. -/
theorem Requests.carries {tx : Transaction} {routes : List Route} {resolved : List (List Participant × Amount)}
    (h : Requests db tx.txId routes e) (hTx : tx ∈ db.transactions.rows)
    (hResolved : resolveRoutes env.directory routes = some resolved) :
    Carries env (routeFlows e resolved) tx.payload := by
  obtain ⟨sender, receiver, amount, fingerprint, hPayload⟩ := h tx hTx rfl
  intro p hp q hq w hw
  rw [hPayload]
  show _ = if env.directory.codeText e = w.code then _ else _
  by_cases hSame : e = w.id
  · rw [if_pos ((Directory.codeText_eq_code_iff hw).mpr hSame), ← hSame]
    exact localReserved_routeFlows hp hq hResolved
  · rw [if_neg fun hCode => hSame ((Directory.codeText_eq_code_iff hw).mp hCode)]
    refine localReserved_eq_zero_of_apart fun f hf hEnds => hSame ?_
    rw [← hEnds.2.2, routeFlows_equivalent hf]

end Carried

section Reconciliation

/-- The balance of any two participants is what the journal moved one way, less what it
moved the other way. -/
def AgreesWithJournal (db : Db env) : Prop :=
  ∀ p ∈ env.directory.participants, ∀ q ∈ env.directory.participants, ∀ w ∈ env.directory.equivalents,
    db.debts.balance p.id q.id w.id =
      db.transactions.journal w.code p.pid q.pid - db.transactions.journal w.code q.pid p.pid

/-- The ledger agrees with its journal, and so will the payments it has prepared. -/
structure Reconciled (db : Db env) : Prop where
  lines : NoSelfLines db.trustLines
  locks : LocksSound db
  stored : LocksStored db
  parties : PartiesRegistered db
  carried : LocksHold (Carries env) db
  agrees : AgreesWithJournal db

/-- The empty ledger is reconciled. -/
theorem reconciled_empty : Reconciled (Db.empty : Db env) where
  lines _ hl := by cases hl
  locks := locksSound_empty
  stored := ⟨by simp [Db.empty, LockTable.empty], by simp [Db.empty, LockTable.empty],
    by simp [Db.empty, LockTable.empty], by simp [Db.empty, LockTable.empty]⟩
  parties := partiesRegistered_empty
  carried _ hTx := by cases hTx
  agrees _ _ _ _ _ _ := rfl

/-- What the callers of an operation see to: a payment is prepared along the routes it was
recorded with, and a cycle is in one equivalent. -/
def AsRecorded (s : Ledger env) : LedgerOp → Prop
  | .prepare txId path amount e => Requests s.db txId [⟨path, amount⟩] e
  | .prepareRoutes txId routes e => Requests s.db txId routes e
  | .clear _ _ cycle _ => OneEquivalentCycle s.db cycle
  | _ => True

def Journaled (s : Ledger env) (op : LedgerOp) : Prop := StoredAmounts env op ∧ AsRecorded s op

/-- A preparation of recorded routes is one of the routes that were requested. -/
theorem AsRecorded.requests {s : Ledger env} {routes : List Route} (h : AsRecorded s op)
    (hOp : op.requested = some (txId, routes, e)) : Requests s.db txId routes e := by
  cases op with
  | prepare =>
      cases hOp
      exact h
  | prepareRoutes =>
      cases hOp
      exact h
  | _ => cases hOp

/-- Debts and journal move by the same payload. -/
theorem agreesWithJournal_change (h : Reconciled db) (hRecorded : AsRecorded ⟨db, now⟩ op)
    (hChange : Change now db op db') : AgreesWithJournal db' := by
  intro p hp q hq w hw
  have hAgrees := h.agrees p hp q hq w hw
  rw [TxTable.journal, TxTable.journal] at hAgrees ⊢
  rcases hChange.posts with ⟨hDebts, hPosted⟩ | ⟨payload, hWhat, hPosted⟩
  · rw [hPosted, hPosted, hDebts]
    exact hAgrees
  · have hMoved : db'.debts.balance p.id q.id w.id = db.debts.balance p.id q.id w.id +
        payload.moved w.code p.pid q.pid - payload.moved w.code q.pid p.pid := by
      rcases hWhat with ⟨tx, hCommit, rfl⟩ | ⟨_, _, _, _, _, _, _, rfl, hClears, rfl⟩
      · have hCarries := h.carried.commit_flows carries_orderFree hCommit
        rw [hCommit.balance_eq h.stored, hCarries p hp q hq w hw, hCarries q hq p hp w hw]
      · have hOne := hClears.one_equivalent hRecorded
        rw [DebtTable.balance, DebtTable.balance, hClears.owed_eq_moved h.parties hOne hw hp hq,
          hClears.owed_eq_moved h.parties hOne hw hq hp]
        ring
    rw [hPosted, hPosted, hMoved, hAgrees]
    ring

/-- Every change whose callers keep the journal leaves the ledger reconciled. -/
theorem reconciled_change (h : Reconciled db) (hOp : Journaled ⟨db, now⟩ op) (hChange : Change now db op db') :
    Reconciled db' where
  lines := noSelfLines_change h.lines hChange
  locks := locksSound_change h.locks hChange
  stored := locksStored_change h.lines h.locks h.stored hOp.1 hChange
  parties := partiesRegistered_change h.locks h.parties hChange
  carried := locksHold_change h.locks h.carried carries_orderFree
    (fun hRequested hTx hResolved => (hOp.2.requests hRequested).carries hTx hResolved) hChange
  agrees := agreesWithJournal_change h hOp.2 hChange

/-- Every operation whose callers keep the journal leaves the ledger reconciled. -/
theorem reconciled_step {s : Ledger env} (h : Reconciled s.db) (hOp : Journaled s op) :
    Reconciled (s.step op).db :=
  applyOp_keeps (A := fun mid => Journaled ⟨mid, s.now⟩) h hOp (fun _ _ _ => ⟨trivial, trivial⟩)
    fun _ _ hMid hMidOp hChange => reconciled_change hMid hMidOp hChange

/-- After any run of the ledger the debts are what its journal says: between any two
participants, in any equivalent, what the committed payments moved less what the committed
clearings took off. -/
theorem journal_reconciles {finish : Ledger env} {ops : List LedgerOp}
    (hRun : Transition.Run Ledger.step Journaled Ledger.empty ops finish) :
    ∀ p ∈ env.directory.participants, ∀ q ∈ env.directory.participants, ∀ w ∈ env.directory.equivalents,
      finish.db.debts.balance p.id q.id w.id =
        finish.db.transactions.journal w.code p.pid q.pid - finish.db.transactions.journal w.code q.pid p.pid := by
  have hFinish : Reconciled finish.db :=
    hRun.invariant (P := fun s => Reconciled s.db) reconciled_empty fun _ _ => reconciled_step
  exact hFinish.agrees

/-- A payment along one path that is stored as it is prepared prolongs a run whose
callers keep the journal. -/
theorem run_payAlong {start s : Ledger env} {ops : List LedgerOp} (txId : TxId) (initiatorId : Uuid)
    (path : List Pid) (amount : Amount) (e : Equivalent) (hRun : Transition.Run Ledger.step Journaled start ops s)
    (hPositive : 0 < amount) (hStored : amount ∈ env.column.grid)
    (hRecorded : ∀ tx ∈ (s.run ((payAlong txId initiatorId path amount e).take 1)).db.transactions.rows,
      tx.txId = txId → tx.payload = .payment (path.headD "") (path.getLastD "") amount
        (env.directory.codeText e.id) [⟨path, amount⟩] none) :
    Transition.Run Ledger.step Journaled start (ops ++ payAlong txId initiatorId path amount e)
      (s.run (payAlong txId initiatorId path amount e)) := by
  have hOps : ops ++ payAlong txId initiatorId path amount e =
      ops ++ [.newPayment txId initiatorId (path.headD "") (path.getLastD "") amount e.code [⟨path, amount⟩] none] ++
        [.prepare txId path amount e.id] ++ [.commit txId] := by
    simp [payAlong, preparePath]
  rw [hOps]
  refine ((hRun.snoc ?_).snoc ?_).snoc ?_
  · exact ⟨trivial, trivial⟩
  · exact ⟨⟨hPositive, hStored⟩, fun tx hTx hId => ⟨_, _, _, _, hRecorded tx hTx hId⟩⟩
  · exact ⟨trivial, trivial⟩

/-- A pays 6 to B, B pays 5 to C and C pays 4 to A, and the circle is cleared. -/
def clearedCircle : List LedgerOp :=
  [openLine 2 "A" .uah 10, openLine 3 "B" .uah 10, openLine 1 "C" .uah 10] ++
    payAlong "p1" 1 ["A", "B"] 6 .uah ++ payAlong "p2" 2 ["B", "C"] 5 .uah ++ payAlong "p3" 3 ["C", "A"] 4 .uah ++
    [.clear .insertion (.durable false false) [some 0, some 1, some 2] none]

/-- Of the 6 that A has paid to B the clearing took off 4. -/
theorem journal_reconciles_circle :
    (Ledger.run (Ledger.empty : Ledger (Env.sample .numeric208 true)) clearedCircle).db.debts.balance 1 2 1 = 2 := by
  have hLines : Transition.Run Ledger.step Journaled (Ledger.empty : Ledger (Env.sample .numeric208 true))
      (clearedCircle.take 3) (Ledger.empty.run (clearedCircle.take 3)) :=
    ((Transition.Run.nil.snoc ⟨trivial, trivial⟩).snoc ⟨trivial, trivial⟩).snoc ⟨trivial, trivial⟩
  have hFirst := run_payAlong "p1" 1 ["A", "B"] 6 .uah hLines (by norm_num) (by simpa using natCast_mem_sample 6)
    (by decide +kernel)
  have hSecond := run_payAlong "p2" 2 ["B", "C"] 5 .uah hFirst (by norm_num) (by simpa using natCast_mem_sample 5)
    (by decide +kernel)
  have hThird := run_payAlong "p3" 3 ["C", "A"] 4 .uah hSecond (by norm_num) (by simpa using natCast_mem_sample 4)
    (by decide +kernel)
  have hRun : Transition.Run Ledger.step Journaled (Ledger.empty : Ledger (Env.sample .numeric208 true)) clearedCircle
      (Ledger.empty.run clearedCircle) :=
    hThird.snoc ⟨trivial, .inl rfl⟩
  have hBalance := journal_reconciles hRun ⟨1, "A"⟩ (by decide) ⟨2, "B"⟩ (by decide) .uah (by decide)
  have hJournal : (Ledger.run (Ledger.empty : Ledger (Env.sample .numeric208 true))
      clearedCircle).db.transactions.journal "UAH" "A" "B" - (Ledger.run (Ledger.empty : Ledger
        (Env.sample .numeric208 true)) clearedCircle).db.transactions.journal "UAH" "B" "A" = 2 := by
    decide +kernel
  exact hBalance.trans hJournal

end Reconciliation

end GeoLedger

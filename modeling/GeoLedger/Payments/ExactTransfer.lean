import Mathlib
import GeoLedger.Validation
import GeoLedger.Payments.Service
import GeoLedger.Payments.RoutingAgreement

/-! What a committed payment moves. Storage rounds every flow at the balance its
pair has when it is applied. Flows of the stored precision are not rounded, so their
payment transfers its amount; an amount beyond that precision is transferred by no
routes at all, since the positions before and after the payment are stored ones. -/
namespace GeoLedger
open Outcomes

variable {env : Env}

section Landed

/-- The flows as storage keeps them: each is rounded at the balance that its
pair has by then. -/
def landed (c : AmountColumn) (balance : Uuid → Uuid → Amount) : List Flow → List Flow
  | [] => []
  | f :: rest =>
      let z := c.round (balance f.fromId f.toId + f.amount)
      { f with amount := z - balance f.fromId f.toId } ::
        landed c (fun a b => if (a, b) = (f.fromId, f.toId) then z
          else if (a, b) = (f.toId, f.fromId) then -z else balance a b) rest

variable {flows : List Flow} {t t' : DebtTable env} {e : Uuid}

theorem expectedDelta_cons (f : Flow) (rest : List Flow) (p : Uuid) :
    expectedDelta (f :: rest) p =
      ((if f.toId = p then f.amount else 0) - (if f.fromId = p then f.amount else 0)) +
        expectedDelta rest p := by
  rw [expectedDelta, List.map_cons, List.sum_cons]
  rfl

theorem expectedDelta_append (flows others : List Flow) (p : Uuid) :
    expectedDelta (flows ++ others) p = expectedDelta flows p + expectedDelta others p := by
  rw [expectedDelta, List.map_append, List.sum_append]
  rfl

theorem expectedDelta_perm {flows others : List Flow} (h : flows.Perm others) (p : Uuid) :
    expectedDelta flows p = expectedDelta others p :=
  (h.map _).sum_eq

theorem Settles.balance_eq {a b : Uuid} {z : Amount} (h : Settles t t' a b e z) (x y : Uuid) :
    t'.balance x y e = if (x, y) = (a, b) then z else if (x, y) = (b, a) then -z else t.balance x y e := by
  split
  · next hSame =>
      obtain ⟨rfl, rfl⟩ := Prod.mk.inj hSame
      exact h.balance
  · next hOther =>
      split
      · next hBack =>
          obtain ⟨rfl, rfl⟩ := Prod.mk.inj hBack
          rw [DebtTable.balance_neg, h.balance]
      · next hAway =>
          simp only [Prod.mk.injEq] at hOther hAway
          rw [DebtTable.balance, DebtTable.balance, h.others x y e, h.others y x e]
          all_goals
            simp only [ne_eq, Prod.mk.injEq]
            tauto

/-- The positions move by the flows as they land. -/
theorem netPosition_applyFlows (hPos : ∀ f ∈ flows, 0 < f.amount)
    (hE : ∀ f ∈ flows, f.equivalentId = e) (h : applyFlows flows t = .ok t') (p : Uuid) :
    t'.netPosition p e = t.netPosition p e +
      expectedDelta (landed env.column (t.balance · · e) flows) p := by
  induction flows generalizing t with
  | nil =>
      cases h
      simp [landed, expectedDelta]
  | cons f rest ih =>
      obtain ⟨t₁, hFlow, hRest⟩ := applyFlows_cons.mp h
      obtain ⟨hNe, hSettles⟩ := applyFlow_settles (hPos f List.mem_cons_self) hFlow
      rw [hE f List.mem_cons_self] at hSettles
      have hBalance : (t₁.balance · · e) = fun a b =>
          if (a, b) = (f.fromId, f.toId) then
            env.column.round (t.balance f.fromId f.toId e + f.amount)
          else if (a, b) = (f.toId, f.fromId) then
            -env.column.round (t.balance f.fromId f.toId e + f.amount)
          else t.balance a b e := by
        funext a b
        exact hSettles.balance_eq a b
      rw [ih (fun g hg => hPos g (List.mem_cons_of_mem _ hg)) (fun g hg => hE g (List.mem_cons_of_mem _ hg))
        hRest, hBalance, hSettles.netPosition hNe p e, if_pos rfl, landed, expectedDelta_cons]
      simp only [@eq_comm _ p]
      ring

/-- Flows of stored amounts land as they are. -/
theorem landed_of_mem {c : AmountColumn} {balance : Uuid → Uuid → Amount}
    (hBalance : ∀ a b, balance a b ∈ c.grid) (hFlows : ∀ f ∈ flows, f.amount ∈ c.grid) :
    landed c balance flows = flows := by
  induction flows generalizing balance with
  | nil => rfl
  | cons f rest ih =>
      have hSum := c.grid.add_mem (hBalance f.fromId f.toId) (hFlows f List.mem_cons_self)
      rw [landed, c.round_of_mem _ hSum, add_sub_cancel_left, ih]
      · intro a b
        split
        · exact hSum
        · split
          · exact c.grid.neg_mem hSum
          · exact hBalance a b
      · exact fun g hg => hFlows g (List.mem_cons_of_mem _ hg)

end Landed

section Routes

variable {e : Uuid} {sender receiver : Participant}

/-- What a transfer changes at a participant. -/
def transferDelta (senderId receiverId : Uuid) (amount : Amount) (p : Uuid) : Amount :=
  (if receiverId = p then amount else 0) - (if senderId = p then amount else 0)

/-- Along a path all nodes but its ends pass on what they get. -/
theorem expectedDelta_pathFlows {nodes : List Participant} {amount : Amount}
    (hFirst : nodes.head? = some sender) (hLast : nodes.getLast? = some receiver) (p : Uuid) :
    expectedDelta (pathFlows e nodes amount) p = transferDelta sender.id receiver.id amount p := by
  induction nodes generalizing sender with
  | nil => cases hFirst
  | cons x rest ih =>
      cases hFirst
      cases rest with
      | nil =>
          cases hLast
          exact (sub_self _).symm
      | cons y tail =>
          rw [List.getLast?_cons_cons] at hLast
          have hTail := ih rfl hLast
          rw [pathFlows, hops_cons_cons, List.map_cons, expectedDelta_cons]
          rw [pathFlows] at hTail
          rw [hTail, transferDelta, transferDelta]
          change ((if y.id = p then amount else 0) - (if x.id = p then amount else 0)) + _ = _
          ring

/-- Routes that lead from one participant to another. -/
structure RoutesFrom (fromPid toPid : Pid) (amount : Amount) (routes : List Route) : Prop where
  ends : ∀ route ∈ routes, route.path.head? = some fromPid ∧ route.path.getLast? = some toPid
  total : (routes.map (·.amount)).sum = amount

theorem resolvePath_ends {path : List Pid} {nodes : List Participant}
    (hSender : sender ∈ env.directory.participants) (hReceiver : receiver ∈ env.directory.participants)
    (hNodes : resolvePath env.directory path = some nodes) (hFirst : path.head? = some sender.pid)
    (hLast : path.getLast? = some receiver.pid) :
    nodes.head? = some sender ∧ nodes.getLast? = some receiver := by
  obtain ⟨hPids, hMem⟩ := resolvePath_registered hNodes
  rw [← hPids] at hFirst hLast
  rw [List.head?_map, Option.map_eq_some_iff] at hFirst
  rw [List.getLast?_map, Option.map_eq_some_iff] at hLast
  obtain ⟨x, hx, hxPid⟩ := hFirst
  obtain ⟨y, hy, hyPid⟩ := hLast
  rw [hx, hy, env.directory.pid_injective (hMem x (List.mem_of_head? hx)) hSender hxPid,
    env.directory.pid_injective (hMem y (List.mem_of_getLast? hy)) hReceiver hyPid]
  exact ⟨rfl, rfl⟩

/-- The flows of routes ask for the transfer of their total. -/
theorem expectedDelta_routeFlows {routes : List Route} {resolved : List (List Participant × Amount)}
    {amount : Amount} (hSender : sender ∈ env.directory.participants)
    (hReceiver : receiver ∈ env.directory.participants)
    (hRoutes : RoutesFrom sender.pid receiver.pid amount routes)
    (hResolved : resolveRoutes env.directory routes = some resolved) (p : Uuid) :
    expectedDelta (routeFlows e resolved) p = transferDelta sender.id receiver.id amount p := by
  obtain ⟨hEnds, rfl⟩ := hRoutes
  have hAll := resolveRoutes_eq_some hResolved
  clear hResolved
  induction hAll with
  | nil => simp [routeFlows, routeSegments, expectedDelta, transferDelta]
  | @cons route nodes routes resolved hHead _ ih =>
      obtain ⟨hNodes, hAmount⟩ := hHead
      obtain ⟨hFirst, hLast⟩ := hEnds route List.mem_cons_self
      obtain ⟨hFirst, hLast⟩ := resolvePath_ends hSender hReceiver hNodes hFirst hLast
      have hTail := ih fun other hOther => hEnds other (List.mem_cons_of_mem _ hOther)
      rw [routeFlows_cons, expectedDelta_append, hTail, expectedDelta_pathFlows hFirst hLast, hAmount,
        List.map_cons, List.sum_cons]
      simp only [transferDelta]
      split <;> split <;> ring

end Routes

section Transfer

variable {db db₁ db₂ : Db env} {now now' : Time} {tx : Transaction} {e : Uuid} {flows : List Flow}
  {sender receiver : Participant} {amount : Amount} {routes : List Route}

/-- A commit after a preparation applies the flows prepared. -/
theorem Prepares.flows_perm (h : Prepares now e tx flows db db₁) :
    (Commits.flows db₁ tx.txId).Perm flows := by
  obtain ⟨new, hRows, hPerm, hNew⟩ := h.locks
  have hLocks : db₁.prepareLocks.ofTx tx.txId = new := by
    have hFree := h.unlocked
    unfold LockTable.ofTx at hFree ⊢
    rw [hRows, List.filter_append, hFree, List.nil_append, List.filter_eq_self]
    intro l hl
    simpa using (hNew l hl).1
  rw [Commits.flows, hLocks]
  exact ((List.perm_insertionSort _ _).flatMap_right _).trans hPerm

/-- Every net position moves by the amount of the transfer. -/
def ExactTransfer (before after : DebtTable env) (e senderId receiverId : Uuid) (amount : Amount) : Prop :=
  ∀ p, after.netPosition p e = before.netPosition p e + transferDelta senderId receiverId amount p

/-- A payment between two participants that is prepared along its routes and ends COMMITTED. -/
structure CommittedPayment (now now' : Time) (tx : Transaction) (sender receiver : Participant)
    (amount : Amount) (e : Uuid) (routes : List Route) (db db₁ db₂ : Db env) : Prop where
  distinct : sender ≠ receiver
  senderKnown : sender ∈ env.directory.participants
  receiverKnown : receiver ∈ env.directory.participants
  found : db.transactions.get? tx.txId = some tx
  isNew : tx.state = .NEW
  leads : RoutesFrom sender.pid receiver.pid amount routes
  prepared : preparePayment now tx.txId routes amount e db = .ok db₁
  committed : commit now' tx.txId db₁ = (.ok (), db₂)

namespace CommittedPayment

variable (h : CommittedPayment now now' tx sender receiver amount e routes db db₁ db₂)
include h

/-- What the preparation stored, and what the commit applied. -/
theorem effects : ∃ resolved tx₁, resolveRoutes env.directory routes = some resolved ∧
    Prepares now e tx (routeFlows e resolved) db db₁ ∧ tx₁.txId = tx.txId ∧ Commits now' db₁ db₂ tx₁ := by
  obtain ⟨resolved, hResolved, hPrepares⟩ :=
    preparePayment_prepares h.found h.isNew h.leads.total h.prepared
  have hCases := commit_cases now' tx.txId db₁
  rw [h.committed] at hCases
  rcases hCases with ⟨_, hDone, _⟩ | ⟨_, _, _, _, _, _, _, hError⟩ | ⟨tx₁, hId, _, hCommits⟩
  · obtain ⟨tx₁, hTx₁, hState⟩ := hDone rfl
    have hPrepared := hPrepares.state
    rw [hTx₁, Option.map_some, hState] at hPrepared
    cases hPrepared
  · cases hError
  · exact ⟨resolved, tx₁, hResolved, hPrepares, hId, hCommits⟩

/-- Routes whose amounts are stored as they are transfer them exactly: their flows land as
they are, and along each path all but its ends pass on what they get. -/
theorem exact_of_stored (hStored : ∀ route ∈ routes, route.amount ∈ env.column.grid) :
    ExactTransfer db.debts db₂.debts e sender.id receiver.id amount := by
  obtain ⟨resolved, tx₁, hResolved, hPrepares, hId, hCommits⟩ := h.effects
  have hPerm := hPrepares.flows_perm
  have hPos := hCommits.flow_pos
  have hApplied := hCommits.applied
  rw [hId] at hPos hApplied
  have hE : ∀ f ∈ Commits.flows db₁ tx.txId, f.equivalentId = e := fun f hf =>
    hPrepares.equivalent f (hPerm.mem_iff.mp hf)
  have hGrid : ∀ f ∈ Commits.flows db₁ tx.txId, f.amount ∈ env.column.grid := by
    intro f hf
    obtain ⟨nodes, hNodes, hPath⟩ := mem_routeFlows.mp (hPerm.mem_iff.mp hf)
    obtain ⟨route, hRoute, _, hAmount⟩ := exists_of_mem_results (resolveRoutes_eq_some hResolved) hNodes
    obtain ⟨hop, _, rfl⟩ := List.mem_map.mp hPath
    exact hAmount ▸ hStored route hRoute
  intro p
  rw [netPosition_applyFlows hPos hE hApplied p, landed_of_mem _ hGrid, hPrepares.debts,
    expectedDelta_perm hPerm, expectedDelta_routeFlows h.senderKnown h.receiverKnown h.leads hResolved]
  exact fun a b => env.column.grid.sub_mem (db₁.debts.owed_mem_grid _ _ _) (db₁.debts.owed_mem_grid _ _ _)

/-- Only an amount of the column can be transferred exactly, along whatever routes: the receiver's
position is a stored one before and after the payment. -/
theorem stored_of_exact (hExact : ExactTransfer db.debts db₂.debts e sender.id receiver.id amount) :
    amount ∈ env.column.grid := by
  have hSame : sender.id ≠ receiver.id := fun hId =>
    h.distinct (env.directory.id_injective h.senderKnown h.receiverKnown hId)
  have hReceiver := hExact receiver.id
  rw [transferDelta, if_pos rfl, if_neg hSame, sub_zero] at hReceiver
  have hAmount : amount = db₂.debts.netPosition receiver.id e - db.debts.netPosition receiver.id e := by
    rw [hReceiver, add_sub_cancel_left]
  rw [hAmount]
  exact env.column.grid.sub_mem (db₂.debts.netPosition_mem_grid _ _) (db.debts.netPosition_mem_grid _ _)

theorem routes_ne_nil : routes ≠ [] := by
  rintro rfl
  obtain ⟨resolved, tx₁, hResolved, hPrepares, hId, hCommits⟩ := h.effects
  obtain ⟨l, hl⟩ := List.exists_mem_of_ne_nil _ hCommits.locked
  obtain ⟨f, hf⟩ := List.exists_mem_of_ne_nil _ (hCommits.wellFormed l hl).1
  have hMem : f ∈ Commits.flows db₁ tx.txId := hId ▸ Commits.mem_flows.mpr ⟨l, hl, hf⟩
  cases hResolved
  have hNone := hPrepares.flows_perm.mem_iff.mp hMem
  cases hNone

end CommittedPayment

/-- What decides whether a committed payment transfers its amount is the number of fractional
digits. Routes whose amounts all have at most eight of them transfer their total; an amount with
more is transferred exactly along no routes; and along routes found in a graph of stored amounts
the payment is exact if and only if its amount has at most eight fractional digits. -/
theorem exact_transfer_iff (hColumn : env.column = .numeric208)
    (h : CommittedPayment now now' tx sender receiver amount e routes db db₁ db₂) :
    ((∀ route ∈ routes, route.amount ∈ Grid.multiples AmountColumn.storageQuantum) →
      ExactTransfer db.debts db₂.debts e sender.id receiver.id amount) ∧
    (ExactTransfer db.debts db₂.debts e sender.id receiver.id amount →
      amount ∈ Grid.multiples AmountColumn.storageQuantum) ∧
    ∀ (order : ReadOrder) (graphTime : Time) (code : String) (graphDb : Db env) (maxHops maxPaths : ℤ)
      (deadline : Nat) (avoid : List Pid), PaymentRouter.LocksStored graphDb →
      (PaymentRouter.buildGraphImpl order graphTime code graphDb).findFlowRoutes sender.pid receiver.pid
        amount maxHops maxPaths deadline avoid = .ok routes →
      (ExactTransfer db.debts db₂.debts e sender.id receiver.id amount ↔
        amount ∈ Grid.multiples AmountColumn.storageQuantum) := by
  have hGrid : env.column.grid = Grid.multiples AmountColumn.storageQuantum := by
    rw [hColumn]
    rfl
  rw [← hGrid]
  refine ⟨h.exact_of_stored, h.stored_of_exact, ?_⟩
  intro order graphTime code graphDb maxHops maxPaths deadline avoid hLocks hFound
  refine ⟨h.stored_of_exact, fun hAmount => h.exact_of_stored ?_⟩
  have hSound := PaymentRouter.findFlowRoutes_sound
    (fun u v => (PaymentRouter.buildGraphImpl_edges u v).1) hFound h.routes_ne_nil
  rw [hGrid, ← digitsTo_storage] at hAmount ⊢
  refine hSound.stored _ hAmount fun u v => ?_
  rw [digitsTo_storage, ← hGrid]
  exact PaymentRouter.buildGraphImpl_stored hLocks u v

end Transfer

section Sample

/-- B trusts A for 10, and A is about to pay B. -/
def directPayment (amount : Amount) : List LedgerOp :=
  [openLine 2 "A" .uah 10, .newPayment "p1" 1 "A" "B" amount "UAH" [⟨["A", "B"], amount⟩] none]

/-- The ledger before the payment, after its preparation, and after its commit. -/
def directBefore (amount : Amount) : Db (Env.sample .numeric208 true) :=
  (Ledger.empty.run (directPayment amount)).db

def directPrepared (amount : Amount) : Db (Env.sample .numeric208 true) :=
  (directBefore amount).orElse (preparePayment 0 "p1" [⟨["A", "B"], amount⟩] amount 1 (directBefore amount))

def directAfter (amount : Amount) : Db (Env.sample .numeric208 true) :=
  (commit 0 "p1" (directPrepared amount)).2

theorem Db.eq_ok_orElse {db : Db env} {result : Except GeoError (Db env)} (h : result.toBool = true) :
    result = .ok (db.orElse result) := by
  cases result with
  | error _ => cases h
  | ok _ => rfl

theorem committedPayment_direct {amount : Amount} (hTx : (directBefore amount).transactions.get? "p1" =
      some (newPaymentTransaction 0 "p1" 1 (.payment "A" "B" amount "UAH" [⟨["A", "B"], amount⟩] none)))
    (hPrepare : (preparePayment 0 "p1" [⟨["A", "B"], amount⟩] amount 1 (directBefore amount)).toBool = true)
    (hCommit : (commit 0 "p1" (directPrepared amount)).1 = .ok ()) :
    CommittedPayment 0 0 (newPaymentTransaction 0 "p1" 1
        (.payment "A" "B" amount "UAH" [⟨["A", "B"], amount⟩] none)) ⟨1, "A"⟩ ⟨2, "B"⟩ amount 1
      [⟨["A", "B"], amount⟩] (directBefore amount) (directPrepared amount) (directAfter amount) where
  distinct := by decide
  senderKnown := by decide
  receiverKnown := by decide
  found := hTx
  isNew := rfl
  leads := ⟨by simp, by simp⟩
  prepared := Db.eq_ok_orElse hPrepare
  committed := Prod.ext hCommit rfl

/-- A payment of 2 is transferred exactly. -/
theorem exact_transfer_two :
    ExactTransfer (directBefore 2).debts (directAfter 2).debts 1 1 2 2 := by
  have hPayment := @committedPayment_direct 2 (by decide +kernel) (by decide +kernel) (by decide +kernel)
  have hNoLocks : (directBefore 2).prepareLocks.rows = [] := by decide +kernel
  have hFound : (PaymentRouter.buildGraphImpl .insertion 0 "UAH" (directBefore 2)).findFlowRoutes "A" "B"
      2 6 3 100 [] = .ok [⟨["A", "B"], 2⟩] := by decide +kernel
  refine ((exact_transfer_iff rfl hPayment).2.2 .insertion 0 "UAH" (directBefore 2) 6 3 100 [] ?_
    hFound).mpr ?_
  · intro l hl
    rw [hNoLocks] at hl
    cases hl
  · exact Grid.mem_multiples_iff.mpr ⟨200000000, by norm_num [AmountColumn.storageQuantum]⟩

/-- A payment of 1.000000001 is committed, and not transferred exactly. -/
theorem not_exact_transfer :
    ¬∀ (env : Env) (db db₁ db₂ : Db env) (now now' : Time) (tx : Transaction) (sender receiver : Participant)
      (text : String) (amount : Amount) (e : Uuid) (routes : List Route), env.column = .numeric208 →
      parseAmountDecimal text (some defaultMaxAmountScale) (some defaultMaxAmountPrecision) true =
        .ok amount →
      CommittedPayment now now' tx sender receiver amount e routes db db₁ db₂ →
      ExactTransfer db.debts db₂.debts e sender.id receiver.id amount := by
  intro h
  have hParse : parseAmountDecimal "1.000000001" (some defaultMaxAmountScale)
      (some defaultMaxAmountPrecision) true = .ok (1000000001 / 1000000000) := by decide +kernel
  have hPayment := @committedPayment_direct (1000000001 / 1000000000) (by decide +kernel)
    (by decide +kernel) (by decide +kernel)
  have hStored := hPayment.stored_of_exact (h _ _ _ _ _ _ _ _ _ _ _ _ _ rfl hParse hPayment)
  have hDen := (Grid.mem_multiples_iff_den AmountColumn.storageQuantum_pos).mp hStored
  revert hDen
  decide +kernel

end Sample

end GeoLedger

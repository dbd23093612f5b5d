import Mathlib
import GeoLedger.Clearing.Neutrality
import GeoLedger.Payments.ExactTransfer
import GeoLedger.Payments.Journal

/-! What payments settle. The net position of a participant is what the committed payments
brought it as their receiver, less what it sent as their sender: the participants in
between and the clearings leave no trace in it. -/
namespace GeoLedger
open Outcomes

variable {env : Env} {db db' : Db env} {now : Time} {txId : TxId} {op : LedgerOp} {e : Uuid}

section Positions

/-- What a recorded transaction settles at a participant. -/
def Payload.settled (payload : Payload) (code : String) (x : Pid) : Amount :=
  match payload with
  | .payment sender receiver amount equivalent _ _ =>
      if equivalent = code then (if receiver = x then amount else 0) - (if sender = x then amount else 0) else 0
  | .clearing .. => 0

/-- What the committed transactions settle at a participant. -/
def TxTable.settled (t : TxTable) (code : String) (x : Pid) : Amount := t.posted (·.settled code x)

variable {t t' : DebtTable env}

/-- A position depends on the debts of its equivalent only. -/
theorem netPosition_congr (h : ∀ a b, t'.owed a b e = t.owed a b e) (p : Uuid) :
    t'.netPosition p e = t.netPosition p e := by
  have hDiff := DebtTable.netPosition_sub (S := t.participants ∪ t'.participants) Finset.subset_union_left
    Finset.subset_union_right p e
  simp only [h, sub_self, Finset.sum_const_zero] at hDiff
  exact sub_eq_zero.mp hDiff

/-- A commit moves every position by the flows of its locks. -/
theorem Commits.netPosition_eq {tx : Transaction} (h : Commits now db db' tx) (hStored : LocksStored db)
    (p e : Uuid) : db'.debts.netPosition p e = db.debts.netPosition p e +
      expectedDelta ((Commits.flows db tx.txId).filter (·.equivalentId = e)) p := by
  have hFlows := hStored.commit_flows tx.txId
  by_cases hTouched : ∃ f ∈ Commits.flows db tx.txId, f.equivalentId = e
  · obtain ⟨f, hf, hE⟩ := hTouched
    have hAll : ∀ g ∈ Commits.flows db tx.txId, g.equivalentId = e := fun g hg =>
      (hStored.commit_oneEquivalent hg hf).trans hE
    have hSame : (Commits.flows db tx.txId).filter (·.equivalentId = e) = Commits.flows db tx.txId :=
      List.filter_eq_self.mpr fun g hg => decide_eq_true (hAll g hg)
    have hLanded : landed env.column (db.debts.balance · · e) (Commits.flows db tx.txId) =
        Commits.flows db tx.txId :=
      landed_of_mem (fun a b => env.column.grid.sub_mem (db.debts.owed_mem_grid _ _ _)
        (db.debts.owed_mem_grid _ _ _)) fun g hg => (hFlows g hg).2.1
    have hMoved := netPosition_applyFlows (fun g hg => (hFlows g hg).1) hAll h.applied p
    rw [hSame, hMoved]
    rw [Commits.flows] at hLanded ⊢
    rw [hLanded]
  · have hNone : (Commits.flows db tx.txId).filter (·.equivalentId = e) = [] :=
      List.filter_eq_nil_iff.mpr fun f hf => by simpa using fun hE => hTouched ⟨f, hf, hE⟩
    rw [hNone, netPosition_congr fun a b => h.untouched.2 a b e fun f hf hE => absurd ⟨f, hf, hE⟩ hTouched]
    exact (add_zero _).symm

/-- A clearing in one equivalent leaves every position. -/
theorem Clears.netPosition_eq {order : ReadOrder} {cycle : List (Option Uuid)} {allowedPids : Option (List Pid)}
    {debtIds : List Uuid} {first : Debt} {rest : List Debt}
    (h : Clears now order cycle allowedPids db db' debtIds first rest)
    (hOne : ∀ d ∈ first :: rest, d.equivalentId = first.equivalentId) (p e : Uuid) :
    db'.debts.netPosition p e = db.debts.netPosition p e := by
  refine (h.netPosition_eq_iff e).mpr ?_ p
  by_cases hE : e = first.equivalentId
  · rw [hE]
    exact h.balanced
  · intro q
    rw [List.countP_eq_zero.mpr, List.countP_eq_zero.mpr]
    · intro d hd
      simp [hOne d hd, Ne.symm hE]
    · intro d hd
      simp [hOne d hd, Ne.symm hE]

end Positions

section Transfers

/-- Flows that change at every participant what a payload settles. -/
def Transfers (env : Env) (flows : List Flow) (payload : Payload) : Prop :=
  ∀ p ∈ env.directory.participants, ∀ w ∈ env.directory.equivalents,
    expectedDelta (flows.filter (·.equivalentId = w.id)) p.id = payload.settled w.code p.pid

theorem transfers_orderFree : OrderFree (Transfers env) := by
  intro flows others payload hPerm h p hp w hw
  rw [expectedDelta_perm (hPerm.filter _)]
  exact h p hp w hw

theorem exists_resolvePath {routes : List Route} {resolved : List (List Participant × Amount)} {route : Route}
    (hResolved : resolveRoutes env.directory routes = some resolved) (hMem : route ∈ routes) :
    ∃ nodes, resolvePath env.directory route.path = some nodes := by
  have hAll := resolveRoutes_eq_some hResolved
  clear hResolved
  induction hAll with
  | nil => cases hMem
  | cons hHead _ ih =>
      rcases List.mem_cons.mp hMem with rfl | hRest
      · exact ⟨_, hHead.1⟩
      · exact ih hRest

/-- The flows of routes from one PID to another transfer between these two. -/
theorem expectedDelta_routes {routes : List Route} {resolved : List (List Participant × Amount)} {x y : Pid}
    {amount : Amount} (hRoutes : RoutesFrom x y amount routes)
    (hResolved : resolveRoutes env.directory routes = some resolved) {p : Participant}
    (hp : p ∈ env.directory.participants) :
    expectedDelta (routeFlows e resolved) p.id = (if y = p.pid then amount else 0) - (if x = p.pid then amount else 0) := by
  cases hAll : routes with
  | nil =>
      subst hAll
      cases hResolved
      have hZero : (0 : Amount) = amount := hRoutes.total
      simp [routeFlows, routeSegments, expectedDelta, ← hZero]
  | cons route rest =>
      have hMem : route ∈ routes := hAll ▸ List.mem_cons_self
      obtain ⟨hFirst, hLast⟩ := hRoutes.ends route hMem
      obtain ⟨nodes, hNodes⟩ := exists_resolvePath hResolved hMem
      obtain ⟨hPids, hKnown⟩ := resolvePath_registered hNodes
      rw [← hPids, List.head?_map, Option.map_eq_some_iff] at hFirst
      rw [← hPids, List.getLast?_map, Option.map_eq_some_iff] at hLast
      obtain ⟨sender, hSender, rfl⟩ := hFirst
      obtain ⟨receiver, hReceiver, rfl⟩ := hLast
      have hSender := hKnown sender (List.mem_of_head? hSender)
      have hReceiver := hKnown receiver (List.mem_of_getLast? hReceiver)
      have hSame {q : Participant} (hq : q ∈ env.directory.participants) : q.id = p.id ↔ q.pid = p.pid := by
        constructor
        · intro hId
          rw [env.directory.id_injective hq hp hId]
        · intro hPid
          rw [env.directory.pid_injective hq hp hPid]
      rw [expectedDelta_routeFlows hSender hReceiver hRoutes hResolved, transferDelta]
      simp only [hSame hSender, hSame hReceiver]

/-- The routes of every recorded payment lead from its sender to its receiver and add up to
its amount. -/
def RoutesRecorded (db : Db env) : Prop :=
  ∀ tx ∈ db.transactions.rows, ∀ sender receiver amount equivalent routes fingerprint,
    tx.payload = .payment sender receiver amount equivalent routes fingerprint →
      RoutesFrom sender receiver amount routes

/-- Payments are recorded with routes from their sender to their receiver. -/
def WellRouted : LedgerOp → Prop
  | .newPayment _ _ sender receiver amount _ routes _ => RoutesFrom sender receiver amount routes
  | _ => True

theorem RoutesRecorded.update {state : TxState} {error : Option TxError} (h : RoutesRecorded db)
    (hUpdate : db'.transactions = db.transactions.update txId state error now) : RoutesRecorded db' := by
  intro row hRow sender receiver amount equivalent routes fingerprint hPayload
  rw [hUpdate] at hRow
  obtain ⟨old, hOld, _, hSame⟩ := TxTable.payload_of_update hRow
  exact h old hOld _ _ _ _ _ _ (hSame.trans hPayload)

theorem routesRecorded_change (h : RoutesRecorded db) (hOp : WellRouted op) (hChange : Change now db op db') :
    RoutesRecorded db' := by
  cases hChange with
  | inserted hInsert =>
      intro row hRow sender receiver amount equivalent routes fingerprint hPayload
      rw [(TxTable.insert_eq_ok_iff.mp hInsert).2] at hRow
      rcases List.mem_append.mp hRow with hOld | hNew
      · exact h row hOld _ _ _ _ _ _ hPayload
      · rw [List.mem_singleton.mp hNew] at hPayload
        cases hPayload
        exact hOp
  | prepared _ hPrepares => exact h.update hPrepares.transactions
  | preparedRoutes _ _ hPrepares => exact h.update hPrepares.transactions
  | committed _ hCommit => exact h.update hCommit.transactions
  | aborted txId reason code details =>
      intro row hRow sender receiver amount equivalent routes fingerprint hPayload
      obtain ⟨old, hOld, _, hSame⟩ := payload_of_abort hRow
      exact h old hOld _ _ _ _ _ _ (hSame.trans hPayload)
  | cleared hClears =>
      obtain ⟨hInsert, _⟩ := stageClearing_eq_ok hClears.staged
      intro row hRow sender receiver amount equivalent routes fingerprint hPayload
      rw [(TxTable.insert_eq_ok_iff.mp hInsert).2] at hRow
      rcases List.mem_append.mp hRow with hOld | hNew
      · exact h row hOld _ _ _ _ _ _ hPayload
      · rw [List.mem_singleton.mp hNew] at hPayload
        cases hPayload
  | opened hOk =>
      obtain ⟨_, _, _, _, _, _, _, _, _, rfl⟩ := createTrustLine_effect hOk
      exact h
  | updated hOk =>
      obtain ⟨_, _, _, _, _, _, _, _, _, rfl⟩ := updateTrustLine_effect hOk
      exact h
  | closed hOk =>
      obtain ⟨_, _, _, _, _, _, _, rfl⟩ := closeTrustLine_effect hOk
      exact h

end Transfers

section Settlement

/-- The positions of a reconciled ledger are what its payments settle. -/
structure Settled (db : Db env) : Prop where
  reconciled : Reconciled db
  routed : RoutesRecorded db
  transfers : LocksHold (Transfers env) db
  positions : ∀ p ∈ env.directory.participants, ∀ w ∈ env.directory.equivalents,
    db.debts.netPosition p.id w.id = db.transactions.settled w.code p.pid

/-- What the callers of an operation see to. -/
def Settling (s : Ledger env) (op : LedgerOp) : Prop := Journaled s op ∧ WellRouted op

theorem settled_empty : Settled (Db.empty : Db env) where
  reconciled := reconciled_empty
  routed _ hTx := by cases hTx
  transfers _ hTx := by cases hTx
  positions _ _ _ _ := by
    show (0 : Amount) - 0 = 0
    exact sub_self 0

/-- The flows of a requested payment transfer what it records. -/
theorem Requests.transfers {tx : Transaction} {routes : List Route} {resolved : List (List Participant × Amount)}
    (h : Requests db tx.txId routes e) (hRouted : RoutesRecorded db) (hTx : tx ∈ db.transactions.rows)
    (hResolved : resolveRoutes env.directory routes = some resolved) :
    Transfers env (routeFlows e resolved) tx.payload := by
  obtain ⟨sender, receiver, amount, fingerprint, hPayload⟩ := h tx hTx rfl
  have hFrom := hRouted tx hTx _ _ _ _ _ _ hPayload
  intro p hp w hw
  rw [hPayload]
  show _ = if env.directory.codeText e = w.code then _ else _
  by_cases hSame : e = w.id
  · have hAll : (routeFlows e resolved).filter (·.equivalentId = w.id) = routeFlows e resolved :=
      List.filter_eq_self.mpr fun f hf => decide_eq_true ((routeFlows_equivalent hf).trans hSame)
    rw [if_pos ((Directory.codeText_eq_code_iff hw).mpr hSame), hAll]
    exact expectedDelta_routes hFrom hResolved hp
  · have hNone : (routeFlows e resolved).filter (·.equivalentId = w.id) = [] := by
      refine List.filter_eq_nil_iff.mpr fun f hf => ?_
      rw [routeFlows_equivalent hf]
      simpa using hSame
    rw [if_neg fun hCode => hSame ((Directory.codeText_eq_code_iff hw).mp hCode), hNone]
    rfl

theorem settled_change (h : Settled db) (hOp : Settling ⟨db, now⟩ op) (hChange : Change now db op db') :
    Settled db' where
  reconciled := reconciled_change h.reconciled hOp.1 hChange
  routed := routesRecorded_change h.routed hOp.2 hChange
  transfers := locksHold_change h.reconciled.locks h.transfers transfers_orderFree
    (fun hRequested hTx hResolved => (hOp.1.2.requests hRequested).transfers h.routed hTx hResolved) hChange
  positions p hp w hw := by
    have hBefore := h.positions p hp w hw
    rw [TxTable.settled] at hBefore ⊢
    rcases hChange.posts with ⟨hDebts, hPosted⟩ | ⟨payload, ⟨tx, hCommit, rfl⟩ | hClear, hPosted⟩
    · rw [hPosted, hDebts, hBefore]
    · have hTransfers := h.transfers.commit_flows transfers_orderFree hCommit
      rw [hPosted, hCommit.netPosition_eq h.reconciled.stored, hBefore, hTransfers p hp w hw]
    · obtain ⟨_, _, _, _, _, _, _, rfl, hClears, rfl⟩ := hClear
      rw [hPosted, hClears.netPosition_eq (hClears.one_equivalent hOp.1.2), hBefore]
      exact (add_zero _).symm

theorem settled_step {s : Ledger env} (h : Settled s.db) (hOp : Settling s op) : Settled (s.step op).db :=
  applyOp_keeps (A := fun mid => Settling ⟨mid, s.now⟩) h hOp (fun _ _ _ => ⟨⟨trivial, trivial⟩, trivial⟩)
    fun _ _ hMid hMidOp hChange => settled_change hMid hMidOp hChange

/-- After any run of the ledger the net position of a participant is what the committed
payments brought it less what it sent, whoever passed them on and whatever was cleared. -/
theorem positions_settle {finish : Ledger env} {ops : List LedgerOp}
    (hRun : Transition.Run Ledger.step Settling Ledger.empty ops finish) :
    ∀ p ∈ env.directory.participants, ∀ w ∈ env.directory.equivalents,
      finish.db.debts.netPosition p.id w.id = finish.db.transactions.settled w.code p.pid := by
  have hFinish : Settled finish.db :=
    hRun.invariant (P := fun s => Settled s.db) settled_empty fun _ _ => settled_step
  exact hFinish.positions

/-- A pays 6 to C over B. -/
def paidOver : List LedgerOp :=
  [openLine 2 "A" .uah 10, openLine 3 "B" .uah 10] ++ payAlong "p1" 1 ["A", "B", "C"] 6 .uah

/-- C has received the 6 that A sent over B, and B has passed them on. -/
theorem positions_settle_over :
    (Ledger.run (Ledger.empty : Ledger (Env.sample .numeric208 true)) paidOver).db.debts.netPosition 3 1 = 6 ∧
      (Ledger.run (Ledger.empty : Ledger (Env.sample .numeric208 true)) paidOver).db.debts.netPosition 2 1 = 0 := by
  have hRouted : RoutesFrom "A" "C" 6 [⟨["A", "B", "C"], 6⟩] := ⟨by simp, by simp⟩
  have hRequests : Requests (Ledger.run (Ledger.empty : Ledger (Env.sample .numeric208 true))
      (paidOver.take 3)).db "p1" [⟨["A", "B", "C"], 6⟩] 1 := by
    have hAll : ∀ tx ∈ (Ledger.run (Ledger.empty : Ledger (Env.sample .numeric208 true))
        (paidOver.take 3)).db.transactions.rows,
        tx.payload = .payment "A" "C" 6 "UAH" [⟨["A", "B", "C"], 6⟩] none := by
      decide +kernel
    intro tx hTx _
    exact ⟨"A", "C", 6, none, hAll tx hTx⟩
  have hRun : Transition.Run Ledger.step Settling (Ledger.empty : Ledger (Env.sample .numeric208 true)) paidOver
      (Ledger.empty.run paidOver) := by
    refine ((((Transition.Run.nil.snoc ?_).snoc ?_).snoc ?_).snoc ?_).snoc ?_
    · exact ⟨⟨trivial, trivial⟩, trivial⟩
    · exact ⟨⟨trivial, trivial⟩, trivial⟩
    · exact ⟨⟨trivial, trivial⟩, hRouted⟩
    · exact ⟨⟨⟨by norm_num, by simpa using natCast_mem_sample 6⟩, hRequests⟩, trivial⟩
    · exact ⟨⟨trivial, trivial⟩, trivial⟩
  have hPositions := positions_settle hRun
  have hSettled : (Ledger.run (Ledger.empty : Ledger (Env.sample .numeric208 true))
      paidOver).db.transactions.settled "UAH" "C" = 6 ∧ (Ledger.run (Ledger.empty : Ledger
        (Env.sample .numeric208 true)) paidOver).db.transactions.settled "UAH" "B" = 0 := by
    decide +kernel
  constructor
  · exact (hPositions ⟨3, "C"⟩ (by decide) .uah (by decide)).trans hSettled.1
  · exact (hPositions ⟨2, "B"⟩ (by decide) .uah (by decide)).trans hSettled.2

end Settlement

end GeoLedger

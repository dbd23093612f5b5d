import Mathlib
import GeoLedger.Library.Headroom
import GeoLedger.Reservations
import GeoLedger.LedgerSafety
import GeoLedger.Payments.FlowNetting

/-! What a preparation is worth. The live locks of all payments fit together on top
of the balances, whatever happens in between, so a prepared payment that has not
expired commits. -/
namespace GeoLedger
open Outcomes

variable {env : Env} {db db' : Db env} {now : Time} {txId : TxId} {op : LedgerOp} {e : Uuid}

section Reserved

/-- The flows of the live locks. -/
def liveFlows (db : Db env) (now : Time) : List Flow := (db.prepareLocks.live now).flatMap (·.flows)

/-- What is reserved along a segment is what the flows of the live locks sum up to there. -/
theorem reservation_eq (db : Db env) (now : Time) (a b e : Uuid) :
    reservation db now a b e = localReserved (liveFlows db now) a b e := by
  have hFilter : (liveFlows db now).filter (fun f => f.equivalentId = e ∧ f.fromId = a ∧ f.toId = b) =
      (liveFlows db now).filter fun f => f.fromId = a ∧ f.toId = b ∧ f.equivalentId = e := by
    refine List.filter_congr fun f _ => ?_
    rw [decide_eq_decide]
    tauto
  rw [localReserved, ← hFilter]
  rfl

/-- Fewer flows reserve less. -/
theorem localReserved_le_of_sublist {flows others : List Flow} (h : flows.Sublist others)
    (hNonneg : ∀ f ∈ others, 0 ≤ f.amount) (a b e : Uuid) :
    localReserved flows a b e ≤ localReserved others a b e := by
  refine ((h.filter _).map _).sum_le_sum fun x hx => ?_
  obtain ⟨f, hf, rfl⟩ := List.mem_map.mp hx
  exact hNonneg f (List.mem_filter.mp hf).1

/-- A flow is part of what its pair reserves. -/
theorem le_localReserved {flows : List Flow} (hNonneg : ∀ f ∈ flows, 0 ≤ f.amount) {f : Flow} (hf : f ∈ flows) :
    f.amount ≤ localReserved flows f.fromId f.toId f.equivalentId := by
  refine List.single_le_sum (fun x hx => ?_) _ (List.mem_map.mpr ⟨f, List.mem_filter.mpr ⟨hf, by simp⟩, rfl⟩)
  obtain ⟨g, hg, rfl⟩ := List.mem_map.mp hx
  exact hNonneg g (List.mem_filter.mp hg).1

/-- Flows along other segments reserve nothing along this one. -/
theorem localReserved_eq_zero_of_apart {flows : List Flow} {a b : Uuid}
    (h : ∀ f ∈ flows, ¬(f.fromId = a ∧ f.toId = b ∧ f.equivalentId = e)) : localReserved flows a b e = 0 := by
  have hNone : flows.filter (fun f => f.fromId = a ∧ f.toId = b ∧ f.equivalentId = e) = [] :=
    List.filter_eq_nil_iff.mpr fun f hf => by simpa using h f hf
  rw [localReserved, hNone]
  rfl

/-- Stored flows between different participants move every balance by what they carry. -/
theorem balance_applyFlows {flows : List Flow} {t t' : DebtTable env} (hPos : ∀ f ∈ flows, 0 < f.amount)
    (hGrid : ∀ f ∈ flows, f.amount ∈ env.column.grid) (hDistinct : ∀ f ∈ flows, f.fromId ≠ f.toId)
    (h : applyFlows flows t = .ok t') (a b e : Uuid) :
    t'.balance a b e = t.balance a b e + localReserved flows a b e - localReserved flows b a e := by
  rw [(landing_applyFlows hPos hGrid h a b e).1, pairDelta_eq_sub hDistinct, add_sub_assoc]

end Reserved

section Stored

/-- The flows of the locks: positive amounts of the column between different participants,
in one equivalent for each transaction. -/
structure LocksStored (db : Db env) : Prop where
  positive : ∀ l ∈ db.prepareLocks.rows, ∀ f ∈ l.flows, 0 < f.amount
  stored : ∀ l ∈ db.prepareLocks.rows, ∀ f ∈ l.flows, f.amount ∈ env.column.grid
  distinct : ∀ l ∈ db.prepareLocks.rows, ∀ f ∈ l.flows, f.fromId ≠ f.toId
  oneEquivalent : ∀ l ∈ db.prepareLocks.rows, ∀ l' ∈ db.prepareLocks.rows, l.txId = l'.txId →
    ∀ f ∈ l.flows, ∀ f' ∈ l'.flows, f.equivalentId = f'.equivalentId

/-- Every line runs between two participants. -/
def NoSelfLines (tl : TrustTable env) : Prop := ∀ l ∈ tl.rows, l.fromParticipantId ≠ l.toParticipantId

/-- Without lines of a participant to itself nobody has a limit to themselves. -/
theorem NoSelfLines.limit_self {tl : TrustTable env} (h : NoSelfLines tl) (a e : Uuid) : tl.limit a a e = 0 := by
  rcases tl.limit_cases a a e with hZero | ⟨l, hMem, _, hKey, _⟩
  · exact hZero
  · simp only [TrustLine.key, Prod.mk.injEq] at hKey
    exact absurd (hKey.1.trans hKey.2.1.symm) (h l hMem)

/-- Stored locks stay so when some of them are deleted. -/
theorem LocksStored.subset (h : LocksStored db)
    (hRows : ∀ l ∈ db'.prepareLocks.rows, l ∈ db.prepareLocks.rows) : LocksStored db' where
  positive l hl := h.positive l (hRows l hl)
  stored l hl := h.stored l (hRows l hl)
  distinct l hl := h.distinct l (hRows l hl)
  oneEquivalent l hl l' hl' := h.oneEquivalent l (hRows l hl) l' (hRows l' hl')

/-- The flows of some locks are not negative. -/
theorem LocksStored.nonneg (h : LocksStored db) {locks : List PrepareLock}
    (hLocks : ∀ l ∈ locks, l ∈ db.prepareLocks.rows) : ∀ f ∈ locks.flatMap (·.flows), 0 ≤ f.amount := by
  intro f hf
  obtain ⟨l, hl, hfl⟩ := List.mem_flatMap.mp hf
  exact (h.positive l (hLocks l hl) f hfl).le

theorem LocksStored.liveFlows_nonneg (h : LocksStored db) (now : Time) : ∀ f ∈ liveFlows db now, 0 ≤ f.amount :=
  h.nonneg fun _ hl => (List.mem_filter.mp hl).1

/-- What stored locks reserve is not negative. -/
theorem LocksStored.reservation_nonneg (h : LocksStored db) (a b : Uuid) : 0 ≤ reservation db now a b e := by
  rw [reservation_eq]
  exact localReserved_nonneg (h.liveFlows_nonneg now) a b

/-- Without locks that were not there before, and as time passes, less is reserved. -/
theorem LocksStored.reservation_le {now' : Time} (h : LocksStored db) (hTime : now ≤ now')
    (hRows : db'.prepareLocks.rows.Sublist db.prepareLocks.rows) (a b : Uuid) :
    reservation db' now' a b e ≤ reservation db now a b e := by
  have hLive : (db'.prepareLocks.live now').Sublist (db.prepareLocks.live now) := by
    refine (List.monotone_filter_right db'.prepareLocks.rows fun l hl => ?_).trans (hRows.filter _)
    have hLate : now' < l.expiresAt := of_decide_eq_true hl
    exact decide_eq_true (hTime.trans_lt hLate : now < l.expiresAt)
  rw [reservation_eq, reservation_eq]
  exact localReserved_le_of_sublist (hLive.flatMap _) (h.liveFlows_nonneg now) a b e

/-- Flows that fit a ledger without self lines run between different participants. -/
theorem FlowsFit.distinct {flows : List Flow} (hFit : FlowsFit db now txId e flows)
    (hLines : NoSelfLines db.trustLines) (hLocks : LocksSound db) (hStored : LocksStored db)
    (hFree : db.prepareLocks.ofTx txId = []) (hPos : ∀ f ∈ flows, 0 < f.amount)
    (hE : ∀ f ∈ flows, f.equivalentId = e) : ∀ f ∈ flows, f.fromId ≠ f.toId := by
  intro f hf hLoop
  have hRoom := hFit f.fromId f.toId ⟨f, hf, rfl, rfl⟩
  have hOwn := le_localReserved (fun g hg => (hPos g hg).le) hf
  have hReserved : 0 ≤ reservation db now f.fromId f.toId e := hStored.reservation_nonneg _ _
  rw [hE f hf] at hOwn
  rw [hLocks.reservedUsage_eq hFree, availableCapacity, ← hLoop, hLines.limit_self] at hRoom
  rw [← hLoop] at hOwn hReserved
  linarith [hPos f hf]

/-- A preparation of positive amounts of the column leaves the locks stored. -/
theorem Prepares.locksStored {tx : Transaction} {flows : List Flow} (h : Prepares now e tx flows db db')
    (hLines : NoSelfLines db.trustLines) (hLocks : LocksSound db) (hStored : LocksStored db)
    (hPos : ∀ f ∈ flows, 0 < f.amount) (hGrid : ∀ f ∈ flows, f.amount ∈ env.column.grid) : LocksStored db' := by
  obtain ⟨new, hRows, hPerm, hNew⟩ := h.locks
  have hDistinct := h.fits.distinct hLines hLocks hStored h.unlocked hPos h.equivalent
  have hFlows : ∀ l ∈ new, ∀ f ∈ l.flows, f ∈ flows := fun l hl f hf =>
    hPerm.mem_iff.mp (List.mem_flatMap.mpr ⟨l, hl, hf⟩)
  have hSplit : ∀ l ∈ db'.prepareLocks.rows, l ∈ db.prepareLocks.rows ∨ l ∈ new := fun l hl => by
    rwa [hRows, List.mem_append] at hl
  have hOther : ∀ l ∈ db.prepareLocks.rows, l.txId ≠ tx.txId := by
    intro l hl
    simpa using List.filter_eq_nil_iff.mp h.unlocked l hl
  refine ⟨fun l hl => ?_, fun l hl => ?_, fun l hl => ?_, fun l hl l' hl' hTx f hf f' hf' => ?_⟩
  · exact (hSplit l hl).elim (hStored.positive l) fun hIn f hf => hPos f (hFlows l hIn f hf)
  · exact (hSplit l hl).elim (hStored.stored l) fun hIn f hf => hGrid f (hFlows l hIn f hf)
  · exact (hSplit l hl).elim (hStored.distinct l) fun hIn f hf => hDistinct f (hFlows l hIn f hf)
  · rcases hSplit l hl with hOld | hIn <;> rcases hSplit l' hl' with hOld' | hIn'
    · exact hStored.oneEquivalent l hOld l' hOld' hTx f hf f' hf'
    · exact absurd (hTx.trans (hNew l' hIn').1) (hOther l hOld)
    · exact absurd (hTx.symm.trans (hNew l hIn).1) (hOther l' hOld')
    · rw [h.equivalent f (hFlows l hIn f hf), h.equivalent f' (hFlows l' hIn' f' hf')]

/-- A commit applies the flows of the locks, in the order of their ids. -/
theorem Commits.flows_perm_locks (db : Db env) (txId : TxId) :
    (Commits.flows db txId).Perm ((db.prepareLocks.ofTx txId).flatMap (·.flows)) :=
  (List.perm_insertionSort _ _).flatMap_right _

/-- The flows that a commit would apply. -/
theorem LocksStored.commit_flows (h : LocksStored db) (txId : TxId) :
    ∀ f ∈ Commits.flows db txId, 0 < f.amount ∧ f.amount ∈ env.column.grid ∧ f.fromId ≠ f.toId := by
  intro f hf
  obtain ⟨l, hl, hfl⟩ := Commits.mem_flows.mp hf
  have hRow := (List.mem_filter.mp hl).1
  exact ⟨h.positive l hRow f hfl, h.stored l hRow f hfl, h.distinct l hRow f hfl⟩

/-- The flows of one payment are all in one equivalent. -/
theorem LocksStored.commit_oneEquivalent (h : LocksStored db) {f f' : Flow} (hf : f ∈ Commits.flows db txId)
    (hf' : f' ∈ Commits.flows db txId) : f.equivalentId = f'.equivalentId := by
  obtain ⟨l, hl, hfl⟩ := Commits.mem_flows.mp hf
  obtain ⟨l', hl', hfl'⟩ := Commits.mem_flows.mp hf'
  obtain ⟨hRow, hTx⟩ := List.mem_filter.mp hl
  obtain ⟨hRow', hTx'⟩ := List.mem_filter.mp hl'
  exact h.oneEquivalent l hRow l' hRow' ((of_decide_eq_true hTx).trans (of_decide_eq_true hTx').symm)
    f hfl f' hfl'

/-- A commit moves the balance of every pair by exactly what its flows carry between the
two. -/
theorem Commits.balance_eq {tx : Transaction} (h : Commits now db db' tx) (hStored : LocksStored db) (a b e : Uuid) :
    db'.debts.balance a b e = db.debts.balance a b e + localReserved (Commits.flows db tx.txId) a b e -
      localReserved (Commits.flows db tx.txId) b a e := by
  have hFlows := hStored.commit_flows tx.txId
  exact balance_applyFlows (fun f hf => (hFlows f hf).1) (fun f hf => (hFlows f hf).2.1)
    (fun f hf => (hFlows f hf).2.2) h.applied a b e

end Stored

section Room

/-- Balances, reservations and limits of one equivalent. -/
def Db.book (db : Db env) (now : Time) (e : Uuid) : Headroom.Book Uuid Amount where
  net a b := db.debts.balance a b e
  reserved a b := reservation db now a b e
  limit a b := db.trustLines.limit b a e

/-- The ledger keeps its promises: what live locks reserve fits on top of the balances. -/
structure Promised (db : Db env) (now : Time) : Prop where
  bounded : Bounded db
  locks : LocksSound db
  stored : LocksStored db
  lines : NoSelfLines db.trustLines
  room : ∀ e, (db.book now e).Sound

/-- The available capacity of a segment is the limit of the receiver's line less the
balance. -/
theorem availableCapacity_eq (db : Db env) (a b e : Uuid) :
    availableCapacity db a b e = db.trustLines.limit b a e - db.debts.balance a b e := by
  rw [availableCapacity, DebtTable.balance]
  ring

/-- A preparation reserves within what the others leave. -/
theorem Prepares.room {tx : Transaction} {flows : List Flow} (h : Prepares now e tx flows db db')
    (hDb : Promised db now) (hPos : ∀ f ∈ flows, 0 < f.amount) (w : Uuid) : (db'.book now w).Sound := by
  obtain ⟨new, hRows, hPerm, hNew⟩ := h.locks
  have hReserved : ∀ a b, reservation db' now a b w ≤ reservation db now a b w + localReserved flows a b w := by
    intro a b
    have hLive : liveFlows db' now = liveFlows db now ++ (new.filter (·.live now)).flatMap (·.flows) := by
      rw [liveFlows, liveFlows, LockTable.live, LockTable.live, hRows, List.filter_append, List.flatMap_append]
    rw [reservation_eq, reservation_eq, hLive, localReserved_append, ← localReserved_perm hPerm]
    refine add_le_add_right (localReserved_le_of_sublist (List.filter_sublist.flatMap _) (fun f hf => ?_) a b w) _
    exact (hPos f (hPerm.mem_iff.mp hf)).le
  have hFits : ∀ a b, localReserved flows a b w = 0 ∨
      localReserved flows a b w + reservation db now a b w ≤
        db.trustLines.limit b a w - db.debts.balance a b w := by
    intro a b
    by_cases hPair : ∃ f ∈ flows, f.fromId = a ∧ f.toId = b ∧ f.equivalentId = w
    · obtain ⟨f, hf, hFrom, hTo, rfl⟩ := hPair
      have hFit := h.fits a b ⟨f, hf, hFrom, hTo⟩
      rw [hDb.locks.reservedUsage_eq h.unlocked, availableCapacity_eq] at hFit
      rw [h.equivalent f hf]
      exact Or.inr hFit
    · exact Or.inl (localReserved_eq_zero_of_apart fun f hf hEnds => hPair ⟨f, hf, hEnds⟩)
  have hNet : (db'.book now w).net = (db.book now w).net := by
    funext a b
    show db'.debts.balance a b w = db.debts.balance a b w
    rw [h.debts]
  have hLimit : (db'.book now w).limit = (db.book now w).limit := by
    funext a b
    show db'.trustLines.limit b a w = db.trustLines.limit b a w
    rw [h.trustLines]
  exact (hDb.room w).reserve hNet hLimit hReserved hFits

/-- The live flows are those of a payment whose locks are all live, and those of the others. -/
theorem liveFlows_perm (hLive : ∀ l ∈ db.prepareLocks.ofTx txId, l.live now)
    (hDeleted : db'.prepareLocks = db.prepareLocks.deleteTx txId) :
    (liveFlows db now).Perm (Commits.flows db txId ++ liveFlows db' now) := by
  have hSplit := (List.filter_append_perm (fun l : PrepareLock => decide (l.txId = txId))
    (db.prepareLocks.live now)).symm
  have hOwn : (db.prepareLocks.live now).filter (fun l => decide (l.txId = txId)) = db.prepareLocks.ofTx txId := by
    rw [LockTable.live, List.filter_filter, LockTable.ofTx]
    refine List.filter_congr fun l hl => ?_
    by_cases hTx : l.txId = txId
    · have hNow : l.live now := hLive l (List.mem_filter.mpr ⟨hl, decide_eq_true hTx⟩)
      simp [hTx, hNow]
    · simp [hTx]
  have hRest : (db.prepareLocks.live now).filter (fun l => !decide (l.txId = txId)) = db'.prepareLocks.live now := by
    rw [hDeleted, LockTable.live, LockTable.live]
    show _ = (db.prepareLocks.rows.filter fun l => l.txId ≠ txId).filter fun l => l.live now
    rw [List.filter_filter, List.filter_filter]
    refine List.filter_congr fun l _ => ?_
    simp [Bool.and_comm]
  rw [hOwn, hRest] at hSplit
  refine (hSplit.flatMap_right _).trans ?_
  rw [List.flatMap_append]
  exact (Commits.flows_perm_locks db txId).symm.append_right _

/-- A commit moves its flows from the reservations to the balances. -/
theorem Commits.room {tx : Transaction} (h : Commits now db db' tx) (hDb : Promised db now) (w : Uuid) :
    (db'.book now w).Sound := by
  have hReserved : ∀ a b, reservation db' now a b w =
      reservation db now a b w - localReserved (Commits.flows db tx.txId) a b w := by
    intro a b
    rw [reservation_eq, reservation_eq, localReserved_perm (liveFlows_perm h.live h.prepareLocks),
      localReserved_append, add_sub_cancel_left]
  have hLimit : (db'.book now w).limit = (db.book now w).limit := by
    funext a b
    show db'.trustLines.limit b a w = db.trustLines.limit b a w
    rw [h.trustLines]
  exact (hDb.room w).draw (fun a b => localReserved_nonneg (fun f hf => (h.flow_pos f hf).le) a b)
    (fun a b => h.balance_eq hDb.stored a b w) hReserved hLimit

end Room

section Steps

/-- Within the limits no balance exceeds the limit of its line. -/
theorem Bounded.balance_le (h : Bounded db) (a b e : Uuid) :
    db.debts.balance a b e ≤ db.trustLines.limit b a e := by
  rw [DebtTable.balance]
  exact (sub_le_self _ (db.debts.owed_nonneg b a e)).trans (h.withinLimit a b e)

/-- A ledger without locks has promised nothing. -/
theorem promised_of_unlocked (hBounded : Bounded db) (hUnlocked : db.prepareLocks.rows = [])
    (hLines : NoSelfLines db.trustLines) : Promised db now where
  bounded := hBounded
  locks := ⟨by simp [hUnlocked], by simp [hUnlocked], by simp [hUnlocked], by simp [hUnlocked]⟩
  stored := ⟨by simp [hUnlocked], by simp [hUnlocked], by simp [hUnlocked], by simp [hUnlocked]⟩
  lines := hLines
  room e a b := by
    have hNone : reservation db now a b e = 0 := by
      simp [reservation, LockTable.live, hUnlocked]
    show db.debts.balance a b e + reservation db now a b e ≤ db.trustLines.limit b a e
    rw [hNone, add_zero]
    exact hBounded.balance_le a b e

/-- The limits may change where they do not fall, and where nothing is reserved. -/
theorem Promised.relimit (hDb : Promised db now) (hBounded : Bounded db') (hDebts : db'.debts = db.debts)
    (hLocks : db'.prepareLocks = db.prepareLocks)
    (hLimits : ∀ a b e, db.trustLines.limit b a e ≤ db'.trustLines.limit b a e ∨ reservation db now a b e = 0)
    (w : Uuid) : (db'.book now w).Sound := by
  intro a b
  have hSame : reservation db' now a b w = reservation db now a b w := by
    rw [reservation, reservation, hLocks]
  show db'.debts.balance a b w + reservation db' now a b w ≤ db'.trustLines.limit b a w
  rw [hSame]
  rcases hLimits a b w with hGrown | hFree
  · rw [hDebts]
    exact (hDb.room w a b).trans hGrown
  · rw [hFree, add_zero]
    exact hBounded.balance_le a b w

/-- Locks that stay, and time that passes, leave room. -/
theorem Promised.release {now' : Time} (hDb : Promised db now) (hTime : now ≤ now')
    (hDebts : db'.debts = db.debts) (hLines : db'.trustLines = db.trustLines)
    (hRows : db'.prepareLocks.rows.Sublist db.prepareLocks.rows) (w : Uuid) : (db'.book now' w).Sound := by
  refine (hDb.room w).relax (fun a b => ?_) (fun a b => hDb.stored.reservation_le hTime hRows a b) fun a b => ?_
  · show db'.debts.balance a b w ≤ db.debts.balance a b w
    rw [hDebts]
  · show db.trustLines.limit b a w ≤ db'.trustLines.limit b a w
    rw [hLines]

/-- No live lock reserves along the pair of a debt that a clearing finds unlocked. -/
theorem reservation_eq_zero_of_unlocked {d : Debt}
    (h : pairLocked (lockedPairsForEquivalent db now e) d = false) :
    reservation db now d.debtorId d.creditorId e = 0 ∧ reservation db now d.creditorId d.debtorId e = 0 := by
  have hNone : ∀ f ∈ liveFlows db now, f.equivalentId = e →
      (d.debtorId, d.creditorId) ≠ (f.fromId, f.toId) ∧ (d.creditorId, d.debtorId) ≠ (f.fromId, f.toId) := by
    intro f hf hE
    have hIn : (f.fromId, f.toId) ∈ lockedPairsForEquivalent db now e :=
      List.mem_map.mpr ⟨f, List.mem_filter.mpr ⟨hf, decide_eq_true hE⟩, rfl⟩
    simp only [pairLocked, decide_eq_false_iff_not, not_or] at h
    exact ⟨fun hSame => h.1 (hSame ▸ hIn), fun hBack => h.2 (hBack ▸ hIn)⟩
  rw [reservation_eq, reservation_eq]
  constructor
  · refine localReserved_eq_zero_of_apart fun f hf hEnds => (hNone f hf hEnds.2.2).1 ?_
    rw [hEnds.1, hEnds.2.1]
  · refine localReserved_eq_zero_of_apart fun f hf hEnds => (hNone f hf hEnds.2.2).2 ?_
    rw [hEnds.1, hEnds.2.1]

section Clearing

variable {order : ReadOrder} {cycle : List (Option Uuid)} {allowedPids : Option (List Pid)} {debtIds : List Uuid}
  {first : Debt} {rest : List Debt}

/-- A clearing in one equivalent moves balances of pairs on which nothing is reserved. -/
theorem Clears.room (h : Clears now order cycle allowedPids db db' debtIds first rest) (hDb : Promised db now)
    (hBounded : Bounded db') (hOne : ∀ d ∈ first :: rest, d.equivalentId = first.equivalentId) (w : Uuid) :
    (db'.book now w).Sound := by
  obtain ⟨_, _, _, hLines, hLocks⟩ := stageClearing_eq_ok h.staged
  have hReserved : (db'.book now w).reserved = (db.book now w).reserved := by
    funext a b
    show reservation db' now a b w = reservation db now a b w
    rw [reservation, reservation, hLocks]
  have hLimit : (db'.book now w).limit = (db.book now w).limit := by
    funext a b
    show db'.trustLines.limit b a w = db.trustLines.limit b a w
    rw [hLines]
  refine (hDb.room w).move hReserved hLimit fun a b => ?_
  show db'.debts.balance a b w = db.debts.balance a b w ∨
    (reservation db now a b w = 0 ∧ db'.debts.balance a b w ≤ db.trustLines.limit b a w)
  by_cases hTouched : ∃ d ∈ first :: rest, d.key = (a, b, w) ∨ d.key = (b, a, w)
  · obtain ⟨d, hd, hKey⟩ := hTouched
    have hUnlocked : pairLocked (lockedPairsForEquivalent db now d.equivalentId) d = false := by
      rw [hOne d hd]
      simpa using List.any_eq_false.mp h.unlocked d hd
    obtain ⟨hForward, hBack⟩ := reservation_eq_zero_of_unlocked hUnlocked
    refine Or.inr ⟨?_, hLines ▸ hBounded.balance_le a b w⟩
    simp only [Debt.key, Prod.mk.injEq] at hKey
    rcases hKey with ⟨rfl, rfl, rfl⟩ | ⟨rfl, rfl, rfl⟩
    · exact hForward
    · exact hBack
  · have hSame : ∀ x y, (∀ d ∈ first :: rest, d.key ≠ (x, y, w)) →
        db'.debts.owed x y w = db.debts.owed x y w := by
      intro x y hAway
      rw [h.effect.2.2, if_neg]
      rintro ⟨d, hd, hKey⟩
      exact hAway d hd hKey
    left
    rw [DebtTable.balance, DebtTable.balance, hSame a b fun d hd hKey => hTouched ⟨d, hd, Or.inl hKey⟩,
      hSame b a fun d hd hKey => hTouched ⟨d, hd, Or.inr hKey⟩]

end Clearing

/-- Preparations are called with positive amounts as the column stores them. -/
def StoredAmounts (env : Env) : LedgerOp → Prop
  | .prepare _ _ amount _ => 0 < amount ∧ amount ∈ env.column.grid
  | .prepareRoutes _ routes _ => ∀ route ∈ routes, route.amount ∈ env.column.grid
  | _ => True

/-- The debts of a cycle are in one equivalent. On PostgreSQL a clearing checks it itself. -/
def OneEquivalentCycle (db : Db env) (cycle : List (Option Uuid)) : Prop :=
  env.postgres = true ∨ ∀ d ∈ db.debts.rows, ∀ d' ∈ db.debts.rows,
    some d.id ∈ cycle → some d'.id ∈ cycle → d.equivalentId = d'.equivalentId

/-- Cycles are in one equivalent, and no line is lowered or closed while something is
reserved along it. -/
def LeavesReserved (s : Ledger env) : LedgerOp → Prop
  | .clear _ _ cycle _ => OneEquivalentCycle s.db cycle
  | .updateTrustLine trustlineId _ data => ∀ l ∈ s.db.trustLines.rows, l.id = trustlineId →
      l.limit ≤ data.limit.getD l.limit ∨
        reservation s.db s.now l.toParticipantId l.fromParticipantId l.equivalentId = 0
  | .closeTrustLine trustlineId _ _ => ∀ l ∈ s.db.trustLines.rows, l.id = trustlineId →
      reservation s.db s.now l.toParticipantId l.fromParticipantId l.equivalentId = 0
  | _ => True

/-- What the callers of an operation see to. -/
def Serves (s : Ledger env) (op : LedgerOp) : Prop := StoredAmounts env op ∧ LeavesReserved s op

/-- The debts of a cleared cycle are all in one equivalent. -/
theorem Clears.one_equivalent {order : ReadOrder} {cycle : List (Option Uuid)}
    {allowedPids : Option (List Pid)} {debtIds : List Uuid} {first : Debt} {rest : List Debt}
    (h : Clears now order cycle allowedPids db db' debtIds first rest) (hCycle : OneEquivalentCycle db cycle) :
    ∀ d ∈ first :: rest, d.equivalentId = first.equivalentId := by
  rcases hCycle with hPostgres | hOne
  · exact h.interlocked hPostgres
  · have hNamed : ∀ d ∈ first :: rest, some d.id ∈ cycle := by
      intro d hd
      rw [← h.read] at hd
      obtain ⟨x, hx, hId⟩ := exists_of_mem_mapM h.ids (mem_debtsByIds.mp hd).2
      have hEq : x = some d.id := hId
      exact hEq ▸ hx
    intro d hd
    exact hOne d (h.mem_rows d hd) first (h.mem_rows first List.mem_cons_self) (hNamed d hd)
      (hNamed first List.mem_cons_self)

/-- Resolved routes pay amounts of the routes. -/
theorem routeFlows_amount {routes : List Route} {resolved : List (List Participant × Amount)}
    (h : resolveRoutes env.directory routes = some resolved) {f : Flow} (hf : f ∈ routeFlows e resolved) :
    ∃ route ∈ routes, f.amount = route.amount := by
  obtain ⟨nodes, hNodes, hPath⟩ := mem_routeFlows.mp hf
  obtain ⟨route, hRoute, _, hAmount⟩ := exists_of_mem_results (resolveRoutes_eq_some h) hNodes
  obtain ⟨hop, _, rfl⟩ := List.mem_map.mp hPath
  exact ⟨route, hRoute, hAmount⟩

/-- Routes that pass the check have positive amounts. -/
theorem checkRoutes_pos {routes : List Route} (h : checkRoutes routes = .ok ()) :
    ∀ route ∈ routes, 0 < route.amount := by
  induction routes with
  | nil => simp
  | cons route rest ih =>
      rw [checkRoutes] at h
      split at h
      · cases h
      · next hPos =>
          split at h
          · cases h
          · intro other hOther
            rcases List.mem_cons.mp hOther with rfl | hRest
            · exact not_le.mp hPos
            · exact ih h other hRest

/-- No operation leaves a line of a participant to itself. -/
theorem noSelfLines_change (h : NoSelfLines db.trustLines) (hChange : Change now db op db') :
    NoSelfLines db'.trustLines := by
  cases hChange with
  | inserted => exact h
  | prepared _ hPrepares => exact hPrepares.trustLines ▸ h
  | preparedRoutes _ _ hPrepares => exact hPrepares.trustLines ▸ h
  | committed _ hCommit => exact hCommit.trustLines ▸ h
  | aborted txId reason code details =>
      rw [abort_eq]
      exact h
  | cleared hClears => exact (stageClearing_eq_ok hClears.staged).2.2.2.1 ▸ h
  | opened hOk =>
      obtain ⟨_, _, _, tl, _, hNe, _, _, hInsert, rfl⟩ := createTrustLine_effect hOk
      intro l hl
      have hl : l ∈ tl.rows := hl
      rw [TrustTable.rows_of_insert hInsert] at hl
      rcases List.mem_append.mp hl with hOld | hNew
      · exact h l hOld
      · rw [List.mem_singleton.mp hNew]
        exact hNe
  | updated hOk =>
      obtain ⟨_, _, _, _, _, _, _, tl, hWrite, rfl⟩ := updateTrustLine_effect hOk
      intro l hl
      have hl : l ∈ tl.rows := hl
      rw [TrustTable.rows_of_write hWrite] at hl
      rcases Rows.mem_update_iff.mp hl with ⟨old, hOld, _, rfl⟩ | ⟨hOld, _⟩
      · exact h old hOld
      · exact h l hOld
  | closed hOk =>
      obtain ⟨_, _, _, _, _, _, _, rfl⟩ := closeTrustLine_effect hOk
      intro l hl
      rcases Rows.mem_update_iff.mp hl with ⟨old, hOld, _, rfl⟩ | ⟨hOld, _⟩
      · exact h old hOld
      · exact h l hOld

/-- Every operation whose amounts the column stores leaves the locks stored. -/
theorem locksStored_change (hLines : NoSelfLines db.trustLines) (hLocks : LocksSound db) (h : LocksStored db)
    (hAmounts : StoredAmounts env op) (hChange : Change now db op db') : LocksStored db' := by
  cases hChange with
  | inserted => exact h.subset fun l hl => hl
  | prepared hNodes hPrepares =>
      refine hPrepares.locksStored hLines hLocks h (fun f hf => ?_) fun f hf => ?_
      · rw [(pathFlows_registered hNodes f hf).2.1]
        exact hAmounts.1
      · rw [(pathFlows_registered hNodes f hf).2.1]
        exact hAmounts.2
  | preparedRoutes hRoutes hResolved hPrepares =>
      refine hPrepares.locksStored hLines hLocks h (fun f hf => ?_) fun f hf => ?_
      · obtain ⟨route, hRoute, hAmount⟩ := routeFlows_amount hResolved hf
        rw [hAmount]
        exact checkRoutes_pos hRoutes route hRoute
      · obtain ⟨route, hRoute, hAmount⟩ := routeFlows_amount hResolved hf
        rw [hAmount]
        exact hAmounts route hRoute
  | committed _ hCommit =>
      refine h.subset fun l hl => ?_
      rw [hCommit.prepareLocks] at hl
      exact (Rows.mem_delete_iff.mp hl).1
  | aborted txId reason code details =>
      refine h.subset fun l hl => ?_
      rw [abort_eq] at hl
      exact (Rows.mem_delete_iff.mp hl).1
  | cleared hClears =>
      obtain ⟨_, _, _, _, hSame⟩ := stageClearing_eq_ok hClears.staged
      exact h.subset fun l hl => hSame ▸ hl
  | opened hOk =>
      obtain ⟨_, _, _, _, _, _, _, _, _, rfl⟩ := createTrustLine_effect hOk
      exact h.subset fun l hl => hl
  | updated hOk =>
      obtain ⟨_, _, _, _, _, _, _, _, _, rfl⟩ := updateTrustLine_effect hOk
      exact h.subset fun l hl => hl
  | closed hOk =>
      obtain ⟨_, _, _, _, _, _, _, rfl⟩ := closeTrustLine_effect hOk
      exact h.subset fun l hl => hl

/-- Every operation keeps the room of all reservations within every equivalent. -/
theorem room_change (h : Promised db now) (hServes : Serves ⟨db, now⟩ op) (hChange : Change now db op db')
    (w : Uuid) : (db'.book now w).Sound := by
  have hBounded : Bounded db' := bounded_change h.bounded hChange
  cases hChange with
  | inserted => exact h.release le_rfl rfl rfl (List.Sublist.refl _) w
  | prepared hNodes hPrepares =>
      refine hPrepares.room h (fun f hf => ?_) w
      rw [(pathFlows_registered hNodes f hf).2.1]
      exact hServes.1.1
  | preparedRoutes hRoutes hResolved hPrepares =>
      refine hPrepares.room h (fun f hf => ?_) w
      obtain ⟨route, hRoute, hAmount⟩ := routeFlows_amount hResolved hf
      rw [hAmount]
      exact checkRoutes_pos hRoutes route hRoute
  | committed _ hCommit => exact hCommit.room h w
  | aborted txId reason code details =>
      rw [abort_eq]
      refine h.release le_rfl ?_ ?_ ?_ w
      · rfl
      · rfl
      · exact List.filter_sublist
  | cleared hClears => exact hClears.room h hBounded (hClears.one_equivalent hServes.2) w
  | opened hOk =>
      obtain ⟨_, _, _, tl, _, _, _, _, hInsert, rfl⟩ := createTrustLine_effect hOk
      obtain ⟨hNone, hLimit⟩ := TrustTable.limit_insert hInsert
      refine h.relimit hBounded rfl rfl (fun a b v => Or.inl ?_) w
      show db.trustLines.limit b a v ≤ tl.limit b a v
      by_cases hZero : db.trustLines.limit b a v = 0
      · rw [hZero]
        exact tl.zero_le_limit b a v
      · rw [hLimit, if_neg]
        intro hKey
        simp only [Prod.mk.injEq] at hKey
        obtain ⟨rfl, rfl, rfl⟩ := hKey
        exact hZero hNone
  | updated hOk =>
      obtain ⟨l, hMem, hId, _, _, policy, _, tl, hWrite, rfl⟩ := updateTrustLine_effect hOk
      refine h.relimit hBounded rfl rfl (fun a b v => ?_) w
      show db.trustLines.limit b a v ≤ tl.limit b a v ∨ reservation db now a b v = 0
      rw [TrustTable.limit_write hMem hWrite]
      split
      · next hLine =>
          obtain ⟨hActive, hKey⟩ := hLine
          rw [TrustTable.limit_of_active hMem hActive hKey]
          simp only [TrustLine.key, Prod.mk.injEq] at hKey
          obtain ⟨rfl, rfl, rfl⟩ := hKey
          refine (hServes.2 l hMem hId).imp (fun hLe => ?_) id
          have hRound := env.column.round_mono hLe
          rwa [env.column.round_of_mem _ (db.trustLines.stored l hMem)] at hRound
      · exact Or.inl le_rfl
  | closed hOk =>
      obtain ⟨l, hMem, hId, hLive, _, _, _, rfl⟩ := closeTrustLine_effect hOk
      refine h.relimit hBounded rfl rfl (fun a b v => ?_) w
      show db.trustLines.limit b a v ≤ (db.trustLines.close l.id).limit b a v ∨ reservation db now a b v = 0
      rw [TrustTable.limit_close hMem hLive]
      split
      · next hKey =>
          simp only [TrustLine.key, Prod.mk.injEq] at hKey
          obtain ⟨rfl, rfl, rfl⟩ := hKey
          exact Or.inr (hServes.2 l hMem hId)
      · exact Or.inl le_rfl

/-- Every operation whose callers keep to their part keeps the promise to all prepared
payments. -/
theorem promised_change (h : Promised db now) (hServes : Serves ⟨db, now⟩ op) (hChange : Change now db op db') :
    Promised db' now where
  bounded := bounded_change h.bounded hChange
  locks := locksSound_change h.locks hChange
  stored := locksStored_change h.lines h.locks h.stored hServes.1 hChange
  lines := noSelfLines_change h.lines hChange
  room := room_change h hServes hChange

/-- Every operation whose callers keep to the rules keeps the promises. -/
theorem promised_step {s : Ledger env} (h : Promised s.db s.now) (hServes : Serves s op) :
    Promised (s.step op).db (s.step op).now := by
  have hKept : Promised (applyOp s.now s.db op) s.now :=
    applyOp_keeps (A := fun mid => Serves ⟨mid, s.now⟩) h hServes (fun _ _ _ => ⟨trivial, trivial⟩)
      fun _ _ hMid hOp hChange => promised_change hMid hOp hChange
  cases op with
  | tick seconds =>
      exact ⟨h.bounded, h.locks, h.stored, h.lines,
        h.release (Nat.le_add_right _ seconds) rfl rfl (List.Sublist.refl _)⟩
  | _ => exact hKept

end Steps

section Commit

/-- Flows that a commit can apply: each moves a stored amount between two participants, all
in one equivalent, and each pair has room for its own. -/
structure Fitting (db : Db env) (flows : List Flow) : Prop where
  positive : ∀ f ∈ flows, 0 < f.amount
  stored : ∀ f ∈ flows, f.amount ∈ env.column.grid
  distinct : ∀ f ∈ flows, f.fromId ≠ f.toId
  oneEquivalent : ∀ f ∈ flows, ∀ f' ∈ flows, f.equivalentId = f'.equivalentId
  within : ∀ a b e, db.debts.balance a b e + localReserved flows a b e ≤ db.trustLines.limit b a e

/-- The flows of a payment whose locks are live fit. -/
theorem Promised.fitting (h : Promised db now) (hLive : ∀ l ∈ db.prepareLocks.ofTx txId, l.live now) :
    Fitting db (Commits.flows db txId) := by
  have hFlows := h.stored.commit_flows txId
  refine ⟨fun f hf => (hFlows f hf).1, fun f hf => (hFlows f hf).2.1, fun f hf => (hFlows f hf).2.2,
    fun f hf f' hf' => h.stored.commit_oneEquivalent hf hf', fun a b e => ?_⟩
  have hOwn : ∀ x y, localReserved (Commits.flows db txId) x y e ≤ (db.book now e).reserved x y := by
    intro x y
    let rest : Db env := { db with prepareLocks := db.prepareLocks.deleteTx txId }
    have hPerm : (liveFlows db now).Perm (Commits.flows db txId ++ liveFlows rest now) := liveFlows_perm hLive rfl
    have hRest : LocksStored rest := h.stored.subset fun l hl => (Rows.mem_delete_iff.mp hl).1
    have hOthers : 0 ≤ reservation rest now x y e := hRest.reservation_nonneg x y
    have hSplit : reservation db now x y e =
        localReserved (Commits.flows db txId) x y e + reservation rest now x y e := by
      rw [reservation_eq, reservation_eq, localReserved_perm hPerm, localReserved_append]
    show localReserved (Commits.flows db txId) x y e ≤ reservation db now x y e
    linarith
  exact (h.room e).drawable hOwn a b

namespace Fitting

variable {flows : List Flow} {after : DebtTable env}

/-- Flows that fit have room. -/
theorem hasRoom (h : Fitting db flows) : HasRoom db.debts flows := by
  intro f _ hNow
  have hWithin := h.within f.fromId f.toId f.equivalentId
  rcases db.trustLines.limit_cases f.toId f.fromId f.equivalentId with hZero | ⟨l, hMem, _, _, hLimit⟩
  · linarith
  · rw [hLimit] at hWithin
    refine env.column.fits_of_abs_le _ l.limit ?_ (db.trustLines.limit_fits l hMem)
    rw [abs_of_pos hNow, abs_of_pos (hNow.trans_le hWithin)]
    exact hWithin

/-- A pair that the flows touch is left in one row. -/
theorem owed_eq (h : Fitting db flows) (hApplied : applyFlows flows db.debts = .ok after) {a b : Uuid}
    (hPair : (a, b) ∈ affectedPairs (flows.filter (·.equivalentId = e))) :
    after.owed a b e = max (after.balance a b e) 0 ∧ after.owed b a e = max (after.balance b a e) 0 := by
  obtain ⟨f, hf, hEnds⟩ := List.mem_flatMap.mp hPair
  have hEnds : (a, b) = (f.fromId, f.toId) ∨ (a, b) = (f.toId, f.fromId) := by simpa using hEnds
  have hTouches (x y : Uuid) (hBetween : f.Between x y) : after.owed x y e = max (after.balance x y e) 0 := by
    obtain ⟨hBalance, hOwed⟩ := landing_applyFlows h.positive h.stored hApplied x y e
    rw [hOwed, if_pos ⟨f, hf, hBetween⟩, hBalance]
  refine ⟨hTouches a b hEnds, hTouches b a ?_⟩
  rcases hEnds with hEnds | hEnds
  · obtain ⟨rfl, rfl⟩ := Prod.mk.inj hEnds
    exact Or.inr rfl
  · obtain ⟨rfl, rfl⟩ := Prod.mk.inj hEnds
    exact Or.inl rfl

/-- Flows that fit pass the check of the trust limits once they are applied. -/
theorem trustLimits (h : Fitting db flows) (hApplied : applyFlows flows db.debts = .ok after)
    (hNe : flows.filter (·.equivalentId = e) ≠ []) :
    checkTrustLimits db.trustLines after e (affectedPairs (flows.filter (·.equivalentId = e))) = .ok () := by
  refine (checkTrustLimits_eq_ok_iff (Commits.affectedPairs_ne_nil hNe)).mpr ?_
  rintro ⟨a, b⟩ hPair
  have hBack : 0 ≤ localReserved flows b a e := localReserved_nonneg (fun f hf => (h.positive f hf).le) b a
  rw [(h.owed_eq hApplied hPair).1, balance_applyFlows h.positive h.stored h.distinct hApplied]
  refine max_le ?_ (db.trustLines.zero_le_limit b a e)
  linarith [h.within a b e]

/-- Flows that fit pass the check of one-way debts once they are applied. -/
theorem debtSymmetry (h : Fitting db flows) (hApplied : applyFlows flows db.debts = .ok after)
    (hNe : flows.filter (·.equivalentId = e) ≠ []) :
    checkDebtSymmetry after e (affectedPairs (flows.filter (·.equivalentId = e))) = .ok () := by
  refine (checkDebtSymmetry_eq_ok_iff (Commits.affectedPairs_ne_nil hNe)).mpr ?_
  rintro ⟨a, b⟩ hPair
  obtain ⟨hForward, hBack⟩ := h.owed_eq hApplied hPair
  rw [after.balance_neg a b] at hBack
  rcases le_total (after.balance a b e) 0 with hNeg | hPos
  · left
    rw [hForward, max_eq_right hNeg]
  · right
    rw [hBack, max_eq_right (neg_nonpos.mpr hPos)]

/-- All flows are in one equivalent, and they land as they are. -/
theorem paymentDelta (h : Fitting db flows) (hApplied : applyFlows flows db.debts = .ok after)
    (hNe : flows.filter (·.equivalentId = e) ≠ []) :
    checkPaymentDelta db.debts after e (flows.filter (·.equivalentId = e)) = .ok () := by
  obtain ⟨f, hf⟩ := List.exists_mem_of_ne_nil _ hNe
  obtain ⟨hIn, hE⟩ := List.mem_filter.mp hf
  have hE : f.equivalentId = e := of_decide_eq_true hE
  have hAll : ∀ g ∈ flows, g.equivalentId = e := fun g hg => (h.oneEquivalent g hg f hIn).trans hE
  have hSame : flows.filter (·.equivalentId = e) = flows :=
    List.filter_eq_self.mpr fun g hg => decide_eq_true (hAll g hg)
  rw [hSame, checkPaymentDelta, if_pos]
  intro p _
  have hLanded : landed env.column (db.debts.balance · · e) flows = flows :=
    landed_of_mem (fun a b => env.column.grid.sub_mem (db.debts.owed_mem_grid _ _ _) (db.debts.owed_mem_grid _ _ _))
      h.stored
  rw [netPosition_applyFlows h.positive hAll hApplied p, hLanded, add_sub_cancel_left, sub_self, abs_zero]
  norm_num [deltaTolerance]

/-- The flows are applied and pass every check. -/
theorem passes (h : Fitting db flows) : ∃ debts, applyFlows flows db.debts = .ok debts ∧
    (Dict.groupBy Flow.equivalentId flows).items.forM (checkEquivalent db.trustLines db.debts debts) = .ok () := by
  obtain ⟨debts, hApplied⟩ := applyFlows_eq_ok h.positive h.distinct h.stored h.hasRoom
  refine ⟨debts, hApplied, forM_eq_ok_iff.mpr ?_⟩
  rintro ⟨e, own⟩ hGroup
  obtain ⟨rfl, hNe⟩ := (Dict.mem_groupBy_items Flow.equivalentId).mp hGroup
  exact bind_eq_ok_iff.mpr ⟨(), h.trustLimits hApplied hNe, bind_eq_ok_iff.mpr ⟨(), checkZeroSum_eq_ok debts e,
    bind_eq_ok_iff.mpr ⟨(), h.debtSymmetry hApplied hNe, h.paymentDelta hApplied hNe⟩⟩⟩

end Fitting

/-- The transaction of a lock is prepared. -/
theorem LocksSound.prepared (h : LocksSound db) (hLocked : db.prepareLocks.ofTx txId ≠ []) :
    ∃ tx, db.transactions.get? txId = some tx ∧ tx.state = .PREPARED := by
  obtain ⟨l, hl⟩ := List.exists_mem_of_ne_nil _ hLocked
  obtain ⟨hRow, hTx⟩ := List.mem_filter.mp hl
  have hTx : l.txId = txId := of_decide_eq_true hTx
  obtain ⟨tx, hMem, hId, hState⟩ := h.held l hRow
  exact ⟨tx, TxTable.get?_eq_some_iff.mpr ⟨hMem, hId.trans hTx⟩, hState⟩

/-- A payment whose locks are live commits. -/
theorem Promised.commit_ok (h : Promised db now) (hLocked : db.prepareLocks.ofTx txId ≠ [])
    (hLive : ∀ l ∈ db.prepareLocks.ofTx txId, l.live now) : (commit now txId db).1 = .ok () := by
  obtain ⟨tx, hFound, hState⟩ := h.locks.prepared hLocked
  obtain ⟨debts, hApplied, hChecked⟩ := (h.fitting hLive).passes
  have hWell : WellFormedLocks (db.prepareLocks.ofTx txId) := fun l hl =>
    ⟨h.locks.nonempty l (List.mem_filter.mp hl).1, h.stored.positive l (List.mem_filter.mp hl).1⟩
  have hAlive : ¬∃ l ∈ db.prepareLocks.ofTx txId, ¬l.live now := by
    rintro ⟨l, hl, hDead⟩
    exact hDead (hLive l hl)
  have hParsed : parsePersistedPrepareLocks (db.prepareLocks.ofTx txId) =
      .ok ((db.prepareLocks.ofTx txId).insertionSort fun l₁ l₂ => l₁.id ≤ l₂.id) :=
    if_pos ⟨hWell, hLocked⟩
  have hPrepared : (commitPrepared now tx
      ((db.prepareLocks.ofTx txId).insertionSort fun l₁ l₂ => l₁.id ≤ l₂.id) db).1 = .ok () := by
    rw [Commits.flows] at hApplied hChecked
    simp only [commitPrepared, hApplied, hChecked]
  unfold commit
  simp only [hWell, not_true_eq_false, and_false, if_false, hFound, hState, reduceCtorEq, or_self, ne_eq,
    hLocked, hParsed, hAlive]
  exact hPrepared

/-- Whatever other payments were prepared, committed, given up or left to expire and whatever
cycles were cleared in the meantime, a payment whose locks are all live commits, and moves
every balance by its own flows. -/
theorem reserved_payment_commits {start finish : Ledger env} {ops : List LedgerOp}
    (hBounded : Bounded start.db) (hUnlocked : start.db.prepareLocks.rows = [])
    (hLines : NoSelfLines start.db.trustLines) (hRun : Transition.Run Ledger.step Serves start ops finish)
    (txId : TxId) (hLocked : finish.db.prepareLocks.ofTx txId ≠ [])
    (hLive : ∀ l ∈ finish.db.prepareLocks.ofTx txId, l.live finish.now) :
    (commit finish.now txId finish.db).1 = .ok () ∧
      ((commit finish.now txId finish.db).2.transactions.get? txId).map (·.state) = some .COMMITTED ∧
      ∀ a b e, (commit finish.now txId finish.db).2.debts.balance a b e =
        finish.db.debts.balance a b e +
          localReserved ((finish.db.prepareLocks.ofTx txId).flatMap (·.flows)) a b e -
          localReserved ((finish.db.prepareLocks.ofTx txId).flatMap (·.flows)) b a e := by
  have hStart : Promised start.db start.now := promised_of_unlocked hBounded hUnlocked hLines
  have hFinish : Promised finish.db finish.now :=
    hRun.invariant (P := fun s => Promised s.db s.now) hStart fun _ _ => promised_step
  have hOk := hFinish.commit_ok hLocked hLive
  obtain ⟨tx, hFound, hState⟩ := hFinish.locks.prepared hLocked
  rcases commit_cases finish.now txId finish.db with
    ⟨_, hDone, _⟩ | ⟨_, _, _, _, _, _, _, hError⟩ | ⟨tx', rfl, _, hCommits⟩
  · obtain ⟨other, hOther, hCommitted⟩ := hDone hOk
    rw [hFound, Option.some.injEq] at hOther
    rw [← hOther, hState] at hCommitted
    cases hCommitted
  · rw [hError] at hOk
    cases hOk
  · refine ⟨hOk, ?_, fun a b e => ?_⟩
    · rw [hCommits.transactions, TxTable.get?_update hCommits.found]
      rfl
    · have hPerm := Commits.flows_perm_locks finish.db tx'.txId
      rw [hCommits.balance_eq hFinish.stored, localReserved_perm hPerm, localReserved_perm hPerm]

/-- The column stores whole amounts. -/
theorem natCast_mem_sample (n : Nat) : (n : Amount) ∈ (Env.sample .numeric208 true).column.grid := by
  refine Grid.mem_multiples_iff.mpr ⟨n * 100000000, ?_⟩
  push_cast [AmountColumn.storageQuantum]
  ring

/-- B trusts A for 10, and 6 of it are promised to one payment when another takes 3. -/
def promisedSix : List LedgerOp :=
  [openLine 2 "A" .uah 10,
    .newPayment "p1" 1 "A" "B" 6 "UAH" [⟨["A", "B"], 6⟩] none, .prepareRoutes "p1" [⟨["A", "B"], 6⟩] 1,
    .newPayment "p2" 1 "A" "B" 3 "UAH" [⟨["A", "B"], 3⟩] none, .prepareRoutes "p2" [⟨["A", "B"], 3⟩] 1,
    .commit "p2", .tick 10]

/-- The payment to which 6 are promised commits, although another one took 3 of the same
line in between. -/
theorem reserved_payment_commits_six :
    (commit 10 "p1" ((Ledger.empty : Ledger (Env.sample .numeric208 true)).run promisedSix).db).1 = .ok () := by
  have hRun : Transition.Run Ledger.step Serves (Ledger.empty : Ledger (Env.sample .numeric208 true)) promisedSix
      (Ledger.empty.run promisedSix) := by
    refine ((((((Transition.Run.nil.snoc ?_).snoc ?_).snoc ?_).snoc ?_).snoc ?_).snoc ?_).snoc ?_
    · exact ⟨trivial, trivial⟩
    · exact ⟨trivial, trivial⟩
    · exact ⟨by simpa [StoredAmounts] using natCast_mem_sample 6, trivial⟩
    · exact ⟨trivial, trivial⟩
    · exact ⟨by simpa [StoredAmounts] using natCast_mem_sample 3, trivial⟩
    · exact ⟨trivial, trivial⟩
    · exact ⟨trivial, trivial⟩
  exact (reserved_payment_commits bounded_empty rfl (by simp [NoSelfLines, Ledger.empty, Db.empty, TrustTable.empty])
    hRun "p1" (by decide +kernel) (by decide +kernel)).1

end Commit

end GeoLedger

import Mathlib
import GeoLedger.Debts
import GeoLedger.Simulator.PaymentIds
import GeoLedger.Simulator.Scenario

/-! The audit after a tick: what the committed payments of the tick should have
done to the net positions, against what the debts say. The positions of all
participants are computed, and those of the payments' parties are compared. -/
namespace GeoLedger.PostTickAudit
open PaymentIds (Action simIdempotencyKey)

variable {env : Env}

/-- A debtor, a creditor and an amount; also a payer, a payee and an amount. -/
abbrev Entry := Pid × Pid × Amount

structure AuditDrift where
  participantId : Pid
  expectedDelta : Amount
  actualDelta : Amount
  drift : Amount
deriving DecidableEq, Repr

structure AuditResult where
  ok : Bool
  tickIndex : Nat
  drifts : List AuditDrift
  totalDrift : Amount
  tickVolume : Amount
deriving DecidableEq, Repr

/-- `AuditResult(ok=True, tick_index=…)`. -/
def AuditResult.skipped (tickIndex : Nat) : AuditResult := ⟨true, tickIndex, [], 0, 0⟩

section Source

/-- `incoming`, by creditor. -/
def incoming (entries : List Entry) : Dict Pid Amount :=
  Dict.empty.tally ((entries.filter (·.2.2 ≠ 0)).map fun x => (x.2.1, x.2.2))

/-- `outgoing`, by debtor. -/
def outgoing (entries : List Entry) : Dict Pid Amount :=
  Dict.empty.tally ((entries.filter (·.2.2 ≠ 0)).map fun x => (x.1, x.2.2))

/-- The net positions of `pids` and of everybody in the entries. -/
def netPositions (entries : List Entry) (pids : List Pid) : Dict Pid Amount :=
  Dict.ofList (((incoming entries).keys ++ (outgoing entries).keys ++ pids).dedup.map fun pid =>
    (pid, (incoming entries).getD pid 0 - (outgoing entries).getD pid 0))

def netPositionsFromSnapshot (snapshot : Dict (Pid × Pid × String) Amount) (equivalentCode : String) :
    Dict Pid Amount :=
  if stripUpper equivalentCode = "" then Dict.empty
  else netPositions ((snapshot.items.filter fun x => stripUpper x.1.2.2 = stripUpper equivalentCode).map
    fun x => (x.1.1, x.1.2.1, x.2)) []

/-- The transaction ids of the planned payments in the equivalent. Actions with
a blank field are passed over, as in `_extract_planned_action_fields`. -/
def plannedTxIds (simIdempotencyKey : String → Nat → Action → TxId) (runId : String) (tickIndex : Nat)
    (eqUpper : String) (planned : List Action) : List TxId :=
  planned.filterMap fun action =>
    let fields := [action.payment.equivalent, action.payment.senderPid, action.payment.receiverPid,
      action.payment.amount]
    if fields.any (strip · = "") then none
    else if stripUpper action.payment.equivalent ≠ eqUpper then none
    else some (simIdempotencyKey runId tickIndex
      { action with payment := { action.payment with equivalent := eqUpper } })

/-- `range(0, len(ids), size)`, and the slice from each index. -/
def chunks (size : Nat) (ids : List TxId) : List (List TxId) :=
  (List.range' 0 ((ids.length + size - 1) / size) size).map fun i => (ids.drop i).take size

/-- The committed payments under some ids. -/
def committedPayments (transactions : TxTable) (ids : List TxId) : List Transaction :=
  transactions.rows.filter fun tx => tx.payload.isPayment ∧ tx.state = .COMMITTED ∧ tx.txId ∈ ids

/-- What the loop over the rows takes from one payload. -/
def transferOf (eqUpper : String) (tx : Transaction) : Option Entry :=
  match tx.payload with
  | .payment sender receiver amount equivalent _ _ =>
      if stripUpper equivalent ≠ eqUpper then none
      else if strip sender = "" ∨ strip receiver = "" ∨ amount = 0 then none
      else some (strip sender, strip receiver, amount)
  | .clearing .. => none

def expectedDelta (transfers : List Entry) : Dict Pid Amount :=
  Dict.empty.tally (transfers.flatMap fun x => [(x.1, -x.2.2), (x.2.1, x.2.2)])

/-- The debts of an equivalent, with the PIDs of their parties. A pair has one
row, so the sums of the groups are the rows. -/
def debtEntries (t : DebtTable env) (equivalentId : Uuid) : List Entry :=
  t.rows.filterMap fun d =>
    if d.equivalentId = equivalentId then
      match env.directory.participantById d.debtorId, env.directory.participantById d.creditorId with
      | some debtor, some creditor => some (debtor.pid, creditor.pid, d.amount)
      | _, _ => none
    else none

def tolerance : Amount := 1 / 100000000

/-- The loop over `expected_delta.items()`. -/
def findDrifts (expected netBefore netAfter : Dict Pid Amount) : List AuditDrift :=
  (expected.items.map fun x =>
    let actual := netAfter.getD x.1 0 - netBefore.getD x.1 0
    (⟨x.1, x.2, actual, actual - x.2⟩ : AuditDrift)).filter fun d => tolerance < |d.drift|

def auditTickBalance (simIdempotencyKey : Option (String → Nat → Action → TxId)) (runId : String)
    (db : Db env) (equivalentCode : String) (tickIndex : Nat) (planned : List Action)
    (debtSnapshot : Dict (Pid × Pid × String) Amount) (clearingVolumeByEq : Dict String Amount) :
    AuditResult :=
  let eqUpper := stripUpper equivalentCode
  if eqUpper = "" ∨ runId = "" then .skipped tickIndex
  else match simIdempotencyKey with
  | none => .skipped tickIndex
  | some key =>
      let ids := plannedTxIds key runId tickIndex eqUpper planned
      if ids = [] then .skipped tickIndex
      else
        let rows := ((chunks 200 ids).map (committedPayments db.transactions)).flatten
        let transfers := rows.filterMap (transferOf eqUpper)
        let expected := expectedDelta transfers
        let tickVolume := (transfers.map fun x => |x.2.2|).sum + |clearingVolumeByEq.getD eqUpper 0|
        if expected.keys = [] then .skipped tickIndex
        else
          let netBefore := netPositionsFromSnapshot debtSnapshot eqUpper
          let pids := (netBefore.keys ++ expected.keys).dedup
          match env.directory.equivalentByCode eqUpper with
          | none => .skipped tickIndex
          | some equivalent =>
              let debtRows := (debtEntries db.debts equivalent.id).filter fun x => x.1 ∈ pids ∨ x.2.1 ∈ pids
              let netAfter := netPositions debtRows pids
              let drifts := findDrifts expected netBefore netAfter
              ⟨drifts.isEmpty, tickIndex, drifts, (drifts.map fun d => |d.drift|).sum / 2, tickVolume⟩

end Source

section Positions

/-- What the entries add up to for a participant: received minus given. -/
def position (entries : List Entry) (pid : Pid) : Amount :=
  ((entries.filter (·.2.1 = pid)).map (·.2.2)).sum - ((entries.filter (·.1 = pid)).map (·.2.2)).sum

/-- Leaving out the zero amounts does not change a sum. -/
theorem sum_nonzero (entries : List Entry) (side : Entry → Pid) (pid : Pid) :
    ((((entries.filter (·.2.2 ≠ 0)).map fun x => (side x, x.2.2)).filter (·.1 = pid)).map (·.2)).sum =
      ((entries.filter (side · = pid)).map (·.2.2)).sum := by
  induction entries with
  | nil => rfl
  | cons entry rest ih =>
      by_cases hZero : entry.2.2 = 0 <;> by_cases hSide : side entry = pid <;>
        simp_all

theorem getD_incoming (entries : List Entry) (pid : Pid) :
    (incoming entries).getD pid 0 = ((entries.filter (·.2.1 = pid)).map (·.2.2)).sum := by
  rw [incoming, Dict.getD_tally, sum_nonzero entries (·.2.1)]
  exact zero_add _

theorem getD_outgoing (entries : List Entry) (pid : Pid) :
    (outgoing entries).getD pid 0 = ((entries.filter (·.1 = pid)).map (·.2.2)).sum := by
  rw [outgoing, Dict.getD_tally, sum_nonzero entries (·.1)]
  exact zero_add _

/-- The map of net positions holds the position of everybody. -/
theorem getD_netPositions (entries : List Entry) (pids : List Pid) (pid : Pid) :
    (netPositions entries pids).getD pid 0 = position entries pid := by
  have hPosition : (incoming entries).getD pid 0 - (outgoing entries).getD pid 0 = position entries pid := by
    rw [getD_incoming, getD_outgoing, position]
  set all := ((incoming entries).keys ++ (outgoing entries).keys ++ pids).dedup with hAll
  have hUnique : ((all.map fun pid => (pid, (incoming entries).getD pid 0 - (outgoing entries).getD pid 0)).map
      Prod.fst).Nodup := by
    rw [List.map_map, show (Prod.fst ∘ fun pid => (pid, _)) = (id : Pid → Pid) from rfl, List.map_id]
    exact List.nodup_dedup _
  rw [netPositions, Dict.getD, ← hAll]
  by_cases hMem : pid ∈ all
  · rw [(Dict.get?_ofList_eq_some_iff hUnique).mpr (List.mem_map_of_mem hMem), Option.getD_some, hPosition]
  · have hOut : pid ∉ (incoming entries).keys ∧ pid ∉ (outgoing entries).keys := by
      rw [hAll, List.mem_dedup, List.mem_append, List.mem_append] at hMem
      tauto
    have hZero : (incoming entries).getD pid 0 - (outgoing entries).getD pid 0 = 0 := by
      rw [Dict.getD, Dict.getD, Dict.get?_eq_none_iff.mpr hOut.1, Dict.get?_eq_none_iff.mpr hOut.2]
      exact sub_self _
    rw [Dict.get?_ofList hUnique, Dict.lookup_eq_none_iff.mpr (by simpa using hMem), Option.getD_none,
      ← hPosition, hZero]

/-- A participant's position depends on the entries it is part of. -/
theorem position_filter {entries : List Entry} {keep : Entry → Bool} {pid : Pid}
    (hKeep : ∀ x ∈ entries, x.1 = pid ∨ x.2.1 = pid → keep x = true) :
    position (entries.filter keep) pid = position entries pid := by
  have hSide {side : Entry → Pid} (hSide : ∀ x, side x = pid → x.1 = pid ∨ x.2.1 = pid) :
      (entries.filter keep).filter (side · = pid) = entries.filter (side · = pid) := by
    rw [List.filter_filter]
    refine List.filter_congr fun x hx => ?_
    by_cases hIs : side x = pid
    · simp [hIs, hKeep x hx (hSide x hIs)]
    · simp [hIs]
  rw [position, position, @hSide (·.1) fun x h => Or.inl h, @hSide (·.2.1) fun x h => Or.inr h]

theorem position_perm {entries other : List Entry} (h : entries.Perm other) (pid : Pid) :
    position entries pid = position other pid := by
  rw [position, position, ((h.filter _).map _).sum_eq, ((h.filter _).map _).sum_eq]

/-- The participants of some entries. -/
def parties (entries : List Entry) : List Pid := entries.flatMap fun x => [x.1, x.2.1]

/-- A participant in no entry has position zero. -/
theorem position_of_not_party {entries : List Entry} {pid : Pid}
    (h : pid ∉ parties entries) : position entries pid = 0 := by
  have hNone : ∀ x ∈ entries, x.1 ≠ pid ∧ x.2.1 ≠ pid := by
    intro x hx
    rw [parties, List.mem_flatMap, not_exists] at h
    have hOut := h x
    simp only [not_and, List.mem_cons, List.not_mem_nil, or_false, not_or] at hOut
    exact ⟨Ne.symm (hOut hx).1, Ne.symm (hOut hx).2⟩
  rw [position, List.filter_eq_nil_iff.mpr fun x hx => by simpa using (hNone x hx).2,
    List.filter_eq_nil_iff.mpr fun x hx => by simpa using (hNone x hx).1]
  simp

theorem keys_expectedDelta {transfers : List Entry} {pid : Pid} :
    pid ∈ (expectedDelta transfers).keys ↔ pid ∈ parties transfers := by
  rw [parties, expectedDelta, Dict.mem_keys_tally, List.map_flatMap]
  simp [Dict.empty, Dict.keys]

/-- The expected change is the position that the payments add up to. -/
theorem getD_expectedDelta (transfers : List Entry) (pid : Pid) :
    (expectedDelta transfers).getD pid 0 = position transfers pid := by
  rw [expectedDelta, Dict.getD_tally, position]
  simp only [Dict.getD, Dict.get?_empty, Option.getD_none, zero_add]
  induction transfers with
  | nil => simp
  | cons x rest ih =>
      rw [List.flatMap_cons, List.filter_append, List.map_append, List.sum_append, ih]
      by_cases hFrom : x.1 = pid <;> by_cases hTo : x.2.1 = pid <;> simp [hFrom, hTo] <;> ring

end Positions

section Ledger

/-- The rows of the participants of a debt exist. -/
def PartiesExist (t : DebtTable env) : Prop :=
  ∀ d ∈ t.rows, env.directory.Registered d.debtorId ∧ env.directory.Registered d.creditorId

/-- The net position of the participant with a PID. -/
def netPositionOf (t : DebtTable env) (equivalentId : Uuid) (pid : Pid) : Amount :=
  ((env.directory.participantByPid pid).map fun p => t.netPosition p.id equivalentId).getD 0

/-- The row that the audit's query makes of a debt. -/
def entryOf (directory : Directory) (d : Debt) : Entry :=
  (directory.pidText d.debtorId, directory.pidText d.creditorId, d.amount)

theorem debtEntries_eq {t : DebtTable env} (h : PartiesExist t) (equivalentId : Uuid) :
    debtEntries t equivalentId =
      (t.rows.filter (·.equivalentId = equivalentId)).map (entryOf env.directory) := by
  have hFound {id : Uuid} (hId : env.directory.Registered id) :
      ∃ p, env.directory.participantById id = some p ∧ p.pid = env.directory.pidText id := by
    obtain ⟨p, hp, rfl⟩ := hId
    have hGet : env.directory.participantById p.id = some p :=
      (Rows.find?_eq_some_iff env.directory.participant_id_unique).mpr ⟨hp, rfl⟩
    exact ⟨p, hGet, by rw [Directory.pidText, hGet]; rfl⟩
  rw [debtEntries, ← List.filterMap_eq_filter, List.map_filterMap]
  refine List.filterMap_congr fun d hd => ?_
  obtain ⟨debtor, hDebtor, hDebtorPid⟩ := hFound (h d hd).1
  obtain ⟨creditor, hCreditor, hCreditorPid⟩ := hFound (h d hd).2
  by_cases hEq : d.equivalentId = equivalentId
  · simp [hEq, Option.guard, hDebtor, hCreditor, entryOf, hDebtorPid, hCreditorPid]
  · simp [hEq, Option.guard]

/-- The position in the query's rows is the net position. -/
theorem position_debtEntries {t : DebtTable env} (h : PartiesExist t) (equivalentId : Uuid) (pid : Pid) :
    position (debtEntries t equivalentId) pid = netPositionOf t equivalentId pid := by
  rw [debtEntries_eq h, netPositionOf]
  cases hFind : env.directory.participantByPid pid with
  | none =>
      have hNobody : ∀ p ∈ env.directory.participants, p.pid ≠ pid := by
        simpa [Directory.participantByPid, List.find?_eq_none] using hFind
      rw [Option.map_none, Option.getD_none]
      refine position_of_not_party fun hParty => ?_
      obtain ⟨x, hx, hIs⟩ := List.mem_flatMap.mp hParty
      obtain ⟨d, hd, rfl⟩ := List.mem_map.mp hx
      have hRefs := h d (List.mem_of_mem_filter hd)
      rw [List.mem_cons, List.mem_singleton] at hIs
      rcases hIs with rfl | rfl
      · obtain ⟨q, hq, hPid⟩ := Directory.pidText_mem hRefs.1
        exact hNobody q hq hPid
      · obtain ⟨q, hq, hPid⟩ := Directory.pidText_mem hRefs.2
        exact hNobody q hq hPid
  | some p =>
      obtain ⟨hp, rfl⟩ := (Rows.find?_eq_some_iff env.directory.pid_unique).mp hFind
      have hSide {side : Debt → Uuid} (hSide : ∀ d ∈ t.rows, env.directory.Registered (side d)) :
          ((t.rows.filter (·.equivalentId = equivalentId)).filter
            fun d => env.directory.pidText (side d) = p.pid).map (·.amount) =
            (t.rows.filter fun d => side d = p.id ∧ d.equivalentId = equivalentId).map (·.amount) := by
        rw [List.filter_filter]
        congr 1
        refine List.filter_congr fun d hd => ?_
        rw [Bool.decide_and, decide_eq_decide.mpr (Directory.pidText_eq_iff hp (hSide d hd))]
      rw [Option.map_some, Option.getD_some, DebtTable.netPosition, DebtTable.credits, DebtTable.debits,
        ← hSide fun d hd => (h d hd).2, ← hSide fun d hd => (h d hd).1, position, List.filter_map,
        List.filter_map, List.map_map, List.map_map]
      rfl

/-- The snapshot's entries of an equivalent are the debts of the table. -/
def SnapshotOf (snapshot : Dict (Pid × Pid × String) Amount) (t : DebtTable env) (e : Equivalent) : Prop :=
  ∀ debtor creditor code amount, stripUpper code = e.code →
    (snapshot.get? (debtor, creditor, code) = some amount ↔
      code = e.code ∧ ∃ d ∈ t.rows, d.equivalentId = e.id ∧ entryOf env.directory d = (debtor, creditor, amount))

/-- The positions of a snapshot are the net positions of the table it was taken of. -/
theorem getD_netPositionsFromSnapshot {snapshot : Dict (Pid × Pid × String) Amount} {t : DebtTable env}
    {e : Equivalent} (hParties : PartiesExist t) (hSnapshot : SnapshotOf snapshot t e)
    (hCode : stripUpper e.code = e.code) (hNonempty : e.code ≠ "") (pid : Pid) :
    (netPositionsFromSnapshot snapshot e.code).getD pid 0 = netPositionOf t e.id pid := by
  rw [netPositionsFromSnapshot, if_neg (by rwa [hCode]), getD_netPositions, ← position_debtEntries hParties,
    debtEntries_eq hParties]
  refine position_perm ?_ pid
  refine (List.perm_ext_iff_of_nodup ?_ ?_).mpr ?_
  · -- two items with one pair have one code, and so one key
    refine (snapshot.nodup.of_map.filter _).map_on ?_
    rintro ⟨⟨a, b, code⟩, x⟩ hItem ⟨⟨a', b', code'⟩, x'⟩ hItem' hSame
    obtain ⟨hMem, hIs⟩ := List.mem_filter.mp hItem
    obtain ⟨hMem', hIs'⟩ := List.mem_filter.mp hItem'
    have hC := ((hSnapshot a b code x ((of_decide_eq_true hIs).trans hCode)).mp
      (Dict.get?_eq_some_iff.mpr hMem)).1
    have hC' := ((hSnapshot a' b' code' x' ((of_decide_eq_true hIs').trans hCode)).mp
      (Dict.get?_eq_some_iff.mpr hMem')).1
    simp only [Prod.mk.injEq] at hSame
    obtain ⟨rfl, rfl, rfl⟩ := hSame
    rw [hC, hC']
  · refine (t.key_unique.of_map.filter _).map_on fun d hd d' hd' hSame => ?_
    obtain ⟨hMem, hIs⟩ := List.mem_filter.mp hd
    obtain ⟨hMem', hIs'⟩ := List.mem_filter.mp hd'
    simp only [entryOf, Prod.mk.injEq] at hSame
    refine Rows.eq_of_column t.key_unique hMem hMem' ?_
    rw [Debt.key, Debt.key, Directory.pidText_inj (hParties d hMem).1 (hParties d' hMem').1 hSame.1,
      Directory.pidText_inj (hParties d hMem).2 (hParties d' hMem').2 hSame.2.1,
      (of_decide_eq_true hIs).trans (of_decide_eq_true hIs').symm]
  · rintro ⟨a, b, x⟩
    simp only [List.mem_map, List.mem_filter, decide_eq_true_eq, hCode, Prod.mk.injEq]
    constructor
    · rintro ⟨⟨⟨a', b', code⟩, x'⟩, ⟨hMem, hIs⟩, rfl, rfl, rfl⟩
      obtain ⟨_, d, hd, hEq, hEntry⟩ := (hSnapshot a' b' code x' hIs).mp (Dict.get?_eq_some_iff.mpr hMem)
      exact ⟨d, ⟨hd, hEq⟩, hEntry⟩
    · rintro ⟨d, ⟨hd, hEq⟩, hEntry⟩
      have hGet := (hSnapshot a b e.code x hCode).mpr ⟨rfl, d, hd, hEq, hEntry⟩
      exact ⟨((a, b, e.code), x), ⟨Dict.get?_eq_some_iff.mp hGet, hCode⟩, rfl, rfl, rfl⟩

end Ledger

section Payments

variable {size : Nat}

theorem flatten_slices (ids : List TxId) (count start : Nat) :
    ((List.range' start count size).map fun i => (ids.drop i).take size).flatten =
      (ids.drop start).take (count * size) := by
  induction count generalizing start with
  | zero => simp
  | succ count ih =>
      rw [List.range'_succ, List.map_cons, List.flatten_cons, ih, Nat.succ_mul, Nat.add_comm (count * size),
        List.take_add, List.drop_drop]

/-- The slices are the whole list. -/
theorem flatten_chunks (hSize : 0 < size) (ids : List TxId) : (chunks size ids).flatten = ids := by
  have hCovers : ids.length ≤ (ids.length + size - 1) / size * size := by
    have hMod := Nat.div_add_mod (ids.length + size - 1) size
    have hLt := Nat.mod_lt (ids.length + size - 1) hSize
    rw [Nat.mul_comm] at hMod
    omega
  rw [chunks, flatten_slices, List.drop_zero, List.take_of_length_le hCovers]

/-- Reading the committed payments in slices reads each of them once, when no id
is in two slices. -/
theorem committedPayments_flatten (transactions : TxTable) (slices : List (List TxId))
    (hDistinct : slices.flatten.Nodup) :
    ((slices.map (committedPayments transactions)).flatten).Perm
      (committedPayments transactions slices.flatten) := by
  induction slices with
  | nil => simp [committedPayments]
  | cons first rest ih =>
      rw [List.flatten_cons, List.nodup_append] at hDistinct
      obtain ⟨_, hRest, hApart⟩ := hDistinct
      rw [List.map_cons, List.flatten_cons, List.flatten_cons]
      have hFirst : (committedPayments transactions (first ++ rest.flatten)).filter (·.txId ∈ first) =
          committedPayments transactions first := by
        rw [committedPayments, List.filter_filter, committedPayments]
        refine List.filter_congr fun tx _ => ?_
        rw [← Bool.decide_and, decide_eq_decide, List.mem_append]
        tauto
      have hOther : (committedPayments transactions (first ++ rest.flatten)).filter (fun tx => !decide (tx.txId ∈ first)) =
          committedPayments transactions rest.flatten := by
        rw [committedPayments, List.filter_filter, committedPayments]
        refine List.filter_congr fun tx _ => ?_
        have hOut : tx.txId ∈ rest.flatten → tx.txId ∉ first := fun hIn hAlso => hApart _ hAlso _ hIn rfl
        rw [← decide_not, ← Bool.decide_and, decide_eq_decide, List.mem_append]
        tauto
      refine ((List.Perm.refl _).append (ih hRest)).trans ?_
      have hSplit := List.filter_append_perm (·.txId ∈ first)
        (committedPayments transactions (first ++ rest.flatten))
      rwa [hFirst, hOther] at hSplit

/-- What the committed payments under some ids move in an equivalent. -/
def recordedTransfers (transactions : TxTable) (ids : List TxId) (eqUpper : String) : List Entry :=
  (committedPayments transactions ids).filterMap (transferOf eqUpper)

end Payments

section Audit

variable {db : Db env} {before : DebtTable env} {e : Equivalent} {equivalentCode runId : String}
  {key : String → Nat → Action → TxId} {tickIndex : Nat} {planned : List Action}
  {debtSnapshot : Dict (Pid × Pid × String) Amount}

/-- How far the change of a participant's net position is from what the recorded
payments explain. -/
def driftOf (before after : DebtTable env) (equivalentId : Uuid) (transfers : List Entry) (pid : Pid) : Amount :=
  netPositionOf after equivalentId pid - netPositionOf before equivalentId pid - position transfers pid

theorem findDrifts_isEmpty_iff (expected netBefore netAfter : Dict Pid Amount) :
    (findDrifts expected netBefore netAfter).isEmpty = true ↔ ∀ pid ∈ expected.keys,
      |netAfter.getD pid 0 - netBefore.getD pid 0 - expected.getD pid 0| ≤ tolerance := by
  rw [List.isEmpty_iff, findDrifts, List.filter_eq_nil_iff]
  simp only [List.mem_map, forall_exists_index, and_imp, forall_apply_eq_imp_iff₂, decide_eq_true_eq, not_lt]
  constructor
  · intro h pid hPid
    obtain ⟨v, hGet⟩ := Dict.mem_keys_iff.mp hPid
    have hValue : expected.getD pid 0 = v := by rw [Dict.getD, hGet, Option.getD_some]
    rw [hValue]
    exact h (pid, v) (Dict.get?_eq_some_iff.mp hGet)
  · rintro h ⟨pid, v⟩ hItem
    have hGet := Dict.get?_eq_some_iff.mpr hItem
    have hValue : expected.getD pid 0 = v := by rw [Dict.getD, hGet, Option.getD_some]
    have hDrift := h pid (Dict.mem_keys_iff.mpr ⟨v, hGet⟩)
    rwa [hValue] at hDrift

/-- The audit compares the parties of the recorded payments, and nobody else. -/
theorem auditTickBalance_ok_iff (hRun : runId ≠ "")
    (hEquivalent : env.directory.equivalentByCode (stripUpper equivalentCode) = some e) (hNonempty : e.code ≠ "")
    (hBefore : PartiesExist before) (hAfter : PartiesExist db.debts)
    (hSnapshot : SnapshotOf debtSnapshot before e)
    (hDistinct : (plannedTxIds key runId tickIndex e.code planned).Nodup) (volumes : Dict String Amount) :
    (auditTickBalance (some key) runId db equivalentCode tickIndex planned debtSnapshot volumes).ok = true ↔
      ∀ pid ∈ parties (recordedTransfers db.transactions (plannedTxIds key runId tickIndex e.code planned) e.code),
        |driftOf before db.debts e.id (recordedTransfers db.transactions
          (plannedTxIds key runId tickIndex e.code planned) e.code) pid| ≤ tolerance := by
  have hUpper : stripUpper equivalentCode = e.code :=
    ((Rows.find?_eq_some_iff env.directory.code_unique).mp hEquivalent).2.symm
  have hCode : stripUpper e.code = e.code := by rw [← hUpper, stripUpper_stripUpper]
  rw [hUpper] at hEquivalent
  simp only [auditTickBalance, hUpper, hNonempty, hRun, or_self, if_false, hEquivalent]
  set ids := plannedTxIds key runId tickIndex e.code planned with hIds
  set transfers := ((chunks 200 ids).map (committedPayments db.transactions)).flatten.filterMap
    (transferOf e.code) with hTransfers
  have hPerm : transfers.Perm (recordedTransfers db.transactions ids e.code) := by
    have hRows := committedPayments_flatten db.transactions (chunks 200 ids)
      (by rwa [flatten_chunks (by decide)])
    rw [flatten_chunks (by decide)] at hRows
    exact hRows.filterMap _
  have hParty {pid : Pid} : pid ∈ (expectedDelta transfers).keys ↔
      pid ∈ parties (recordedTransfers db.transactions ids e.code) := by
    rw [keys_expectedDelta, parties, parties, (hPerm.flatMap_right _).mem_iff]
  split
  · next hNone =>
    have hNobody : recordedTransfers db.transactions ids e.code = [] := by
      rw [hNone, recordedTransfers, committedPayments]
      simp
    rw [hNobody]
    simp [AuditResult.skipped, parties]
  · split
    · next hKeys =>
      refine iff_of_true rfl fun pid hPid => ?_
      rw [← hParty, hKeys] at hPid
      exact absurd hPid List.not_mem_nil
    · rw [findDrifts_isEmpty_iff]
      refine forall_congr' fun pid => ?_
      rw [hParty]
      refine forall_congr' fun hPid => ?_
      rw [getD_netPositionsFromSnapshot hBefore hSnapshot hCode hNonempty, getD_netPositions,
        getD_expectedDelta, position_perm hPerm, driftOf, ← position_debtEntries hAfter]
      rw [position_filter fun x _ hSide => ?_]
      have hKnown := List.mem_dedup.mpr (List.mem_append_right
        (netPositionsFromSnapshot debtSnapshot e.code).keys (hParty.mpr hPid))
      rcases hSide with rfl | rfl
      · exact decide_eq_true (Or.inl hKnown)
      · exact decide_eq_true (Or.inr hKnown)

/-- The audit is right about all participants exactly when a party of a recorded
payment has drifted, or the positions of all other participants have not moved. -/
theorem auditTickBalance_exact_iff (hRun : runId ≠ "")
    (hEquivalent : env.directory.equivalentByCode (stripUpper equivalentCode) = some e) (hNonempty : e.code ≠ "")
    (hBefore : PartiesExist before) (hAfter : PartiesExist db.debts)
    (hSnapshot : SnapshotOf debtSnapshot before e)
    (hDistinct : (plannedTxIds key runId tickIndex e.code planned).Nodup) (volumes : Dict String Amount) :
    ((auditTickBalance (some key) runId db equivalentCode tickIndex planned debtSnapshot volumes).ok = true ↔
      ∀ pid, |driftOf before db.debts e.id (recordedTransfers db.transactions
        (plannedTxIds key runId tickIndex e.code planned) e.code) pid| ≤ tolerance) ↔
    (∃ pid ∈ parties (recordedTransfers db.transactions (plannedTxIds key runId tickIndex e.code planned) e.code),
      tolerance < |driftOf before db.debts e.id (recordedTransfers db.transactions
        (plannedTxIds key runId tickIndex e.code planned) e.code) pid|) ∨
    ∀ pid ∉ parties (recordedTransfers db.transactions (plannedTxIds key runId tickIndex e.code planned) e.code),
      |netPositionOf db.debts e.id pid - netPositionOf before e.id pid| ≤ tolerance := by
  rw [auditTickBalance_ok_iff hRun hEquivalent hNonempty hBefore hAfter hSnapshot hDistinct]
  set transfers := recordedTransfers db.transactions (plannedTxIds key runId tickIndex e.code planned) e.code
  have hOther {pid : Pid} (hPid : pid ∉ parties transfers) : driftOf before db.debts e.id transfers pid =
      netPositionOf db.debts e.id pid - netPositionOf before e.id pid := by
    rw [driftOf, position_of_not_party hPid, sub_zero]
  constructor
  · intro hExact
    by_cases hParties : ∀ pid ∈ parties transfers, |driftOf before db.debts e.id transfers pid| ≤ tolerance
    · exact Or.inr fun pid hPid => hOther hPid ▸ hExact.mp hParties pid
    · simp only [not_forall, not_le] at hParties
      obtain ⟨pid, hPid, hDrift⟩ := hParties
      exact Or.inl ⟨pid, hPid, hDrift⟩
  · rintro (⟨pid, hPid, hDrift⟩ | hStill)
    · exact iff_of_false (fun h => not_lt.mpr (h pid hPid) hDrift) fun h => not_lt.mpr (h pid) hDrift
    · refine ⟨fun h pid => ?_, fun h pid _ => h pid⟩
      by_cases hPid : pid ∈ parties transfers
      · exact h pid hPid
      · exact (hOther hPid).symm ▸ hStill pid hPid

end Audit

section StrayDebt

/-- A ledger with two debts: what a payment of the tick made `A` owe `B`, and a
debt of `C` to `D` that no payment made. -/
def strayDebts (paid : Amount) (hPaid : 0 < paid) : DebtTable (Env.sample .exact false) where
  rows := [⟨0, 1, 2, 1, paid⟩, ⟨1, 3, 4, 1, 7⟩]
  generated := 2
  id_unique := by simp
  key_unique := by simp [Debt.key]
  issued := by
    intro d hd
    simp only [List.mem_cons, List.not_mem_nil, or_false] at hd
    rcases hd with rfl | rfl
    · exact ⟨0, by decide, rfl⟩
    · exact ⟨1, by decide, rfl⟩
  stored _ _ := AddSubgroup.mem_top _
  amount_fits _ _ := rfl
  amount_positive := by simp [hPaid]
  no_self_loop := by simp

def strayPlan : List Action := [⟨0, ⟨"A", "B", "UAH", "50"⟩⟩]

/-- The ledger after the tick, in which a payment of fifty is committed. -/
def strayDb (paid : Amount) (hPaid : 0 < paid) : Db (Env.sample .exact false) where
  trustLines := .empty
  debts := strayDebts paid hPaid
  prepareLocks := .empty
  transactions := ⟨[⟨simIdempotencyKey id "run" 7 ⟨0, ⟨"A", "B", "UAH", "50"⟩⟩, 1,
    .payment "A" "B" 50 "UAH" [] none, .COMMITTED, none, 0⟩], List.nodup_singleton _⟩
  auditLog := []

theorem strayDebts_partiesExist (paid : Amount) (hPaid : 0 < paid) : PartiesExist (strayDebts paid hPaid) := by
  intro d hd
  simp only [strayDebts, List.mem_cons, List.not_mem_nil, or_false] at hd
  rcases hd with rfl | rfl
  · exact ⟨⟨⟨1, "A"⟩, by decide, rfl⟩, ⟨⟨2, "B"⟩, by decide, rfl⟩⟩
  · exact ⟨⟨⟨3, "C"⟩, by decide, rfl⟩, ⟨⟨4, "D"⟩, by decide, rfl⟩⟩

/-- The payment did what it should, the positions of `C` and `D` moved, and the
audit finds nothing. -/
theorem stray_debt_passes :
    (auditTickBalance (some (simIdempotencyKey id)) "run" (strayDb 50 (by norm_num)) "UAH" 7 strayPlan
      Dict.empty Dict.empty).ok = true ∧
    tolerance < |driftOf DebtTable.empty (strayDebts 50 (by norm_num)) 1
      (recordedTransfers (strayDb 50 (by norm_num)).transactions
        (plannedTxIds (simIdempotencyKey id) "run" 7 "UAH" strayPlan) "UAH") "C"| := by
  decide +kernel

/-- Where the payment itself is short, its parties drift and the audit says so. -/
theorem auditTickBalance_exact_short :
    (auditTickBalance (some (simIdempotencyKey id)) "run" (strayDb 20 (by norm_num)) "UAH" 7 strayPlan
      Dict.empty Dict.empty).ok = true ↔
    ∀ pid, |driftOf DebtTable.empty (strayDebts 20 (by norm_num)) 1
      (recordedTransfers (strayDb 20 (by norm_num)).transactions
        (plannedTxIds (simIdempotencyKey id) "run" 7 "UAH" strayPlan) "UAH") pid| ≤ tolerance := by
  refine (@auditTickBalance_exact_iff (Env.sample .exact false) (strayDb 20 (by norm_num)) DebtTable.empty
    Equivalent.uah "UAH" "run" (simIdempotencyKey id) 7 strayPlan Dict.empty (by decide) (by decide +kernel)
    (by decide) (fun d hd => absurd hd List.not_mem_nil) (strayDebts_partiesExist 20 (by norm_num)) ?_
    (by decide +kernel) Dict.empty).mpr (Or.inl ⟨"A", by decide +kernel, by decide +kernel⟩)
  intro debtor creditor code amount _
  simp [DebtTable.empty]

end StrayDebt

end GeoLedger.PostTickAudit

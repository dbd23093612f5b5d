import Mathlib
import GeoLedger.Transactions

/-! The reservations of prepared payments over whole runs. A lock holds flows of
the participant that owns it and lives as long as its payment is prepared; the
ends of locks, lines and debts are registered participants. -/
namespace GeoLedger

variable {env : Env} {db db' : Db env} {now : Time} {txId : TxId} {op : LedgerOp}

/-- The lock table as preparations leave it. -/
structure LocksSound (db : Db env) : Prop where
  nonempty : ∀ l ∈ db.prepareLocks.rows, l.flows ≠ []
  owned : ∀ l ∈ db.prepareLocks.rows, ∀ f ∈ l.flows, f.fromId = l.participantId
  registered : ∀ l ∈ db.prepareLocks.rows, ∀ f ∈ l.flows,
    env.directory.Registered f.fromId ∧ env.directory.Registered f.toId
  held : ∀ l ∈ db.prepareLocks.rows,
    ∃ tx ∈ db.transactions.rows, tx.txId = l.txId ∧ tx.state = .PREPARED

theorem locksSound_empty : LocksSound (Db.empty : Db env) :=
  ⟨by simp [Db.empty, LockTable.empty], by simp [Db.empty, LockTable.empty],
    by simp [Db.empty, LockTable.empty], by simp [Db.empty, LockTable.empty]⟩

/-- A transaction without a prepared row has no locks. -/
theorem LocksSound.ofTx_eq_nil (h : LocksSound db) {tx : Transaction}
    (hTx : db.transactions.get? txId = some tx) (hState : tx.state ≠ .PREPARED) :
    db.prepareLocks.ofTx txId = [] := by
  refine List.filter_eq_nil_iff.mpr fun l hl => ?_
  simp only [decide_eq_true_eq]
  intro hId
  obtain ⟨held, hHeld, hHeldId, hPrepared⟩ := h.held l hl
  obtain ⟨hMem, hTxId⟩ := TxTable.get?_eq_some_iff.mp hTx
  have hSame := Rows.eq_of_column db.transactions.tx_id_unique hHeld hMem
    (hHeldId.trans (hId.trans hTxId.symm))
  exact hState (hSame ▸ hPrepared)

section Steps

/-- Locks that stay, with their transactions, stay sound. -/
theorem LocksSound.shrink (h : LocksSound db)
    (hRows : ∀ l ∈ db'.prepareLocks.rows, l ∈ db.prepareLocks.rows ∧
      ∀ tx ∈ db.transactions.rows, tx.txId = l.txId → tx ∈ db'.transactions.rows) : LocksSound db' where
  nonempty l hl := h.nonempty l (hRows l hl).1
  owned l hl := h.owned l (hRows l hl).1
  registered l hl := h.registered l (hRows l hl).1
  held l hl := by
    obtain ⟨hOld, hKept⟩ := hRows l hl
    obtain ⟨tx, hTx, hId, hState⟩ := h.held l hOld
    exact ⟨tx, hKept tx hTx hId, hId, hState⟩

/-- An abort leaves the rows of other transactions. -/
theorem mem_abort_of_ne {reason : String} {code : Option ErrorCode}
    {details : Option (List (String × String))} {tx : Transaction} (hTx : tx ∈ db.transactions.rows)
    (hNe : tx.txId ≠ txId) : tx ∈ (abort now txId reason code details db).2.transactions.rows := by
  rw [abort_eq]
  cases db.transactions.get? txId with
  | none => exact hTx
  | some other =>
      simp only
      split
      · exact hTx
      · exact TxTable.mem_update_iff.mpr (Or.inr ⟨hTx, hNe⟩)

theorem Prepares.locksSound {e : Uuid} {tx : Transaction} {flows : List Flow} (hDb : LocksSound db)
    (h : Prepares now e tx flows db db') : LocksSound db' := by
  obtain ⟨new, hRows, hPerm, hNew⟩ := h.locks
  have hFlows : ∀ l ∈ new, ∀ f ∈ l.flows, f ∈ flows := fun l hl f hf =>
    hPerm.mem_iff.mp (List.mem_flatMap.mpr ⟨l, hl, hf⟩)
  have hSplit : ∀ l ∈ db'.prepareLocks.rows, l ∈ db.prepareLocks.rows ∨ l ∈ new := fun l hl => by
    rwa [hRows, List.mem_append] at hl
  refine ⟨fun l hl => ?_, fun l hl => ?_, fun l hl => ?_, fun l hl => ?_⟩
  · exact (hSplit l hl).elim (hDb.nonempty l) fun h' => (hNew l h').2.2.1
  · exact (hSplit l hl).elim (hDb.owned l) fun h' => (hNew l h').2.2.2
  · exact (hSplit l hl).elim (hDb.registered l) fun h' f hf => h.registered f (hFlows l h' f hf)
  · rw [h.transactions]
    rcases hSplit l hl with hOld | hNewLock
    · obtain ⟨held, hHeld, hId, hState⟩ := hDb.held l hOld
      refine ⟨held, TxTable.mem_update_iff.mpr (Or.inr ⟨hHeld, fun hSame => ?_⟩), hId, hState⟩
      have hIn : l ∈ db.prepareLocks.ofTx tx.txId :=
        List.mem_filter.mpr ⟨hOld, by simpa using hId.symm.trans hSame⟩
      rw [h.unlocked] at hIn
      cases hIn
    · exact ⟨_, TxTable.mem_update_iff.mpr
        (Or.inl ⟨tx, (TxTable.get?_eq_some_iff.mp h.found).1, rfl, rfl⟩), (hNew l hNewLock).1.symm, rfl⟩

/-- Every committed transaction keeps the locks sound. -/
theorem locksSound_change (h : LocksSound db) (hChange : Change now db op db') : LocksSound db' := by
  cases hChange with
  | inserted hInsert =>
      refine h.shrink fun l hl => ⟨hl, fun tx hTx _ => ?_⟩
      rw [(TxTable.insert_eq_ok_iff.mp hInsert).2]
      exact List.mem_append_left _ hTx
  | prepared _ hPrepares => exact hPrepares.locksSound h
  | preparedRoutes _ _ hPrepares => exact hPrepares.locksSound h
  | committed _ hCommit =>
      refine h.shrink fun l hl => ?_
      rw [hCommit.prepareLocks] at hl
      obtain ⟨hOld, hNe⟩ := Rows.mem_delete_iff.mp hl
      refine ⟨hOld, fun tx hTx hId => ?_⟩
      rw [hCommit.transactions]
      exact TxTable.mem_update_iff.mpr (Or.inr ⟨hTx, hId ▸ hNe⟩)
  | aborted txId reason code details =>
      refine h.shrink fun l hl => ?_
      rw [abort_eq] at hl
      obtain ⟨hOld, hNe⟩ := Rows.mem_delete_iff.mp hl
      exact ⟨hOld, fun tx hTx hId => mem_abort_of_ne hTx (hId ▸ hNe)⟩
  | cleared hClears =>
      obtain ⟨hInsert, _, _, _, hLocks⟩ := stageClearing_eq_ok hClears.staged
      refine h.shrink fun l hl => ⟨hLocks ▸ hl, fun tx hTx _ => ?_⟩
      rw [(TxTable.insert_eq_ok_iff.mp hInsert).2]
      exact List.mem_append_left _ hTx
  | opened hOk =>
      obtain ⟨_, _, _, _, _, _, _, _, _, rfl⟩ := createTrustLine_effect hOk
      exact h.shrink fun l hl => ⟨hl, fun tx hTx _ => hTx⟩
  | updated hOk =>
      obtain ⟨_, _, _, _, _, _, _, _, _, rfl⟩ := updateTrustLine_effect hOk
      exact h.shrink fun l hl => ⟨hl, fun tx hTx _ => hTx⟩
  | closed hOk =>
      obtain ⟨_, _, _, _, _, _, _, rfl⟩ := closeTrustLine_effect hOk
      exact h.shrink fun l hl => ⟨hl, fun tx hTx _ => hTx⟩

theorem locksSound_run (ops : List LedgerOp) : LocksSound ((Ledger.empty : Ledger env).run ops).db :=
  run_invariant _ locksSound_empty (fun _ _ _ _ h hChange => locksSound_change h hChange) ops

end Steps

section Usage

/-- What live locks reserve along an ordered pair. -/
def reservation (db : Db env) (now : Time) (a b e : Uuid) : Amount :=
  ((((db.prepareLocks.live now).flatMap (·.flows)).filter fun f =>
    f.equivalentId = e ∧ f.fromId = a ∧ f.toId = b).map (·.amount)).sum

/-- For a payment without locks the engine counts every reservation of the edge:
a flow of the sender can only stand in a lock of the sender. -/
theorem LocksSound.reservedUsage_eq (h : LocksSound db) (hFree : db.prepareLocks.ofTx txId = [])
    (a b e : Uuid) : reservedUsage db now txId a b e = reservation db now a b e := by
  have hFlows : ∀ locks : List PrepareLock, (∀ l ∈ locks, l ∈ db.prepareLocks.rows) →
      ((locks.filter fun l => l.participantId = a ∧ l.txId ≠ txId).flatMap (·.flows)).filter
          (fun f => f.equivalentId = e ∧ f.fromId = a ∧ f.toId = b) =
        (locks.flatMap (·.flows)).filter fun f => f.equivalentId = e ∧ f.fromId = a ∧ f.toId = b := by
    intro locks hLocks
    induction locks with
    | nil => rfl
    | cons l rest ih =>
        have hTail := ih fun l' hl' => hLocks l' (List.mem_cons_of_mem _ hl')
        have hRow := hLocks l List.mem_cons_self
        have hTx : l.txId ≠ txId := by
          have hOut := List.filter_eq_nil_iff.mp hFree l hRow
          simpa using hOut
        by_cases hOwner : l.participantId = a
        · rw [List.filter_cons_of_pos (by simp [hOwner, hTx]), List.flatMap_cons, List.flatMap_cons,
            List.filter_append, List.filter_append, hTail]
        · have hNone : l.flows.filter (fun f => f.equivalentId = e ∧ f.fromId = a ∧ f.toId = b) = [] := by
            refine List.filter_eq_nil_iff.mpr fun f hf => ?_
            simp only [decide_eq_true_eq]
            rintro ⟨_, hFrom, _⟩
            exact hOwner ((h.owned l hRow f hf).symm.trans hFrom)
          rw [List.filter_cons_of_neg (by simp [hOwner]), List.flatMap_cons, List.filter_append, hNone,
            List.nil_append, hTail]
  rw [reservedUsage, reservation, hFlows (db.prepareLocks.live now) fun l hl => (List.mem_filter.mp hl).1]

end Usage

section Parties

/-- The ends of trust lines and of debts are registered. -/
structure PartiesRegistered (db : Db env) : Prop where
  lines : ∀ l ∈ db.trustLines.rows, env.directory.Registered l.fromParticipantId ∧
    env.directory.Registered l.toParticipantId
  debts : ∀ a b e, 0 < db.debts.owed a b e → env.directory.Registered a ∧ env.directory.Registered b

theorem partiesRegistered_empty : PartiesRegistered (Db.empty : Db env) where
  lines _ hl := by cases hl
  debts _ _ _ h := absurd h (lt_irrefl (0 : Amount))

theorem PartiesRegistered.congr (h : PartiesRegistered db) (hDebts : db'.debts = db.debts)
    (hLines : ∀ l ∈ db'.trustLines.rows, env.directory.Registered l.fromParticipantId ∧
      env.directory.Registered l.toParticipantId) : PartiesRegistered db' where
  lines := hLines
  debts := by
    rw [hDebts]
    exact h.debts

/-- A debt after a commit was there before, or lies along a flow of the commit's locks. -/
theorem Commits.debts_registered {tx : Transaction} (hLocks : LocksSound db) (hDb : PartiesRegistered db)
    (h : Commits now db db' tx) (a b e : Uuid) (hOwed : 0 < db'.debts.owed a b e) :
    env.directory.Registered a ∧ env.directory.Registered b := by
  by_cases hTouched : ∃ f ∈ Commits.flows db tx.txId, f.equivalentId = e ∧
      ((a, b) = (f.fromId, f.toId) ∨ (a, b) = (f.toId, f.fromId))
  · obtain ⟨f, hf, _, hEnds⟩ := hTouched
    obtain ⟨l, hl, hfl⟩ := Commits.mem_flows.mp hf
    have hRegistered := hLocks.registered l (List.mem_filter.mp hl).1 f hfl
    rcases hEnds with hEnds | hEnds
    · obtain ⟨rfl, rfl⟩ := Prod.mk.inj hEnds
      exact hRegistered
    · obtain ⟨rfl, rfl⟩ := Prod.mk.inj hEnds
      exact hRegistered.symm
  · refine hDb.debts a b e ?_
    rwa [← h.untouched.2 a b e fun f hf he => ⟨fun hEnds => hTouched ⟨f, hf, he, Or.inl hEnds⟩,
      fun hEnds => hTouched ⟨f, hf, he, Or.inr hEnds⟩⟩]

/-- Every committed transaction keeps the parties registered. -/
theorem partiesRegistered_change (hLocks : LocksSound db) (h : PartiesRegistered db)
    (hChange : Change now db op db') : PartiesRegistered db' := by
  cases hChange with
  | inserted => exact h.congr rfl h.lines
  | prepared _ hPrepares => exact h.congr hPrepares.debts (hPrepares.trustLines ▸ h.lines)
  | preparedRoutes _ _ hPrepares => exact h.congr hPrepares.debts (hPrepares.trustLines ▸ h.lines)
  | committed _ hCommit => exact ⟨hCommit.trustLines ▸ h.lines, hCommit.debts_registered hLocks h⟩
  | aborted txId reason code details =>
      rw [abort_eq]
      exact h.congr rfl h.lines
  | cleared hClears =>
      exact ⟨(stageClearing_eq_ok hClears.staged).2.2.2.1 ▸ h.lines,
        fun a b e hOwed => h.debts a b e (hOwed.trans_le (hClears.owed_le a b e))⟩
  | opened hOk =>
      obtain ⟨toId, e, _, tl, _, _, hFrom, hTo, hInsert, rfl⟩ := createTrustLine_effect hOk
      refine h.congr rfl fun l hl => ?_
      have hl : l ∈ tl.rows := hl
      rw [TrustTable.rows_of_insert hInsert] at hl
      rcases List.mem_append.mp hl with hOld | hNew
      · exact h.lines l hOld
      · rw [List.mem_singleton.mp hNew]
        exact ⟨hFrom, hTo⟩
  | updated hOk =>
      obtain ⟨_, _, _, _, _, _, _, tl, hWrite, rfl⟩ := updateTrustLine_effect hOk
      refine h.congr rfl fun l hl => ?_
      have hl : l ∈ tl.rows := hl
      rw [TrustTable.rows_of_write hWrite] at hl
      rcases Rows.mem_update_iff.mp hl with ⟨old, hOld, _, rfl⟩ | ⟨hOld, _⟩
      · exact h.lines old hOld
      · exact h.lines l hOld
  | closed hOk =>
      obtain ⟨_, _, _, _, _, _, _, rfl⟩ := closeTrustLine_effect hOk
      refine h.congr rfl fun l hl => ?_
      rcases Rows.mem_update_iff.mp hl with ⟨old, hOld, _, rfl⟩ | ⟨hOld, _⟩
      · exact h.lines old hOld
      · exact h.lines l hOld

theorem partiesRegistered_run (ops : List LedgerOp) :
    PartiesRegistered ((Ledger.empty : Ledger env).run ops).db :=
  (run_invariant (P := fun db : Db env => LocksSound db ∧ PartiesRegistered db) _
    ⟨locksSound_empty, partiesRegistered_empty⟩
    (fun _ _ _ _ h hChange =>
      ⟨locksSound_change h.1 hChange, partiesRegistered_change h.1 h.2 hChange⟩) ops).2

end Parties

end GeoLedger

import Mathlib
import GeoLedger.Steps
import GeoLedger.Clearing.Neutrality

/-! The audit rows of one operation. An operation that changes the debts or the
trust lines of an equivalent appends one row for it, with the checksums before
and after; the other equivalents get no row and are not changed. -/
namespace GeoLedger
open Outcomes

variable {env : Env} {db db' : Db env} {now : Time} {txId : TxId} {e w : Uuid}

section Equivalents

/-- The rows of one equivalent. -/
def DebtTable.ofEquivalent (t : DebtTable env) (e : Uuid) : List Debt := t.rows.filter (·.equivalentId = e)

def TrustTable.ofEquivalent (tl : TrustTable env) (e : Uuid) : List TrustLine :=
  tl.rows.filter (·.equivalentId = e)

/-- The debts and trust lines of an equivalent are the same in both states. -/
structure SameIn (e : Uuid) (db db' : Db env) : Prop where
  debts : db'.debts.ofEquivalent e = db.debts.ofEquivalent e
  trustLines : db'.trustLines.ofEquivalent e = db.trustLines.ofEquivalent e

/-- The checksum of an equivalent's debts and trust lines. -/
def Db.checksum (db : Db env) (e : Uuid) : String :=
  (computeIntegrityCheckpoint db.trustLines db.debts e).checksum

/-- The checksum of an equivalent depends on its own debts and trust lines only. -/
theorem SameIn.checksum (h : SameIn e db db') : db'.checksum e = db.checksum e := by
  have hDebts : db'.debts.rows.filter (·.equivalentId = e) = db.debts.rows.filter (·.equivalentId = e) :=
    h.debts
  have hLines : db'.trustLines.rows.filter (·.equivalentId = e) =
      db.trustLines.rows.filter (·.equivalentId = e) := h.trustLines
  simp only [Db.checksum, computeIntegrityCheckpoint, hDebts, hLines]

namespace DebtTable

variable {t t' : DebtTable env} {d : Debt} {id other : Uuid} {amount : Amount}

/-- No row with the id belongs to the equivalent. -/
def Foreign (t : DebtTable env) (e id : Uuid) : Prop := ∀ d ∈ t.rows, d.id = id → d.equivalentId ≠ e

/-- A row of another equivalent is foreign. -/
theorem foreign_of_mem (hMem : d ∈ t.rows) (hNe : d.equivalentId ≠ e) : t.Foreign e d.id := by
  intro row hRow hId
  rw [Rows.eq_of_column t.id_unique hRow hMem hId]
  exact hNe

/-- A debt that is found in another equivalent is foreign. -/
theorem foreign_of_getDebt {a b : Uuid} (h : t.getDebt a b w = some d) (hNe : w ≠ e) : t.Foreign e d.id := by
  obtain ⟨hMem, hKey⟩ := getDebt_eq_some_iff.mp h
  refine foreign_of_mem hMem ?_
  simp only [Debt.key, Prod.mk.injEq] at hKey
  rw [hKey.2.2]
  exact hNe

/-- A row stays foreign when another one is saved. -/
theorem Foreign.save (h : t.Foreign e id) (hSave : t.save other amount = .ok t') : t'.Foreign e id := by
  unfold DebtTable.save at hSave
  split at hSave
  · cases hSave
    exact fun row hRow => h row (Rows.mem_delete_iff.mp hRow).1
  · intro row hRow
    rw [(rows_of_write hSave).1] at hRow
    rcases Rows.mem_update_iff.mp hRow with ⟨old, hOld, _, rfl⟩ | ⟨hOld, _⟩
    · exact h old hOld
    · exact h row hOld

/-- Writing a foreign row leaves the debts of the equivalent as they are. -/
theorem ofEquivalent_write (h : t.Foreign e id) (hWrite : t.write id amount = .ok t') :
    t'.ofEquivalent e = t.ofEquivalent e := by
  unfold ofEquivalent
  rw [(rows_of_write hWrite).1]
  exact Rows.filter_update (fun _ => rfl) fun row hRow hId => decide_eq_false (h row hRow hId)

/-- Saving a foreign row leaves the debts of the equivalent as they are. -/
theorem ofEquivalent_save (h : t.Foreign e id) (hSave : t.save id amount = .ok t') :
    t'.ofEquivalent e = t.ofEquivalent e := by
  unfold DebtTable.save at hSave
  split at hSave
  · cases hSave
    exact Rows.filter_delete fun row hRow hId => decide_eq_false (h row hRow hId)
  · exact ofEquivalent_write h hSave

/-- Inserting a debt in another equivalent leaves those of this one as they are. -/
theorem ofEquivalent_insert {a b : Uuid} (hNe : w ≠ e) (hInsert : t.insert a b w amount = .ok t') :
    t'.ofEquivalent e = t.ofEquivalent e := by
  unfold ofEquivalent
  rw [(rows_of_insert hInsert).1, List.filter_append, List.filter_cons_of_neg (by simp [hNe]), List.filter_nil,
    List.append_nil]

end DebtTable

/-- A flow leaves the rows of other equivalents. -/
theorem ofEquivalent_applyFlow {f : Flow} {t t' : DebtTable env} (hNe : f.equivalentId ≠ e)
    (h : applyFlow f t = .ok t') : t'.ofEquivalent e = t.ofEquivalent e := by
  obtain ⟨⟨t₁, remaining, reverse⟩, hSettle, h⟩ := bind_eq_ok_iff.mp h
  obtain ⟨t₂, hRaise, hNet⟩ := bind_eq_ok_iff.mp h
  have hFirst : t₁.ofEquivalent e = t.ofEquivalent e := by
    unfold settleReverse at hSettle
    split at hSettle
    · cases hSettle
      rfl
    · next debt hDebt =>
        split at hSettle
        · obtain ⟨saved, hSave, hOk⟩ := bind_eq_ok_iff.mp hSettle
          cases hOk
          exact DebtTable.ofEquivalent_save (DebtTable.foreign_of_getDebt hDebt hNe) hSave
        · cases hSettle
          rfl
  have hSecond : t₂.ofEquivalent e = t₁.ofEquivalent e := by
    unfold raiseForward at hRaise
    split at hRaise
    · split at hRaise
      · exact DebtTable.ofEquivalent_insert hNe hRaise
      · next debt hDebt =>
          exact DebtTable.ofEquivalent_write (DebtTable.foreign_of_getDebt hDebt hNe) hRaise
    · cases hRaise
      rfl
  have hThird : t'.ofEquivalent e = t₂.ofEquivalent e := by
    unfold netMutual at hNet
    split at hNet
    · next debtForward debtReverse hForward hReverse =>
        split at hNet
        · obtain ⟨saved, hSave, hOk⟩ := bind_eq_ok_iff.mp hNet
          have hLater := (DebtTable.foreign_of_getDebt hReverse hNe).save hSave
          rw [DebtTable.ofEquivalent_save hLater hOk,
            DebtTable.ofEquivalent_save (DebtTable.foreign_of_getDebt hForward hNe) hSave]
        · cases hNet
          rfl
    · cases hNet
      rfl
  rw [hThird, hSecond, hFirst]

/-- Applying flows of other equivalents leaves the debts of this one as they are. -/
theorem ofEquivalent_applyFlows {flows : List Flow} {t t' : DebtTable env}
    (hNe : ∀ f ∈ flows, f.equivalentId ≠ e) (h : applyFlows flows t = .ok t') :
    t'.ofEquivalent e = t.ofEquivalent e := by
  induction flows generalizing t with
  | nil =>
      cases h
      rfl
  | cons f rest ih =>
      obtain ⟨t₁, hFlow, hRest⟩ := applyFlows_cons.mp h
      rw [ih (fun g hg => hNe g (List.mem_cons_of_mem _ hg)) hRest,
        ofEquivalent_applyFlow (hNe f List.mem_cons_self) hFlow]

/-- Reductions leave the rows of other equivalents. -/
theorem ofEquivalent_reduceDebts {debts : List Debt} {amount : Amount} {t t' : DebtTable env}
    (hForeign : ∀ d ∈ debts, t.Foreign e d.id) (h : reduceDebts amount debts t = .ok t') :
    t'.ofEquivalent e = t.ofEquivalent e := by
  induction debts generalizing t with
  | nil =>
      cases h
      rfl
  | cons d rest ih =>
      rw [reduceDebts] at h
      split at h
      · cases h
      · obtain ⟨t₁, hSave, hRest⟩ := bind_eq_ok_iff.mp h
        rw [ih (fun other hOther => (hForeign other (List.mem_cons_of_mem _ hOther)).save hSave) hRest,
          DebtTable.ofEquivalent_save (hForeign d List.mem_cons_self) hSave]

end Equivalents

section Audits

/-- The audit rows recorded under an equivalent's code. -/
def rowsOf (e : Equivalent) (log : List IntegrityAuditLog) : List IntegrityAuditLog :=
  log.filter (·.equivalentCode = e.code)

/-- `rows` is what an operation appends to the audit log: an equivalent that
it changed has one row with the checksums around the operation. -/
structure Audits (db db' : Db env) (rows : List IntegrityAuditLog) : Prop where
  log : db'.auditLog = db.auditLog ++ rows
  covers : ∀ e ∈ env.directory.equivalents,
    (rowsOf e rows = [] ∧ SameIn e.id db db') ∨
      ∃ row, rowsOf e rows = [row] ∧ row.stateChecksumBefore = db.checksum e.id ∧
        row.stateChecksumAfter = db'.checksum e.id

/-- An operation that leaves debts, lines and log. -/
theorem Audits.nothing (hDebts : db'.debts = db.debts) (hLines : db'.trustLines = db.trustLines)
    (hLog : db'.auditLog = db.auditLog) : Audits db db' [] where
  log := by rw [hLog, List.append_nil]
  covers e _ := by
    refine Or.inl ⟨rfl, ?_, ?_⟩
    · rw [hDebts]
    · rw [hLines]

/-- A step that changes nothing needs no audit row. -/
theorem Audits.refl (db : Db env) : Audits db db [] := .nothing rfl rfl rfl

/-- An operation on one equivalent, with its row. -/
theorem Audits.single {row : IntegrityAuditLog} (hLog : db'.auditLog = db.auditLog ++ [row])
    (hCode : row.equivalentCode = env.directory.codeText w)
    (hBefore : row.stateChecksumBefore = db.checksum w) (hAfter : row.stateChecksumAfter = db'.checksum w)
    (hOthers : ∀ e, e ≠ w → SameIn e db db') : Audits db db' [row] where
  log := hLog
  covers e he := by
    by_cases hSame : w = e.id
    · refine Or.inr ⟨row, List.filter_cons_of_pos ?_, hSame ▸ hBefore, hSame ▸ hAfter⟩
      rw [decide_eq_true_eq, hCode, Directory.codeText_eq_code_iff he]
      exact hSame
    · refine Or.inl ⟨List.filter_cons_of_neg ?_, hOthers e.id (Ne.symm hSame)⟩
      rw [decide_eq_true_eq, hCode, Directory.codeText_eq_code_iff he]
      exact hSame

/-- A commit appends one row for each equivalent of its flows. -/
theorem Commits.audits {tx : Transaction} (h : Commits now db db' tx) :
    ∃ rows, Audits db db' rows := by
  refine ⟨_, h.auditLog, fun e he => ?_⟩
  set groups := Dict.groupBy Flow.equivalentId (((db.prepareLocks.ofTx tx.txId).insertionSort
    fun l₁ l₂ => l₁.id ≤ l₂.id).flatMap (·.flows)) with hGroups
  have hRows : rowsOf e (groups.items.map fun group =>
        paymentAudit db.trustLines db.debts db'.debts tx group.1) =
      (groups.items.filter (·.1 = e.id)).map fun group =>
        paymentAudit db.trustLines db.debts db'.debts tx group.1 := by
    rw [rowsOf, List.filter_map]
    congr 1
    apply List.filter_congr
    intro group _
    exact decide_eq_decide.mpr (Directory.codeText_eq_code_iff he)
  rw [hRows]
  by_cases hGroup : ∃ group ∈ groups.items, group.1 = e.id
  · obtain ⟨group, hMem, hKey⟩ := hGroup
    refine Or.inr ⟨paymentAudit db.trustLines db.debts db'.debts tx e.id, ?_, rfl, ?_⟩
    · rw [Rows.filter_key_eq_singleton groups.nodup hMem hKey, List.map_singleton, hKey]
    · unfold Db.checksum
      rw [h.trustLines]
      rfl
  · refine Or.inl ⟨?_, ?_, ?_⟩
    · rw [List.map_eq_nil_iff, List.filter_eq_nil_iff]
      intro group hMem
      simpa using fun hKey => hGroup ⟨group, hMem, hKey⟩
    · refine ofEquivalent_applyFlows (fun f hf hSame => hGroup ?_) h.applied
      exact ⟨_, (Dict.mem_groupBy_items Flow.equivalentId).mpr
        ⟨rfl, List.ne_nil_of_mem (List.mem_filter.mpr ⟨hf, by simpa using hSame⟩)⟩, rfl⟩
    · rw [h.trustLines]

variable {order : ReadOrder} {cycle : List (Option Uuid)} {allowedPids : Option (List Pid)}
  {debtIds : List Uuid} {first : Debt} {rest : List Debt}

/-- A clearing appends one audit row, with the checksums before and after it. -/
theorem stageClearing_auditLog {debts : List Debt} {amount : Amount}
    (h : stageClearing now debtIds first debts amount db = .ok db') :
    ∃ row, db'.auditLog = db.auditLog ++ [row] ∧
      row.equivalentCode = env.directory.codeText first.equivalentId ∧
      row.stateChecksumBefore = db.checksum first.equivalentId ∧
      row.stateChecksumAfter = db'.checksum first.equivalentId := by
  unfold stageClearing at h
  obtain ⟨transactions, _, h⟩ := bind_eq_ok_iff.mp h
  obtain ⟨reduced, _, h⟩ := bind_eq_ok_iff.mp h
  obtain ⟨_, _, h⟩ := bind_eq_ok_iff.mp h
  cases h
  exact ⟨_, rfl, rfl, rfl, rfl⟩

/-- A clearing of debts of one equivalent appends one row. -/
theorem Clears.audits (h : Clears now order cycle allowedPids db db' debtIds first rest)
    (hOne : ∀ d ∈ first :: rest, d.equivalentId = first.equivalentId) :
    ∃ rows, Audits db db' rows := by
  obtain ⟨row, hLog, hCode, hBefore, hAfter⟩ := stageClearing_auditLog h.staged
  obtain ⟨_, hReduce, _, hLines, _⟩ := stageClearing_eq_ok h.staged
  refine ⟨[row], .single hLog hCode hBefore hAfter fun e hNe => ⟨?_, ?_⟩⟩
  · refine ofEquivalent_reduceDebts (fun d hd => ?_) hReduce
    refine DebtTable.foreign_of_mem (h.mem_rows d hd) ?_
    rw [hOne d hd]
    exact Ne.symm hNe
  · rw [hLines]

/-- A change of one trust line appends one row. -/
theorem audits_auditTrustLine {operation : OperationType} {participants : List String} {tl : TrustTable env}
    (hOthers : ∀ e, e ≠ w → tl.ofEquivalent e = db.trustLines.ofEquivalent e) :
    ∃ rows, Audits db (auditTrustLine db operation w participants tl) rows :=
  ⟨_, .single rfl rfl rfl rfl fun e hNe => ⟨rfl, hOthers e hNe⟩⟩

/-- Updating a line of another equivalent leaves those of this one as they are. -/
theorem ofEquivalent_update_line {tl tl' : TrustTable env} {l : TrustLine} {f : TrustLine → TrustLine}
    (hMem : l ∈ tl.rows) (hNe : e ≠ l.equivalentId)
    (hRows : tl'.rows = Rows.update TrustLine.id l.id f tl.rows)
    (hKeep : ∀ l, (f l).equivalentId = l.equivalentId) : tl'.ofEquivalent e = tl.ofEquivalent e := by
  unfold TrustTable.ofEquivalent
  rw [hRows]
  refine Rows.filter_update (fun row => by rw [hKeep]) fun row hRow hId => decide_eq_false ?_
  rw [Rows.eq_of_column tl.id_unique hRow hMem hId]
  exact Ne.symm hNe

end Audits

/-- The call changes the books: it commits a payment or a clearing, or it
writes a trust line. Replays, refusals and aborts do not. -/
def TakesEffect (now : Time) (db : Db env) : LedgerOp → Prop
  | .commit txId => (commit now txId db).1 = .ok () ∧
      ∀ tx, db.transactions.get? txId = some tx → tx.state ≠ .COMMITTED
  | .commitStaged txId => (commitStaged now txId db).1 = .ok () ∧
      ∀ tx, db.transactions.get? txId = some tx → tx.state ≠ .COMMITTED
  | .clear order fate cycle allowedPids =>
      CommitsClearing db (executeClearingWithAmount now order fate cycle allowedPids db).2
  | .createTrustLine fromParticipantId data => ∃ db', createTrustLine fromParticipantId data db = .ok db'
  | .updateTrustLine trustlineId userId data => ∃ db', updateTrustLine trustlineId userId data db = .ok db'
  | .closeTrustLine trustlineId userId data => ∃ db', closeTrustLine trustlineId userId data db = .ok db'
  | _ => False

/-- A clearing call lists debts of one equivalent. -/
def ClearsOneEquivalent (db : Db env) : LedgerOp → Prop
  | .clear _ _ cycle _ => ∀ d ∈ db.debts.rows, ∀ d' ∈ db.debts.rows,
      some d.id ∈ cycle → some d'.id ∈ cycle → d.equivalentId = d'.equivalentId
  | _ => True

section Operations

/-- The audit rows of an operation that may raise. -/
theorem audits_orElse {result : Except GeoError (Db env)}
    (h : ∀ db', result = .ok db' → ∃ rows, Audits db db' rows) :
    ∃ rows, Audits db (db.orElse result) rows ∧ (rows ≠ [] → ∃ db', result = .ok db') := by
  cases result with
  | error _ => exact ⟨[], .refl db, fun h => absurd rfl h⟩
  | ok db' =>
      obtain ⟨rows, hRows⟩ := h db' rfl
      exact ⟨rows, hRows, fun _ => ⟨db', rfl⟩⟩

/-- The audit rows of a commit are right, and there are some only when this call is the one
that commits. -/
theorem audits_commit (now : Time) (txId : TxId) (db : Db env) :
    ∃ rows, Audits db (commit now txId db).2 rows ∧
      (rows ≠ [] → (commit now txId db).1 = .ok () ∧
        ∀ tx, db.transactions.get? txId = some tx → tx.state ≠ .COMMITTED) := by
  rcases commit_cases now txId db with
    ⟨hDb, _⟩ | ⟨_, reason, code, details, _, _, _, hEq⟩ | ⟨tx, rfl, hOk, hCommits⟩
  · rw [hDb]
    exact ⟨[], .refl db, fun h => absurd rfl h⟩
  · rw [hEq, abort_eq]
    exact ⟨[], .nothing rfl rfl rfl, fun h => absurd rfl h⟩
  · obtain ⟨rows, hRows⟩ := hCommits.audits
    refine ⟨rows, hRows, fun _ => ⟨hOk, fun other hOther hState => ?_⟩⟩
    rw [hCommits.found, Option.some.injEq] at hOther
    rw [← hOther, hCommits.prepared] at hState
    cases hState

/-- A recovery pass moves no debts, and so needs no audit rows. -/
theorem audits_recovery (now : Time) (cleanupFails staleFails : TxId → Bool) (db : Db env) :
    Audits db (runRecoveryOnce now cleanupFails staleFails db).2 [] := by
  have hSame : (runRecoveryOnce now cleanupFails staleFails db).2.debts = db.debts ∧
      (runRecoveryOnce now cleanupFails staleFails db).2.trustLines = db.trustLines ∧
      (runRecoveryOnce now cleanupFails staleFails db).2.auditLog = db.auditLog := by
    refine runRecoveryOnce_invariant
      (Q := fun db' => db'.debts = db.debts ∧ db'.trustLines = db.trustLines ∧ db'.auditLog = db.auditLog)
      (fun db' txId reason code h => ?_) cleanupFails staleFails ⟨rfl, rfl, rfl⟩
    rw [abort_eq]
    exact h
  exact .nothing hSame.1 hSame.2.1 hSame.2.2

/-- Every operation appends what it has to, and only an operation that takes effect appends. -/
theorem audits_applyOp (now : Time) (db : Db env) (op : LedgerOp) (hOne : ClearsOneEquivalent db op) :
    ∃ rows, Audits db (applyOp now db op) rows ∧ (rows ≠ [] → TakesEffect now db op) := by
  have hNothing {db' : Db env} (h : Audits db db' []) :
      ∃ rows, Audits db db' rows ∧ (rows ≠ [] → TakesEffect now db op) :=
    ⟨[], h, fun hNe => absurd rfl hNe⟩
  cases op with
  | newPayment =>
      refine hNothing ?_
      simp only [applyOp]
      cases db.transactions.insert _ with
      | error _ => exact .refl db
      | ok transactions => exact .nothing rfl rfl rfl
  | prepare txId path amount e =>
      refine hNothing ?_
      simp only [applyOp]
      cases hPrepare : prepare now txId path amount e db with
      | error _ => exact .refl db
      | ok db' =>
          obtain ⟨hDebts, hLines, hLog⟩ := prepare_frame hPrepare
          exact .nothing hDebts hLines hLog
  | prepareRoutes txId routes e =>
      refine hNothing ?_
      simp only [applyOp]
      cases hPrepare : prepareRoutes now txId routes e db with
      | error _ => exact .refl db
      | ok db' =>
          obtain ⟨hDebts, hLines, hLog⟩ := prepareRoutes_frame hPrepare
          exact .nothing hDebts hLines hLog
  | commit txId => exact audits_commit now txId db
  | commitStaged txId =>
      obtain ⟨rows, hAudits, hEffect⟩ := audits_commit now txId db
      simp only [applyOp, TakesEffect]
      unfold commitStaged
      split
      · next db' hResult =>
          rw [hResult] at hAudits hEffect
          exact ⟨rows, hAudits, hEffect⟩
      · exact ⟨[], .refl db, fun h => absurd rfl h⟩
  | abort txId reason code details =>
      refine hNothing ?_
      simp only [applyOp, abort_eq]
      exact .nothing rfl rfl rfl
  | recovery cleanupFails staleFails => exact hNothing (audits_recovery now cleanupFails staleFails db)
  | clear order fate cycle allowedPids =>
      simp only [applyOp, TakesEffect]
      rcases executeClearingWithAmount_cases now order fate cycle allowedPids db with
        hDb | ⟨debtIds, first, rest, staged, hClears, hDb, _⟩
      · rw [hDb]
        exact ⟨[], .refl db, fun h => absurd rfl h⟩
      · have hIn : ∀ d ∈ first :: rest, some d.id ∈ cycle := by
          intro d hd
          rw [← hClears.read] at hd
          have hMem := (mem_debtsByIds.mp hd).2
          obtain ⟨entry, hEntry, hSome⟩ := exists_of_mem_mapM hClears.ids hMem
          exact hSome ▸ hEntry
        obtain ⟨rows, hRows⟩ := hClears.audits fun d hd =>
          hOne d (hClears.mem_rows d hd) first (hClears.mem_rows first List.mem_cons_self) (hIn d hd)
            (hIn first List.mem_cons_self)
        rw [hDb]
        exact ⟨rows, hRows, fun _ => hClears.commitsClearing⟩
  | createTrustLine fromParticipantId data =>
      refine audits_orElse fun db' hOk => ?_
      obtain ⟨toId, w, _, tl, _, _, _, _, hInsert, rfl⟩ := createTrustLine_effect hOk
      refine audits_auditTrustLine fun e hNe => ?_
      unfold TrustTable.ofEquivalent
      rw [TrustTable.rows_of_insert hInsert, List.filter_append,
        List.filter_cons_of_neg (by simpa using Ne.symm hNe), List.filter_nil, List.append_nil]
  | updateTrustLine trustlineId userId data =>
      refine audits_orElse fun db' hOk => ?_
      obtain ⟨l, hMem, _, _, _, _, _, tl, hWrite, rfl⟩ := updateTrustLine_effect hOk
      exact audits_auditTrustLine fun e hNe =>
        ofEquivalent_update_line hMem hNe (TrustTable.rows_of_write hWrite) fun _ => rfl
  | closeTrustLine trustlineId userId data =>
      refine audits_orElse fun db' hOk => ?_
      obtain ⟨l, hMem, _, _, _, _, _, rfl⟩ := closeTrustLine_effect hOk
      exact audits_auditTrustLine fun e hNe =>
        ofEquivalent_update_line (f := fun l => { l with status := .closed }) hMem hNe rfl fun _ => rfl
  | tick => exact hNothing (.refl db)

end Operations

end GeoLedger

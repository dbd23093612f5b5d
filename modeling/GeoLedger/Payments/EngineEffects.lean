import Mathlib
import GeoLedger.Library.Outcomes
import GeoLedger.Payments.Engine

/-! What the engine's calls can do to the database: one inversion lemma for
each of them. -/
namespace GeoLedger
open Outcomes

variable {env : Env} {db db' : Db env} {now : Time} {txId : TxId}

/-- A preparation is stored by inserting all its locks and marking its transaction prepared. -/
theorem storePrepared_eq_ok_iff {tx : Transaction} {locks : List (Uuid × List Flow)} :
    storePrepared db now tx locks = .ok db' ↔
      ∃ prepareLocks, db.prepareLocks.insertAll tx.txId (now + env.prepareLockTtlSeconds) locks =
          .ok prepareLocks ∧
        db' = { db with
          prepareLocks := prepareLocks
          transactions := db.transactions.update tx.txId .PREPARED tx.error now } := by
  unfold storePrepared
  rw [bind_eq_ok_iff]
  constructor
  · rintro ⟨prepareLocks, h, hOk⟩
    exact ⟨prepareLocks, h, (Except.ok.inj hOk).symm⟩
  · rintro ⟨prepareLocks, h, rfl⟩
    exact ⟨prepareLocks, h, rfl⟩

/-- The states in which a preparation looks at capacities. -/
def TxState.open : TxState → Prop
  | .COMMITTED | .ABORTED | .REJECTED => False
  | _ => True

/-- A state is open when it is neither committed nor refused. -/
theorem TxState.open_iff (s : TxState) :
    s.open ↔ s ≠ .COMMITTED ∧ ¬(s = .ABORTED ∨ s = .REJECTED) := by
  cases s <;> simp [TxState.open]

/-- A preparation that has nothing left to do. -/
def AlreadyPrepared (db : Db env) (txId : TxId) (tx : Transaction) : Prop :=
  tx.state = .COMMITTED ∨ (tx.state = .PREPARED ∧ db.prepareLocks.ofTx txId ≠ [])

/-- `prepare` returns at once, or stores one lock for each checked segment. -/
theorem prepare_eq_ok_iff {path : List Pid} {amount : Amount} {e : Uuid} :
    prepare now txId path amount e db = .ok db' ↔
      ∃ tx, db.transactions.get? txId = some tx ∧
        ((db' = db ∧ (tx.state = .COMMITTED ∨ (tx.state = .PREPARED ∧
            db.prepareLocks.ofTx txId ≠ [] ∧ ∃ nodes, resolvePath env.directory path = some nodes))) ∨
          (tx.state.open ∧ db.prepareLocks.ofTx txId = [] ∧
            ∃ nodes flows, resolvePath env.directory path = some nodes ∧
              (hops nodes).mapM (fun segment =>
                checkSegment db now txId e segment.1 segment.2 amount 0) = .ok flows ∧
              storePrepared db now tx (flows.map fun f => (f.fromId, [f])) = .ok db')) := by
  unfold prepare
  cases hTx : db.transactions.get? txId with
  | none => simp
  | some tx =>
      simp only [Option.some.injEq, exists_eq_left']
      by_cases hCommitted : tx.state = .COMMITTED
      · rw [if_pos hCommitted, Except.ok.injEq, @eq_comm _ db]
        simp [hCommitted, TxState.open]
      · rw [if_neg hCommitted]
        by_cases hClosed : tx.state = .ABORTED ∨ tx.state = .REJECTED
        · rw [if_pos hClosed]
          rcases hClosed with hClosed | hClosed <;> simp [hClosed, TxState.open]
        · rw [if_neg hClosed]
          have hOpen : tx.state.open := tx.state.open_iff.mpr ⟨hCommitted, hClosed⟩
          cases hNodes : resolvePath env.directory path with
          | none => simp [hCommitted]
          | some nodes =>
              by_cases hLocks : db.prepareLocks.ofTx txId = []
              · simp [hLocks, hOpen, hCommitted, bind_eq_ok_iff]
              · by_cases hPrepared : tx.state = .PREPARED
                · simp [hLocks, hPrepared, @eq_comm _ db]
                · simp [hLocks, hPrepared, hCommitted]

/-- `prepare_routes` returns at once, or stores one lock for each sender. -/
theorem prepareRoutes_eq_ok_iff {routes : List Route} {e : Uuid} :
    prepareRoutes now txId routes e db = .ok db' ↔
      ∃ tx, db.transactions.get? txId = some tx ∧
        ((db' = db ∧ AlreadyPrepared db txId tx) ∨
          (tx.state.open ∧ db.prepareLocks.ofTx txId = [] ∧ checkRoutes routes = .ok () ∧
            ∃ resolved flows, resolveRoutes env.directory routes = some resolved ∧
              checkSegments db now txId e [] (routeSegments resolved) = .ok flows ∧
              storePrepared db now tx (Dict.groupBy Flow.fromId flows).items = .ok db')) := by
  unfold prepareRoutes AlreadyPrepared
  cases hTx : db.transactions.get? txId with
  | none => simp
  | some tx =>
      simp only [Option.some.injEq, exists_eq_left']
      by_cases hCommitted : tx.state = .COMMITTED
      · rw [if_pos hCommitted, Except.ok.injEq, @eq_comm _ db]
        simp [hCommitted, TxState.open]
      · rw [if_neg hCommitted]
        by_cases hClosed : tx.state = .ABORTED ∨ tx.state = .REJECTED
        · rw [if_pos hClosed]
          rcases hClosed with hClosed | hClosed <;> simp [hClosed, TxState.open]
        · rw [if_neg hClosed]
          have hOpen : tx.state.open := tx.state.open_iff.mpr ⟨hCommitted, hClosed⟩
          by_cases hLocks : db.prepareLocks.ofTx txId = []
          · simp only [hLocks, ne_eq, not_true_eq_false, if_false, hCommitted, and_false, or_self,
              hOpen, true_and, false_or]
            rw [bind_eq_ok_iff, Unique.exists_iff]
            cases hNodes : resolveRoutes env.directory routes with
            | none => simp
            | some resolved => simp [bind_eq_ok_iff]
          · by_cases hPrepared : tx.state = .PREPARED
            · simp [hLocks, hPrepared, @eq_comm _ db]
            · simp [hLocks, hPrepared, hCommitted]

/-- Storing a preparation changes locks and transactions only. -/
theorem storePrepared_frame {tx : Transaction} {locks : List (Uuid × List Flow)}
    (h : storePrepared db now tx locks = .ok db') :
    db'.debts = db.debts ∧ db'.trustLines = db.trustLines ∧ db'.auditLog = db.auditLog := by
  obtain ⟨_, _, rfl⟩ := storePrepared_eq_ok_iff.mp h
  exact ⟨rfl, rfl, rfl⟩

/-- A preparation along one path changes locks and transactions only. -/
theorem prepare_frame {path : List Pid} {amount : Amount} {e : Uuid}
    (h : prepare now txId path amount e db = .ok db') :
    db'.debts = db.debts ∧ db'.trustLines = db.trustLines ∧ db'.auditLog = db.auditLog := by
  obtain ⟨tx, _, ⟨rfl, _⟩ | ⟨_, _, _, _, _, _, hStore⟩⟩ := prepare_eq_ok_iff.mp h
  · exact ⟨rfl, rfl, rfl⟩
  · exact storePrepared_frame hStore

/-- A preparation along routes changes locks and transactions only. -/
theorem prepareRoutes_frame {routes : List Route} {e : Uuid}
    (h : prepareRoutes now txId routes e db = .ok db') :
    db'.debts = db.debts ∧ db'.trustLines = db.trustLines ∧ db'.auditLog = db.auditLog := by
  obtain ⟨tx, _, ⟨rfl, _⟩ | ⟨_, _, _, _, _, _, _, hStore⟩⟩ := prepareRoutes_eq_ok_iff.mp h
  · exact ⟨rfl, rfl, rfl⟩
  · exact storePrepared_frame hStore

/-- An abort deletes the locks and moves a transaction that is not committed to ABORTED. -/
theorem abort_eq (now : Time) (txId : TxId) (reason : String) (code : Option ErrorCode)
    (details : Option (List (String × String))) (db : Db env) :
    (abort now txId reason code details db).2 = { db with
      prepareLocks := db.prepareLocks.deleteTx txId
      transactions := match db.transactions.get? txId with
        | none => db.transactions
        | some tx =>
            if tx.state = .COMMITTED then db.transactions
            else db.transactions.update txId .ABORTED
              (some (abortError tx.error reason code details)) now } := by
  unfold abort
  cases db.transactions.get? txId with
  | none => rfl
  | some tx =>
      by_cases h : tx.state = .COMMITTED <;> simp [h]

/-- The writes of a commit that passes its checks. -/
structure Commits (now : Time) (db db' : Db env) (tx : Transaction) : Prop where
  found : db.transactions.get? tx.txId = some tx
  prepared : tx.state = .PREPARED
  locked : db.prepareLocks.ofTx tx.txId ≠ []
  wellFormed : WellFormedLocks (db.prepareLocks.ofTx tx.txId)
  live : ∀ l ∈ db.prepareLocks.ofTx tx.txId, l.live now
  applied : applyFlows (((db.prepareLocks.ofTx tx.txId).insertionSort
    fun l₁ l₂ => l₁.id ≤ l₂.id).flatMap (·.flows)) db.debts = .ok db'.debts
  checked : ((Dict.groupBy Flow.equivalentId (((db.prepareLocks.ofTx tx.txId).insertionSort
    fun l₁ l₂ => l₁.id ≤ l₂.id).flatMap (·.flows))).items.forM
      (checkEquivalent db.trustLines db.debts db'.debts)) = .ok ()
  trustLines : db'.trustLines = db.trustLines
  prepareLocks : db'.prepareLocks = db.prepareLocks.deleteTx tx.txId
  transactions : db'.transactions = db.transactions.update tx.txId .COMMITTED tx.error now
  auditLog : db'.auditLog = db.auditLog ++
    (Dict.groupBy Flow.equivalentId (((db.prepareLocks.ofTx tx.txId).insertionSort
      fun l₁ l₂ => l₁.id ≤ l₂.id).flatMap (·.flows))).items.map
        fun group => paymentAudit db.trustLines db.debts db'.debts tx group.1

/-- A transaction that is found has the id it was looked up by. -/
theorem TxTable.txId_of_get? {t : TxTable} {tx : Transaction} (h : t.get? txId = some tx) :
    tx.txId = txId := by
  have hFound := List.find?_some h
  simpa using hFound

/-- Persisted locks that parse are well formed, and come in the order of their ids. -/
theorem parsePersistedPrepareLocks_eq_ok {locks validated : List PrepareLock}
    (h : parsePersistedPrepareLocks locks = .ok validated) :
    WellFormedLocks locks ∧ validated = locks.insertionSort fun l₁ l₂ => l₁.id ≤ l₂.id := by
  unfold parsePersistedPrepareLocks at h
  split at h
  · next hWell => exact ⟨hWell.1, (Except.ok.inj h).symm⟩
  · cases h

/-- Persisted locks that do not parse are an internal error. -/
theorem parsePersistedPrepareLocks_eq_error {locks : List PrepareLock} {error : GeoError}
    (h : parsePersistedPrepareLocks locks = .error error) : error = .internal := by
  unfold parsePersistedPrepareLocks at h
  split at h
  · cases h
  · exact (Except.error.inj h).symm

section Raised

/-- A constraint of the database. -/
def GeoError.isDatabase (error : GeoError) : Prop := ∃ violated, error = .database violated

/-- A failed check. -/
def GeoError.isIntegrity (error : GeoError) : Prop := ∃ violated, error = .integrity violated

/-- Writing a debt raises only what the database raises. -/
theorem DebtTable.raises_write (t : DebtTable env) (id : Uuid) (amount : Amount) :
    Raises GeoError.isDatabase (t.write id amount) := by
  unfold DebtTable.write
  split
  · exact .error ⟨_, rfl⟩
  · split
    · exact .ok _
    · exact .error ⟨_, rfl⟩

/-- Saving a debt raises only what the database raises. -/
theorem DebtTable.raises_save (t : DebtTable env) (id : Uuid) (amount : Amount) :
    Raises GeoError.isDatabase (t.save id amount) := by
  unfold DebtTable.save
  split
  · exact .ok _
  · exact t.raises_write id amount

/-- Inserting a debt raises only what the database raises. -/
theorem DebtTable.raises_insert (t : DebtTable env) (a b e : Uuid) (amount : Amount) :
    Raises GeoError.isDatabase (t.insert a b e amount) := by
  unfold DebtTable.insert
  split
  · exact .error ⟨_, rfl⟩
  · split
    · split
      · exact .error ⟨_, rfl⟩
      · split
        · exact .error ⟨_, rfl⟩
        · exact .ok _
    · exact .error ⟨_, rfl⟩

/-- A flow fails on a constraint only. -/
theorem raises_applyFlow (f : Flow) (t : DebtTable env) :
    Raises GeoError.isDatabase (applyFlow f t) := by
  refine Raises.bind ?_ fun result => Raises.bind ?_ fun t₂ => ?_
  · unfold settleReverse
    split
    · exact .ok _
    · split
      · exact (DebtTable.raises_save _ _ _).bind fun _ => .ok _
      · exact .ok _
  · unfold raiseForward
    split
    · split
      · exact DebtTable.raises_insert _ _ _ _ _
      · exact DebtTable.raises_write _ _ _
    · exact .ok _
  · unfold netMutual
    split
    · split
      · exact (DebtTable.raises_save _ _ _).bind fun _ => DebtTable.raises_save _ _ _
      · exact .ok _
    · exact .ok _

/-- Applying flows raises only what the database raises. -/
theorem raises_applyFlows (flows : List Flow) (t : DebtTable env) :
    Raises GeoError.isDatabase (applyFlows flows t) :=
  Raises.foldlM (fun t f => raises_applyFlow f t) flows t

/-- The checks of a commit fail with an integrity violation only. -/
theorem raises_checkEquivalent (tl : TrustTable env) (before after : DebtTable env)
    (group : Uuid × List Flow) : Raises GeoError.isIntegrity (checkEquivalent tl before after group) := by
  refine Raises.bind ?_ fun _ => Raises.bind ?_ fun _ => Raises.bind ?_ fun _ => ?_
  · unfold checkTrustLimits
    split
    · exact .ok _
    · exact .error ⟨_, rfl⟩
  · unfold checkZeroSum
    split
    · exact .ok _
    · exact .error ⟨_, rfl⟩
  · unfold checkDebtSymmetry
    split
    · exact .ok _
    · exact .error ⟨_, rfl⟩
  · unfold checkPaymentDelta
    split
    · exact .ok _
    · exact .error ⟨_, rfl⟩

end Raised

/-- The errors with which a commit gives its transaction up: a failed check, and
an expired lock. -/
def GeoError.givesUp (txId : TxId) (error : GeoError) : Prop :=
  error.isIntegrity ∨ error = .conflict ("Transaction " ++ txId ++ " expired before commit")

/-- After an error of the database a commit does not give its transaction up. -/
theorem GeoError.not_givesUp_database (txId : TxId) {error : GeoError} (h : error.isDatabase) :
    ¬error.givesUp txId := by
  obtain ⟨_, rfl⟩ := h
  rintro (⟨_, h⟩ | h) <;> cases h

/-- The message of another conflict. -/
theorem GeoError.not_givesUp_conflict {txId : TxId} {reason : String}
    (h : reason ≠ " expired before commit") :
    ¬(GeoError.conflict ("Transaction " ++ txId ++ reason)).givesUp txId := by
  rintro (⟨_, hIntegrity⟩ | hExpired)
  · cases hIntegrity
  · rw [GeoError.conflict.injEq, String.append_right_inj] at hExpired
    exact h hExpired

/-- The effects of a commit are rolled back, replaced by an abort, or kept. -/
theorem commitPrepared_cases (now : Time) (tx : Transaction) (locks : List PrepareLock) (db : Db env) :
    (∃ error, commitPrepared now tx locks db = (.error error, db) ∧ error.isDatabase) ∨
    (∃ violated, commitPrepared now tx locks db = (.error (.integrity violated),
      (abort now tx.txId "Invariant violation: E008" (some .E008)
        (some [("invariant", violated.text)]) db).2)) ∨
    ((commitPrepared now tx locks db).1 = .ok () ∧
      ∃ debts, applyFlows (locks.flatMap (·.flows)) db.debts = .ok debts ∧
        ((Dict.groupBy Flow.equivalentId (locks.flatMap (·.flows))).items.forM
          (checkEquivalent db.trustLines db.debts debts)) = .ok () ∧
        (commitPrepared now tx locks db).2 = { db with
          debts := debts
          auditLog := db.auditLog ++ (Dict.groupBy Flow.equivalentId (locks.flatMap (·.flows))).items.map
            fun group => paymentAudit db.trustLines db.debts debts tx group.1
          prepareLocks := db.prepareLocks.deleteTx tx.txId
          transactions := db.transactions.update tx.txId .COMMITTED tx.error now }) := by
  generalize hResult : commitPrepared now tx locks db = result
  unfold commitPrepared at hResult
  simp only at hResult
  split at hResult
  · next error hApplied =>
      subst hResult
      exact Or.inl ⟨error, rfl, raises_applyFlows _ _ error hApplied⟩
  · next debts hApplied =>
      split at hResult
      · next error hChecked =>
          obtain ⟨violated, rfl⟩ := Raises.forM (raises_checkEquivalent db.trustLines db.debts debts) _ error hChecked
          subst hResult
          exact Or.inr (Or.inl ⟨violated, rfl⟩)
      · next hChecked =>
          subst hResult
          exact Or.inr (Or.inr ⟨rfl, debts, hApplied, hChecked, rfl⟩)

/-- A commit keeps the database, aborts a prepared transaction, or commits it. -/
theorem commit_cases (now : Time) (txId : TxId) (db : Db env) :
    ((commit now txId db).2 = db ∧
      ((commit now txId db).1 = .ok () →
        ∃ tx, db.transactions.get? txId = some tx ∧ tx.state = .COMMITTED) ∧
      ∀ error, (commit now txId db).1 = .error error → ¬error.givesUp txId) ∨
    (∃ tx reason code details error, db.transactions.get? txId = some tx ∧ tx.state = .PREPARED ∧
      commit now txId db = (.error error, (abort now txId reason code details db).2)) ∨
    (∃ tx, tx.txId = txId ∧ (commit now txId db).1 = .ok () ∧
      Commits now db (commit now txId db).2 tx) := by
  -- every refusal before the flows are applied leaves the database and names its own reason
  have hRefused {result : Except GeoError Unit × Db env} {error : GeoError}
      (h : result = (.error error, db)) (hKeeps : ¬error.givesUp txId) :
      result.2 = db ∧ (result.1 = .ok () →
        ∃ tx, db.transactions.get? txId = some tx ∧ tx.state = .COMMITTED) ∧
      ∀ error, result.1 = .error error → ¬error.givesUp txId := by
    subst h
    refine ⟨rfl, (fun h => by cases h), fun other hOther => ?_⟩
    cases hOther
    exact hKeeps
  have hGeo (message : String) : ¬(GeoError.geo message).givesUp txId := by
    rintro (⟨_, h⟩ | h) <;> cases h
  generalize hResult : commit now txId db = result
  unfold commit at hResult
  simp only at hResult
  split at hResult
  · exact Or.inl (hRefused hResult.symm (hGeo _))
  · split at hResult
    · exact Or.inl (hRefused hResult.symm (hGeo _))
    · next tx hTx =>
        have hTxId := TxTable.txId_of_get? hTx
        split at hResult
        · next hCommitted =>
            subst hResult
            exact Or.inl ⟨rfl, fun _ => ⟨tx, hTx, hCommitted⟩, fun _ h => by cases h⟩
        · split at hResult
          · refine Or.inl (hRefused hResult.symm ?_)
            rw [String.append_assoc]
            exact GeoError.not_givesUp_conflict (by cases tx.state <;> decide)
          · split at hResult
            · refine Or.inl (hRefused hResult.symm ?_)
              rw [String.append_assoc, String.append_assoc]
              exact GeoError.not_givesUp_conflict (by cases tx.state <;> decide)
            · next hPrepared =>
                rw [ne_eq, not_not] at hPrepared
                split at hResult
                · exact Or.inl (hRefused hResult.symm (hGeo _))
                · next hLocks =>
                    split at hResult
                    · next error hParse =>
                        refine Or.inl (hRefused hResult.symm ?_)
                        rw [parsePersistedPrepareLocks_eq_error hParse]
                        exact hGeo _
                    · next validated hParse =>
                        split at hResult
                        · subst hResult
                          exact Or.inr (Or.inl ⟨tx, _, _, _, _, hTx, hPrepared, rfl⟩)
                        · next hLive =>
                            subst hTxId
                            rcases commitPrepared_cases now tx validated db with
                              ⟨error, hEq, hDatabase⟩ | ⟨violated, h⟩ |
                              ⟨hOk, debts, hApplied, hChecked, hDb⟩
                            · exact Or.inl (hRefused (hResult.symm.trans hEq)
                                (GeoError.not_givesUp_database _ hDatabase))
                            · rw [← hResult, h]
                              exact Or.inr (Or.inl ⟨tx, _, _, _, _, hTx, hPrepared, rfl⟩)
                            · obtain ⟨hWell, hSorted⟩ := parsePersistedPrepareLocks_eq_ok hParse
                              subst hSorted
                              rw [← hResult]
                              refine Or.inr (Or.inr ⟨tx, rfl, hOk, ?_⟩)
                              rw [hDb]
                              exact ⟨hTx, hPrepared, hLocks, hWell, by simpa using hLive, hApplied,
                                hChecked, rfl, rfl, rfl, rfl⟩

/-- A staged commit keeps the database, or commits as an engine-owned one does. -/
theorem commitStaged_cases (now : Time) (txId : TxId) (db : Db env) :
    (commitStaged now txId db).2 = db ∨ (commitStaged now txId db).2 = (commit now txId db).2 := by
  unfold commitStaged
  split
  · next h => exact Or.inr (by rw [h])
  · exact Or.inl rfl

section Flows

variable {t t' : DebtTable env} {flows : List Flow}

/-- Flows are applied one after the other. -/
theorem applyFlows_cons {f : Flow} :
    applyFlows (f :: flows) t = .ok t' ↔
      ∃ t₁, applyFlow f t = .ok t₁ ∧ applyFlows flows t₁ = .ok t' :=
  foldlM_cons_eq_ok_iff

/-- Flows touch only their own pairs, and never bring a deleted row's id back. -/
theorem applyFlows_others (hPos : ∀ f ∈ flows, 0 < f.amount) (h : applyFlows flows t = .ok t') :
    t.Retires t' ∧ ∀ a b e,
      (∀ f ∈ flows, f.equivalentId = e → (a, b) ≠ (f.fromId, f.toId) ∧ (a, b) ≠ (f.toId, f.fromId)) →
        t'.owed a b e = t.owed a b e := by
  induction flows generalizing t with
  | nil =>
      cases h
      exact ⟨.refl _, fun _ _ _ _ => rfl⟩
  | cons f rest ih =>
      obtain ⟨t₁, hFlow, hRest⟩ := applyFlows_cons.mp h
      obtain ⟨_, hSettles⟩ := applyFlow_settles (hPos f List.mem_cons_self) hFlow
      obtain ⟨hRetires, hOwed⟩ := ih (fun g hg => hPos g (List.mem_cons_of_mem _ hg)) hRest
      refine ⟨hSettles.retires.trans hRetires, fun a b e hAway => ?_⟩
      rw [hOwed a b e fun g hg => hAway g (List.mem_cons_of_mem _ hg)]
      apply hSettles.others
      · intro hKey
        simp only [Prod.mk.injEq] at hKey
        exact (hAway f List.mem_cons_self hKey.2.2.symm).1 (by simp [hKey])
      · intro hKey
        simp only [Prod.mk.injEq] at hKey
        exact (hAway f List.mem_cons_self hKey.2.2.symm).2 (by simp [hKey])

end Flows

namespace Commits

variable {tx : Transaction}

/-- The flows that a commit applies, in the order it applies them. -/
def flows (db : Db env) (txId : TxId) : List Flow :=
  ((db.prepareLocks.ofTx txId).insertionSort fun l₁ l₂ => l₁.id ≤ l₂.id).flatMap (·.flows)

/-- The flows of a commit are those of the locks of its transaction. -/
theorem mem_flows {f : Flow} :
    f ∈ flows db txId ↔ ∃ l ∈ db.prepareLocks.ofTx txId, f ∈ l.flows := by
  simp [flows, List.mem_insertionSort]

/-- The flows of a commit are positive. -/
theorem flow_pos (h : Commits now db db' tx) : ∀ f ∈ flows db tx.txId, 0 < f.amount := by
  intro f hf
  obtain ⟨l, hl, hfl⟩ := mem_flows.mp hf
  exact (h.wellFormed l hl).2 f hfl

/-- The checks that a commit passed, for one equivalent with flows. -/
theorem equivalent_checked (h : Commits now db db' tx) {e : Uuid}
    (hFlows : (flows db tx.txId).filter (·.equivalentId = e) ≠ []) :
    checkEquivalent db.trustLines db.debts db'.debts
      (e, (flows db tx.txId).filter (·.equivalentId = e)) = .ok () := by
  apply forM_eq_ok_iff.mp h.checked
  exact (Dict.mem_groupBy_items Flow.equivalentId).mpr ⟨rfl, hFlows⟩

theorem affectedPairs_ne_nil {flows : List Flow} (h : flows ≠ []) : affectedPairs flows ≠ [] := by
  cases flows with
  | nil => exact absurd rfl h
  | cons f rest => simp [affectedPairs]

/-- On a pair that a flow touches, the committed debts are within the limits and one-way. -/
theorem touched (h : Commits now db db' tx) {f : Flow} (hf : f ∈ flows db tx.txId) {a b : Uuid}
    (hPair : (a, b) = (f.fromId, f.toId) ∨ (a, b) = (f.toId, f.fromId)) :
    db'.debts.owed a b f.equivalentId ≤ db.trustLines.limit b a f.equivalentId ∧
      (db'.debts.owed a b f.equivalentId = 0 ∨ db'.debts.owed b a f.equivalentId = 0) := by
  have hMem : f ∈ (flows db tx.txId).filter (·.equivalentId = f.equivalentId) :=
    List.mem_filter.mpr ⟨hf, by simp⟩
  have hNe : (flows db tx.txId).filter (·.equivalentId = f.equivalentId) ≠ [] :=
    List.ne_nil_of_mem hMem
  have hCheck := h.equivalent_checked hNe
  simp only [checkEquivalent] at hCheck
  obtain ⟨_, hLimits, hCheck⟩ := bind_eq_ok_iff.mp hCheck
  obtain ⟨_, _, hCheck⟩ := bind_eq_ok_iff.mp hCheck
  obtain ⟨_, hSymmetry, _⟩ := bind_eq_ok_iff.mp hCheck
  have hPairMem : (a, b) ∈
      affectedPairs ((flows db tx.txId).filter (·.equivalentId = f.equivalentId)) := by
    refine List.mem_flatMap.mpr ⟨f, hMem, ?_⟩
    rcases hPair with hPair | hPair <;> simp [hPair]
  have hPairs := affectedPairs_ne_nil hNe
  exact ⟨(checkTrustLimits_eq_ok_iff hPairs).mp hLimits (a, b) hPairMem,
    (checkDebtSymmetry_eq_ok_iff hPairs).mp hSymmetry (a, b) hPairMem⟩

/-- A commit changes the pairs of its flows only. -/
theorem untouched (h : Commits now db db' tx) :
    db.debts.Retires db'.debts ∧ ∀ a b e,
      (∀ f ∈ flows db tx.txId, f.equivalentId = e →
        (a, b) ≠ (f.fromId, f.toId) ∧ (a, b) ≠ (f.toId, f.fromId)) →
      db'.debts.owed a b e = db.debts.owed a b e :=
  applyFlows_others h.flow_pos h.applied

end Commits

end GeoLedger

import Mathlib
import GeoLedger.Payments.ExactTransfer

/-! `prepare` and `prepare_routes` on one path. They differ in the order of their
checks, in what they reserve within a call and in how they group flows into locks;
on a simple path the last two make no difference. -/
namespace GeoLedger
open Outcomes

variable {env : Env} {db db' : Db env} {now : Time} {txId : TxId} {path : List Pid} {amount : Amount} {e : Uuid}

section Checks

/-- Flows of other senders reserve nothing on the edges of a sender. -/
theorem localReserved_eq_zero {flows : List Flow} {a : Uuid} (h : ∀ f ∈ flows, f.fromId ≠ a) (b : Uuid) :
    localReserved flows a b e = 0 := by
  have hNone : flows.filter (fun f => f.fromId = a ∧ f.toId = b ∧ f.equivalentId = e) = [] := by
    refine List.filter_eq_nil_iff.mpr fun f hf => ?_
    simp [h f hf]
  rw [localReserved, hNone]
  rfl

/-- Where every segment has its own sender, checking segments in turn is checking each alone. -/
theorem checkSegments_eq_mapM {segments : List (Participant × Participant)} {flows : List Flow}
    (hSenders : (segments.map fun segment => segment.1.id).Nodup)
    (hFresh : ∀ f ∈ flows, ∀ segment ∈ segments, f.fromId ≠ segment.1.id) :
    checkSegments db now txId e flows (segments.map fun segment => (segment.1, segment.2, amount)) =
      (segments.mapM fun segment => checkSegment db now txId e segment.1 segment.2 amount 0).map (flows ++ ·) := by
  induction segments generalizing flows with
  | nil =>
      rw [List.mapM_nil, List.map_nil, checkSegments]
      change _ = Except.ok (flows ++ [])
      rw [List.append_nil]
  | cons segment rest ih =>
      rw [List.map_cons, List.nodup_cons] at hSenders
      have hAlone : localReserved flows segment.1.id segment.2.id e = 0 :=
        localReserved_eq_zero (fun f hf => hFresh f hf segment List.mem_cons_self) _
      rw [List.map_cons, checkSegments, hAlone, List.mapM_cons]
      cases hCheck : checkSegment db now txId e segment.1 segment.2 amount 0 with
      | error error => rfl
      | ok flow =>
          have hFrom : flow.fromId = segment.1.id := by
            rw [(checkSegment_eq_ok_iff.mp hCheck).1]
            rfl
          have hLater : ∀ f ∈ flows ++ [flow], ∀ other ∈ rest, f.fromId ≠ other.1.id := by
            intro f hf other hOther
            rcases List.mem_append.mp hf with hOld | hNew
            · exact hFresh f hOld other (List.mem_cons_of_mem _ hOther)
            · rw [List.mem_singleton.mp hNew, hFrom]
              exact fun hSame => hSenders.1 (List.mem_map.mpr ⟨other, hOther, hSame.symm⟩)
          have hRest := ih hSenders.2 hLater
          change checkSegments db now txId e (flows ++ [flow]) _ = _
          rw [hRest]
          cases rest.mapM fun segment => checkSegment db now txId e segment.1 segment.2 amount 0 with
          | error error => rfl
          | ok tail =>
              change Except.ok ((flows ++ [flow]) ++ tail) = Except.ok (flows ++ flow :: tail)
              rw [List.append_assoc, List.singleton_append]

end Checks

section Agreement

/-- The transaction holds locks already, and the path names a participant that is not registered. -/
def LocksHideUnknown (txId : TxId) (path : List Pid) (db : Db env) : Prop :=
  (∃ tx, db.transactions.get? txId = some tx ∧ tx.state.open) ∧ db.prepareLocks.ofTx txId ≠ [] ∧
    resolvePath env.directory path = none

theorem resolveRoutes_single_path (directory : Directory) (path : List Pid) (amount : Amount) :
    resolveRoutes directory [⟨path, amount⟩] =
      (resolvePath directory path).map fun nodes => [(nodes, amount)] := by
  unfold resolveRoutes
  rw [List.mapM_cons]
  cases resolvePath directory path with
  | none => rfl
  | some nodes => rfl

theorem routeSegments_singleton (nodes : List Participant) (amount : Amount) :
    routeSegments [(nodes, amount)] = (hops nodes).map fun segment => (segment.1, segment.2, amount) := by
  simp [routeSegments]

/-- A simple path is checked and stored the same way by both. -/
theorem storePrepared_agrees {tx : Transaction} {nodes : List Participant} (hSimple : path.Nodup)
    (hNodes : resolvePath env.directory path = some nodes) :
    (do
      let flows ← (hops nodes).mapM fun segment => checkSegment db now txId e segment.1 segment.2 amount 0
      storePrepared db now tx (flows.map fun f => (f.fromId, [f]))) =
    (do
      let flows ← checkSegments db now txId e [] (routeSegments [(nodes, amount)])
      storePrepared db now tx (Dict.groupBy Flow.fromId flows).items) := by
  have hSenders : ((pathFlows e nodes amount).map Flow.fromId).Nodup := pathFlows_senders_nodup hNodes hSimple
  have hIds : ((hops nodes).map fun segment => segment.1.id).Nodup := by
    rw [pathFlows, List.map_map] at hSenders
    exact hSenders
  rw [routeSegments_singleton, checkSegments_eq_mapM hIds fun f hf => by cases hf]
  cases hCheck : (hops nodes).mapM fun segment => checkSegment db now txId e segment.1 segment.2 amount 0 with
  | error error => rfl
  | ok flows =>
      obtain ⟨hFlows, -⟩ := checkAlone hCheck
      have hFlows : flows = pathFlows e nodes amount := hFlows
      subst hFlows
      change storePrepared db now tx _ = storePrepared db now tx (Dict.groupBy Flow.fromId (pathFlows e nodes amount)).items
      rw [Dict.groupBy_items_of_nodup Flow.fromId hSenders]

/-- The two preparations of a simple path are the same, unless the check of existing
locks hides an unknown participant from one of them. -/
theorem prepare_eq_prepareRoutes (hLength : 2 ≤ path.length) (hSimple : path.Nodup) (hPos : 0 < amount)
    (hClear : ¬LocksHideUnknown txId path db) :
    prepare now txId path amount e db = prepareRoutes now txId [⟨path, amount⟩] e db := by
  have hRoutes : checkRoutes [⟨path, amount⟩] = .ok () := checkRoutes_eq_ok (by simp [hPos, hLength])
  unfold prepare prepareRoutes
  cases hTx : db.transactions.get? txId with
  | none => rfl
  | some tx =>
      simp only
      by_cases hCommitted : tx.state = .COMMITTED
      · rw [if_pos hCommitted, if_pos hCommitted]
      · by_cases hClosed : tx.state = .ABORTED ∨ tx.state = .REJECTED
        · rw [if_neg hCommitted, if_neg hCommitted, if_pos hClosed, if_pos hClosed]
        · have hOpen : tx.state.open := tx.state.open_iff.mpr ⟨hCommitted, hClosed⟩
          rw [if_neg hCommitted, if_neg hCommitted, if_neg hClosed, if_neg hClosed]
          by_cases hLocks : db.prepareLocks.ofTx txId = []
          · rw [if_neg (not_not.mpr hLocks), hRoutes, resolveRoutes_single_path]
            cases hNodes : resolvePath env.directory path with
            | none =>
                change Except.error (missingParticipants env.directory path) =
                  .error (missingParticipants env.directory (path ++ []))
                rw [List.append_nil]
            | some nodes =>
                simp only [if_neg (not_not.mpr hLocks)]
                exact storePrepared_agrees hSimple hNodes
          · rw [if_pos hLocks]
            cases hNodes : resolvePath env.directory path with
            | none => exact absurd ⟨⟨tx, hTx, hOpen⟩, hLocks, hNodes⟩ hClear
            | some nodes => simp only [if_pos hLocks]

/-- The locks of the transaction read back as one flow for each hop of the path, with
the amount and the equivalent that were asked for. -/
def ReadsBack (txId : TxId) (path : List Pid) (amount : Amount) (e : Uuid) (db : Db env) : Prop :=
  ∃ nodes locks, resolvePath env.directory path = some nodes ∧
    parsePersistedPrepareLocks (db.prepareLocks.ofTx txId) = .ok locks ∧
    (locks.flatMap (·.flows)).Perm (pathFlows e nodes amount)

/-- What a preparation stores is what a commit reads. -/
theorem Prepares.readsBack {tx : Transaction} {nodes : List Participant} (hLength : 2 ≤ path.length) (hPos : 0 < amount)
    (hNodes : resolvePath env.directory path = some nodes)
    (h : Prepares now e tx (pathFlows e nodes amount) db db') : ReadsBack tx.txId path amount e db' := by
  obtain ⟨new, hRows, hPerm, hNew⟩ := h.locks
  have hLocks : db'.prepareLocks.ofTx tx.txId = new := by
    have hFree := h.unlocked
    unfold LockTable.ofTx at hFree ⊢
    rw [hRows, List.filter_append, hFree, List.nil_append, List.filter_eq_self]
    intro l hl
    simpa using (hNew l hl).1
  have hWell : WellFormedLocks new := by
    refine fun l hl => ⟨(hNew l hl).2.2.1, fun f hf => ?_⟩
    have hIn : f ∈ pathFlows e nodes amount := hPerm.subset (List.mem_flatMap.mpr ⟨l, hl, hf⟩)
    rw [(pathFlows_registered hNodes f hIn).2.1]
    exact hPos
  have hSome : new ≠ [] := by
    rintro rfl
    have hNone := hPerm.length_eq
    have hCount := congrArg List.length (resolvePath_registered hNodes).1
    rw [List.length_map] at hCount
    rw [List.flatMap_nil, List.length_nil, pathFlows, List.length_map, hops, List.length_zip,
      List.length_tail] at hNone
    omega
  refine ⟨nodes, new.insertionSort fun l₁ l₂ => l₁.id ≤ l₂.id, hNodes, ?_,
    ((List.perm_insertionSort _ _).flatMap_right _).trans hPerm⟩
  rw [hLocks, parsePersistedPrepareLocks, if_pos ⟨hWell, hSome⟩]

/-- A transaction that needs no preparation: it is committed, or prepared with its locks. -/
def NothingToPrepare (txId : TxId) (db : Db env) : Prop :=
  ∃ tx, db.transactions.get? txId = some tx ∧ AlreadyPrepared db txId tx

/-- The two preparations agree: both raise the same error, or both find that nothing is
left to do, or both leave the same database, whose locks read back as the path. -/
theorem preparations_agree (hLength : 2 ≤ path.length) (hSimple : path.Nodup) (hPos : 0 < amount)
    (hClear : ¬LocksHideUnknown txId path db) :
    (∃ error, prepare now txId path amount e db = .error error ∧
      prepareRoutes now txId [⟨path, amount⟩] e db = .error error) ∨
    ∃ db', prepare now txId path amount e db = .ok db' ∧
      prepareRoutes now txId [⟨path, amount⟩] e db = .ok db' ∧
      ((db' = db ∧ NothingToPrepare txId db) ∨ ReadsBack txId path amount e db') := by
  have hSame : prepare now txId path amount e db = prepareRoutes now txId [⟨path, amount⟩] e db :=
    prepare_eq_prepareRoutes hLength hSimple hPos hClear
  cases hPrepare : prepare now txId path amount e db with
  | error error => exact Or.inl ⟨error, rfl, hSame ▸ hPrepare⟩
  | ok db' =>
      refine Or.inr ⟨db', rfl, hSame ▸ hPrepare, ?_⟩
      obtain hDone | ⟨tx, nodes, rfl, hNodes, hPrepares⟩ := prepare_cases hPrepare
      · exact Or.inl hDone
      · exact Or.inr (hPrepares.readsBack hLength hPos hNodes)

/-- The locks without their ids. -/
def lockContents (db : Db env) : List (TxId × Uuid × List Flow × Time) :=
  db.prepareLocks.rows.map fun l => (l.txId, l.participantId, l.flows, l.expiresAt)

/-- Agreement in every case, with the locks read back whenever both succeed. -/
def PreparationsAgree (now : Time) (txId : TxId) (path : List Pid) (amount : Amount) (e : Uuid) (db : Db env) : Prop :=
  (∃ error, prepare now txId path amount e db = .error error ∧
    prepareRoutes now txId [⟨path, amount⟩] e db = .error error) ∨
  ∃ db₁ db₂, prepare now txId path amount e db = .ok db₁ ∧
    prepareRoutes now txId [⟨path, amount⟩] e db = .ok db₂ ∧
    db₁.transactions.get? txId = db₂.transactions.get? txId ∧ (lockContents db₁).Perm (lockContents db₂) ∧
    ReadsBack txId path amount e db₁

theorem prepare_of_committed {tx : Transaction} (hTx : db.transactions.get? txId = some tx)
    (hState : tx.state = .COMMITTED) : prepare now txId path amount e db = .ok db := by
  unfold prepare
  rw [hTx]
  exact if_pos hState

end Agreement

section Sample

/-- A payment of 2 over the line that B gives A is prepared the same way by both. -/
theorem preparations_agree_direct : ∃ db',
    prepare 0 "p1" ["A", "B"] 2 1 (directBefore 2) = .ok db' ∧
    prepareRoutes 0 "p1" [⟨["A", "B"], 2⟩] 1 (directBefore 2) = .ok db' ∧ ReadsBack "p1" ["A", "B"] 2 1 db' := by
  have hFree : (directBefore 2).prepareLocks.ofTx "p1" = [] := by decide +kernel
  have hState : ((directBefore 2).transactions.get? "p1").map (·.state) = some .NEW := by decide +kernel
  have hOk : (prepare 0 "p1" ["A", "B"] 2 1 (directBefore 2)).toBool = true := by decide +kernel
  rcases @preparations_agree _ (directBefore 2) 0 "p1" ["A", "B"] 2 1 (by decide) (by decide) (by decide)
      fun hHidden => hHidden.2.1 hFree with ⟨error, hError, -⟩ | ⟨db', hPrepare, hRoutes, ⟨-, tx, hTx, hDone⟩ | hRead⟩
  · rw [hError] at hOk
    cases hOk
  · rw [hTx, Option.map_some, Option.some.injEq] at hState
    simp [AlreadyPrepared, hState] at hDone
  · exact ⟨db', hPrepare, hRoutes, hRead⟩

/-- A committed payment is prepared again by neither, and has no locks to read back. And
where a payment holds locks, only `prepare` looks for the participants of a new path. -/
theorem not_preparations_agree :
    ¬PreparationsAgree 0 "p1" ["A", "B"] 2 1 (directAfter 2) ∧
    ¬PreparationsAgree 0 "p1" ["A", "Z"] 2 1 (directPrepared 2) := by
  constructor
  · have hState : ((directAfter 2).transactions.get? "p1").map (·.state) = some .COMMITTED := by decide +kernel
    have hFree : (directAfter 2).prepareLocks.ofTx "p1" = [] := by decide +kernel
    obtain ⟨tx, hTx, hCommitted⟩ := Option.map_eq_some_iff.mp hState
    have hPrepare : prepare 0 "p1" ["A", "B"] 2 1 (directAfter 2) = .ok (directAfter 2) :=
      prepare_of_committed hTx hCommitted
    rintro (⟨error, hError, -⟩ | ⟨db₁, db₂, hOk, -, -, -, nodes, locks, -, hParse, -⟩)
    · rw [hPrepare] at hError
      cases hError
    · rw [hPrepare, Except.ok.injEq] at hOk
      rw [← hOk, hFree] at hParse
      cases hParse
  · have hError : (prepare 0 "p1" ["A", "Z"] 2 1 (directPrepared 2)).toBool = false := by decide +kernel
    have hOk : (prepareRoutes 0 "p1" [⟨["A", "Z"], 2⟩] 1 (directPrepared 2)).toBool = true := by decide +kernel
    rintro (⟨error, -, hRoutes⟩ | ⟨db₁, db₂, hPrepare, -⟩)
    · rw [hRoutes] at hOk
      cases hOk
    · rw [hPrepare] at hError
      cases hError

end Sample

end GeoLedger

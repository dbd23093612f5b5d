import Mathlib
import GeoLedger.PidMigration

/-! The migration of PIDs always goes through. It replaces every old PID and can be taken
back exactly if and only if no cleared edge names an old PID, and no challenge and no
payment holds a text that is a new PID already. -/
namespace GeoLedger.PidMigration
open JsonText Outcomes

variable {Key : Type}

section Updates

variable [DecidableEq Key]

/-- A pass of updates gives every row its own PID when no row has it before or after. -/
theorem update_pass {rows : List (ParticipantRow Key)} (hIds : (rows.map ParticipantRow.id).Nodup)
    {before : ParticipantRow Key → ParticipantRow Key} (hBefore : ∀ r, (before r).id = r.id)
    {pid : ParticipantRow Key → String}
    (hFresh : ∀ r ∈ rows, ∀ q ∈ rows, q.id ≠ r.id → (before q).pid ≠ pid r ∧ pid q ≠ pid r)
    {update : List (ParticipantRow Key) → ParticipantRow Key → Except MigrationError (List (ParticipantRow Key))}
    (hUpdate : ∀ table, ∀ r ∈ rows, update table r = updatePid table r.id (pid r)) :
    rows.foldlM update (rows.map before) = .ok (rows.map fun r => { before r with pid := pid r }) := by
  suffices hPass : ∀ done todo, done ++ todo = rows →
      todo.foldlM update (done.map (fun r => { before r with pid := pid r }) ++ todo.map before) =
        .ok (rows.map fun r => { before r with pid := pid r }) from hPass [] rows rfl
  intro done todo hRows
  induction todo generalizing done with
  | nil =>
      rw [List.append_nil] at hRows
      rw [List.foldlM_nil, List.map_nil, List.append_nil, hRows]
      rfl
  | cons row rest ih =>
      have hRow : row ∈ rows := hRows ▸ List.mem_append_right _ List.mem_cons_self
      have hOther : ∀ q ∈ done ++ rest, q ∈ rows ∧ q.id ≠ row.id := by
        intro q hq
        have hSplit := hIds
        rw [← hRows, List.map_append, List.map_cons] at hSplit
        have hNotMem := (List.nodup_middle.mp hSplit)
        rw [List.nodup_cons, ← List.map_append] at hNotMem
        refine ⟨?_, fun hEq => hNotMem.1 (hEq ▸ List.mem_map_of_mem hq)⟩
        rw [← hRows]
        rcases List.mem_append.mp hq with hDone | hRest
        · exact List.mem_append_left _ hDone
        · exact List.mem_append_right _ (List.mem_cons_of_mem _ hRest)
      have hUnique : ¬∃ r ∈ done.map (fun r => { before r with pid := pid r }) ++ (row :: rest).map before,
          r.id ≠ row.id ∧ r.pid = pid row := by
        rintro ⟨r, hr, hId, hPid⟩
        rcases List.mem_append.mp hr with hDone | hTodo
        · obtain ⟨q, hq, rfl⟩ := List.mem_map.mp hDone
          obtain ⟨hqRows, hqId⟩ := hOther q (List.mem_append_left _ hq)
          exact (hFresh row hRow q hqRows hqId).2 hPid
        · obtain ⟨q, hq, rfl⟩ := List.mem_map.mp hTodo
          rcases List.mem_cons.mp hq with rfl | hRest
          · exact hId (hBefore q)
          · obtain ⟨hqRows, hqId⟩ := hOther q (List.mem_append_right _ hRest)
            exact (hFresh row hRow q hqRows hqId).1 hPid
      have hDone : (done.map (fun r => { before r with pid := pid r })).map
          (fun r => if r.id = row.id then { r with pid := pid row } else r) =
          done.map fun r => { before r with pid := pid r } := by
        rw [List.map_map]
        refine List.map_congr_left fun q hq => if_neg ?_
        rw [hBefore]
        exact (hOther q (List.mem_append_left _ hq)).2
      have hRest : (rest.map before).map (fun r => if r.id = row.id then { r with pid := pid row } else r) =
          rest.map before := by
        rw [List.map_map]
        refine List.map_congr_left fun q hq => if_neg ?_
        rw [hBefore]
        exact (hOther q (List.mem_append_right _ hq)).2
      have hStep : update (done.map (fun r => { before r with pid := pid r }) ++ (row :: rest).map before) row =
          .ok ((done ++ [row]).map (fun r => { before r with pid := pid r }) ++ rest.map before) := by
        rw [hUpdate _ row hRow, updatePid, if_neg hUnique, List.map_append, hDone, List.map_cons, List.map_cons,
          hRest, if_pos (hBefore row), List.map_append, List.append_assoc]
        rfl
      rw [List.foldlM_cons, bind_eq_ok_iff]
      exact ⟨_, hStep, ih (done ++ [row]) (by rw [List.append_assoc]; exact hRows)⟩

/-- A temporary PID has a colon, which no PID has. -/
theorem tmpPid_colon (id : Uuid) : ':' ∈ (tmpPid id).toList := by
  rw [tmpPid, String.toList_append]
  exact List.mem_append_left _ (by decide)

/-- Different rows have different temporary PIDs. -/
theorem tmpPid_injective : Function.Injective tmpPid := by
  intro a b h
  have hLists := congrArg String.toList h
  rw [tmpPid, tmpPid, String.toList_append, String.toList_append] at hLists
  exact toString_injective (String.toList_inj.mp (List.append_cancel_left hLists))

end Updates

section Mapping

variable {rows : List (ParticipantRow Key)} {old new : Key → String}

/-- The mapping of participants whose new PIDs differ. -/
theorem buildMapping_eq (hNew : Function.Injective new) (message : String) (mapping : Dict String String)
    {newPids : List String} (hKeys : (rows.map ParticipantRow.publicKey).Nodup)
    (hFresh : ∀ r ∈ rows, new r.publicKey ∉ newPids) :
    buildMapping new message rows mapping newPids =
      .ok ((rows.map fun r => (r.pid, new r.publicKey)).foldl (fun d e => d.set e.1 e.2) mapping) := by
  induction rows generalizing mapping newPids with
  | nil => rfl
  | cons row rest ih =>
      rw [List.map_cons, List.nodup_cons] at hKeys
      rw [buildMapping, if_neg (hFresh row List.mem_cons_self), ih _ hKeys.2 fun r hr => ?_, List.map_cons, List.foldl_cons]
      rw [List.mem_cons, not_or]
      refine ⟨fun hEq => hKeys.1 ?_, hFresh r (List.mem_cons_of_mem _ hr)⟩
      rw [← hNew hEq]
      exact List.mem_map_of_mem hr

/-- Derived PIDs are distinct. -/
theorem pids_nodup (hOld : Function.Injective old) (hKeys : (rows.map ParticipantRow.publicKey).Nodup)
    (hPids : ∀ r ∈ rows, r.pid = old r.publicKey) : (rows.map ParticipantRow.pid).Nodup := by
  have hMap : rows.map ParticipantRow.pid = (rows.map ParticipantRow.publicKey).map old := by
    rw [List.map_map]
    exact List.map_congr_left hPids
  rw [hMap]
  exact hKeys.map hOld

/-- The mapping looks a participant up. -/
theorem get?_mapping (hNodup : (rows.map ParticipantRow.pid).Nodup) (pid : String) :
    (Dict.ofList (rows.map fun r => (r.pid, new r.publicKey))).get? pid =
      (rows.find? (·.pid = pid)).map fun r => new r.publicKey := by
  have hKeys : ((rows.map fun r => (r.pid, new r.publicKey)).map Prod.fst).Nodup := by
    rw [List.map_map]
    exact hNodup
  rw [Dict.get?_ofList hKeys]
  clear hKeys hNodup
  induction rows with
  | nil => rfl
  | cons row rest ih =>
      rw [List.map_cons, List.lookup_cons, List.find?_cons]
      by_cases hPid : row.pid = pid
      · subst hPid
        simp
      · simp [beq_eq_false_iff_ne.mpr (Ne.symm hPid), hPid, ih]

end Mapping

section Renaming

namespace History

variable {h : History Key} {old new : Key → String}

/-- A registered PID is renamed to the new one of its row. -/
theorem newPid_of_mem (hNodup : (h.participants.map ParticipantRow.pid).Nodup) {r : ParticipantRow Key}
    (hr : r ∈ h.participants) : h.newPid new r.pid = new r.publicKey := by
  have hFind : h.participants.find? (·.pid = r.pid) = some r := by
    cases hFound : h.participants.find? (·.pid = r.pid) with
    | none =>
        have hNone := List.find?_eq_none.mp hFound r hr
        simp at hNone
    | some q =>
        have hPid : q.pid = r.pid := by simpa using List.find?_some hFound
        rw [List.inj_on_of_nodup_map hNodup (List.mem_of_find?_eq_some hFound) hr hPid]
  rw [newPid, hFind]
  rfl

/-- A text that is no registered PID is not renamed. -/
theorem newPid_of_not_mem {pid : String} (hNone : ∀ r ∈ h.participants, r.pid ≠ pid) : h.newPid new pid = pid := by
  have hFind : h.participants.find? (·.pid = pid) = none := by
    refine List.find?_eq_none.mpr fun r hr => ?_
    simpa using hNone r hr
  rw [newPid, hFind]
  rfl

end History

/-- What the migration makes of a payload: only payments are rewritten. -/
def TxPayload.migrated (f : String → String) : TxPayload → TxPayload
  | .payment sender receiver amount equivalent routes key fingerprint =>
      (TxPayload.payment sender receiver amount equivalent routes key fingerprint).rename f
  | .clearing cycle amount equivalent edges => .clearing cycle amount equivalent edges

/-- Migrating a key that holds a text renames this text in place. -/
theorem migrateKey_text {mapping : Dict String String} {updated : List (String × Json)} {key value : String}
    (hLookup : updated.lookup key = some (.text value))
    (hSame : Dict.assign key (.text value) updated = updated) :
    migrateKey mapping updated key = Dict.assign key (.text (mapping.getD value value)) updated := by
  rw [migrateKey, hLookup, Dict.getD]
  dsimp only
  cases mapping.get? value with
  | none => exact hSame.symm
  | some pid => rfl

/-- Migrating a route renames the PIDs of its path. -/
theorem migrateRoute_toJson (mapping : Dict String String) (r : Route) :
    migrateRoute mapping r.toJson =
      Route.toJson { r with path := r.path.map fun p => mapping.getD p p } := by
  simp [migrateRoute, Route.toJson, List.lookup, Dict.assign, migrateHop, Function.comp_def]

/-- The traversal reaches both ends and the paths of a payment, and nothing of a clearing. -/
theorem migratePidStrings_toJson (mapping : Dict String String) (p : TxPayload) :
    migratePidStrings mapping p.toJson = (p.migrated fun s => mapping.getD s s).toJson := by
  cases p with
  | payment sender receiver amount equivalent routes key fingerprint =>
      unfold migratePidStrings TxPayload.toJson
      dsimp only
      rw [List.foldl_cons, @migrateKey_text mapping _ "from" sender rfl rfl, List.foldl_cons, List.foldl_nil,
        @migrateKey_text mapping _ "to" receiver rfl rfl]
      simp [TxPayload.migrated, TxPayload.rename, List.lookup, Dict.assign, migrateRoute_toJson, Function.comp_def]
  | clearing cycle amount equivalent edges =>
      simp [migratePidStrings, TxPayload.toJson, TxPayload.migrated, migrateKey, List.lookup]

/-- The database after the migration. -/
def History.migrated (h : History Key) (derive : Key → String) : History Key where
  participants := h.participants.map fun r => { r with pid := derive r.publicKey }
  challenges := h.challenges.map fun c => { c with pid := h.newPid derive c.pid }
  transactions := h.transactions.map fun t => (t.1, t.2.migrated (h.newPid derive))

end Renaming

section Run

variable [DecidableEq Key] {h : History Key} {old new : Key → String}

/-- The migration goes through, and every update finds its PID free. -/
theorem migrate_eq (hOld : Function.Injective old) (hNew : Function.Injective new)
    (hOldPlain : ∀ k, ':' ∉ (old k).toList) (hNewPlain : ∀ k, ':' ∉ (new k).toList) (message : String)
    (hDerived : h.Derived old) : migrate new message h.toDb = .ok (h.migrated new).toDb := by
  have hNodup := pids_nodup hOld hDerived.keys hDerived.pids
  have hMapping := @buildMapping_eq _ h.participants _ hNew message Dict.empty [] hDerived.keys
    fun _ _ => List.not_mem_nil
  have hGet : ∀ pid, (Dict.ofList (h.participants.map fun r => (r.pid, new r.publicKey))).get? pid =
      (h.participants.find? (·.pid = pid)).map fun r => new r.publicKey := get?_mapping hNodup
  have hTmp : h.participants.foldlM updateTmp h.participants =
      .ok (h.participants.map fun r => { r with pid := tmpPid r.id }) := by
    have hPass := @update_pass _ _ h.participants hDerived.ids id (fun _ => rfl) (fun r => tmpPid r.id) ?_ updateTmp
      fun _ _ _ => rfl
    · rwa [List.map_id] at hPass
    · intro r _ q hq hId
      refine ⟨fun hEq => ?_, fun hEq => hId (tmpPid_injective hEq)⟩
      rw [id, hDerived.pids q hq] at hEq
      exact hOldPlain q.publicKey (hEq ▸ tmpPid_colon r.id)
  have hUpdates : h.participants.foldlM
      (updateNew (Dict.ofList (h.participants.map fun r => (r.pid, new r.publicKey))))
      (h.participants.map fun r => { r with pid := tmpPid r.id }) =
      .ok (h.participants.map fun r => { r with pid := new r.publicKey }) := by
    refine @update_pass _ _ h.participants hDerived.ids (fun r => { r with pid := tmpPid r.id }) (fun _ => rfl)
      (fun r => new r.publicKey) ?_ _ ?_
    · intro r hr q hq hId
      refine ⟨fun hEq => hNewPlain r.publicKey (hEq ▸ tmpPid_colon q.id), fun hEq => hId ?_⟩
      rw [List.inj_on_of_nodup_map hDerived.keys hq hr (hNew hEq)]
    · intro table r hr
      have hNewPid := @History.newPid_of_mem _ _ new hNodup _ hr
      rw [updateNew, hGet]
      cases hFind : h.participants.find? (·.pid = r.pid) with
      | none =>
          have hNone := List.find?_eq_none.mp hFind r hr
          simp at hNone
      | some q =>
          rw [History.newPid, hFind] at hNewPid
          simp only [Option.map_some]
          rw [← hNewPid]
          rfl
  have hD (pid : String) : (Dict.ofList (h.participants.map fun r => (r.pid, new r.publicKey))).getD pid pid =
      h.newPid new pid := by
    rw [Dict.getD, hGet, History.newPid]
  rw [migrate, bind_eq_ok_iff]
  refine ⟨_, hMapping, bind_eq_ok_iff.mpr ⟨_, hTmp, bind_eq_ok_iff.mpr ⟨_, hUpdates, ?_⟩⟩⟩
  refine congrArg Except.ok ?_
  rw [History.toDb, History.migrated]
  congr 1
  · refine List.map_congr_left fun c _ => ?_
    have hChallenge := hD c.pid
    rw [Dict.getD] at hChallenge
    rw [← hChallenge]
    cases hFound : (Dict.ofList (h.participants.map fun r => (r.pid, new r.publicKey))).get? c.pid with
    | none =>
        rw [← Dict.ofList, hFound]
        rfl
    | some pid =>
        rw [← Dict.ofList, hFound]
        rfl
  · simp only [List.map_map]
    refine List.map_congr_left fun t _ => ?_
    simp only [Function.comp_apply]
    rw [← Dict.ofList, migratePidStrings_toJson]
    simp only [hD]

end Run

section Injective

theorem text_injective : Function.Injective Json.text := fun _ _ h => Json.text.inj h

/-- The JSON object of a route determines it. -/
theorem Route.toJson_injective : Function.Injective Route.toJson := by
  rintro ⟨path, amount⟩ ⟨path', amount'⟩ h
  simp only [Route.toJson, Json.dict.injEq, List.cons.injEq, Prod.mk.injEq, Json.list.injEq, Json.text.injEq, true_and,
    and_true] at h
  obtain ⟨hPath, rfl⟩ := h
  rw [List.map_injective_iff.mpr text_injective hPath]

/-- The JSON object of a cleared edge determines it. -/
theorem ClearedEdge.toJson_injective : Function.Injective ClearedEdge.toJson := by
  rintro ⟨debtId, debtor, creditor, amount⟩ ⟨debtId', debtor', creditor', amount'⟩ h
  simp only [ClearedEdge.toJson, Json.dict.injEq, List.cons.injEq, Prod.mk.injEq, Json.text.injEq, true_and,
    and_true] at h
  obtain ⟨rfl, rfl, rfl, rfl⟩ := h
  rfl

/-- A payload is read back from its JSON. -/
theorem TxPayload.toJson_injective : Function.Injective TxPayload.toJson := by
  intro p q h
  cases p with
  | payment sender receiver amount equivalent routes key fingerprint =>
      cases q with
      | payment sender' receiver' amount' equivalent' routes' key' fingerprint' =>
          simp only [TxPayload.toJson, Json.dict.injEq, List.cons.injEq, Prod.mk.injEq, Json.text.injEq,
            Json.list.injEq, true_and, and_true] at h
          obtain ⟨rfl, rfl, rfl, rfl, hRoutes, rfl, rfl⟩ := h
          rw [List.map_injective_iff.mpr Route.toJson_injective hRoutes]
      | clearing cycle amount' equivalent' edges => simp [TxPayload.toJson] at h
  | clearing cycle amount equivalent edges =>
      cases q with
      | payment sender receiver amount' equivalent' routes key fingerprint => simp [TxPayload.toJson] at h
      | clearing cycle' amount' equivalent' edges' =>
          simp only [TxPayload.toJson, Json.dict.injEq, List.cons.injEq, Prod.mk.injEq, Json.text.injEq,
            Json.list.injEq, true_and, and_true] at h
          obtain ⟨hCycle, rfl, rfl, hEdges⟩ := h
          rw [List.map_injective_iff.mpr text_injective hCycle,
            List.map_injective_iff.mpr ClearedEdge.toJson_injective hEdges]

/-- The rows of a history determine it. -/
theorem History.toDb_injective : Function.Injective (@History.toDb Key) := by
  rintro ⟨participants, challenges, transactions⟩ ⟨participants', challenges', transactions'⟩ h
  simp only [History.toDb, Db.mk.injEq] at h
  obtain ⟨rfl, rfl, hTransactions⟩ := h
  have hRow : Function.Injective fun t : Uuid × TxPayload => (⟨t.1, t.2.toJson⟩ : TransactionRow) := by
    rintro ⟨id, p⟩ ⟨id', q⟩ hEq
    simp only [TransactionRow.mk.injEq] at hEq
    obtain ⟨rfl, hPayload⟩ := hEq
    rw [TxPayload.toJson_injective hPayload]
  rw [List.map_injective_iff.mpr hRow hTransactions]

end Injective

section RoundTrip

/-- The PIDs of a payment: both ends and the paths. -/
def TxPayload.pids : TxPayload → List String
  | .payment sender receiver _ _ routes _ _ => sender :: receiver :: routes.flatMap Route.path
  | .clearing .. => []

/-- The PIDs of a clearing: the ends of its edges. -/
def TxPayload.edgeEnds : TxPayload → List String
  | .payment .. => []
  | .clearing _ _ _ edges => edges.flatMap fun e => [e.debtor, e.creditor]

/-- The PIDs of challenges and payments. -/
def History.writtenPids (h : History Key) : List String :=
  h.challenges.map ChallengeRow.pid ++ h.transactions.flatMap fun t => t.2.pids

/-- No cleared edge names a PID that changes, and what is a new PID already is an old one as well. -/
structure Migratable (h : History Key) (derive : Key → String) : Prop where
  edges : ∀ r ∈ h.participants, derive r.publicKey ≠ r.pid → ∀ t ∈ h.transactions, r.pid ∉ t.2.edgeEnds
  written : ∀ s ∈ h.writtenPids, (∃ r ∈ h.participants, derive r.publicKey = s) → ∃ r ∈ h.participants, r.pid = s

/-- A map leaves a list as it is exactly when it leaves every item as it is. -/
theorem map_eq_self_iff {α : Type*} {f : α → α} {l : List α} : l.map f = l ↔ ∀ x ∈ l, f x = x := by
  induction l with
  | nil => simp
  | cons x rest ih => simp [ih]

/-- Renaming the edges changes nothing exactly when their ends keep their names. -/
theorem migrated_eq_rename_iff {f : String → String} (p : TxPayload) :
    p.migrated f = p.rename f ↔ ∀ s ∈ p.edgeEnds, f s = s := by
  cases p with
  | payment => simp [TxPayload.migrated, TxPayload.edgeEnds]
  | clearing cycle amount equivalent edges =>
      rw [eq_comm, TxPayload.migrated, TxPayload.rename, TxPayload.clearing.injEq]
      simp only [true_and, map_eq_self_iff, TxPayload.edgeEnds, List.mem_flatMap, List.mem_cons, List.not_mem_nil,
        or_false]
      constructor
      · rintro h s ⟨e, he, hEnd⟩
        have hEdge := h e he
        rcases hEnd with rfl | rfl
        · exact congrArg ClearedEdge.debtor hEdge
        · exact congrArg ClearedEdge.creditor hEdge
      · intro h e he
        rw [h e.debtor ⟨e, he, Or.inl rfl⟩, h e.creditor ⟨e, he, Or.inr rfl⟩]

/-- A payload survives both migrations exactly when the PIDs of a payment do. -/
theorem migrated_migrated_eq_iff {f g : String → String} (p : TxPayload) :
    (p.migrated f).migrated g = p ↔ ∀ s ∈ p.pids, g (f s) = s := by
  cases p with
  | payment sender receiver amount equivalent routes key fingerprint =>
      simp only [TxPayload.migrated, TxPayload.rename, TxPayload.payment.injEq, true_and, and_true, List.map_map,
        map_eq_self_iff, TxPayload.pids, List.mem_cons, List.mem_flatMap]
      constructor
      · rintro ⟨hSender, hReceiver, hRoutes⟩ s hs
        rcases hs with rfl | rfl | ⟨r, hr, hs⟩
        · exact hSender
        · exact hReceiver
        · have hPath := congrArg Route.path (hRoutes r hr)
          simp only [Function.comp_apply, List.map_map, map_eq_self_iff] at hPath
          exact hPath s hs
      · intro h
        refine ⟨h sender (Or.inl rfl), h receiver (Or.inr (Or.inl rfl)), fun r hr => ?_⟩
        have hPath : (r.path.map f).map g = r.path := by
          rw [List.map_map, map_eq_self_iff]
          exact fun s hs => h s (Or.inr (Or.inr ⟨r, hr, hs⟩))
        simp only [Function.comp_apply, hPath]
  | clearing => simp [TxPayload.migrated, TxPayload.pids]

variable {h : History Key} {old new : Key → String}

/-- After the migration all PIDs are derived by the new scheme. -/
theorem derived_migrated (hDerived : h.Derived old) : (h.migrated new).Derived new where
  ids := by
    rw [History.migrated, List.map_map]
    exact hDerived.ids
  keys := by
    rw [History.migrated, List.map_map]
    exact hDerived.keys
  pids := by
    intro r hr
    obtain ⟨q, -, rfl⟩ := List.mem_map.mp hr
    rfl

/-- A text comes back unless it was a new PID and no old one. -/
theorem newPid_newPid_iff (hOld : Function.Injective old) (hNew : Function.Injective new)
    (hDerived : h.Derived old) (s : String) :
    (h.migrated new).newPid old (h.newPid new s) = s ↔
      ((∃ r ∈ h.participants, new r.publicKey = s) → ∃ r ∈ h.participants, r.pid = s) := by
  have hNodup := pids_nodup hOld hDerived.keys hDerived.pids
  have hMigrated := @derived_migrated _ _ _ new hDerived
  have hBack (r : ParticipantRow Key) (hr : r ∈ h.participants) :
      (h.migrated new).newPid old (new r.publicKey) = r.pid :=
    (History.newPid_of_mem (h := h.migrated new) (pids_nodup hNew hMigrated.keys hMigrated.pids)
      (List.mem_map_of_mem hr)).trans (hDerived.pids r hr).symm
  by_cases hPid : ∃ r ∈ h.participants, r.pid = s
  · obtain ⟨r, hr, rfl⟩ := hPid
    rw [History.newPid_of_mem hNodup hr]
    exact iff_of_true (hBack r hr) fun _ => ⟨r, hr, rfl⟩
  · have hNone : ∀ r ∈ h.participants, r.pid ≠ s := fun r hr hEq => hPid ⟨r, hr, hEq⟩
    rw [History.newPid_of_not_mem hNone]
    by_cases hTaken : ∃ r ∈ h.participants, new r.publicKey = s
    · obtain ⟨r, hr, rfl⟩ := hTaken
      rw [hBack r hr]
      exact iff_of_false (hNone r hr) fun hOnly => hPid (hOnly ⟨r, hr, rfl⟩)
    · refine iff_of_true (History.newPid_of_not_mem fun r hr hEq => ?_) fun hNew => absurd hNew hTaken
      obtain ⟨q, hq, rfl⟩ := List.mem_map.mp hr
      exact hTaken ⟨q, hq, hEq⟩

/-- Every occurrence is replaced exactly when the cleared edges name no PID that changes. -/
theorem migrated_eq_renamed_iff (hOld : Function.Injective old) (hDerived : h.Derived old) :
    h.migrated new = h.renamed new ↔
      ∀ r ∈ h.participants, new r.publicKey ≠ r.pid → ∀ t ∈ h.transactions, r.pid ∉ t.2.edgeEnds := by
  have hNodup := pids_nodup hOld hDerived.keys hDerived.pids
  have hRows : h.migrated new = h.renamed new ↔
      ∀ t ∈ h.transactions, ∀ s ∈ t.2.edgeEnds, h.newPid new s = s := by
    simp only [History.migrated, History.renamed, History.mk.injEq, true_and, List.map_inj_left, Prod.mk.injEq,
      migrated_eq_rename_iff]
  rw [hRows]
  constructor
  · intro hEnds r hr hChanges t ht hMem
    have hSame := hEnds t ht r.pid hMem
    rw [History.newPid_of_mem hNodup hr] at hSame
    exact hChanges hSame
  · intro hEdges t ht s hs
    by_cases hPid : ∃ r ∈ h.participants, r.pid = s
    · obtain ⟨r, hr, rfl⟩ := hPid
      rw [History.newPid_of_mem hNodup hr]
      by_contra hChanges
      exact hEdges r hr hChanges t ht hs
    · exact History.newPid_of_not_mem fun r hr hEq => hPid ⟨r, hr, hEq⟩

/-- The database comes back exactly when no text of a challenge or a payment was a new PID only. -/
theorem migrated_migrated_iff (hOld : Function.Injective old) (hNew : Function.Injective new)
    (hDerived : h.Derived old) :
    (h.migrated new).migrated old = h ↔
      ∀ s ∈ h.writtenPids, (∃ r ∈ h.participants, new r.publicKey = s) → ∃ r ∈ h.participants, r.pid = s := by
  have hParticipants : (h.participants.map fun r => ({ r with pid := new r.publicKey } : ParticipantRow Key)).map
      (fun r => { r with pid := old r.publicKey }) = h.participants := by
    rw [List.map_map, map_eq_self_iff]
    intro r hr
    simp only [Function.comp_apply, ← hDerived.pids r hr]
  have hRows : (h.migrated new).migrated old = h ↔
      ∀ s ∈ h.writtenPids, (h.migrated new).newPid old (h.newPid new s) = s := by
    have hSplit : (h.migrated new).migrated old = h ↔
        (h.challenges.map fun c => ({ c with pid := h.newPid new c.pid } : ChallengeRow)).map
            (fun c => { c with pid := (h.migrated new).newPid old c.pid }) = h.challenges ∧
          (h.transactions.map fun t => (t.1, t.2.migrated (h.newPid new))).map
            (fun t => (t.1, t.2.migrated ((h.migrated new).newPid old))) = h.transactions := by
      constructor
      · intro hEq
        exact ⟨congrArg History.challenges hEq, congrArg History.transactions hEq⟩
      · rintro ⟨hChallenges, hTransactions⟩
        calc (h.migrated new).migrated old
            = ⟨h.participants, h.challenges, h.transactions⟩ := by
              rw [← hChallenges, ← hTransactions, ← hParticipants]
              rfl
          _ = h := rfl
    rw [hSplit, List.map_map, List.map_map, map_eq_self_iff, map_eq_self_iff]
    simp only [Function.comp_apply, History.writtenPids, List.mem_append, List.mem_map, List.mem_flatMap]
    constructor
    · rintro ⟨hChallenges, hTransactions⟩ s (⟨c, hc, rfl⟩ | ⟨t, ht, hs⟩)
      · exact congrArg ChallengeRow.pid (hChallenges c hc)
      · exact (migrated_migrated_eq_iff t.2).mp (congrArg Prod.snd (hTransactions t ht)) s hs
    · intro hWritten
      refine ⟨fun c hc => ?_, fun t ht => ?_⟩
      · rw [hWritten c.pid (Or.inl ⟨c, hc, rfl⟩)]
      · rw [(migrated_migrated_eq_iff t.2).mpr fun s hs => hWritten s (Or.inr ⟨t, ht, hs⟩)]
  rw [hRows]
  exact forall₂_congr fun s _ => newPid_newPid_iff hOld hNew hDerived s

variable [DecidableEq Key]

/-- The migration there and back is complete and exact exactly on the databases that are `Migratable`. -/
theorem migrate_iff (hOld : Function.Injective old) (hNew : Function.Injective new)
    (hOldPlain : ∀ k, ':' ∉ (old k).toList) (hNewPlain : ∀ k, ':' ∉ (new k).toList) (message back : String)
    (hDerived : h.Derived old) :
    (∃ db, migrate new message h.toDb = .ok db ∧ db = (h.renamed new).toDb ∧
        migrate old back db = .ok h.toDb) ↔ Migratable h new := by
  have hThere := migrate_eq hOld hNew hOldPlain hNewPlain message hDerived
  have hBack := migrate_eq hNew hOld hNewPlain hOldPlain back (@derived_migrated _ _ _ new hDerived)
  have hCondition : Migratable h new ↔ h.migrated new = h.renamed new ∧ (h.migrated new).migrated old = h := by
    rw [migrated_eq_renamed_iff hOld hDerived, migrated_migrated_iff hOld hNew hDerived]
    exact ⟨fun hM => ⟨hM.edges, hM.written⟩, fun hBoth => ⟨hBoth.1, hBoth.2⟩⟩
  rw [hCondition]
  constructor
  · rintro ⟨db, hDb, hRenamed, hRestored⟩
    obtain rfl := Except.ok.inj (hThere.symm.trans hDb)
    exact ⟨History.toDb_injective hRenamed, History.toDb_injective (Except.ok.inj (hBack.symm.trans hRestored))⟩
  · rintro ⟨hRenamed, hRestored⟩
    exact ⟨_, hThere, congrArg History.toDb hRenamed, hBack.trans (congrArg Except.ok (congrArg History.toDb hRestored))⟩

/-- The upgrade replaces every old PID and the downgrade takes it back, and the other way
round, exactly on the databases that are `Migratable`. -/
theorem pid_migration_reversible (scheme : PidScheme Key) {first second : History Key}
    (hV0 : first.Derived scheme.pidV0) (hV1 : second.Derived scheme.pidV1) :
    ((∃ db, upgrade scheme first.toDb = .ok db ∧ db = (first.renamed scheme.pidV1).toDb ∧
        downgrade scheme db = .ok first.toDb) ↔ Migratable first scheme.pidV1) ∧
      ((∃ db, downgrade scheme second.toDb = .ok db ∧ db = (second.renamed scheme.pidV0).toDb ∧
        upgrade scheme db = .ok second.toDb) ↔ Migratable second scheme.pidV0) :=
  ⟨migrate_iff scheme.pidV0_injective scheme.pidV1_injective scheme.pidV0_plain scheme.pidV1_plain _ _ hV0,
    migrate_iff scheme.pidV1_injective scheme.pidV0_injective scheme.pidV1_plain scheme.pidV0_plain _ _ hV1⟩

/-- Two public keys of the signature scheme. -/
inductive SampleKey where
  | alice
  | bob
deriving DecidableEq

/-- Their PIDs in both derivations. -/
def sampleScheme : PidScheme SampleKey where
  pidV0
    | .alice => "11qYAYKxCrfVS_7TyWQHOg7hcvPapiMlrwIaaPcHURo"
    | .bob => "PUAXw-hDiVqStwqnTRt-vJyYLM8uxJaMwM1V8Sr0Zgw"
  pidV1
    | .alice => "3HhGPB6ht33n51YFaocqBtGePb3xqT4VgnjYbd81eeZW"
    | .bob => "4uGkom8VQM2v7s7VPyBrqhFL8a1rFsU2oYqQ9dnS2RBc"
  pidV0_injective := by
    intro a b h
    cases a <;> cases b <;> first | rfl | exact absurd h (by decide)
  pidV1_injective := by
    intro a b h
    cases a <;> cases b <;> first | rfl | exact absurd h (by decide)
  pidV0_plain k := by cases k <;> decide
  pidV1_plain k := by cases k <;> decide

/-- Two participants and a transaction between them. -/
def sampleHistory (derive : SampleKey → String) (payload : TxPayload) : History SampleKey where
  participants := [⟨1, derive .alice, .alice⟩, ⟨2, derive .bob, .bob⟩]
  challenges := [⟨3, derive .alice⟩]
  transactions := [(4, payload)]

/-- A payment between the two. -/
def samplePayment (derive : SampleKey → String) : TxPayload :=
  .payment (derive .alice) (derive .bob) "5" "HOUR" [⟨[derive .alice, derive .bob], "5"⟩] "tx" "print"

theorem derived_sample (derive : SampleKey → String) (payload : TxPayload) :
    (sampleHistory derive payload).Derived derive where
  ids := by simp [sampleHistory]
  keys := by simp [sampleHistory]
  pids := by simp [sampleHistory]

/-- A history of one payment is renamed to the other scheme and back, in both directions. -/
theorem pid_migration_payment :
    (∃ db, upgrade sampleScheme (sampleHistory sampleScheme.pidV0 (samplePayment sampleScheme.pidV0)).toDb = .ok db ∧
        db = ((sampleHistory sampleScheme.pidV0 (samplePayment sampleScheme.pidV0)).renamed sampleScheme.pidV1).toDb ∧
        downgrade sampleScheme db =
          .ok (sampleHistory sampleScheme.pidV0 (samplePayment sampleScheme.pidV0)).toDb) ∧
      ∃ db, downgrade sampleScheme (sampleHistory sampleScheme.pidV1 (samplePayment sampleScheme.pidV1)).toDb = .ok db ∧
        db = ((sampleHistory sampleScheme.pidV1 (samplePayment sampleScheme.pidV1)).renamed sampleScheme.pidV0).toDb ∧
        upgrade sampleScheme db =
          .ok (sampleHistory sampleScheme.pidV1 (samplePayment sampleScheme.pidV1)).toDb := by
  have hMigratable (derive other : SampleKey → String) :
      Migratable (sampleHistory derive (samplePayment derive)) other := by
    constructor
    · simp [sampleHistory, samplePayment, TxPayload.edgeEnds]
    · simp [sampleHistory, samplePayment, History.writtenPids, TxPayload.pids]
  obtain ⟨hUp, hDown⟩ := pid_migration_reversible sampleScheme
    (derived_sample sampleScheme.pidV0 (samplePayment sampleScheme.pidV0))
    (derived_sample sampleScheme.pidV1 (samplePayment sampleScheme.pidV1))
  exact ⟨hUp.mpr (hMigratable _ _), hDown.mpr (hMigratable _ _)⟩

/-- The edges of a clearing keep the old PIDs. -/
theorem cleared_edge_kept :
    ¬∀ h : History SampleKey, h.Derived sampleScheme.pidV0 →
      ∃ db, upgrade sampleScheme h.toDb = .ok db ∧ db = (h.renamed sampleScheme.pidV1).toDb ∧
        downgrade sampleScheme db = .ok h.toDb := by
  intro hAll
  have hClearing := hAll _ (derived_sample sampleScheme.pidV0
    (.clearing ["debt"] "5" "HOUR" [⟨"debt", sampleScheme.pidV0 .alice, sampleScheme.pidV0 .bob, "5"⟩]))
  have hMigratable := (migrate_iff sampleScheme.pidV0_injective sampleScheme.pidV1_injective
    sampleScheme.pidV0_plain sampleScheme.pidV1_plain _ _ (derived_sample _ _)).mp hClearing
  refine hMigratable.edges ⟨1, sampleScheme.pidV0 .alice, .alice⟩ List.mem_cons_self (by decide) _
    List.mem_cons_self ?_
  exact List.mem_cons_self

end RoundTrip

end GeoLedger.PidMigration

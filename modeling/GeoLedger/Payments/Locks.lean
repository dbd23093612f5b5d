import Mathlib
import GeoLedger.Payments.EngineEffects

/-! What a preparation reserves. Both entry points of the engine check every
segment against the capacity left by other payments and by the earlier segments
of the same call, and then write the flows as locks owned by their senders. -/
namespace GeoLedger
open Outcomes

variable {env : Env}

theorem Directory.pid_injective (d : Directory) {p q : Participant} (hp : p ∈ d.participants)
    (hq : q ∈ d.participants) (h : p.pid = q.pid) : p = q :=
  Rows.eq_of_column d.pid_unique hp hq h

theorem Directory.id_injective (d : Directory) {p q : Participant} (hp : p ∈ d.participants)
    (hq : q ∈ d.participants) (h : p.id = q.id) : p = q :=
  Rows.eq_of_column d.participant_id_unique hp hq h

section Hops

variable {α β : Type}

theorem mem_of_mem_hops {path : List α} {segment : α × α} (h : segment ∈ hops path) :
    segment.1 ∈ path ∧ segment.2 ∈ path :=
  ⟨(List.of_mem_zip h).1, List.mem_of_mem_tail (List.of_mem_zip h).2⟩

theorem hops_cons_cons (x y : α) (rest : List α) : hops (x :: y :: rest) = (x, y) :: hops (y :: rest) :=
  rfl

theorem length_hops {path : List α} : (hops path).length = path.length - 1 := by
  rw [hops, List.length_zip, List.length_tail]
  omega

/-- A node after the last one adds one hop. -/
theorem hops_append_singleton {path : List α} {last x : α} (h : path.getLast? = some last) :
    hops (path ++ [x]) = hops path ++ [(last, x)] := by
  induction path with
  | nil => cases h
  | cons y rest ih =>
      cases rest with
      | nil =>
          cases h
          rfl
      | cons z tail =>
          rw [List.getLast?_cons_cons] at h
          rw [List.cons_append, List.cons_append, hops_cons_cons, hops_cons_cons, ← List.cons_append, ih h]
          rfl

theorem hops_map (f : α → β) (path : List α) :
    hops (path.map f) = (hops path).map fun hop => (f hop.1, f hop.2) := by
  rw [hops, hops, ← List.map_tail, List.zip_map]
  rfl

/-- The senders of a simple path are different. -/
theorem nodup_hops_fst {path : List α} (h : path.Nodup) : ((hops path).map Prod.fst).Nodup := by
  induction path with
  | nil => exact List.nodup_nil
  | cons x rest ih =>
      cases rest with
      | nil => exact List.nodup_nil
      | cons y tail =>
          rw [List.nodup_cons] at h
          rw [hops_cons_cons, List.map_cons, List.nodup_cons]
          refine ⟨fun hIn => h.1 ?_, ih h.2⟩
          obtain ⟨hop, hHop, hEq⟩ := List.mem_map.mp hIn
          have hMem : hop.1 ∈ y :: tail := (List.of_mem_zip hHop).1
          rwa [hEq] at hMem

/-- Every node of a path is its first node or the end of a hop. -/
theorem mem_path_cases {path : List α} {first x : α} (hFirst : path.head? = some first) (hx : x ∈ path) :
    x = first ∨ ∃ hop ∈ hops path, hop.2 = x := by
  induction path generalizing first with
  | nil => cases hx
  | cons y rest ih =>
      cases hFirst
      rcases List.mem_cons.mp hx with rfl | hRest
      · exact Or.inl rfl
      · cases rest with
        | nil => cases hRest
        | cons z tail =>
            rcases ih rfl hRest with rfl | ⟨hop, hHop, hEnd⟩
            · exact Or.inr ⟨(y, x), List.mem_cons_self, rfl⟩
            · exact Or.inr ⟨hop, List.mem_cons_of_mem _ hHop, hEnd⟩

end Hops

section Inserted

/-- Inserted locks stand at the end of the table, one for each entry. -/
theorem LockTable.rows_of_insertAll {t t' : LockTable env} {txId : TxId} {expiresAt : Time}
    {locks : List (Uuid × List Flow)} (h : t.insertAll txId expiresAt locks = .ok t') :
    ∃ new, t'.rows = t.rows ++ new ∧ new.map (fun l => (l.participantId, l.flows)) = locks ∧
      ∀ l ∈ new, l.txId = txId ∧ l.expiresAt = expiresAt := by
  induction locks generalizing t with
  | nil =>
      cases h
      exact ⟨[], by simp, rfl, by simp⟩
  | cons entry rest ih =>
      obtain ⟨participantId, flows⟩ := entry
      rw [insertAll] at h
      obtain ⟨t₁, hInsert, hRest⟩ := bind_eq_ok_iff.mp h
      have hRows : t₁.rows = t.rows ++ [⟨env.uuid4 t.generated, txId, participantId, flows, expiresAt⟩] := by
        unfold insert at hInsert
        split at hInsert
        · cases hInsert
        · cases hInsert
          rfl
      obtain ⟨new, hNew, hMap, hAll⟩ := ih hRest
      refine ⟨⟨env.uuid4 t.generated, txId, participantId, flows, expiresAt⟩ :: new, ?_, ?_, ?_⟩
      · rw [hNew, hRows, List.append_assoc, List.singleton_append]
      · rw [List.map_cons, hMap]
      · intro l hl
        rcases List.mem_cons.mp hl with rfl | hl
        · exact ⟨rfl, rfl⟩
        · exact hAll l hl

/-- Entries for different participants can be inserted when the transaction has no locks. -/
theorem LockTable.insertAll_eq_ok {t : LockTable env} {txId : TxId} (expiresAt : Time)
    {locks : List (Uuid × List Flow)} (hUnique : (locks.map Prod.fst).Nodup)
    (hFree : ∀ l ∈ t.rows, l.txId = txId → l.participantId ∉ locks.map Prod.fst) :
    ∃ t', t.insertAll txId expiresAt locks = .ok t' := by
  induction locks generalizing t with
  | nil => exact ⟨t, rfl⟩
  | cons entry rest ih =>
      obtain ⟨participantId, flows⟩ := entry
      rw [List.map_cons, List.nodup_cons] at hUnique
      have hKey : (txId, participantId) ∉ t.rows.map fun l => (l.txId, l.participantId) := by
        intro hIn
        obtain ⟨l, hl, hEq⟩ := List.mem_map.mp hIn
        simp only [Prod.mk.injEq] at hEq
        exact hFree l hl hEq.1 (hEq.2 ▸ List.mem_cons_self)
      have hInsert : ∃ t₁, t.insert txId participantId flows expiresAt = .ok t₁ ∧
          t₁.rows = t.rows ++ [⟨env.uuid4 t.generated, txId, participantId, flows, expiresAt⟩] := by
        rw [insert, dif_neg hKey]
        exact ⟨_, rfl, rfl⟩
      obtain ⟨t₁, hInsert, hRows⟩ := hInsert
      obtain ⟨t', hRest⟩ := ih (t := t₁) hUnique.2 (by
        intro l hl hTx
        rw [hRows] at hl
        rcases List.mem_append.mp hl with hOld | hNew
        · exact fun hIn => hFree l hOld hTx (List.mem_cons_of_mem _ hIn)
        · rw [List.mem_singleton.mp hNew]
          exact hUnique.1)
      exact ⟨t', by rw [insertAll, hInsert]; exact hRest⟩

end Inserted

section Segments

variable {db : Db env} {now : Time} {txId : TxId} {e : Uuid}

/-- The flow of a segment. -/
def segmentFlow (e : Uuid) (segment : Participant × Participant × Amount) : Flow :=
  ⟨segment.1.id, segment.2.1.id, segment.2.2, e⟩

/-- A segment passes exactly when the amount and all reservations along it, live and local,
are within its available capacity. -/
theorem checkSegment_eq_ok_iff {sender receiver : Participant} {amount reserved : Amount} {f : Flow} :
    checkSegment db now txId e sender receiver amount reserved = .ok f ↔
      f = segmentFlow e (sender, receiver, amount) ∧
        amount + (reservedUsage db now txId sender.id receiver.id e + reserved) ≤
          availableCapacity db sender.id receiver.id e := by
  simp only [checkSegment, segmentFlow]
  split
  · next h =>
      have hShort : availableCapacity db sender.id receiver.id e <
        amount + (reservedUsage db now txId sender.id receiver.id e + reserved) := h
      simp [not_le.mpr hShort]
  · next h =>
      have hEnough : amount + (reservedUsage db now txId sender.id receiver.id e + reserved) ≤
        availableCapacity db sender.id receiver.id e := not_lt.mp h
      simp [hEnough, eq_comm]

/-- The flows of one call fit, pair by pair, into what other payments leave. -/
def FlowsFit (db : Db env) (now : Time) (txId : TxId) (e : Uuid) (flows : List Flow) : Prop :=
  ∀ a b, (∃ f ∈ flows, f.fromId = a ∧ f.toId = b) →
    localReserved flows a b e + reservedUsage db now txId a b e ≤ availableCapacity db a b e

/-- The local reservations of two lists of flows add up. -/
theorem localReserved_append (flows others : List Flow) (a b e : Uuid) :
    localReserved (flows ++ others) a b e = localReserved flows a b e + localReserved others a b e := by
  simp [localReserved]

theorem localReserved_perm {flows others : List Flow} (h : flows.Perm others) (a b e : Uuid) :
    localReserved flows a b e = localReserved others a b e :=
  ((h.filter _).map _).sum_eq

theorem localReserved_singleton {f : Flow} (he : f.equivalentId = e) (a b : Uuid) :
    localReserved [f] a b e = if f.fromId = a ∧ f.toId = b then f.amount else 0 := by
  by_cases h : f.fromId = a ∧ f.toId = b <;> simp [localReserved, h, he]

/-- Checking segments one after the other collects their flows, which fit together. -/
theorem checkSegments_eq_ok {segments : List (Participant × Participant × Amount)}
    {flows flows' : List Flow} (hFit : FlowsFit db now txId e flows)
    (h : checkSegments db now txId e flows segments = .ok flows') :
    flows' = flows ++ segments.map (segmentFlow e) ∧ FlowsFit db now txId e flows' := by
  induction segments generalizing flows with
  | nil =>
      cases h
      simpa using hFit
  | cons segment rest ih =>
      obtain ⟨sender, receiver, amount⟩ := segment
      rw [checkSegments] at h
      obtain ⟨flow, hCheck, hRest⟩ := bind_eq_ok_iff.mp h
      obtain ⟨rfl, hCapacity⟩ := checkSegment_eq_ok_iff.mp hCheck
      have hFit' : FlowsFit db now txId e (flows ++ [segmentFlow e (sender, receiver, amount)]) := by
        intro a b hPair
        have hSegment : (segmentFlow e (sender, receiver, amount)).equivalentId = e := rfl
        rw [localReserved_append, localReserved_singleton hSegment]
        split
        · next hSame =>
            obtain ⟨rfl, rfl⟩ := hSame
            simp only [segmentFlow] at hCapacity ⊢
            linarith
        · next hOther =>
            rw [add_zero]
            refine hFit a b ?_
            obtain ⟨f, hf, hEnds⟩ := hPair
            rcases List.mem_append.mp hf with hOld | hNew
            · exact ⟨f, hOld, hEnds⟩
            · rw [List.mem_singleton.mp hNew] at hEnds
              exact absurd hEnds hOther
      obtain ⟨hFlows, hFits⟩ := ih hFit' hRest
      exact ⟨by rw [hFlows, List.append_assoc, List.map_cons, List.singleton_append], hFits⟩

/-- Flows of nonnegative amounts reserve nonnegative amounts. -/
theorem localReserved_nonneg {flows : List Flow} (h : ∀ f ∈ flows, 0 ≤ f.amount) (a b : Uuid) :
    0 ≤ localReserved flows a b e := by
  refine List.sum_nonneg fun x hx => ?_
  obtain ⟨f, hf, rfl⟩ := List.mem_map.mp hx
  exact h f (List.mem_filter.mp hf).1

/-- Segments whose flows fit together, with those collected before, pass one after the other. -/
theorem checkSegments_of_fit {segments : List (Participant × Participant × Amount)} {flows : List Flow}
    (hNonneg : ∀ segment ∈ segments, 0 ≤ segment.2.2)
    (hFit : FlowsFit db now txId e (flows ++ segments.map (segmentFlow e))) :
    checkSegments db now txId e flows segments = .ok (flows ++ segments.map (segmentFlow e)) := by
  induction segments generalizing flows with
  | nil => simp [checkSegments]
  | cons segment rest ih =>
      obtain ⟨sender, receiver, amount⟩ := segment
      have hAssoc : flows ++ ((sender, receiver, amount) :: rest).map (segmentFlow e) =
          (flows ++ [segmentFlow e (sender, receiver, amount)]) ++ rest.map (segmentFlow e) := by
        rw [List.append_assoc, List.map_cons, List.singleton_append]
      rw [hAssoc] at hFit ⊢
      have hEnough := hFit sender.id receiver.id
        ⟨segmentFlow e (sender, receiver, amount), by simp, rfl, rfl⟩
      have hRest := @localReserved_nonneg e (rest.map (segmentFlow e)) (by
        intro f hf
        obtain ⟨other, hOther, rfl⟩ := List.mem_map.mp hf
        exact hNonneg other (List.mem_cons_of_mem _ hOther)) sender.id receiver.id
      have hHead : localReserved [segmentFlow e (sender, receiver, amount)] sender.id receiver.id e =
          amount := by
        have hSegment : (segmentFlow e (sender, receiver, amount)).equivalentId = e := rfl
        rw [localReserved_singleton hSegment]
        exact if_pos ⟨rfl, rfl⟩
      rw [localReserved_append, localReserved_append, hHead] at hEnough
      have hCheck : checkSegment db now txId e sender receiver amount
          (localReserved flows sender.id receiver.id e) =
            .ok (segmentFlow e (sender, receiver, amount)) :=
        checkSegment_eq_ok_iff.mpr ⟨rfl, by linarith⟩
      rw [checkSegments, hCheck]
      exact ih (fun other hOther => hNonneg other (List.mem_cons_of_mem _ hOther)) hFit

theorem flowsFit_nil : FlowsFit db now txId e [] := by
  rintro a b ⟨f, hf, _⟩
  cases hf

/-- Flows of different senders fit together when each of them fits alone. -/
theorem flowsFit_of_senders {flows : List Flow} (hUnique : (flows.map Flow.fromId).Nodup)
    (hAlone : ∀ f ∈ flows, f.equivalentId = e ∧
      f.amount + reservedUsage db now txId f.fromId f.toId e ≤ availableCapacity db f.fromId f.toId e) :
    FlowsFit db now txId e flows := by
  rintro a b ⟨f, hf, rfl, rfl⟩
  have hSum : localReserved flows f.fromId f.toId e = f.amount := by
    have hFilter : flows.filter (fun g => g.fromId = f.fromId ∧ g.toId = f.toId ∧ g.equivalentId = e) =
        flows.filter fun g => g.fromId = f.fromId := by
      refine List.filter_congr fun g hg => ?_
      by_cases hFrom : g.fromId = f.fromId
      · rw [Rows.eq_of_column hUnique hg hf hFrom]
        simp [(hAlone f hf).1]
      · simp [hFrom]
    have hKey := Rows.sum_ite_key (g := Flow.amount) hUnique f.fromId
    rw [(Rows.find?_eq_some_iff hUnique).mpr ⟨hf, rfl⟩] at hKey
    rw [localReserved, hFilter, Rows.sum_filter]
    exact hKey
  rw [hSum]
  exact (hAlone f hf).2

end Segments

section Prepared

variable {db db' : Db env} {now : Time} {txId : TxId} {e : Uuid}

/-- A preparation that stores `flows` for a transaction. -/
structure Prepares (now : Time) (e : Uuid) (tx : Transaction) (flows : List Flow) (db db' : Db env) :
    Prop where
  found : db.transactions.get? tx.txId = some tx
  isOpen : tx.state.open
  unlocked : db.prepareLocks.ofTx tx.txId = []
  equivalent : ∀ f ∈ flows, f.equivalentId = e
  registered : ∀ f ∈ flows, env.directory.Registered f.fromId ∧ env.directory.Registered f.toId
  fits : FlowsFit db now tx.txId e flows
  locks : ∃ new, db'.prepareLocks.rows = db.prepareLocks.rows ++ new ∧
    (new.flatMap (·.flows)).Perm flows ∧
    ∀ l ∈ new, l.txId = tx.txId ∧ l.expiresAt = now + env.prepareLockTtlSeconds ∧ l.flows ≠ [] ∧
      ∀ f ∈ l.flows, f.fromId = l.participantId
  transactions : db'.transactions = db.transactions.update tx.txId .PREPARED tx.error now
  debts : db'.debts = db.debts
  trustLines : db'.trustLines = db.trustLines

/-- The locks that are stored carry exactly the prepared flows, by their debtors. -/
theorem storePrepared_locks {tx : Transaction} {locks : List (Uuid × List Flow)} {flows : List Flow}
    (hOwned : ∀ entry ∈ locks, entry.2 ≠ [] ∧ ∀ f ∈ entry.2, f.fromId = entry.1)
    (hFlows : (locks.flatMap (·.2)).Perm flows) (h : storePrepared db now tx locks = .ok db') :
    ∃ new, db'.prepareLocks.rows = db.prepareLocks.rows ++ new ∧
      new.map (fun l => (l.participantId, l.flows)) = locks ∧
      (new.flatMap (·.flows)).Perm flows ∧
      ∀ l ∈ new, l.txId = tx.txId ∧ l.expiresAt = now + env.prepareLockTtlSeconds ∧ l.flows ≠ [] ∧
        ∀ f ∈ l.flows, f.fromId = l.participantId := by
  obtain ⟨prepareLocks, hInsert, rfl⟩ := storePrepared_eq_ok_iff.mp h
  obtain ⟨new, hRows, hMap, hAll⟩ := LockTable.rows_of_insertAll hInsert
  refine ⟨new, hRows, hMap, ?_, fun l hl => ?_⟩
  · have hFlat : new.flatMap (·.flows) = locks.flatMap (·.2) := by
      rw [← hMap, List.flatMap_map]
    rw [hFlat]
    exact hFlows
  · have hEntry : (l.participantId, l.flows) ∈ locks := hMap ▸ List.mem_map_of_mem hl
    exact ⟨(hAll l hl).1, (hAll l hl).2, hOwned _ hEntry⟩

/-- A resolved path names registered participants by their PIDs, in order. -/
theorem resolvePath_registered {directory : Directory} {path : List Pid} {nodes : List Participant}
    (h : resolvePath directory path = some nodes) :
    nodes.map (·.pid) = path ∧ ∀ p ∈ nodes, p ∈ directory.participants := by
  unfold resolvePath at h
  induction path generalizing nodes with
  | nil =>
      cases h
      simp
  | cons pid rest ih =>
      rw [List.mapM_cons] at h
      simp only [Option.bind_eq_bind, Option.bind_eq_some_iff] at h
      obtain ⟨p, hp, ps, hps, hNodes⟩ := h
      cases hNodes
      obtain ⟨hPids, hMem⟩ := ih hps
      have hFound := List.find?_some hp
      simp only [decide_eq_true_eq] at hFound
      refine ⟨by rw [List.map_cons, hPids, hFound], ?_⟩
      intro q hq
      rcases List.mem_cons.mp hq with rfl | hq
      · exact List.mem_of_find?_eq_some hp
      · exact hMem q hq

/-- The flows of a path with one amount. -/
def pathFlows (e : Uuid) (nodes : List Participant) (amount : Amount) : List Flow :=
  (hops nodes).map fun segment => segmentFlow e (segment.1, segment.2, amount)

/-- The flows of resolved routes. -/
def routeFlows (e : Uuid) (routes : List (List Participant × Amount)) : List Flow :=
  (routeSegments routes).map (segmentFlow e)

theorem routeFlows_cons (route : List Participant × Amount) (routes : List (List Participant × Amount)) :
    routeFlows e (route :: routes) = pathFlows e route.1 route.2 ++ routeFlows e routes := by
  simp [routeFlows, routeSegments, pathFlows, Function.comp_def]

theorem routeFlows_singleton (nodes : List Participant) (amount : Amount) :
    routeFlows e [(nodes, amount)] = pathFlows e nodes amount := by
  rw [routeFlows_cons]
  exact List.append_nil _

/-- The flows of the routes are those of their paths. -/
theorem mem_routeFlows {routes : List (List Participant × Amount)} {f : Flow} :
    f ∈ routeFlows e routes ↔ ∃ route ∈ routes, f ∈ pathFlows e route.1 route.2 := by
  simp only [routeFlows, routeSegments, pathFlows, List.mem_map, List.mem_flatMap]
  constructor
  · rintro ⟨segment, ⟨route, hRoute, hop, hHop, rfl⟩, rfl⟩
    exact ⟨route, hRoute, hop, hHop, rfl⟩
  · rintro ⟨route, hRoute, hop, hHop, rfl⟩
    exact ⟨_, ⟨route, hRoute, hop, hHop, rfl⟩, rfl⟩

/-- The flows along a resolved path are of its amount and equivalent, between registered
participants. -/
theorem pathFlows_registered {directory : Directory} {path : List Pid} {nodes : List Participant}
    {amount : Amount} (h : resolvePath directory path = some nodes) :
    ∀ f ∈ pathFlows e nodes amount, f.equivalentId = e ∧ f.amount = amount ∧
      directory.Registered f.fromId ∧ directory.Registered f.toId := by
  intro f hf
  obtain ⟨hop, hHop, rfl⟩ := List.mem_map.mp hf
  obtain ⟨hFrom, hTo⟩ := mem_of_mem_hops hHop
  have hMem := (resolvePath_registered h).2
  exact ⟨rfl, rfl, ⟨hop.1, hMem _ hFrom, rfl⟩, ⟨hop.2, hMem _ hTo, rfl⟩⟩

/-- Segments that are checked one by one fit alone. -/
theorem checkAlone {segments : List (Participant × Participant)} {amount : Amount} {flows : List Flow}
    (h : segments.mapM (fun segment => checkSegment db now txId e segment.1 segment.2 amount 0) =
      .ok flows) :
    flows = segments.map (fun segment => segmentFlow e (segment.1, segment.2, amount)) ∧
      ∀ f ∈ flows, f.amount + reservedUsage db now txId f.fromId f.toId e ≤
        availableCapacity db f.fromId f.toId e := by
  have hAll := mapM_eq_ok_iff.mp h
  clear h
  induction hAll with
  | nil => simp
  | cons hHead _ ih =>
      obtain ⟨rfl, hCapacity⟩ := checkSegment_eq_ok_iff.mp hHead
      rw [add_zero] at hCapacity
      refine ⟨by rw [List.map_cons, ← ih.1], fun f hf => ?_⟩
      rcases List.mem_cons.mp hf with rfl | hf
      · exact hCapacity
      · exact ih.2 f hf

/-- The locks of one transaction belong to different participants. -/
theorem LockTable.participants_nodup (t : LockTable env) {old new : List PrepareLock}
    (hRows : t.rows = old ++ new) (hTx : ∀ l ∈ new, l.txId = txId) :
    (new.map PrepareLock.participantId).Nodup := by
  have hUnique := t.tx_participant_unique
  rw [hRows, List.map_append] at hUnique
  have hNew := (List.nodup_append.mp hUnique).2.1
  have hPairs : new.map (fun l => (l.txId, l.participantId)) =
      (new.map PrepareLock.participantId).map fun p => (txId, p) := by
    rw [List.map_map]
    exact List.map_congr_left fun l hl => by simp [hTx l hl]
  rw [hPairs] at hNew
  exact hNew.of_map _

/-- `prepare` finds a payment that is past preparation and keeps the database, or
stores the flows of its path. -/
theorem prepare_cases {path : List Pid} {amount : Amount}
    (h : prepare now txId path amount e db = .ok db') :
    (db' = db ∧ ∃ tx, db.transactions.get? txId = some tx ∧ AlreadyPrepared db txId tx) ∨
      ∃ tx nodes, tx.txId = txId ∧ resolvePath env.directory path = some nodes ∧
      Prepares now e tx (pathFlows e nodes amount) db db' := by
  obtain ⟨tx, hTx, ⟨rfl, hState⟩ | ⟨hOpen, hLocks, nodes, flows, hNodes, hCheck, hStore⟩⟩ :=
    prepare_eq_ok_iff.mp h
  · exact Or.inl ⟨rfl, tx, hTx, hState.imp_right fun hPrepared => ⟨hPrepared.1, hPrepared.2.1⟩⟩
  · obtain rfl := TxTable.txId_of_get? hTx
    obtain ⟨hFlows, hAlone⟩ := checkAlone hCheck
    have hFlows : flows = pathFlows e nodes amount := hFlows
    subst hFlows
    have hRegistered := @pathFlows_registered e _ _ _ amount hNodes
    have hSingletons : (((pathFlows e nodes amount).map fun f => (f.fromId, [f])).flatMap (·.2)).Perm
        (pathFlows e nodes amount) := by
      simp only [List.flatMap_map, List.flatMap_singleton']
      exact List.Perm.refl _
    obtain ⟨new, hRows, hMap, hPerm, hNew⟩ := storePrepared_locks (by simp) hSingletons hStore
    obtain ⟨hDebts, hLines, _⟩ := storePrepared_frame hStore
    have hSenders : new.map PrepareLock.participantId = (pathFlows e nodes amount).map Flow.fromId := by
      have hFirst := congrArg (List.map Prod.fst) hMap
      simpa only [List.map_map, Function.comp_def] using hFirst
    have hUnique := db'.prepareLocks.participants_nodup hRows fun l hl => (hNew l hl).1
    rw [hSenders] at hUnique
    obtain ⟨_, _, rfl⟩ := storePrepared_eq_ok_iff.mp hStore
    exact Or.inr ⟨tx, nodes, rfl, hNodes, hTx, hOpen, hLocks, fun f hf => (hRegistered f hf).1,
      fun f hf => (hRegistered f hf).2.2,
      flowsFit_of_senders hUnique fun f hf => ⟨(hRegistered f hf).1, hAlone f hf⟩,
      ⟨new, hRows, hPerm, hNew⟩, rfl, hDebts, hLines⟩

/-- Routes are resolved path by path, with their amounts. -/
theorem resolveRoutes_eq_some {directory : Directory} {routes : List Route}
    {resolved : List (List Participant × Amount)} (h : resolveRoutes directory routes = some resolved) :
    List.Forall₂ (fun route nodes => resolvePath directory route.path = some nodes.1 ∧
      nodes.2 = route.amount) routes resolved := by
  unfold resolveRoutes at h
  induction routes generalizing resolved with
  | nil =>
      cases h
      exact List.Forall₂.nil
  | cons route rest ih =>
      rw [List.mapM_cons] at h
      simp only [Option.bind_eq_bind, Option.bind_eq_some_iff, Option.map_eq_some_iff] at h
      obtain ⟨_, ⟨nodes, hNodes, rfl⟩, tail, hTail, hResolved⟩ := h
      cases hResolved
      exact List.Forall₂.cons ⟨hNodes, rfl⟩ (ih hTail)

/-- `prepare_routes` finds a payment that is past preparation and keeps the
database, or stores the flows of its routes. -/
theorem prepareRoutes_cases {routes : List Route}
    (h : prepareRoutes now txId routes e db = .ok db') :
    (db' = db ∧ ∃ tx, db.transactions.get? txId = some tx ∧ AlreadyPrepared db txId tx) ∨ ∃ tx resolved, tx.txId = txId ∧ checkRoutes routes = .ok () ∧
      resolveRoutes env.directory routes = some resolved ∧
      Prepares now e tx (routeFlows e resolved) db db' := by
  obtain ⟨tx, hTx, ⟨rfl, hState⟩ | ⟨hOpen, hLocks, hRoutes, resolved, flows, hResolved, hCheck, hStore⟩⟩ :=
    prepareRoutes_eq_ok_iff.mp h
  · exact Or.inl ⟨rfl, tx, hTx, hState⟩
  · obtain rfl := TxTable.txId_of_get? hTx
    obtain ⟨hFlows, hFits⟩ := checkSegments_eq_ok flowsFit_nil hCheck
    have hFlows : flows = routeFlows e resolved := hFlows
    subst hFlows
    have hRegistered : ∀ f ∈ routeFlows e resolved, f.equivalentId = e ∧
        env.directory.Registered f.fromId ∧ env.directory.Registered f.toId := by
      intro f hf
      obtain ⟨nodes, hNodes, hPath⟩ := mem_routeFlows.mp hf
      obtain ⟨route, _, hResolve, _⟩ := exists_of_mem_results (resolveRoutes_eq_some hResolved) hNodes
      have hAll := @pathFlows_registered e _ _ _ nodes.2 hResolve f hPath
      exact ⟨hAll.1, hAll.2.2⟩
    obtain ⟨new, hRows, _, hPerm, hNew⟩ := @storePrepared_locks _ _ _ _ _
      (Dict.groupBy Flow.fromId (routeFlows e resolved)).items (routeFlows e resolved)
      (by
        intro entry hEntry
        obtain ⟨hGroup, hNe⟩ := (Dict.mem_groupBy_items Flow.fromId).mp hEntry
        refine ⟨hNe, fun f hf => ?_⟩
        rw [hGroup] at hf
        simpa using (List.mem_filter.mp hf).2)
      (Dict.flatMap_groupBy_perm Flow.fromId _) hStore
    obtain ⟨hDebts, hLines, _⟩ := storePrepared_frame hStore
    obtain ⟨_, _, rfl⟩ := storePrepared_eq_ok_iff.mp hStore
    exact Or.inr ⟨tx, resolved, rfl, hRoutes, hResolved, hTx, hOpen, hLocks,
      fun f hf => (hRegistered f hf).1, fun f hf => (hRegistered f hf).2, hFits,
      ⟨new, hRows, hPerm, hNew⟩, rfl, hDebts, hLines⟩

end Prepared

section Success

variable {db db' : Db env} {now : Time} {txId : TxId} {amount : Amount} {routes : List Route}
  {resolved : List (List Participant × Amount)}

/-- Storing the locks of a payment that has none succeeds. -/
theorem exists_storePrepared {tx : Transaction} {locks : List (Uuid × List Flow)}
    (hFree : db.prepareLocks.ofTx tx.txId = []) (hUnique : (locks.map Prod.fst).Nodup) :
    ∃ db', storePrepared db now tx locks = .ok db' := by
  obtain ⟨t, ht⟩ := @LockTable.insertAll_eq_ok _ db.prepareLocks tx.txId (now + env.prepareLockTtlSeconds) _ hUnique
    fun l hl hTx => absurd hTx (by simpa using List.filter_eq_nil_iff.mp hFree l hl)
  exact ⟨_, storePrepared_eq_ok_iff.mpr ⟨t, ht, rfl⟩⟩

/-- The senders of a simple path are different participants. -/
theorem pathFlows_senders_nodup {path : List Pid} {nodes : List Participant} {e : Uuid}
    (hNodes : resolvePath env.directory path = some nodes) (hSimple : path.Nodup) :
    ((pathFlows e nodes amount).map Flow.fromId).Nodup := by
  obtain ⟨hPids, hMem⟩ := resolvePath_registered hNodes
  have hIds : (nodes.map (·.id)).Nodup := by
    refine List.Nodup.map_on (fun x hx y hy h => env.directory.id_injective (hMem x hx) (hMem y hy) h) ?_
    exact List.Nodup.of_map (·.pid) (hPids ▸ hSimple)
  have hSenders : (pathFlows e nodes amount).map Flow.fromId = (hops (nodes.map (·.id))).map Prod.fst := by
    rw [pathFlows, hops_map, List.map_map, List.map_map]
    rfl
  rw [hSenders]
  exact nodup_hops_fst hIds

/-- A route that fits is prepared. -/
theorem prepare_of_fit {tx : Transaction} {path : List Pid} {nodes : List Participant} {e : Uuid}
    (hTx : db.transactions.get? tx.txId = some tx) (hNew : tx.state = .NEW)
    (hFree : db.prepareLocks.ofTx tx.txId = []) (hNodes : resolvePath env.directory path = some nodes)
    (hSimple : path.Nodup) (hPos : 0 ≤ amount)
    (hFit : FlowsFit db now tx.txId e (pathFlows e nodes amount)) :
    ∃ db', prepare now tx.txId path amount e db = .ok db' := by
  have hCheck : (hops nodes).mapM (fun segment =>
      checkSegment db now tx.txId e segment.1 segment.2 amount 0) = .ok (pathFlows e nodes amount) := by
    refine mapM_eq_ok_map fun segment hSegment => checkSegment_eq_ok_iff.mpr ⟨rfl, ?_⟩
    have hFlow : segmentFlow e (segment.1, segment.2, amount) ∈ pathFlows e nodes amount :=
      List.mem_map.mpr ⟨segment, hSegment, rfl⟩
    have hEnough := hFit segment.1.id segment.2.id ⟨_, hFlow, rfl, rfl⟩
    have hLocal : amount ≤ localReserved (pathFlows e nodes amount) segment.1.id segment.2.id e := by
      refine List.single_le_sum (fun x hx => ?_) _ (List.mem_map.mpr ⟨_, List.mem_filter.mpr
        ⟨hFlow, by simp [segmentFlow]⟩, rfl⟩)
      obtain ⟨f, hf, rfl⟩ := List.mem_map.mp hx
      obtain ⟨hop, _, rfl⟩ := List.mem_map.mp (List.mem_filter.mp hf).1
      exact hPos
    linarith
  obtain ⟨db', hStore⟩ := @exists_storePrepared _ db now tx
    ((pathFlows e nodes amount).map fun f => (f.fromId, [f])) hFree (by
      rw [List.map_map]
      exact pathFlows_senders_nodup hNodes hSimple)
  exact ⟨db', prepare_eq_ok_iff.mpr ⟨tx, hTx, Or.inr
    ⟨by simp [TxState.open, hNew], hFree, nodes, _, hNodes, hCheck, hStore⟩⟩⟩

/-- Routes that fit are prepared. -/
theorem prepareRoutes_of_fit {tx : Transaction} {e : Uuid}
    (hTx : db.transactions.get? tx.txId = some tx) (hNew : tx.state = .NEW)
    (hFree : db.prepareLocks.ofTx tx.txId = []) (hRoutes : checkRoutes routes = .ok ())
    (hResolved : resolveRoutes env.directory routes = some resolved)
    (hPos : ∀ route ∈ routes, 0 ≤ route.amount)
    (hFit : FlowsFit db now tx.txId e (routeFlows e resolved)) :
    ∃ db', prepareRoutes now tx.txId routes e db = .ok db' := by
  have hCheck : checkSegments db now tx.txId e [] (routeSegments resolved) =
      .ok (routeFlows e resolved) := by
    refine @checkSegments_of_fit _ _ _ _ _ _ [] (fun segment hSegment => ?_) hFit
    obtain ⟨nodes, hNodes, hIn⟩ := List.mem_flatMap.mp hSegment
    obtain ⟨hop, _, rfl⟩ := List.mem_map.mp hIn
    obtain ⟨route, hRoute, _, hAmount⟩ := exists_of_mem_results (resolveRoutes_eq_some hResolved) hNodes
    rw [hAmount]
    exact hPos route hRoute
  obtain ⟨db', hStore⟩ := @exists_storePrepared _ db now tx _ hFree
    (Dict.groupBy Flow.fromId (routeFlows e resolved)).nodup
  exact ⟨db', prepareRoutes_eq_ok_iff.mpr ⟨tx, hTx, Or.inr
    ⟨by simp [TxState.open, hNew], hFree, hRoutes, resolved, _, hResolved, hCheck, hStore⟩⟩⟩

/-- Routes of positive amounts over at least two participants pass the check. -/
theorem checkRoutes_eq_ok (h : ∀ route ∈ routes, 0 < route.amount ∧ 2 ≤ route.path.length) :
    checkRoutes routes = .ok () := by
  induction routes with
  | nil => rfl
  | cons route rest ih =>
      obtain ⟨hPos, hLength⟩ := h route List.mem_cons_self
      rw [checkRoutes, if_neg hPos.not_ge, if_neg hLength.not_gt]
      exact ih fun other hOther => h other (List.mem_cons_of_mem _ hOther)

/-- A preparation leaves its transaction prepared. -/
theorem Prepares.state {tx : Transaction} {e : Uuid} {flows : List Flow}
    (h : Prepares now e tx flows db db') : (db'.transactions.get? tx.txId).map (·.state) = some .PREPARED := by
  rw [h.transactions, TxTable.get?_update h.found]
  rfl

/-- A preparation is about the stored transaction of its id. -/
theorem Prepares.eq_of_txId {tx tx' : Transaction} {e : Uuid} {flows : List Flow}
    (h : Prepares now e tx' flows db db') (hTx : db.transactions.get? tx.txId = some tx)
    (hId : tx'.txId = tx.txId) : tx' = tx := by
  have hFound := h.found
  rw [hId, hTx, Option.some.injEq] at hFound
  exact hFound.symm

/-- A new transaction is not taken for one that is prepared already. -/
theorem not_alreadyPrepared {tx tx' : Transaction} (hTx : db.transactions.get? txId = some tx)
    (hNew : tx.state = .NEW) (hTx' : db.transactions.get? txId = some tx') :
    ¬AlreadyPrepared db txId tx' := by
  rw [hTx, Option.some.injEq] at hTx'
  subst hTx'
  simp [AlreadyPrepared, hNew]

end Success

end GeoLedger

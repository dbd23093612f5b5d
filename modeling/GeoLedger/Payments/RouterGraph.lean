import Mathlib
import GeoLedger.Reservations
import GeoLedger.Payments.Router

/-! The capacities of a freshly built graph, in the terms of the ledger: an edge
follows an active trust line, and carries what the engine would leave to a
payment without locks. -/
namespace GeoLedger

variable {env : Env} {db : Db env} {now : Time} {order : ReadOrder}

namespace PaymentRouter

section Maps

/-- The participants found for a list of ids. -/
def pidMap (d : Directory) (ids : List Uuid) : Dict Uuid Pid :=
  Dict.ofList ((d.participants.filter (·.id ∈ ids)).map fun p => (p.id, p.pid))

theorem pidMap_eq_some_iff {d : Directory} {ids : List Uuid} {id : Uuid} {pid : Pid} :
    (pidMap d ids).get? id = some pid ↔ id ∈ ids ∧ ∃ p ∈ d.participants, p.id = id ∧ p.pid = pid := by
  have hUnique : (((d.participants.filter (·.id ∈ ids)).map fun p => (p.id, p.pid)).map Prod.fst).Nodup := by
    rw [List.map_map]
    exact d.participant_id_unique.sublist (List.filter_sublist.map _)
  rw [pidMap, Dict.get?_ofList_eq_some_iff hUnique]
  simp only [List.mem_map, List.mem_filter, decide_eq_true_eq, Prod.mk.injEq]
  constructor
  · rintro ⟨p, ⟨hMem, hIn⟩, rfl, rfl⟩
    exact ⟨hIn, p, hMem, rfl, rfl⟩
  · rintro ⟨hIn, p, hMem, rfl, rfl⟩
    exact ⟨p, ⟨hMem, hIn⟩, rfl, rfl⟩

/-- A participant's PID is found for its own id only. -/
theorem pidMap_eq_pid_iff {d : Directory} {ids : List Uuid} {id : Uuid} {p : Participant}
    (hp : p ∈ d.participants) : (pidMap d ids).get? id = some p.pid ↔ id ∈ ids ∧ id = p.id := by
  rw [pidMap_eq_some_iff]
  constructor
  · rintro ⟨hIn, q, hq, rfl, hPid⟩
    exact ⟨hIn, congrArg Participant.id (d.pid_injective hq hp hPid)⟩
  · rintro ⟨hIn, rfl⟩
    exact ⟨hIn, p, hp, rfl, rfl⟩

/-- `debt_map` holds the amounts owed in the equivalent. -/
theorem debtMap_getD {t : DebtTable env} {rows : List Debt} {e : Uuid}
    (hPerm : rows.Perm (t.rows.filter (·.equivalentId = e))) (a b : Uuid) :
    (Dict.ofList (rows.map fun d => ((d.debtorId, d.creditorId), d.amount))).getD (a, b) 0 =
      t.owed a b e := by
  have hRow {d : Debt} : d ∈ rows ↔ d ∈ t.rows ∧ d.equivalentId = e := by
    rw [hPerm.mem_iff, List.mem_filter, decide_eq_true_eq]
  have hUnique : ((rows.map fun d => ((d.debtorId, d.creditorId), d.amount)).map Prod.fst).Nodup := by
    rw [List.map_map, (hPerm.map _).nodup_iff]
    refine List.Nodup.map_on ?_ (t.id_unique.of_map.filter _)
    intro d hd d' hd' hSame
    obtain ⟨hRow₁, hE₁⟩ := List.mem_filter.mp hd
    obtain ⟨hRow₂, hE₂⟩ := List.mem_filter.mp hd'
    simp only [Function.comp_apply, Prod.mk.injEq, decide_eq_true_eq] at hSame hE₁ hE₂
    refine Rows.eq_of_column t.key_unique hRow₁ hRow₂ ?_
    simp [Debt.key, hSame.1, hSame.2, hE₁, hE₂]
  refine DebtTable.getD_ofList_eq_owed hUnique fun v => ?_
  simp only [List.mem_map, Prod.mk.injEq, Debt.key]
  constructor
  · rintro ⟨d, hd, ⟨rfl, rfl⟩, rfl⟩
    exact ⟨d, (hRow.mp hd).1, ⟨rfl, rfl, (hRow.mp hd).2⟩, rfl⟩
  · rintro ⟨d, hMem, ⟨rfl, rfl, he⟩, rfl⟩
    exact ⟨d, hRow.mpr ⟨hMem, he⟩, ⟨rfl, rfl⟩, rfl⟩

/-- `reserved_map` holds the reservations of the equivalent. -/
theorem reservedMap_getD {d : Directory} {ids : List Uuid} {locks : List PrepareLock} {e : Uuid}
    (hIds : ∀ l ∈ locks, ∀ f ∈ l.flows, f.fromId ∈ ids ∧ f.toId ∈ ids) {p q : Participant}
    (hp : p ∈ d.participants) (hq : q ∈ d.participants) :
    (reservedMap (pidMap d ids) e locks).getD (p.pid, q.pid) 0 =
      (((locks.flatMap (·.flows)).filter fun f =>
        f.equivalentId = e ∧ f.fromId = p.id ∧ f.toId = q.id).map (·.amount)).sum := by
  have hEmpty : (Dict.empty : Dict (Pid × Pid) Amount).getD (p.pid, q.pid) 0 = 0 := rfl
  rw [reservedMap, Dict.getD_tally, hEmpty, zero_add]
  have hIn : ∀ f ∈ locks.flatMap (·.flows), f.fromId ∈ ids ∧ f.toId ∈ ids := by
    intro f hf
    obtain ⟨l, hl, hfl⟩ := List.mem_flatMap.mp hf
    exact hIds l hl f hfl
  generalize locks.flatMap (·.flows) = flows at hIn ⊢
  induction flows with
  | nil => rfl
  | cons f rest ih =>
      obtain ⟨hFrom, hTo⟩ := hIn f List.mem_cons_self
      have hTail := ih fun g hg => hIn g (List.mem_cons_of_mem _ hg)
      have hFromIff : (pidMap d ids).get? f.fromId = some p.pid ↔ f.fromId = p.id := by
        simp [pidMap_eq_pid_iff hp, hFrom]
      have hToIff : (pidMap d ids).get? f.toId = some q.pid ↔ f.toId = q.id := by
        simp [pidMap_eq_pid_iff hq, hTo]
      by_cases he : f.equivalentId = e
      · cases hu : (pidMap d ids).get? f.fromId with
        | none =>
            have hNe : ¬f.fromId = p.id := fun h => by simp [hFromIff.mpr h] at hu
            simpa [List.filterMap_cons, he, hu, hNe] using hTail
        | some u =>
            cases hv : (pidMap d ids).get? f.toId with
            | none =>
                have hNe : ¬f.toId = q.id := fun h => by simp [hToIff.mpr h] at hv
                simpa [List.filterMap_cons, he, hu, hv, hNe] using hTail
            | some v =>
                rw [hu, Option.some.injEq] at hFromIff
                rw [hv, Option.some.injEq] at hToIff
                rw [List.filterMap_cons_some (b := ((u, v), f.amount)) (by simp [he, hu, hv])]
                by_cases hEnds : f.fromId = p.id ∧ f.toId = q.id
                · have hPids : u = p.pid ∧ v = q.pid := ⟨hFromIff.mpr hEnds.1, hToIff.mpr hEnds.2⟩
                  rw [List.filter_cons_of_pos (by simp [hPids]), List.filter_cons_of_pos (by simp [he, hEnds]),
                    List.map_cons, List.sum_cons, List.map_cons, List.sum_cons, hTail]
                · have hPids : ¬(u = p.pid ∧ v = q.pid) := fun h => hEnds ⟨hFromIff.mp h.1, hToIff.mp h.2⟩
                  rw [List.filter_cons_of_neg (by simpa using fun hu' hv' => hPids ⟨hu', hv'⟩),
                    List.filter_cons_of_neg (by simpa [he] using fun h₁ h₂ => hEnds ⟨h₁, h₂⟩), hTail]
      · simpa [List.filterMap_cons, he] using hTail

end Maps

section Edges

/-- What one line adds to an edge of the graph. -/
def edgeOf (pids : Dict Uuid Pid) (debtMap : Dict (Uuid × Uuid) Amount)
    (reserved : Dict (Pid × Pid) Amount) (u v : Pid) (l : TrustLine) : Amount :=
  if pids.get? l.toParticipantId = some u ∧ pids.get? l.fromParticipantId = some v then
    max 0 (lineCapacity debtMap reserved v u l)
  else 0

/-- Adding lines adds up what each of them gives to an edge. -/
theorem getD₂_foldl_addLine (pids : Dict Uuid Pid) (debtMap : Dict (Uuid × Uuid) Amount)
    (reserved : Dict (Pid × Pid) Amount) (lines : List TrustLine) (r : PaymentRouter) (u v : Pid) :
    (lines.foldl (addLine pids debtMap reserved) r).graph.getD₂ u v 0 =
      r.graph.getD₂ u v 0 + (lines.map (edgeOf pids debtMap reserved u v)).sum := by
  induction lines generalizing r with
  | nil => simp
  | cons l rest ih =>
      have hStep : (addLine pids debtMap reserved r l).graph.getD₂ u v 0 =
          r.graph.getD₂ u v 0 + edgeOf pids debtMap reserved u v l := by
        unfold addLine edgeOf
        cases hFrom : pids.get? l.fromParticipantId with
        | none => simp
        | some creditorPid =>
            cases hTo : pids.get? l.toParticipantId with
            | none => simp
            | some debtorPid =>
                simp only [Option.some.injEq]
                by_cases hPos : 0 < lineCapacity debtMap reserved creditorPid debtorPid l
                · rw [if_pos hPos, Dict.getD₂_set₂]
                  by_cases hEnds : u = debtorPid ∧ v = creditorPid
                  · obtain ⟨rfl, rfl⟩ := hEnds
                    rw [if_pos ⟨rfl, rfl⟩, if_pos ⟨rfl, rfl⟩, max_eq_right hPos.le]
                  · rw [if_neg hEnds, if_neg fun h => hEnds ⟨h.1.symm, h.2.symm⟩, add_zero]
                · rw [if_neg hPos]
                  split
                  · next hEnds =>
                      obtain ⟨rfl, rfl⟩ := hEnds
                      rw [max_eq_left (not_lt.mp hPos), add_zero]
                  · rw [add_zero]
      rw [List.foldl_cons, ih, hStep, List.map_cons, List.sum_cons, add_assoc]

/-- The capacity that the engine leaves along an ordered pair, cut off at zero. -/
def spareCapacity (db : Db env) (now : Time) (a b e : Uuid) : Amount :=
  max 0 (availableCapacity db a b e - reservation db now a b e)

variable {S R : Participant} {e : Uuid}

/-- The edge of a line of the equivalent: its capacity between its two ends. -/
theorem edgeOf_eq {ids : List Uuid} {debts : List Debt} {l : TrustLine}
    (hS : S ∈ env.directory.participants) (hR : R ∈ env.directory.participants)
    (hDebts : debts.Perm (db.debts.rows.filter (·.equivalentId = e)))
    (hFlowIds : ∀ l ∈ db.prepareLocks.live now, ∀ f ∈ l.flows, f.fromId ∈ ids ∧ f.toId ∈ ids)
    (hLineIds : l.fromParticipantId ∈ ids ∧ l.toParticipantId ∈ ids) (hE : l.equivalentId = e) :
    edgeOf (pidMap env.directory ids)
        (Dict.ofList (debts.map fun d => ((d.debtorId, d.creditorId), d.amount)))
        (reservedMap (pidMap env.directory ids) e (db.prepareLocks.live now)) S.pid R.pid l =
      if l.key = (R.id, S.id, e) then
        max 0 (l.limit - db.debts.owed S.id R.id e + db.debts.owed R.id S.id e -
          reservation db now S.id R.id e)
      else 0 := by
  have hEnds : ((pidMap env.directory ids).get? l.toParticipantId = some S.pid ∧
      (pidMap env.directory ids).get? l.fromParticipantId = some R.pid) ↔ l.key = (R.id, S.id, e) := by
    rw [pidMap_eq_pid_iff hS, pidMap_eq_pid_iff hR]
    simp only [hLineIds.1, hLineIds.2, true_and, TrustLine.key, Prod.mk.injEq, hE, and_true]
    exact and_comm
  unfold edgeOf
  by_cases hKey : l.key = (R.id, S.id, e)
  · rw [if_pos (hEnds.mpr hKey), if_pos hKey]
    simp only [TrustLine.key, Prod.mk.injEq] at hKey
    rw [lineCapacity, hKey.1, hKey.2.1, debtMap_getD hDebts, debtMap_getD hDebts,
      reservedMap_getD hFlowIds hS hR]
    rfl
  · rw [if_neg fun h => hKey (hEnds.mp h), if_neg hKey]

/-- The active lines of an equivalent are found by their ends. -/
theorem find?_activeLines (tl : TrustTable env) (a b e : Uuid) :
    ((tl.rows.filter fun l => l.equivalentId = e ∧ l.status = .active).map TrustLine.key).Nodup ∧
      (tl.rows.filter fun l => l.equivalentId = e ∧ l.status = .active).find? (·.key = (a, b, e)) =
        tl.active a b e := by
  have hUnique : ((tl.rows.filter fun l => l.equivalentId = e ∧ l.status = .active).map
      TrustLine.key).Nodup := by
    refine tl.live_unique.sublist ((List.monotone_filter_right _ ?_).map TrustLine.key)
    intro l hl
    simp only [decide_eq_true_eq] at hl ⊢
    simp [hl.2]
  refine ⟨hUnique, Option.ext fun l => ?_⟩
  rw [Rows.find?_eq_some_iff hUnique, TrustTable.active_eq_some_iff, List.mem_filter]
  simp only [decide_eq_true_eq, TrustLine.key, Prod.mk.injEq]
  tauto

/-- A fresh graph carries the spare capacity along active lines, and nothing else. -/
theorem buildGraphImpl_capacity {code : String} {equivalent : Equivalent}
    (hCode : env.directory.equivalentByCode code = some equivalent)
    (hS : S ∈ env.directory.participants) (hR : R ∈ env.directory.participants) :
    (buildGraphImpl order now code db).graph.getD₂ S.pid R.pid 0 =
      if (db.trustLines.active R.id S.id equivalent.id).isSome then
        spareCapacity db now S.id R.id equivalent.id
      else 0 := by
  obtain ⟨hUnique, hFind⟩ := find?_activeLines db.trustLines R.id S.id equivalent.id
  have hPerm := order.trustLines_perm
    (db.trustLines.rows.filter fun l => l.equivalentId = equivalent.id ∧ l.status = .active)
  have hDebts := order.debts_perm (db.debts.rows.filter (·.equivalentId = equivalent.id))
  simp only [buildGraphImpl, hCode]
  generalize hLines : order.trustLines
    (db.trustLines.rows.filter fun l => l.equivalentId = equivalent.id ∧ l.status = .active) = lines
    at hPerm ⊢
  generalize order.debts (db.debts.rows.filter (·.equivalentId = equivalent.id)) = debts at hDebts ⊢
  generalize hIds : allParticipantIds lines debts (db.prepareLocks.live now) = ids
  have hLineIds : ∀ l ∈ lines, l.fromParticipantId ∈ ids ∧ l.toParticipantId ∈ ids := by
    intro l hl
    simp only [← hIds, allParticipantIds, List.mem_append, List.mem_flatMap]
    exact ⟨Or.inl (Or.inl ⟨l, hl, by simp⟩), Or.inl (Or.inl ⟨l, hl, by simp⟩)⟩
  have hFlowIds : ∀ l ∈ db.prepareLocks.live now, ∀ f ∈ l.flows, f.fromId ∈ ids ∧ f.toId ∈ ids := by
    intro l hl f hf
    have hIn : ∀ id ∈ [f.fromId, f.toId], id ∈ ids := by
      intro id hId
      simp only [← hIds, allParticipantIds, List.mem_append, List.mem_flatMap]
      exact Or.inr ⟨l, hl, List.mem_cons_of_mem _ (List.mem_flatMap.mpr ⟨f, hf, hId⟩)⟩
    exact ⟨hIn _ (by simp), hIn _ (by simp)⟩
  have hEdge : ∀ l ∈ lines, edgeOf (pidMap env.directory ids)
      (Dict.ofList (debts.map fun d => ((d.debtorId, d.creditorId), d.amount)))
      (reservedMap (pidMap env.directory ids) equivalent.id (db.prepareLocks.live now)) S.pid R.pid l =
      if l.key = (R.id, S.id, equivalent.id) then
        max 0 (l.limit - db.debts.owed S.id R.id equivalent.id + db.debts.owed R.id S.id equivalent.id -
          reservation db now S.id R.id equivalent.id)
      else 0 := by
    intro l hl
    refine edgeOf_eq hS hR hDebts hFlowIds (hLineIds l hl) ?_
    have hFilter := (List.mem_filter.mp (hPerm.mem_iff.mp hl)).2
    simp only [decide_eq_true_eq] at hFilter
    exact hFilter.1
  split
  · next hNone =>
      have hLine : db.trustLines.active R.id S.id equivalent.id = none := by
        rw [← hFind, List.find?_eq_none]
        intro l hl
        have hIn := (hLineIds l (hPerm.mem_iff.mpr hl)).1
        rw [hNone] at hIn
        cases hIn
      rw [hLine]
      rfl
  · have hStart : (Dict.ofList (((pidMap env.directory ids).items.map (·.2)).map
        (·, (Dict.empty : Dict Pid Amount)))).getD₂ S.pid R.pid 0 = 0 := by
      rw [Dict.getD₂, Dict.getD_ofList_const]
      rfl
    rw [getD₂_foldl_addLine]
    refine (congrArg₂ (· + ·) hStart (congrArg List.sum (List.map_congr_left hEdge))).trans ?_
    rw [zero_add, (hPerm.map _).sum_eq, Rows.sum_ite_key hUnique, hFind]
    cases hActive : db.trustLines.active R.id S.id equivalent.id with
    | none => rfl
    | some l =>
        simp only [Option.map_some, Option.getD_some, Option.isSome_some, if_true, spareCapacity,
          availableCapacity, TrustTable.limit, hActive]

end Edges

end PaymentRouter

end GeoLedger

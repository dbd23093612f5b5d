import Mathlib
import GeoLedger.Balance
import GeoLedger.LedgerSafety
import GeoLedger.Payments.RouterGraph

/-! One capacity, computed three times: by the engine for a segment, by the
router for an edge, and by the balance service for the links of a participant.
The engine and the balance agree in every reachable state; the router leaves out
the links that have a debt to offset but no trust line. -/
namespace GeoLedger

variable {env : Env} {db : Db env} {now : Time} {equivalent : Equivalent} {S : Uuid}

section Codes

theorem codeOf_eq_some_iff (hE : equivalent ∈ env.directory.equivalents) {e : Uuid} :
    env.directory.codeOf e = some equivalent.code ↔ e = equivalent.id := by
  unfold Directory.codeOf Directory.equivalentById
  constructor
  · intro h
    obtain ⟨found, hFound, hCode⟩ := Option.map_eq_some_iff.mp h
    obtain ⟨hMem, hId⟩ := (Rows.find?_eq_some_iff env.directory.equivalent_id_unique).mp hFound
    rw [← hId, Rows.eq_of_column env.directory.code_unique hMem hE hCode]
  · rintro rfl
    rw [(Rows.find?_eq_some_iff env.directory.equivalent_id_unique).mpr ⟨hE, rfl⟩]
    rfl

theorem mem_withCodes {Row : Type} {equivalentId : Row → Uuid} {rows : List Row} {code : String} {r : Row} :
    (code, r) ∈ withCodes env.directory equivalentId rows ↔
      r ∈ rows ∧ env.directory.codeOf (equivalentId r) = some code := by
  simp only [withCodes, List.mem_filterMap, Option.map_eq_some_iff, Prod.mk.injEq]
  constructor
  · rintro ⟨r', hr', code', hCode, rfl, rfl⟩
    exact ⟨hr', hCode⟩
  · rintro ⟨hr, hCode⟩
    exact ⟨r, hr, code, hCode, rfl, rfl⟩

/-- The rows with the code of an equivalent are the rows of that equivalent. -/
theorem filter_withCodes (hE : equivalent ∈ env.directory.equivalents) {Row : Type}
    (equivalentId : Row → Uuid) (rows : List Row) :
    (withCodes env.directory equivalentId rows).filter (·.1 = equivalent.code) =
      (rows.filter (equivalentId · = equivalent.id)).map fun r => (equivalent.code, r) := by
  induction rows with
  | nil => rfl
  | cons r rest ih =>
      unfold withCodes at ih ⊢
      have hIff := codeOf_eq_some_iff hE (e := equivalentId r)
      by_cases h : equivalentId r = equivalent.id
      · rw [List.filterMap_cons_some (b := (equivalent.code, r)) (by simp [hIff.mpr h]),
          List.filter_cons_of_pos (by simp), ih, List.filter_cons_of_pos (by simpa using h), List.map_cons]
      · rw [List.filter_cons_of_neg (a := r) (by simpa using h), ← ih]
        cases hCode : env.directory.codeOf (equivalentId r) with
        | none => rw [List.filterMap_cons_none (by simp [hCode])]
        | some code =>
            rw [List.filterMap_cons_some (b := (code, r)) (by simp [hCode]), List.filter_cons_of_neg]
            simp only [decide_eq_true_eq]
            intro hSame
            exact h (hIff.mp (hCode.trans (congrArg some hSame)))

/-- Debts of a participant, looked up by the other party and the code. -/
theorem debtsByPeer_getD (hE : equivalent ∈ env.directory.equivalents) {t : DebtTable env}
    {rows : List Debt} {peer : Debt → Uuid} {pair : Uuid → Uuid × Uuid}
    (hNodup : rows.Nodup)
    (hRows : ∀ d e x, (d ∈ rows ∧ peer d = x ∧ d.equivalentId = e) ↔
      d ∈ t.rows ∧ d.key = ((pair x).1, (pair x).2, e)) (x : Uuid) :
    (debtsByPeer peer (withCodes env.directory Debt.equivalentId rows)).getD (x, equivalent.code) 0 =
      t.owed (pair x).1 (pair x).2 equivalent.id := by
  have hUnique : (((withCodes env.directory Debt.equivalentId rows).map fun d =>
      ((peer d.2, d.1), d.2.amount)).map Prod.fst).Nodup := by
    rw [List.map_map]
    refine List.Nodup.map_on ?_ ?_
    · rintro ⟨code, d⟩ hd ⟨code', d'⟩ hd' hSame
      simp only [Function.comp_apply, Prod.mk.injEq] at hSame
      obtain ⟨hPeer, rfl⟩ := hSame
      obtain ⟨hRow, hCode⟩ := mem_withCodes.mp hd
      obtain ⟨hRow', hCode'⟩ := mem_withCodes.mp hd'
      have hSameE : d.equivalentId = d'.equivalentId := by
        obtain ⟨found, hFound, hFoundCode⟩ := Option.map_eq_some_iff.mp hCode
        obtain ⟨found', hFound', hFoundCode'⟩ := Option.map_eq_some_iff.mp hCode'
        obtain ⟨hMem, hId⟩ := (Rows.find?_eq_some_iff env.directory.equivalent_id_unique).mp hFound
        obtain ⟨hMem', hId'⟩ := (Rows.find?_eq_some_iff env.directory.equivalent_id_unique).mp hFound'
        rw [← hId, ← hId', Rows.eq_of_column env.directory.code_unique hMem hMem'
          (hFoundCode.trans hFoundCode'.symm)]
      have hKey := (hRows d d.equivalentId (peer d)).mp ⟨hRow, rfl, rfl⟩
      have hKey' := (hRows d' d.equivalentId (peer d)).mp ⟨hRow', hPeer.symm, hSameE.symm⟩
      rw [Rows.eq_of_column t.key_unique hKey.1 hKey'.1 (hKey.2.trans hKey'.2.symm)]
    · refine hNodup.filterMap fun d d' entry hd hd' => ?_
      simp only [Option.mem_def, Option.map_eq_some_iff] at hd hd'
      obtain ⟨_, _, rfl⟩ := hd
      obtain ⟨_, _, hEq⟩ := hd'
      exact (congrArg Prod.snd hEq).symm
  refine DebtTable.getD_ofList_eq_owed hUnique fun v => ?_
  simp only [List.mem_map, Prod.mk.injEq, Prod.exists]
  constructor
  · rintro ⟨code, d, hd, ⟨rfl, rfl⟩, rfl⟩
    obtain ⟨hRow, hCode⟩ := mem_withCodes.mp hd
    obtain ⟨hMem, hKey⟩ := (hRows d equivalent.id (peer d)).mp
      ⟨hRow, rfl, (codeOf_eq_some_iff hE).mp hCode⟩
    exact ⟨d, hMem, hKey, rfl⟩
  · rintro ⟨d, hMem, hKey, rfl⟩
    obtain ⟨hRow, hPeer, hId⟩ := (hRows d equivalent.id x).mpr ⟨hMem, hKey⟩
    exact ⟨equivalent.code, d, mem_withCodes.mpr ⟨hRow, (codeOf_eq_some_iff hE).mpr hId⟩,
      ⟨hPeer, rfl⟩, rfl⟩

theorem debtsIOwe_getD (hE : equivalent ∈ env.directory.equivalents) (x : Uuid) :
    (debtsIOwe S db).getD (x, equivalent.code) 0 = db.debts.owed S x equivalent.id := by
  refine @debtsByPeer_getD _ _ hE _ _ _ (fun x => (S, x)) (db.debts.id_unique.of_map.filter _) ?_ x
  intro d e x
  simp only [List.mem_filter, decide_eq_true_eq, Debt.key, Prod.mk.injEq]
  tauto

theorem debtsOthersOwe_getD (hE : equivalent ∈ env.directory.equivalents) (x : Uuid) :
    (debtsOthersOwe S db).getD (x, equivalent.code) 0 = db.debts.owed x S equivalent.id := by
  refine @debtsByPeer_getD _ _ hE _ _ _ (fun x => (x, S)) (db.debts.id_unique.of_map.filter _) ?_ x
  intro d e x
  simp only [List.mem_filter, decide_eq_true_eq, Debt.key, Prod.mk.injEq]
  tauto

end Codes

section Links

/-- Active lines to a participant in an equivalent. -/
def linesTo (tl : TrustTable env) (S e : Uuid) : List TrustLine :=
  (tl.rows.filter fun l => l.toParticipantId = S ∧ l.status = .active).filter (·.equivalentId = e)

theorem mem_linesTo {tl : TrustTable env} {e : Uuid} {l : TrustLine} :
    l ∈ linesTo tl S e ↔ l ∈ tl.rows ∧ l.status = .active ∧ l.key = (l.fromParticipantId, S, e) := by
  simp only [linesTo, List.mem_filter, decide_eq_true_eq, TrustLine.key, Prod.mk.injEq]
  tauto

theorem find?_linesTo (tl : TrustTable env) (S e R : Uuid) :
    ((linesTo tl S e).map TrustLine.fromParticipantId).Nodup ∧
      (linesTo tl S e).find? (·.fromParticipantId = R) = tl.active R S e := by
  have hUnique : ((linesTo tl S e).map TrustLine.fromParticipantId).Nodup := by
    refine List.Nodup.map_on ?_ ((tl.id_unique.of_map.filter _).filter _)
    intro l hl l' hl' hSame
    obtain ⟨hMem, hActive, hKey⟩ := mem_linesTo.mp hl
    obtain ⟨hMem', hActive', hKey'⟩ := mem_linesTo.mp hl'
    refine TrustTable.eq_of_live hMem hMem' (by simp [hActive]) (by simp [hActive']) ?_
    rw [hKey, hKey', hSame]
  refine ⟨hUnique, Option.ext fun l => ?_⟩
  rw [Rows.find?_eq_some_iff hUnique, TrustTable.active_eq_some_iff, mem_linesTo]
  constructor
  · rintro ⟨⟨hMem, hActive, hKey⟩, rfl⟩
    exact ⟨hMem, hActive, hKey⟩
  · rintro ⟨hMem, hActive, hKey⟩
    have hFrom : l.fromParticipantId = R := congrArg Prod.fst hKey
    exact ⟨⟨hMem, hActive, hFrom ▸ hKey⟩, hFrom⟩

/-- The capacity of a link as the balance counts it. -/
def linkCapacity (db : Db env) (S R e : Uuid) : Amount :=
  if (db.trustLines.active R S e).isSome then availableCapacity db S R e
  else max 0 (availableCapacity db S R e)

/-- The part of the balance that comes from incoming lines. -/
theorem sum_lineCapacities (hE : equivalent ∈ env.directory.equivalents) {D : Finset Uuid}
    (hD : ∀ l ∈ db.trustLines.rows, l.fromParticipantId ∈ D) :
    (((lineCapacities TrustLine.fromParticipantId (debtsIOwe S db) (debtsOthersOwe S db)
        (inTls S db)).filter (·.1 = equivalent.code)).map (·.2)).sum =
      ∑ R ∈ D, if (db.trustLines.active R S equivalent.id).isSome then
        availableCapacity db S R equivalent.id else 0 := by
  have hLines : ((lineCapacities TrustLine.fromParticipantId (debtsIOwe S db) (debtsOthersOwe S db)
      (inTls S db)).filter (·.1 = equivalent.code)).map (·.2) =
      (linesTo db.trustLines S equivalent.id).map fun l =>
        l.limit - db.debts.owed S l.fromParticipantId equivalent.id +
          db.debts.owed l.fromParticipantId S equivalent.id := by
    simp only [lineCapacities, List.filter_map, Function.comp_def, inTls, filter_withCodes hE, List.map_map,
      debtsIOwe_getD hE, debtsOthersOwe_getD hE, linesTo]
  rw [hLines, Rows.sum_by_key (find?_linesTo db.trustLines S equivalent.id S).1
    (fun l hl => hD l (mem_linesTo.mp hl).1)]
  refine Finset.sum_congr rfl fun R _ => ?_
  rw [(find?_linesTo db.trustLines S equivalent.id R).2]
  cases hActive : db.trustLines.active R S equivalent.id with
  | none => rfl
  | some l =>
      have hKey := (TrustTable.active_eq_some_iff.mp hActive).2.2
      simp only [TrustLine.key, Prod.mk.injEq] at hKey
      simp [availableCapacity, TrustTable.limit, hActive, hKey.1]

/-- Positive terms of a sum, kept by a filter or by a maximum. -/
theorem sum_filter_pos {Item : Type} (items : List Item) (f : Item → Amount) :
    ((items.filter fun x => 0 < f x).map f).sum = (items.map fun x => max 0 (f x)).sum := by
  induction items with
  | nil => rfl
  | cons x rest ih =>
      by_cases h : 0 < f x
      · simp [h, ih, max_eq_right h.le]
      · simp [h, ih, max_eq_left (not_lt.mp h)]

/-- A peer that is not listed has no debt in either direction. -/
theorem owed_of_not_peer (hE : equivalent ∈ env.directory.equivalents) {R : Uuid}
    (h : (R, equivalent.code) ∉ allPeersEquivalents S db) :
    db.debts.owed S R equivalent.id = 0 ∧ db.debts.owed R S equivalent.id = 0 := by
  simp only [allPeersEquivalents, List.mem_dedup, List.mem_append, not_or] at h
  constructor
  · rw [← debtsIOwe_getD hE, Dict.getD, Dict.get?_eq_none_iff.mpr h.1]
    rfl
  · rw [← debtsOthersOwe_getD hE, Dict.getD, Dict.get?_eq_none_iff.mpr h.2]
    rfl

/-- The participants with an incoming line in an equivalent. -/
theorem mem_inTls_keys (hE : equivalent ∈ env.directory.equivalents) {R : Uuid} :
    (R, equivalent.code) ∈ (inTls S db).map (fun l => (l.2.fromParticipantId, l.1)) ↔
      (db.trustLines.active R S equivalent.id).isSome := by
  rw [Option.isSome_iff_exists]
  simp only [List.mem_map, Prod.mk.injEq, Prod.exists, TrustTable.active_eq_some_iff]
  constructor
  · rintro ⟨code, l, hl, rfl, rfl⟩
    obtain ⟨hRow, hCode⟩ := mem_withCodes.mp hl
    have hFilter := List.mem_filter.mp hRow
    simp only [decide_eq_true_eq] at hFilter
    exact ⟨l, hFilter.1, hFilter.2.2, by
      rw [TrustLine.key, hFilter.2.1, (codeOf_eq_some_iff hE).mp hCode]⟩
  · rintro ⟨l, hMem, hActive, hKey⟩
    simp only [TrustLine.key, Prod.mk.injEq] at hKey
    refine ⟨equivalent.code, l, mem_withCodes.mpr ⟨List.mem_filter.mpr ⟨hMem, ?_⟩, ?_⟩, hKey.1, rfl⟩
    · simp [hKey.2.1, hActive]
    · exact (codeOf_eq_some_iff hE).mpr hKey.2.2

/-- The part of the balance that comes from debts without an incoming line. -/
theorem sum_debtCapacities (hE : equivalent ∈ env.directory.equivalents) {D : Finset Uuid}
    (hD : ∀ R, (R, equivalent.code) ∈ allPeersEquivalents S db → R ∈ D) :
    (((debtCapacities TrustLine.fromParticipantId (debtsIOwe S db) (debtsOthersOwe S db) (inTls S db)
        (allPeersEquivalents S db)).filter (·.1 = equivalent.code)).map (·.2)).sum =
      ∑ R ∈ D, if (db.trustLines.active R S equivalent.id).isSome then 0
        else max 0 (availableCapacity db S R equivalent.id) := by
  set peers := ((allPeersEquivalents S db).filter fun p =>
    p ∉ (inTls S db).map fun l => (l.2.fromParticipantId, l.1)).filter (·.2 = equivalent.code) with hPeers
  have hMem {p : Uuid × String} : p ∈ peers ↔ p ∈ allPeersEquivalents S db ∧
      p.2 = equivalent.code ∧ ¬(db.trustLines.active p.1 S equivalent.id).isSome := by
    obtain ⟨R, code⟩ := p
    simp only [hPeers, List.mem_filter, decide_eq_true_eq]
    constructor
    · rintro ⟨⟨hPeer, hOut⟩, rfl⟩
      exact ⟨hPeer, rfl, fun h => hOut ((mem_inTls_keys hE).mpr h)⟩
    · rintro ⟨hPeer, rfl, hOut⟩
      exact ⟨⟨hPeer, fun h => hOut ((mem_inTls_keys hE).mp h)⟩, rfl⟩
  have hUnique : (peers.map Prod.fst).Nodup := by
    refine List.Nodup.map_on ?_ (((List.nodup_dedup _).filter _).filter _)
    intro p hp p' hp' hSame
    exact Prod.ext hSame ((hMem.mp hp).2.1.trans (hMem.mp hp').2.1.symm)
  have hTerms : ((debtCapacities TrustLine.fromParticipantId (debtsIOwe S db) (debtsOthersOwe S db)
      (inTls S db) (allPeersEquivalents S db)).filter (·.1 = equivalent.code)).map (·.2) =
      (peers.filter fun p => 0 < 0 - (debtsIOwe S db).getD p 0 + (debtsOthersOwe S db).getD p 0).map
        fun p => 0 - (debtsIOwe S db).getD p 0 + (debtsOthersOwe S db).getD p 0 := by
    simp only [debtCapacities, hPeers, List.filter_map, Function.comp_def, List.map_map,
      List.filter_filter]
    congr 2
    funext p
    exact Bool.and_left_comm _ _ _
  rw [hTerms, sum_filter_pos, Rows.sum_by_key hUnique (S := D) fun p hp =>
    hD p.1 (by rw [← (hMem.mp hp).2.1]; exact (hMem.mp hp).1)]
  refine Finset.sum_congr rfl fun R _ => ?_
  by_cases hPeer : (R, equivalent.code) ∈ peers
  · rw [(Rows.find?_eq_some_iff hUnique).mpr ⟨hPeer, rfl⟩, if_neg (hMem.mp hPeer).2.2]
    have hNone : db.trustLines.active R S equivalent.id = none := by
      simpa using (hMem.mp hPeer).2.2
    simp [debtsIOwe_getD hE, debtsOthersOwe_getD hE, availableCapacity, TrustTable.limit, hNone]
  · have hFind : peers.find? (·.1 = R) = none := by
      refine List.find?_eq_none.mpr fun p hp hSame => hPeer ?_
      rw [decide_eq_true_eq] at hSame
      rw [← hSame, ← (hMem.mp hp).2.1]
      exact hp
    rw [hFind]
    by_cases hLine : (db.trustLines.active R S equivalent.id).isSome
    · rw [if_pos hLine]
      rfl
    · have hNot : (R, equivalent.code) ∉ allPeersEquivalents S db := fun h => hPeer (hMem.mpr ⟨h, rfl, hLine⟩)
      obtain ⟨hForward, hReverse⟩ := owed_of_not_peer hE hNot
      have hNone : db.trustLines.active R S equivalent.id = none := by simpa using hLine
      simp [availableCapacity, TrustTable.limit, hNone, hForward, hReverse]

/-- What can be spent, link by link. -/
theorem availableToSpend_eq_sum (hE : equivalent ∈ env.directory.equivalents)
    (hParties : PartiesRegistered db) :
    availableToSpend (computeSummary S db) equivalent.code =
      max 0 (env.directory.participants.map fun R => linkCapacity db S R.id equivalent.id).sum := by
  set D := (env.directory.participants.map (·.id)).toFinset with hD
  set peers := ((allPeersEquivalents S db).map Prod.fst).toFinset with hPeers
  have hLines : ∀ l ∈ db.trustLines.rows, l.fromParticipantId ∈ D ∪ peers := by
    intro l hl
    obtain ⟨p, hp, hId⟩ := (hParties.lines l hl).1
    simp only [hD, Finset.mem_union, List.mem_toFinset]
    exact Or.inl (List.mem_map.mpr ⟨p, hp, hId⟩)
  have hListed : ∀ R, (R, equivalent.code) ∈ allPeersEquivalents S db → R ∈ D ∪ peers := by
    intro R hR
    simp only [hPeers, Finset.mem_union, List.mem_toFinset]
    exact Or.inr (List.mem_map.mpr ⟨_, hR, rfl⟩)
  have hOutside : ∀ R ∈ D ∪ peers, R ∉ D → linkCapacity db S R equivalent.id = 0 := by
    intro R _ hR
    have hUnregistered : ¬env.directory.Registered R := by
      rintro ⟨p, hp, hId⟩
      exact hR (List.mem_toFinset.mpr (List.mem_map.mpr ⟨p, hp, hId⟩))
    have hNone : db.trustLines.active R S equivalent.id = none := by
      refine Option.eq_none_iff_forall_ne_some.mpr fun l hl => hUnregistered ?_
      obtain ⟨hMem, _, hKey⟩ := TrustTable.active_eq_some_iff.mp hl
      have hFrom : l.fromParticipantId = R := congrArg Prod.fst hKey
      exact hFrom ▸ (hParties.lines l hMem).1
    have hForward : db.debts.owed S R equivalent.id = 0 := by
      refine le_antisymm (not_lt.mp fun h => hUnregistered (hParties.debts _ _ _ h).2) ?_
      exact db.debts.owed_nonneg _ _ _
    have hReverse : db.debts.owed R S equivalent.id = 0 := by
      refine le_antisymm (not_lt.mp fun h => hUnregistered (hParties.debts _ _ _ h).1) ?_
      exact db.debts.owed_nonneg _ _ _
    simp [linkCapacity, availableCapacity, TrustTable.limit, hNone, hForward, hReverse]
  rw [availableToSpend_eq, spendCapacities, List.filter_append, List.map_append, List.sum_append,
    sum_lineCapacities hE hLines, sum_debtCapacities hE hListed, ← Finset.sum_add_distrib]
  have hTerm : ∀ R, ((if (db.trustLines.active R S equivalent.id).isSome then
      availableCapacity db S R equivalent.id else 0) +
      if (db.trustLines.active R S equivalent.id).isSome then 0
        else max 0 (availableCapacity db S R equivalent.id)) = linkCapacity db S R equivalent.id := by
    intro R
    unfold linkCapacity
    split
    · rw [add_zero]
    · rw [zero_add]
  rw [Finset.sum_congr rfl fun R _ => hTerm R, ← Finset.sum_subset Finset.subset_union_left hOutside,
    List.sum_toFinset _ env.directory.participant_id_unique, List.map_map]
  rfl

end Links

section Agreement

variable {ops : List LedgerOp}

/-- Without live locks nothing is reserved. -/
theorem reservation_eq_zero (h : db.prepareLocks.live now = []) (a b e : Uuid) :
    reservation db now a b e = 0 := by
  simp [reservation, h]

/-- The capacity of a link is the engine's, since no debt is above its line's limit. -/
theorem linkCapacity_eq_spareCapacity (hBounded : Bounded db) (h : db.prepareLocks.live now = [])
    (S R e : Uuid) : linkCapacity db S R e = PaymentRouter.spareCapacity db now S R e := by
  rw [PaymentRouter.spareCapacity, reservation_eq_zero h, sub_zero, linkCapacity]
  split
  · refine (max_eq_right ?_).symm
    have hLimit := hBounded.withinLimit S R e
    have hReverse := db.debts.owed_nonneg R S e
    unfold availableCapacity
    linarith
  · rfl

/-- The three computations agree in an equivalent: the router's edge with the
engine's segment for every payment without locks, and, when no lock is live, the
balance with the edges of the participant. -/
def OneCapacity (order : ReadOrder) (now : Time) (equivalent : Equivalent) (db : Db env) : Prop :=
  let graph := (PaymentRouter.buildGraphImpl order now equivalent.code db).graph
  (∀ S ∈ env.directory.participants, ∀ R ∈ env.directory.participants, ∀ txId,
    db.prepareLocks.ofTx txId = [] →
      graph.getD₂ S.pid R.pid 0 = max 0 (availableCapacity db S.id R.id equivalent.id -
        reservedUsage db now txId S.id R.id equivalent.id)) ∧
  (db.prepareLocks.live now = [] → ∀ S ∈ env.directory.participants,
    availableToSpend (computeSummary S.id db) equivalent.code =
      (env.directory.participants.map fun R => graph.getD₂ S.pid R.pid 0).sum)

/-- In a reachable state the capacities agree exactly when no pair without an
active line has an unreserved debt to offset. -/
theorem oneCapacity_iff (env : Env) (ops : List LedgerOp) (order : ReadOrder) (equivalent : Equivalent)
    (hE : equivalent ∈ env.directory.equivalents) :
    let s := (Ledger.empty : Ledger env).run ops
    OneCapacity order s.now equivalent s.db ↔
      ∀ S ∈ env.directory.participants, ∀ R ∈ env.directory.participants,
        s.db.trustLines.active R.id S.id equivalent.id = none →
          s.db.debts.owed R.id S.id equivalent.id ≤
            s.db.debts.owed S.id R.id equivalent.id + reservation s.db s.now S.id R.id equivalent.id := by
  intro s
  have hLocks : LocksSound s.db := locksSound_run ops
  have hBounded : Bounded s.db := bounded_run ops
  have hParties : PartiesRegistered s.db := partiesRegistered_run ops
  have hCode : env.directory.equivalentByCode equivalent.code = some equivalent :=
    (Rows.find?_eq_some_iff env.directory.code_unique).mpr ⟨hE, rfl⟩
  have hEdge {S R : Participant} (hS : S ∈ env.directory.participants)
      (hR : R ∈ env.directory.participants) :=
    @PaymentRouter.buildGraphImpl_capacity _ s.db s.now order _ _ _ _ hCode hS hR
  have hSpare {S R : Participant} (hNone : s.db.trustLines.active R.id S.id equivalent.id = none) :
      PaymentRouter.spareCapacity s.db s.now S.id R.id equivalent.id = 0 ↔
        s.db.debts.owed R.id S.id equivalent.id ≤ s.db.debts.owed S.id R.id equivalent.id +
          reservation s.db s.now S.id R.id equivalent.id := by
    rw [PaymentRouter.spareCapacity, max_eq_left_iff, availableCapacity, TrustTable.limit, hNone]
    simp only [Option.map_none, Option.getD_none]
    constructor <;> intro h <;> linarith
  have hAgree {S R : Participant} (hS : S ∈ env.directory.participants)
      (hR : R ∈ env.directory.participants) :
      (PaymentRouter.buildGraphImpl order s.now equivalent.code s.db).graph.getD₂ S.pid R.pid 0 =
        PaymentRouter.spareCapacity s.db s.now S.id R.id equivalent.id ↔
      (s.db.trustLines.active R.id S.id equivalent.id = none →
        s.db.debts.owed R.id S.id equivalent.id ≤ s.db.debts.owed S.id R.id equivalent.id +
          reservation s.db s.now S.id R.id equivalent.id) := by
    rw [hEdge hS hR]
    cases hActive : s.db.trustLines.active R.id S.id equivalent.id with
    | none =>
        rw [← hSpare hActive]
        simp [eq_comm]
    | some l => simp
  constructor
  · rintro ⟨hEngine, _⟩ S hS R hR hNone
    obtain ⟨txId, hFresh⟩ :=
      Infinite.exists_notMem_finset (s.db.prepareLocks.rows.map PrepareLock.txId).toFinset
    have hFree : s.db.prepareLocks.ofTx txId = [] := by
      refine List.filter_eq_nil_iff.mpr fun l hl hTx => hFresh ?_
      rw [← of_decide_eq_true hTx, List.mem_toFinset]
      exact List.mem_map_of_mem hl
    refine (hAgree hS hR).mp ?_ hNone
    rw [hEngine S hS R hR txId hFree, hLocks.reservedUsage_eq hFree, PaymentRouter.spareCapacity]
  · intro hPairs
    refine ⟨fun S hS R hR txId hFree => ?_, fun hLive S hS => ?_⟩
    · rw [hLocks.reservedUsage_eq hFree]
      exact (hAgree hS hR).mpr (hPairs S hS R hR)
    · have hLinks : env.directory.participants.map (fun R => linkCapacity s.db S.id R.id equivalent.id) =
          env.directory.participants.map fun R =>
            (PaymentRouter.buildGraphImpl order s.now equivalent.code s.db).graph.getD₂ S.pid R.pid 0 := by
        refine List.map_congr_left fun R hR => ?_
        rw [linkCapacity_eq_spareCapacity hBounded hLive]
        exact ((hAgree hS hR).mpr (hPairs S hS R hR)).symm
      rw [availableToSpend_eq_sum hE hParties, hLinks]
      refine max_eq_right (List.sum_nonneg fun x hx => ?_)
      rw [← hLinks] at hx
      obtain ⟨R, _, rfl⟩ := List.mem_map.mp hx
      rw [linkCapacity_eq_spareCapacity hBounded hLive]
      exact le_max_left _ _

/-- With lines in both directions every capacity agrees. -/
theorem oneCapacity_lines :
    OneCapacity .insertion 0 .uah ((Ledger.empty : Ledger (Env.sample .numeric208 true)).run
      ([openLine 1 "B" .uah 10, openLine 2 "A" .uah 0] ++ payAlong "p1" 2 ["B", "A"] 5 .uah)).db :=
  (oneCapacity_iff (Env.sample .numeric208 true)
    ([openLine 1 "B" .uah 10, openLine 2 "A" .uah 0] ++ payAlong "p1" 2 ["B", "A"] 5 .uah)
    .insertion .uah (by decide)).mpr (by decide +kernel)

/-- After B pays A over A's line, A can pay B back for the engine and for the
balance, and not for the router. -/
theorem not_oneCapacity :
    ¬∀ (env : Env) (ops : List LedgerOp) (order : ReadOrder), ∀ equivalent ∈ env.directory.equivalents,
      OneCapacity order ((Ledger.empty : Ledger env).run ops).now equivalent
        ((Ledger.empty : Ledger env).run ops).db := by
  intro h
  have hAgree := (h (Env.sample .numeric208 true)
    (openLine 1 "B" .uah 10 :: payAlong "p1" 2 ["B", "A"] 5 .uah) .insertion .uah (by decide)).1
    ⟨1, "A"⟩ (by decide) ⟨2, "B"⟩ (by decide) "p2" (by decide +kernel)
  revert hAgree
  decide +kernel

end Agreement

end GeoLedger

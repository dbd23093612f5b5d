import Mathlib
import GeoLedger.Payments.RouterGraph
import GeoLedger.Payments.RouteSearch

/-! Routing and preparation agree while the decimal context keeps all digits. The
routes found on a fresh graph name registered participants, and along every edge they
send at most what the engine leaves there, so the engine prepares them. -/
namespace GeoLedger
open Outcomes

variable {env : Env} {db db' : Db env} {now : Time} {order : ReadOrder}

namespace PaymentRouter

section Nodes

variable {code : String} {equivalent : Equivalent} {u v : Pid}

/-- A PID of a registered participant. -/
def Known (d : Directory) (pid : Pid) : Prop := ∃ p ∈ d.participants, p.pid = pid

/-- The PIDs of the router's map are registered. -/
theorem pidMap_known {d : Directory} {ids : List Uuid} {id : Uuid} {pid : Pid}
    (h : (pidMap d ids).get? id = some pid) : Known d pid := by
  obtain ⟨_, p, hp, _, hPid⟩ := pidMap_eq_some_iff.mp h
  exact ⟨p, hp, hPid⟩

/-- Adding lines brings only the PIDs of their ends into the graph. -/
theorem mem_keys_foldl_addLine {pids : Dict Uuid Pid} {debtMap : Dict (Uuid × Uuid) Amount}
    {reserved : Dict (Pid × Pid) Amount} {lines : List TrustLine} {r : PaymentRouter}
    (h : u ∈ (lines.foldl (addLine pids debtMap reserved) r).graph.keys) :
    u ∈ r.graph.keys ∨ ∃ id, pids.get? id = some u := by
  induction lines generalizing r with
  | nil => exact Or.inl h
  | cons l rest ih =>
      rcases ih h with hStep | hNode
      · unfold addLine at hStep
        split at hStep
        · next creditorPid debtorPid _ hDebtor =>
            simp only at hStep
            split at hStep
            · rcases Dict.mem_keys_set.mp hStep with rfl | hOld
              · exact Or.inr ⟨_, hDebtor⟩
              · exact Or.inl hOld
            · exact Or.inl hStep
        · exact Or.inl hStep
      · exact Or.inr hNode

/-- The nodes of a fresh graph are registered. -/
theorem buildGraphImpl_known (h : u ∈ (buildGraphImpl order now code db).graph.keys) :
    Known env.directory u := by
  unfold buildGraphImpl at h
  split at h
  · cases h
  · simp only at h
    split at h
    · cases h
    · rcases mem_keys_foldl_addLine h with hStart | ⟨id, hNode⟩
      · rw [Dict.mem_keys_ofList, List.map_map] at hStart
        obtain ⟨pid, hPid, rfl⟩ := List.mem_map.mp hStart
        obtain ⟨⟨id, _⟩, hItem, rfl⟩ := List.mem_map.mp hPid
        exact pidMap_known (Dict.get?_eq_some_iff.mpr hItem)
      · exact pidMap_known hNode

/-- The capacity that a line gives to an edge is not negative. -/
theorem edgeOf_nonneg {pids : Dict Uuid Pid} {debtMap : Dict (Uuid × Uuid) Amount}
    {reserved : Dict (Pid × Pid) Amount} (l : TrustLine) : 0 ≤ edgeOf pids debtMap reserved u v l := by
  unfold edgeOf
  split
  · exact le_max_left _ _
  · exact le_rfl

/-- The capacities of a fresh graph are not negative, and a positive one lies
between registered participants. -/
theorem buildGraphImpl_edges (u v : Pid) :
    0 ≤ (buildGraphImpl order now code db).graph.getD₂ u v 0 ∧
      (0 < (buildGraphImpl order now code db).graph.getD₂ u v 0 →
        Known env.directory u ∧ Known env.directory v) := by
  have hEmpty : PaymentRouter.empty.graph.getD₂ u v 0 = 0 := rfl
  unfold buildGraphImpl
  split
  · rw [hEmpty]
    exact ⟨le_rfl, fun h => absurd h (lt_irrefl _)⟩
  · simp only
    split
    · rw [hEmpty]
      exact ⟨le_rfl, fun h => absurd h (lt_irrefl _)⟩
    · rw [getD₂_foldl_addLine]
      simp only [Dict.getD₂, Dict.getD_ofList_const]
      have hZero : (Dict.empty : Dict Pid Amount).getD v 0 = 0 := rfl
      rw [hZero, zero_add]
      refine ⟨List.sum_nonneg fun x hx => ?_, fun hPos => ?_⟩
      · obtain ⟨l, _, rfl⟩ := List.mem_map.mp hx
        exact edgeOf_nonneg l
      · by_contra hUnknown
        refine absurd hPos (List.sum_eq_zero fun x hx => ?_).not_gt
        obtain ⟨l, _, rfl⟩ := List.mem_map.mp hx
        rw [edgeOf, if_neg]
        rintro ⟨hDebtor, hCreditor⟩
        exact hUnknown ⟨pidMap_known hDebtor, pidMap_known hCreditor⟩

/-- Adding lines takes no node away. -/
theorem mem_keys_of_mem_keys_foldl_addLine {pids : Dict Uuid Pid} {debtMap : Dict (Uuid × Uuid) Amount}
    {reserved : Dict (Pid × Pid) Amount} (lines : List TrustLine) {r : PaymentRouter} (h : u ∈ r.graph.keys) :
    u ∈ (lines.foldl (addLine pids debtMap reserved) r).graph.keys := by
  induction lines generalizing r with
  | nil => exact h
  | cons l rest ih =>
      refine ih ?_
      unfold addLine
      split
      · simp only
        split
        · exact Dict.mem_keys_set.mpr (Or.inr h)
        · exact h
      · exact h

theorem mem_keys_nodes {Value : Type} {pids : Dict Uuid Pid} {id : Uuid} {pid : Pid} {v : Value}
    (h : pids.get? id = some pid) : pid ∈ (Dict.ofList ((pids.items.map (·.2)).map (·, v))).keys := by
  rw [Dict.mem_keys_ofList, List.map_map]
  exact List.mem_map.mpr ⟨pid, List.mem_map.mpr ⟨(id, pid), Dict.get?_eq_some_iff.mp h, rfl⟩, rfl⟩

/-- The ends of a positive capacity of a fresh graph are nodes of it. -/
theorem buildGraphImpl_ends (hPos : 0 < (buildGraphImpl order now code db).graph.getD₂ u v 0) :
    u ∈ (buildGraphImpl order now code db).graph.keys ∧ v ∈ (buildGraphImpl order now code db).graph.keys := by
  have hEmpty : PaymentRouter.empty.graph.getD₂ u v 0 = 0 := rfl
  unfold buildGraphImpl at hPos ⊢
  split at hPos
  · exact absurd (hEmpty ▸ hPos) (lt_irrefl _)
  · simp only at hPos ⊢
    split at hPos
    · exact absurd (hEmpty ▸ hPos) (lt_irrefl _)
    · next hIds =>
        rw [if_neg hIds]
        rw [getD₂_foldl_addLine] at hPos
        simp only [Dict.getD₂, Dict.getD_ofList_const] at hPos
        have hZero : (Dict.empty : Dict Pid Amount).getD v 0 = 0 := rfl
        rw [hZero, zero_add] at hPos
        by_contra hUnknown
        refine absurd hPos (List.sum_eq_zero fun x hx => ?_).not_gt
        obtain ⟨l, _, rfl⟩ := List.mem_map.mp hx
        rw [edgeOf, if_neg]
        rintro ⟨hDebtor, hCreditor⟩
        exact hUnknown ⟨mem_keys_of_mem_keys_foldl_addLine _ (mem_keys_nodes hDebtor),
          mem_keys_of_mem_keys_foldl_addLine _ (mem_keys_nodes hCreditor)⟩

/-- The amounts of all locks are amounts of the column. -/
def LocksStored (db : Db env) : Prop :=
  ∀ l ∈ db.prepareLocks.rows, ∀ f ∈ l.flows, f.amount ∈ env.column.grid

/-- With stored locks the spare capacity is an amount of the column. -/
theorem spareCapacity_mem_grid (h : LocksStored db) (a b e : Uuid) :
    spareCapacity db now a b e ∈ env.column.grid := by
  have hLimit : db.trustLines.limit b a e ∈ env.column.grid := by
    unfold TrustTable.limit
    cases hLine : db.trustLines.active b a e with
    | none => exact env.column.grid.zero_mem
    | some l => exact db.trustLines.stored l (TrustTable.active_eq_some_iff.mp hLine).1
  have hReserved : reservation db now a b e ∈ env.column.grid := by
    refine AddSubgroup.list_sum_mem _ fun x hx => ?_
    obtain ⟨f, hf, rfl⟩ := List.mem_map.mp hx
    obtain ⟨l, hl, hfl⟩ := List.mem_flatMap.mp (List.mem_filter.mp hf).1
    exact h l (List.mem_filter.mp hl).1 f hfl
  have hSpare : availableCapacity db a b e - reservation db now a b e ∈ env.column.grid :=
    env.column.grid.sub_mem (env.column.grid.add_mem (env.column.grid.sub_mem hLimit
      (db.debts.owed_mem_grid _ _ _)) (db.debts.owed_mem_grid _ _ _)) hReserved
  rcases max_choice 0 (availableCapacity db a b e - reservation db now a b e) with hMax | hMax
  · rw [spareCapacity, hMax]
    exact env.column.grid.zero_mem
  · rw [spareCapacity, hMax]
    exact hSpare

/-- A capacity of a fresh graph is what the engine would leave somewhere, or nothing. -/
theorem buildGraphImpl_cases (u v : Pid) : (buildGraphImpl order now code db).graph.getD₂ u v 0 = 0 ∨
    ∃ a b e, (buildGraphImpl order now code db).graph.getD₂ u v 0 = spareCapacity db now a b e := by
  obtain ⟨hNonneg, hKnown⟩ := @buildGraphImpl_edges env db now order code u v
  rcases hNonneg.eq_or_lt with hZero | hPos
  · exact Or.inl hZero.symm
  · obtain ⟨⟨p, hp, rfl⟩, ⟨q, hq, rfl⟩⟩ := hKnown hPos
    cases hCode : env.directory.equivalentByCode code with
    | none =>
        rw [buildGraphImpl, hCode]
        exact Or.inl rfl
    | some equivalent =>
        rw [buildGraphImpl_capacity hCode hp hq]
        split
        · exact Or.inr ⟨_, _, _, rfl⟩
        · exact Or.inl rfl

/-- The capacities of a fresh graph are amounts of the column when all locks are. -/
theorem buildGraphImpl_stored (h : LocksStored db) (u v : Pid) :
    (buildGraphImpl order now code db).graph.getD₂ u v 0 ∈ env.column.grid := by
  rcases @buildGraphImpl_cases env db now order code u v with hZero | ⟨a, b, e, hSpare⟩
  · rw [hZero]
    exact env.column.grid.zero_mem
  · rw [hSpare]
    exact spareCapacity_mem_grid h a b e

end Nodes

section Digits

/-- The limits, the debts and the reserved flows of a ledger. -/
def amountsOf (db : Db env) : List Amount :=
  db.trustLines.rows.map (·.limit) ++ db.debts.rows.map (·.amount) ++
    (db.prepareLocks.rows.flatMap (·.flows)).map (·.amount)

/-- The amount to pay with the limits, the debts and the reserved flows, written with one number of
decimals, sum to no more digits than the decimal context keeps. -/
def AmountsFit (db : Db env) (amount : Amount) : Prop :=
  ∃ e, decimalContext.Fits e (((amount :: amountsOf db).map abs).sum) ∧ ∀ x ∈ amount :: amountsOf db, x ∈ digitsTo e

theorem abs_sum_le (l : List Amount) : |l.sum| ≤ (l.map abs).sum := by
  induction l with
  | nil => simp
  | cons x rest ih =>
      rw [List.sum_cons, List.map_cons, List.sum_cons]
      exact (abs_add_le x rest.sum).trans (add_le_add_right ih _)

theorem sum_abs_nonneg (l : List Amount) : 0 ≤ (l.map abs).sum := (abs_nonneg _).trans (abs_sum_le l)

/-- Fewer amounts have a smaller sum of magnitudes. -/
theorem sum_abs_le_of_sublist {l l' : List Amount} (h : l.Sublist l') : (l.map abs).sum ≤ (l'.map abs).sum := by
  refine (h.map abs).sum_le_sum fun x hx => ?_
  obtain ⟨y, -, rfl⟩ := List.mem_map.mp hx
  exact abs_nonneg y

/-- An amount is at most the sum of all magnitudes. -/
theorem abs_le_sum_abs {l : List Amount} {x : Amount} (h : x ∈ l) : |x| ≤ (l.map abs).sum := by
  have hSingle := sum_abs_le_of_sublist (List.singleton_sublist.mpr h)
  simpa using hSingle

variable {e : Uuid} {k : ℤ}

/-- A limit is zero or that of a row. -/
theorem limit_mem_cases (tl : TrustTable env) (a b e : Uuid) :
    tl.limit a b e = 0 ∨ tl.limit a b e ∈ tl.rows.map (·.limit) := by
  rcases tl.limit_cases a b e with hZero | ⟨l, hMem, _, _, hLimit⟩
  · exact Or.inl hZero
  · exact Or.inr (hLimit ▸ List.mem_map_of_mem hMem)

/-- What is owed is zero or the amount of a row. -/
theorem owed_mem_cases (t : DebtTable env) (a b e : Uuid) :
    t.owed a b e = 0 ∨ t.owed a b e ∈ t.rows.map (·.amount) := by
  rcases t.owed_cases a b e with hZero | ⟨d, hMem, _, hOwed⟩
  · exact Or.inl hZero
  · exact Or.inr (hOwed ▸ List.mem_map_of_mem hMem)

/-- What is zero or listed is no larger than the listed amounts together. -/
theorem abs_le_of_cases {l : List Amount} {x : Amount} (h : x = 0 ∨ x ∈ l) : |x| ≤ (l.map abs).sum := by
  rcases h with rfl | hMem
  · rw [abs_zero]
    exact sum_abs_nonneg l
  · exact abs_le_sum_abs hMem

/-- The flows that a reservation adds up. -/
theorem exists_reservation (db : Db env) (now : Time) (a b e : Uuid) : ∃ l : List Amount,
    l.Sublist ((db.prepareLocks.rows.flatMap (·.flows)).map (·.amount)) ∧ reservation db now a b e = l.sum :=
  ⟨_, (List.filter_sublist.trans (List.filter_sublist.flatMap _)).map _, rfl⟩

/-- The amounts of a ledger sum up by tables. -/
theorem sum_abs_amountsOf (db : Db env) : ((amountsOf db).map abs).sum =
    ((db.trustLines.rows.map (·.limit)).map abs).sum + ((db.debts.rows.map (·.amount)).map abs).sum +
      (((db.prepareLocks.rows.flatMap (·.flows)).map (·.amount)).map abs).sum := by
  rw [amountsOf, List.map_append, List.map_append, List.sum_append, List.sum_append]

/-- What the engine leaves along an edge has the digits of the ledger's amounts, and is no larger than these together. -/
theorem spareCapacity_digits (h : ∀ x ∈ amountsOf db, x ∈ digitsTo k) (a b e : Uuid) :
    spareCapacity db now a b e ∈ digitsTo k ∧ |spareCapacity db now a b e| ≤ ((amountsOf db).map abs).sum := by
  obtain ⟨flows, hFlows, hReserved⟩ := exists_reservation db now a b e
  have hLimit := limit_mem_cases db.trustLines b a e
  have hOwed := owed_mem_cases db.debts a b e
  have hOwing := owed_mem_cases db.debts b a e
  have hMem {l : List Amount} (hl : l ⊆ amountsOf db) {x : Amount} (hx : x = 0 ∨ x ∈ l) : x ∈ digitsTo k := by
    rcases hx with rfl | hIn
    · exact (digitsTo k).zero_mem
    · exact h x (hl hIn)
  have hLines : db.trustLines.rows.map (·.limit) ⊆ amountsOf db := fun _ hx =>
    List.mem_append_left _ (List.mem_append_left _ hx)
  have hDebts : db.debts.rows.map (·.amount) ⊆ amountsOf db := fun _ hx =>
    List.mem_append_left _ (List.mem_append_right _ hx)
  have hReservedMem : reservation db now a b e ∈ digitsTo k := by
    rw [hReserved]
    exact AddSubgroup.list_sum_mem _ fun x hx => h x (List.mem_append_right _ (hFlows.subset hx))
  have hBound : availableCapacity db a b e - reservation db now a b e ≤ ((amountsOf db).map abs).sum := by
    have hLess := (le_abs_self _).trans (abs_le_of_cases hLimit)
    have hMore := (le_abs_self _).trans (abs_le_of_cases hOwing)
    have hTaken : -reservation db now a b e ≤ _ := (neg_le_abs _).trans
      ((hReserved ▸ abs_sum_le flows).trans (sum_abs_le_of_sublist hFlows))
    have hNonneg := db.debts.owed_nonneg a b e
    rw [sum_abs_amountsOf, availableCapacity]
    linarith
  refine ⟨?_, ?_⟩
  · have hSpare : availableCapacity db a b e - reservation db now a b e ∈ digitsTo k :=
      (digitsTo k).sub_mem ((digitsTo k).add_mem ((digitsTo k).sub_mem (hMem hLines hLimit) (hMem hDebts hOwed))
        (hMem hDebts hOwing)) hReservedMem
    rcases max_choice 0 (availableCapacity db a b e - reservation db now a b e) with hMax | hMax
    · rw [spareCapacity, hMax]
      exact (digitsTo k).zero_mem
    · rw [spareCapacity, hMax]
      exact hSpare
  · rw [spareCapacity, abs_of_nonneg (le_max_left _ _)]
    exact max_le (sum_abs_nonneg _) hBound

/-- So does what the graph holds for any two PIDs. -/
theorem buildGraphImpl_digits {code : String} (h : ∀ x ∈ amountsOf db, x ∈ digitsTo k) (u v : Pid) :
    (buildGraphImpl order now code db).graph.getD₂ u v 0 ∈ digitsTo k ∧
      |(buildGraphImpl order now code db).graph.getD₂ u v 0| ≤ ((amountsOf db).map abs).sum := by
  rcases @buildGraphImpl_cases env db now order code u v with hZero | ⟨a, b, e, hSpare⟩
  · rw [hZero]
    exact ⟨(digitsTo k).zero_mem, abs_le_of_cases (Or.inl rfl)⟩
  · rw [hSpare]
    exact spareCapacity_digits h a b e

/-- When the amounts of the ledger fit the context, a search in a fresh graph rounds nothing. -/
theorem AmountsFit.context {code : String} {amount : Amount} (h : AmountsFit db amount) :
    FitsContext (buildGraphImpl order now code db).graph amount := by
  obtain ⟨k, hTotal, hDigits⟩ := h
  have hLedger : ((amountsOf db).map abs).sum ≤ ((amount :: amountsOf db).map abs).sum :=
    sum_abs_le_of_sublist (List.sublist_cons_self _ _)
  have hFits {x : Amount} (hx : x ∈ digitsTo k) (hLe : |x| ≤ ((amount :: amountsOf db).map abs).sum) :
      decimalContext.Fits k x := hTotal.of_abs_le hx (hLe.trans (le_abs_self _))
  refine ⟨k, hFits (hDigits amount List.mem_cons_self) (abs_le_sum_abs List.mem_cons_self), fun u v => ?_⟩
  obtain ⟨hMem, hLe⟩ := @buildGraphImpl_digits env db now order k code
    (fun x hx => hDigits x (List.mem_cons_of_mem _ hx)) u v
  exact hFits hMem (hLe.trans hLedger)

/-- A running total over reserved flows is exact when the amounts of the ledger fit the context. -/
theorem AmountsFit.flows_exact {amount : Amount} {flows : List Amount} (h : AmountsFit db amount)
    (hFlows : flows.Sublist ((db.prepareLocks.rows.flatMap (·.flows)).map (·.amount))) :
    decimalSum flows = flows.sum := by
  obtain ⟨k, hTotal, hDigits⟩ := h
  have hAll : flows.Sublist (amount :: amountsOf db) :=
    (hFlows.trans (List.sublist_append_right _ _)).trans (List.sublist_cons_self _ _)
  exact decimalSum_eq hTotal (fun x hx => hDigits x (hAll.subset hx))
    ((sum_abs_le_of_sublist hAll).trans (le_abs_self _))

/-- So are the differences and sums that make a capacity, for the engine and for the router. -/
theorem AmountsFit.capacity_exact {amount : Amount} {flows : List Amount} (h : AmountsFit db amount)
    (hFlows : flows.Sublist ((db.prepareLocks.rows.flatMap (·.flows)).map (·.amount))) (a b e : Uuid) :
    decimalAdd (decimalSub (db.trustLines.limit b a e) (db.debts.owed a b e)) (db.debts.owed b a e) =
        availableCapacity db a b e ∧
      decimalSub (availableCapacity db a b e) (decimalSum flows) = availableCapacity db a b e - flows.sum := by
  rw [h.flows_exact hFlows]
  obtain ⟨k, hTotal, hDigits⟩ := h
  have hLimitCases := limit_mem_cases db.trustLines b a e
  have hMem {l : List Amount} (hl : l ⊆ amountsOf db) {x : Amount} (hx : x = 0 ∨ x ∈ l) : x ∈ digitsTo k := by
    rcases hx with rfl | hIn
    · exact (digitsTo k).zero_mem
    · exact hDigits x (List.mem_cons_of_mem _ (hl hIn))
  have hLimitMem : db.trustLines.limit b a e ∈ digitsTo k :=
    hMem (fun _ hx => List.mem_append_left _ (List.mem_append_left _ hx)) hLimitCases
  have hOwedMem : ∀ x y, db.debts.owed x y e ∈ digitsTo k := fun x y =>
    hMem (fun _ hx => List.mem_append_left _ (List.mem_append_right _ hx)) (owed_mem_cases db.debts x y e)
  have hFlowMem : flows.sum ∈ digitsTo k := AddSubgroup.list_sum_mem _ fun x hx =>
    hMem (fun _ hx => List.mem_append_right _ hx) (Or.inr (hFlows.subset hx))
  -- What is taken off and what is added come from different tables, or are both debts and not negative.
  have hLimit := abs_le_of_cases hLimitCases
  have hOwed := abs_le_of_cases (owed_mem_cases db.debts a b e)
  have hOwing := abs_le_of_cases (owed_mem_cases db.debts b a e)
  rw [abs_of_nonneg (db.debts.owed_nonneg _ _ _)] at hOwed hOwing
  have hOwedNonneg := db.debts.owed_nonneg a b e
  have hOwingNonneg := db.debts.owed_nonneg b a e
  have hFlowSum := (abs_sum_le flows).trans (sum_abs_le_of_sublist hFlows)
  have hPayment := abs_nonneg amount
  have hFits {x : Amount} (hx : x ∈ digitsTo k) (hLe : |x| ≤ ((amountsOf db).map abs).sum) :
      decimalContext.Fits k x := by
    refine hTotal.of_abs_le hx ((hLe.trans ?_).trans (le_abs_self _))
    exact sum_abs_le_of_sublist (List.sublist_cons_self _ _)
  rw [sum_abs_amountsOf] at hFits
  obtain ⟨hLimitLow, hLimitHigh⟩ := abs_le.mp hLimit
  obtain ⟨hFlowLow, hFlowHigh⟩ := abs_le.mp hFlowSum
  have hLess : decimalSub (db.trustLines.limit b a e) (db.debts.owed a b e) =
      db.trustLines.limit b a e - db.debts.owed a b e := by
    refine (hFits ((digitsTo k).sub_mem hLimitMem (hOwedMem a b)) (abs_le.mpr ⟨?_, ?_⟩)).round_eq
    · linarith
    · linarith
  have hAvailableMem : availableCapacity db a b e ∈ digitsTo k :=
    (digitsTo k).add_mem ((digitsTo k).sub_mem hLimitMem (hOwedMem a b)) (hOwedMem b a)
  refine ⟨?_, ?_⟩
  · rw [hLess]
    refine decimalAdd_eq (hFits hAvailableMem (abs_le.mpr ⟨?_, ?_⟩))
    · linarith
    · linarith
  · refine (hFits ((digitsTo k).sub_mem hAvailableMem hFlowMem) (abs_le.mpr ⟨?_, ?_⟩)).round_eq
    · rw [availableCapacity]
      linarith
    · rw [availableCapacity]
      linarith

end Digits

section Flows

variable {d : Directory} {e : Uuid} {routes : List Route} {resolved : List (List Participant × Amount)}

/-- A path of registered PIDs resolves. -/
theorem resolvePath_of_known {path : List Pid} (h : ∀ pid ∈ path, Known d pid) :
    ∃ nodes, resolvePath d path = some nodes := by
  refine exists_mapM_eq_some fun pid hPid => ?_
  obtain ⟨p, hp, hEq⟩ := h pid hPid
  exact ⟨p, (Rows.find?_eq_some_iff d.pid_unique).mpr ⟨hp, hEq⟩⟩

/-- Routes over registered PIDs resolve. -/
theorem resolveRoutes_of_known (h : ∀ route ∈ routes, ∀ pid ∈ route.path, Known d pid) :
    ∃ resolved, resolveRoutes d routes = some resolved := by
  refine exists_mapM_eq_some fun route hRoute => ?_
  obtain ⟨nodes, hNodes⟩ := resolvePath_of_known (h route hRoute)
  exact ⟨(nodes, route.amount), by rw [hNodes]; rfl⟩

/-- The flows of a resolved path take its amount along each hop between two PIDs. -/
theorem localReserved_pathFlows {nodes : List Participant} {amount : Amount} {p q : Participant}
    (hNodes : ∀ x ∈ nodes, x ∈ d.participants) (hp : p ∈ d.participants) (hq : q ∈ d.participants) :
    localReserved (pathFlows e nodes amount) p.id q.id e =
      ((hops (nodes.map (·.pid))).map fun hop => if hop = (p.pid, q.pid) then amount else 0).sum := by
  rw [localReserved, Rows.sum_filter, pathFlows, hops_map, List.map_map, List.map_map]
  refine congrArg List.sum (List.map_congr_left fun hop hHop => ?_)
  obtain ⟨hFrom, hTo⟩ := mem_of_mem_hops hHop
  have hFromIff : hop.1.id = p.id ↔ hop.1.pid = p.pid :=
    ⟨fun h => congrArg _ (d.id_injective (hNodes _ hFrom) hp h),
      fun h => congrArg _ (d.pid_injective (hNodes _ hFrom) hp h)⟩
  have hToIff : hop.2.id = q.id ↔ hop.2.pid = q.pid :=
    ⟨fun h => congrArg _ (d.id_injective (hNodes _ hTo) hq h),
      fun h => congrArg _ (d.pid_injective (hNodes _ hTo) hq h)⟩
  simp [segmentFlow, hFromIff, hToIff]

/-- The flows of resolved routes take along an edge what the routes use of it. -/
theorem localReserved_routeFlows {p q : Participant} (hp : p ∈ d.participants) (hq : q ∈ d.participants)
    (h : List.Forall₂ (fun route nodes => resolvePath d route.path = some nodes.1 ∧
      nodes.2 = route.amount) routes resolved) :
    localReserved (routeFlows e resolved) p.id q.id e = usedBy routes p.pid q.pid := by
  induction h with
  | nil => rfl
  | @cons route nodes routes resolved hHead _ ih =>
      obtain ⟨hNodes, hAmount⟩ := hHead
      obtain ⟨hPids, hMem⟩ := resolvePath_registered hNodes
      rw [routeFlows_cons, localReserved_append, ih, localReserved_pathFlows hMem hp hq, hPids, hAmount]
      simp [usedBy]

end Flows

section Agreement

variable {code : String} {equivalent : Equivalent} {txId : TxId} {fromPid toPid : Pid} {amount : Amount}
  {routes : List Route} {resolved : List (List Participant × Amount)}

/-- The flows of routes on a fresh graph fit into what the engine leaves. -/
theorem FlowRoutes.fit (hLocks : LocksSound db) (hFits : AmountsFit db amount) (hFree : db.prepareLocks.ofTx txId = [])
    (hCode : env.directory.equivalentByCode code = some equivalent)
    (hRoutes : FlowRoutes (buildGraphImpl order now code db).graph fromPid toPid amount routes)
    (hResolved : resolveRoutes env.directory routes = some resolved) :
    FlowsFit db now txId equivalent.id (routeFlows equivalent.id resolved) := by
  have hAll := resolveRoutes_eq_some hResolved
  rintro _ _ ⟨f, hf, rfl, rfl⟩
  obtain ⟨nodes, hNodes, hPath⟩ := mem_routeFlows.mp hf
  obtain ⟨route, hRoute, hResolve, _⟩ := exists_of_mem_results hAll hNodes
  obtain ⟨hPids, hMem⟩ := resolvePath_registered hResolve
  obtain ⟨⟨p, q⟩, hHop, rfl⟩ := List.mem_map.mp hPath
  obtain ⟨hp, hq⟩ := mem_of_mem_hops hHop
  have hEdge : (p.pid, q.pid) ∈ hops route.path := by
    rw [← hPids, hops_map]
    exact List.mem_map.mpr ⟨(p, q), hHop, rfl⟩
  have hOpen := (hRoutes.paths route hRoute).2.open_edges _ hEdge
  have hWithin := hRoutes.within hFits.context p.pid q.pid
  simp only [segmentFlow]
  rw [localReserved_routeFlows (hMem p hp) (hMem q hq) hAll, hLocks.reservedUsage_eq hFree]
  rw [buildGraphImpl_capacity hCode (hMem p hp) (hMem q hq)] at hOpen hWithin
  split at hOpen
  · next hLine =>
      rw [if_pos hLine, spareCapacity] at hWithin
      rw [spareCapacity] at hOpen
      have hSpare := (lt_max_iff.mp hOpen).resolve_left (lt_irrefl _)
      rw [max_eq_right hSpare.le] at hWithin
      linarith
  · exact absurd hOpen (lt_irrefl _)

/-- What a preparation of the routes compares with a capacity is exact as well: the amount of a route
over the hop, with the reserved flows and with the routes before it over the hop. -/
theorem AmountsFit.needed_exact (hFits : AmountsFit db amount)
    (hRoutes : FlowRoutes (buildGraphImpl order now code db).graph fromPid toPid amount routes)
    {before flows : List Amount} {alloc : Amount} (hBefore : (before ++ [alloc]).Sublist (routes.map (·.amount)))
    (hFlows : flows.Sublist ((db.prepareLocks.rows.flatMap (·.flows)).map (·.amount))) :
    decimalAdd alloc (decimalAdd (decimalSum flows) (decimalSum before)) = alloc + (flows.sum + before.sum) := by
  have hTotal := hRoutes.total hFits.context
  rw [hFits.flows_exact hFlows]
  obtain ⟨k, hTop, hDigits⟩ := hFits
  have hLedger : ∀ x ∈ amountsOf db, x ∈ digitsTo k := fun x hx => hDigits x (List.mem_cons_of_mem _ hx)
  have hRouteMem : ∀ x ∈ routes.map (·.amount), x ∈ digitsTo k ∧ 0 ≤ x := by
    intro x hx
    obtain ⟨route, hRoute, rfl⟩ := List.mem_map.mp hx
    exact ⟨hRoutes.stored k (hDigits amount List.mem_cons_self)
      (fun u v => (buildGraphImpl_digits hLedger u v).1) route hRoute, (hRoutes.paths route hRoute).1.le⟩
  have hOverHop : ∀ x ∈ before ++ [alloc], x ∈ digitsTo k ∧ 0 ≤ x := fun x hx => hRouteMem x (hBefore.subset hx)
  have hBeforeMem : ∀ x ∈ before, x ∈ digitsTo k := fun x hx => (hOverHop x (List.mem_append_left _ hx)).1
  obtain ⟨hAllocMem, hAlloc⟩ := hOverHop alloc (List.mem_append_right _ List.mem_cons_self)
  have hFlowMem : flows.sum ∈ digitsTo k := AddSubgroup.list_sum_mem _ fun x hx =>
    hLedger x (List.mem_append_right _ (hFlows.subset hx))
  -- The routes over the hop carry a part of the amount, and the flows are a part of what is reserved.
  have hBeforeAbs : (before.map abs).sum = before.sum := congrArg List.sum <|
    (List.map_congr_left fun x hx => abs_of_nonneg (hOverHop x (List.mem_append_left _ hx)).2).trans (List.map_id _)
  have hCarried : before.sum + alloc ≤ |amount| := by
    have hLe := hBefore.sum_le_sum fun x hx => (hRouteMem x hx).2
    rw [hTotal, List.sum_append, List.sum_singleton] at hLe
    exact hLe.trans (le_abs_self amount)
  have hFlowSum := abs_le.mp ((abs_sum_le flows).trans (sum_abs_le_of_sublist hFlows))
  have hBeforeSum : 0 ≤ before.sum := hBeforeAbs ▸ sum_abs_nonneg before
  have hLines := sum_abs_nonneg (db.trustLines.rows.map (·.limit))
  have hDebts := sum_abs_nonneg (db.debts.rows.map (·.amount))
  have hPart {x : Amount} (hx : x ∈ digitsTo k) (hLe : |x| ≤ |amount| + ((amountsOf db).map abs).sum) :
      decimalContext.Fits k x := by
    refine hTop.of_abs_le hx (hLe.trans (Eq.le ?_ |>.trans (le_abs_self _)))
    rw [List.map_cons, List.sum_cons]
  rw [sum_abs_amountsOf] at hPart
  have hBeforeExact : decimalSum before = before.sum := by
    refine decimalSum_eq (hPart (AddSubgroup.list_sum_mem _ hBeforeMem) (abs_le.mpr ⟨?_, ?_⟩)) hBeforeMem ?_
    · linarith
    · linarith
    · rw [hBeforeAbs]
      exact le_abs_self _
  have hReserved : decimalAdd flows.sum before.sum = flows.sum + before.sum := by
    refine decimalAdd_eq (hPart ((digitsTo k).add_mem hFlowMem (AddSubgroup.list_sum_mem _ hBeforeMem))
      (abs_le.mpr ⟨?_, ?_⟩))
    · linarith
    · linarith
  rw [hBeforeExact, hReserved]
  refine decimalAdd_eq (hPart ((digitsTo k).add_mem hAllocMem ((digitsTo k).add_mem hFlowMem
    (AddSubgroup.list_sum_mem _ hBeforeMem))) (abs_le.mpr ⟨?_, ?_⟩))
  · linarith
  · linarith

/-- A path between different participants has at least two nodes. -/
theorem PathIn.two_le_length {graph : CapacityGraph} {path : List Pid} (h : PathIn graph fromPid toPid path)
    (hNe : fromPid ≠ toPid) : 2 ≤ path.length := by
  have hFirst := h.first
  have hLast := h.last
  match path with
  | [] => cases hFirst
  | [x] =>
      cases hFirst
      cases hLast
      exact absurd rfl hNe
  | _ :: _ :: _ => simp

/-- Every node of a path on a fresh graph is registered. -/
theorem PathIn.known {path : List Pid} (h : PathIn (buildGraphImpl order now code db).graph fromPid toPid path)
    (hFrom : Known env.directory fromPid) : ∀ pid ∈ path, Known env.directory pid := by
  intro pid hPid
  rcases mem_path_cases h.first hPid with rfl | ⟨hop, hHop, rfl⟩
  · exact hFrom
  · exact ((buildGraphImpl_edges hop.1 hop.2).2 (h.open_edges hop hHop)).2

/-- What a preparation of the routes found must leave: the payment PREPARED, and
locks whose flows are the hops of the routes. -/
def PreparedAlong (now : Time) (e : Uuid) (tx : Transaction) (routes : List Route) (db db' : Db env) :
    Prop :=
  ∃ resolved, resolveRoutes env.directory routes = some resolved ∧
    Prepares now e tx (routeFlows e resolved) db db' ∧
    (db'.transactions.get? tx.txId).map (·.state) = some .PREPARED

/-- The context rounds nothing that the router and the engine compute from a ledger for routes: evaluated one
operation after the other, over any of the reserved flows and of the routes, it is what `lineCapacity` and
`checkSegment` write. -/
structure SumsExact (db : Db env) (routes : List Route) : Prop where
  available : ∀ a b e, decimalAdd (decimalSub (db.trustLines.limit b a e) (db.debts.owed a b e))
    (db.debts.owed b a e) = availableCapacity db a b e
  left : ∀ (a b e : Uuid) (flows : List Amount),
    flows.Sublist ((db.prepareLocks.rows.flatMap (·.flows)).map (·.amount)) →
      decimalSub (availableCapacity db a b e) (decimalSum flows) = availableCapacity db a b e - flows.sum
  needed : ∀ (before flows : List Amount) (alloc : Amount), (before ++ [alloc]).Sublist (routes.map (·.amount)) →
    flows.Sublist ((db.prepareLocks.rows.flatMap (·.flows)).map (·.amount)) →
      decimalAdd alloc (decimalAdd (decimalSum flows) (decimalSum before)) = alloc + (flows.sum + before.sum)

/-- Routes found on a fresh graph are prepared in the state the graph was built from, when
the decimal context keeps the digits of its amounts; it then rounds no sum on the way. -/
theorem routing_agrees {r : PaymentRouter} {maxHops maxPaths : ℤ} {deadline : Nat} {avoid : List Pid}
    {tx : Transaction} (hLocks : LocksSound db) (hFits : AmountsFit db amount) (hGraph : buildGraph order now code db = .ok r)
    (hFound : findFlowRoutes r fromPid toPid amount maxHops maxPaths deadline avoid = .ok routes)
    (hRoutes : routes ≠ []) (hTx : db.transactions.get? tx.txId = some tx) (hNew : tx.state = .NEW) :
    ∃ equivalent, env.directory.equivalentByCode code = some equivalent ∧
      (∀ route, routes = [route] → ∃ db', prepare now tx.txId route.path amount equivalent.id db = .ok db' ∧
        PreparedAlong now equivalent.id tx routes db db') ∧
      (2 ≤ routes.length → ∃ db', prepareRoutes now tx.txId routes equivalent.id db = .ok db' ∧
        PreparedAlong now equivalent.id tx routes db db') ∧
      SumsExact db routes := by
  have hFree := hLocks.ofTx_eq_nil hTx (by simp [hNew])
  obtain ⟨_, _, hBuilt⟩ := bind_eq_ok_iff.mp hGraph
  cases hBuilt
  have hSound := findFlowRoutes_sound (fun u v => (buildGraphImpl_edges u v).1) hFound hRoutes
  have hFrom := buildGraphImpl_known hSound.start
  obtain ⟨equivalent, hCode⟩ : ∃ equivalent, env.directory.equivalentByCode code = some equivalent := by
    cases hCode : env.directory.equivalentByCode code with
    | none =>
        have hStart := hSound.start
        rw [buildGraphImpl, hCode] at hStart
        cases hStart
    | some equivalent => exact ⟨equivalent, rfl⟩
  obtain ⟨resolved, hResolved⟩ := resolveRoutes_of_known fun route hRoute =>
    (hSound.paths route hRoute).2.known hFrom
  have hFit := hSound.fit hLocks hFits hFree hCode hResolved
  refine ⟨equivalent, hCode, ?_, fun hMany => ?_, ?_⟩
  · rintro route rfl
    have hRoute := (hSound.paths route List.mem_cons_self).2
    have hAmount : route.amount = amount := by simpa using hSound.total hFits.context
    obtain _ | @⟨_, ⟨nodes, _⟩, _, _, ⟨hNodes, rfl⟩, hNil⟩ := resolveRoutes_eq_some hResolved
    cases hNil
    have hFlows : routeFlows equivalent.id [(nodes, route.amount)] =
        pathFlows equivalent.id nodes amount := by
      rw [routeFlows_singleton, hAmount]
    rw [hFlows] at hFit
    obtain ⟨db', hOk⟩ := prepare_of_fit hTx hNew hFree hNodes hRoute.simple
      (hAmount ▸ (hSound.paths route List.mem_cons_self).1.le) hFit
    rcases prepare_cases hOk with ⟨_, tx', hTx', hPast⟩ | ⟨tx', nodes', hId, hNodes', hPrepares⟩
    · exact absurd hPast (not_alreadyPrepared hTx hNew hTx')
    · obtain rfl := hPrepares.eq_of_txId hTx hId
      rw [hNodes, Option.some.injEq] at hNodes'
      subst hNodes'
      exact ⟨db', hOk, _, hResolved, hFlows ▸ hPrepares, hPrepares.state⟩
  · have hNe : fromPid ≠ toPid := fun hSame => by
      rw [hSound.direct hSame] at hMany
      omega
    obtain ⟨db', hOk⟩ := prepareRoutes_of_fit hTx hNew hFree
      (checkRoutes_eq_ok fun route hRoute => ⟨(hSound.paths route hRoute).1,
        (hSound.paths route hRoute).2.two_le_length hNe⟩) hResolved
      (fun route hRoute => (hSound.paths route hRoute).1.le) hFit
    rcases prepareRoutes_cases hOk with ⟨_, tx', hTx', hPast⟩ | ⟨tx', resolved', hId, _, hResolved', hPrepares⟩
    · exact absurd hPast (not_alreadyPrepared hTx hNew hTx')
    · obtain rfl := hPrepares.eq_of_txId hTx hId
      rw [hResolved, Option.some.injEq] at hResolved'
      subst hResolved'
      exact ⟨db', hOk, _, hResolved, hPrepares, hPrepares.state⟩
  · exact ⟨fun a b e => (hFits.capacity_exact (List.nil_sublist _) a b e).1,
      fun a b e _ hFlows => (hFits.capacity_exact hFlows a b e).2,
      fun _ _ _ hBefore hFlows => hFits.needed_exact hSound hBefore hFlows⟩

/-- The two sides of a square from A to D. -/
def squareRoutes : List Route := [⟨["A", "B", "D"], 5⟩, ⟨["A", "C", "D"], 3⟩]

/-- A payment of 8 from A to D that is not prepared yet. -/
def squareTx : Transaction :=
  newPaymentTransaction 0 "p1" 1 (.payment "A" "D" 8 "UAH" squareRoutes none)

def squarePayment : List LedgerOp :=
  [openLine 2 "A" .uah 5, openLine 4 "B" .uah 5, openLine 3 "A" .uah 5, openLine 4 "C" .uah 5,
    .newPayment "p1" 1 "A" "D" 8 "UAH" squareRoutes none]

/-- The payment is routed over both sides of the square, and prepared; whole amounts fit the context. -/
theorem routing_agrees_square :
    ∃ db', prepareRoutes 0 "p1" squareRoutes 1
        ((Ledger.empty : Ledger (Env.sample .numeric208 true)).run squarePayment).db = .ok db' ∧
      (db'.transactions.get? "p1").map (·.state) = some .PREPARED := by
  let db := ((Ledger.empty : Ledger (Env.sample .numeric208 true)).run squarePayment).db
  have hGraph : buildGraph .insertion 0 "UAH" db = .ok (buildGraphImpl .insertion 0 "UAH" db) :=
    bind_eq_ok_iff.mpr ⟨(), by decide +kernel, rfl⟩
  have hFound : findFlowRoutes (buildGraphImpl .insertion 0 "UAH" db) "A" "D" 8 6 3 100 [] =
      .ok squareRoutes := by decide +kernel
  have hTx : db.transactions.get? squareTx.txId = some squareTx := by decide +kernel
  have hWhole : ∀ x ∈ (8 : Amount) :: amountsOf db, decimalContext.Fits 0 x := by decide +kernel
  have hFits : AmountsFit db 8 := ⟨0, by decide +kernel, fun x hx => (hWhole x hx).mem⟩
  obtain ⟨equivalent, hCode, _, hMany, _⟩ :=
    routing_agrees (locksSound_run squarePayment) hFits hGraph hFound (by decide) hTx rfl
  obtain rfl : Equivalent.uah = equivalent := Option.some.inj hCode
  obtain ⟨db', hOk, _, _, _, hState⟩ := hMany (by decide)
  exact ⟨db', hOk, hState⟩

/-- Two reservations that leave 4E-17 each on the way out of A, and three ways of large limits. -/
def longReservations : List LedgerOp :=
  [openLine 4 "A" .uah 1, openLine 2 "A" .uah 1, openLine 3 "A" .uah 150000000000,
    openLine 4 "B" .uah 150000000000, openLine 4 "C" .uah 150000000000, openLine 5 "D" .uah 150000000000] ++
  preparePath "q1" 1 ["A", "D"] (1 - 4 / 10 ^ 17) .uah ++ preparePath "q2" 1 ["A", "B"] (1 - 4 / 10 ^ 17) .uah ++
  [.newPayment "p1" 1 "A" "E" 150000000000 "UAH" [] none]

/-- The routes send the whole amount a second time over D to E, since taking 4E-17 off it leaves all of
its 28 digits; the preparation adds the three flows up and finds no room for them. -/
theorem not_routing_agrees :
    ∃ routes,
      findFlowRoutes (buildGraphImpl .insertion 0 "UAH"
        ((Ledger.empty : Ledger (Env.sample .numeric208 true)).run longReservations).db) "A" "E" 150000000000 6 3 100 [] =
          .ok routes ∧
      routes.length = 3 ∧
      (prepareRoutes 0 "p1" routes 1
        ((Ledger.empty : Ledger (Env.sample .numeric208 true)).run longReservations).db).map (fun _ => ()) =
          .error (.insufficientCapacity "D" "E" 150000000000 150000000000 (8 / 10 ^ 17)) := by
  refine ⟨[⟨["A", "D", "E"], 4 / 10 ^ 17⟩, ⟨["A", "B", "D", "E"], 4 / 10 ^ 17⟩,
    ⟨["A", "C", "D", "E"], 150000000000⟩], by decide +kernel, rfl, by decide +kernel⟩

end Agreement

end PaymentRouter

end GeoLedger

import Mathlib
import GeoLedger.Validation
import GeoLedger.Payments.Router
import GeoLedger.Clearing.Detection

/-! Null in a trust line policy. Validation lets every key be null; the readers of
a policy, the routing graph and the consents to clearing, may tell null from absent. -/
namespace GeoLedger.PolicyNulls

section Graph

/-- The graph `_build_graph_impl` makes of the rows it has read. -/
def graphOfRows (d : Directory) (e : Uuid) (trustlines : List TrustLine) (debts : List Debt)
    (activeLocks : List PrepareLock) : PaymentRouter :=
  let ids := PaymentRouter.allParticipantIds trustlines debts activeLocks
  if ids = [] then PaymentRouter.empty
  else
    let pids := Dict.ofList ((d.participants.filter (·.id ∈ ids)).map fun p => (p.id, p.pid))
    let debtMap := Dict.ofList (debts.map fun d => ((d.debtorId, d.creditorId), d.amount))
    let nodes := pids.items.map (·.2)
    trustlines.foldl (PaymentRouter.addLine pids debtMap (PaymentRouter.reservedMap pids e activeLocks))
      { graph := Dict.ofList (nodes.map (·, Dict.empty))
        edgeCanBeIntermediate := Dict.ofList (nodes.map (·, Dict.empty))
        edgeBlockedParticipants := Dict.ofList (nodes.map (·, Dict.empty)) }

/-- The router's graph is made of the active lines, the debts and the live locks
that its queries return. -/
theorem buildGraphImpl_eq {env : Env} (order : ReadOrder) (now : Time) (code : String) (db : Db env) :
    PaymentRouter.buildGraphImpl order now code db =
      match env.directory.equivalentByCode code with
      | none => PaymentRouter.empty
      | some equivalent =>
          graphOfRows env.directory equivalent.id
            (order.trustLines
              (db.trustLines.rows.filter fun l => l.equivalentId = equivalent.id ∧ l.status = .active))
            (order.debts (db.debts.rows.filter (·.equivalentId = equivalent.id)))
            (db.prepareLocks.live now) := rfl

/-- The flags and blocked participants are all that the graph takes from a policy. -/
theorem graphOfRows_congr {before after : List TrustLine} {l l' : TrustLine}
    (hLine : l' = { l with policy := l'.policy })
    (hIntermediate : canBeIntermediate l'.policy = canBeIntermediate l.policy)
    (hBlocked : blockedParticipants l'.policy = blockedParticipants l.policy)
    (d : Directory) (e : Uuid) (debts : List Debt) (activeLocks : List PrepareLock) :
    graphOfRows d e (before ++ l' :: after) debts activeLocks =
      graphOfRows d e (before ++ l :: after) debts activeLocks := by
  have hIds : PaymentRouter.allParticipantIds (before ++ l' :: after) debts activeLocks =
      PaymentRouter.allParticipantIds (before ++ l :: after) debts activeLocks := by
    rw [hLine]
    simp [PaymentRouter.allParticipantIds]
  have hAdd : ∀ pids debtMap reserved r, PaymentRouter.addLine pids debtMap reserved r l' =
      PaymentRouter.addLine pids debtMap reserved r l := by
    intro pids debtMap reserved r
    unfold PaymentRouter.addLine
    rw [hIntermediate, hBlocked]
    rw [hLine]
    rfl
  unfold graphOfRows
  rw [hIds]
  simp only [List.foldl_append, List.foldl_cons, hAdd]

end Graph

/-- The key is null or absent, so that one can be replaced by the other. -/
def NullOrAbsent (policy : Policy) (key : String) : Prop :=
  policy.get? key = none ∨ policy.get? key = some .null

/-- Neither the routing graph nor a consent to clearing tells the policy with the
key at null from the policy without the key. -/
structure ReadsNullAsAbsent (policy : Policy) (key : String) : Prop where
  graph : ∀ (d : Directory) (e : Uuid) (before after : List TrustLine) (l : TrustLine) (debts : List Debt)
    (activeLocks : List PrepareLock),
    graphOfRows d e (before ++ { l with policy := some (policy.set key .null) } :: after) debts activeLocks =
      graphOfRows d e (before ++ { l with policy := some (policy.pop key) } :: after) debts activeLocks
  flag : policyFlag (some (policy.set key .null)) "auto_clearing" true =
    policyFlag (some (policy.pop key)) "auto_clearing" true
  sql : ∀ postgres, sqlAutoClearingOk postgres (some (policy.set key .null)) =
    sqlAutoClearingOk postgres (some (policy.pop key))

section Readers

variable (policy : Policy) (key : String)

theorem blockedParticipants_null :
    blockedParticipants (some (policy.set key .null)) = blockedParticipants (some (policy.pop key)) := by
  simp only [blockedParticipants, Dict.get?_set, Dict.get?_pop]
  by_cases h : "blocked_participants" = key
  · rw [if_pos h, if_pos h]
  · rw [if_neg h, if_neg h]

theorem policyFlag_null : policyFlag (some (policy.set key .null)) "auto_clearing" true =
    policyFlag (some (policy.pop key)) "auto_clearing" true := by
  simp only [policyFlag, Dict.get?_set, Dict.get?_pop]
  by_cases h : "auto_clearing" = key
  · rw [if_pos h, if_pos h]
  · rw [if_neg h, if_neg h]

theorem sqlAutoClearingOk_null (postgres : Bool) :
    sqlAutoClearingOk postgres (some (policy.set key .null)) =
      sqlAutoClearingOk postgres (some (policy.pop key)) := by
  simp only [sqlAutoClearingOk, Option.bind_some, Dict.get?_set, Dict.get?_pop]
  by_cases h : "auto_clearing" = key
  · rw [if_pos h, if_pos h]
  · rw [if_neg h, if_neg h]

/-- Whether `max_hop_usage` forbids passing payments on. -/
def hopUsageZero (policy : Policy) : Bool := pyInt ((policy.get? "max_hop_usage").getD (.int 1)) = some 0

/-- The one reader that takes null for false is the intermediate flag. -/
theorem canBeIntermediate_null_iff :
    canBeIntermediate (some (policy.set key .null)) = canBeIntermediate (some (policy.pop key)) ↔
      key ≠ "can_be_intermediate" ∨ hopUsageZero policy = true := by
  simp only [canBeIntermediate, Dict.get?_set, Dict.get?_pop]
  by_cases hFlag : "can_be_intermediate" = key
  · subst hFlag
    rw [if_pos rfl, if_pos rfl, if_neg (by decide), if_neg (by decide)]
    simp [pyTruthy, hopUsageZero]
  · rw [if_neg hFlag, if_neg hFlag]
    refine iff_of_true ?_ (.inl fun h => hFlag h.symm)
    by_cases hHops : "max_hop_usage" = key
    · rw [if_pos hHops, if_pos hHops]
      rfl
    · rw [if_neg hHops, if_neg hHops]

end Readers

section Readings

/-- A line with capacity sets the flag of its edge. -/
theorem addLine_flag {pids : Dict Uuid Pid} {debtMap : Dict (Uuid × Uuid) Amount}
    {reserved : Dict (Pid × Pid) Amount} {l : TrustLine} {u v : Pid}
    (hFrom : pids.get? l.fromParticipantId = some v) (hTo : pids.get? l.toParticipantId = some u)
    (hCap : 0 < PaymentRouter.lineCapacity debtMap reserved v u l) (r : PaymentRouter) :
    (PaymentRouter.addLine pids debtMap reserved r l).edgeCanBeIntermediate.getD₂ u v true =
      canBeIntermediate l.policy := by
  unfold PaymentRouter.addLine
  simp only [hFrom, hTo, if_pos hCap, Dict.getD₂_set₂, and_self, if_true]

/-- A line of the sample registry, alone, with any policy. -/
theorem flag_of_graphOfRows (policy : Policy) :
    (graphOfRows .sample 1 [⟨0, 1, 2, 1, 1, some policy, .active⟩] [] []).edgeCanBeIntermediate.getD₂ "B" "A"
      true = canBeIntermediate (some policy) := by
  unfold graphOfRows
  rw [if_neg (by simp [PaymentRouter.allParticipantIds]), List.foldl_cons, List.foldl_nil]
  refine addLine_flag rfl rfl ?_ _
  have hCap : (0 : Amount) < 1 - 0 + 0 - 0 := by norm_num
  exact hCap

/-- Null reads as absent everywhere but in the intermediate flag of a policy whose
hop usage is not zero. -/
theorem readsNullAsAbsent_iff (policy : Policy) (key : String) :
    ReadsNullAsAbsent policy key ↔ key ≠ "can_be_intermediate" ∨ hopUsageZero policy = true := by
  rw [← canBeIntermediate_null_iff]
  constructor
  · intro h
    have hGraph := h.graph .sample 1 [] [] ⟨0, 1, 2, 1, 1, none, .active⟩ [] []
    rw [← flag_of_graphOfRows, ← flag_of_graphOfRows]
    exact congrArg (fun r => r.edgeCanBeIntermediate.getD₂ "B" "A" true) hGraph
  · intro hFlag
    exact {
      graph d e before after l debts activeLocks :=
        graphOfRows_congr rfl hFlag (blockedParticipants_null policy key) d e debts activeLocks
      flag := policyFlag_null policy key
      sql := sqlAutoClearingOk_null policy key }

end Readings

section Verdicts

/-- A flag that validation lets pass: absent, null or a boolean. -/
def FlagFits (policy : Policy) (key : String) : Prop :=
  ∀ value, policy.get? key = some value → value = .null ∨ ∃ flag, value = .bool flag

/-- A number that validation lets pass: absent, null or not negative. -/
def NumberFits (policy : Policy) (key : String) : Prop :=
  ∀ value, policy.get? key = some value → value = .null ∨ policyDecimal value = .nonnegative

/-- A text of a decimal that compares with no number. -/
def HoldsNaN (policy : Policy) (key : String) : Prop :=
  ∃ value, policy.get? key = some value ∧ policyDecimal value = .nan

/-- The first key that does not fit is numeric and holds a NaN. -/
structure ComparesNaN (policy : Policy) : Prop where
  known : ∀ key ∈ policy.keys, key ∈ allowedTrustlinePolicyKeys
  autoClearing : FlagFits policy "auto_clearing"
  canBeIntermediate : FlagFits policy "can_be_intermediate"
  nan : HoldsNaN policy "max_hop_usage" ∨
    NumberFits policy "max_hop_usage" ∧ HoldsNaN policy "daily_limit"

/-- Validation returns, or turns the policy down as a bad request. -/
def ReturnsOrRejects (check : Except GeoError Unit) : Prop :=
  check = .ok () ∨ ∃ message, check = .error (.badRequest message)

variable (policy : Policy) (key : String)

theorem checkPolicyBool_cases :
    checkPolicyBool policy key = .ok () ∧ FlagFits policy key ∨
      (∃ message, checkPolicyBool policy key = .error (.badRequest message)) ∧ ¬FlagFits policy key := by
  unfold checkPolicyBool
  split
  · next hGet => exact .inl ⟨rfl, fun value hValue => absurd (hGet.symm.trans hValue) (by simp)⟩
  · next hGet =>
      refine .inl ⟨rfl, fun value hValue => .inl ?_⟩
      exact (Option.some.inj (hGet.symm.trans hValue)).symm
  · next flag hGet =>
      refine .inl ⟨rfl, fun value hValue => .inr ⟨flag, ?_⟩⟩
      exact (Option.some.inj (hGet.symm.trans hValue)).symm
  · next value hNull hFlag hGet =>
      refine .inr ⟨⟨_, rfl⟩, fun hFits => ?_⟩
      rcases hFits value hGet with rfl | ⟨flag, rfl⟩
      · exact hNull rfl
      · exact hFlag flag rfl

theorem checkPolicyNumber_cases :
    checkPolicyNumber policy key = .ok () ∧ NumberFits policy key ∧ ¬HoldsNaN policy key ∨
      (∃ message, checkPolicyNumber policy key = .error (.badRequest message)) ∧
        ¬NumberFits policy key ∧ ¬HoldsNaN policy key ∨
      checkPolicyNumber policy key = .error .internal ∧ HoldsNaN policy key := by
  unfold checkPolicyNumber NumberFits HoldsNaN
  cases hGet : policy.get? key with
  | none => simp
  | some value =>
      by_cases hNull : value = .null
      · subst hNull
        simp [policyDecimal]
      · simp only [Option.some.injEq, forall_eq', exists_eq_left', hNull, false_or]
        cases policyDecimal value <;> simp

/-- Validation fails with an error of its own only on a NaN that it gets to compare. -/
theorem validateTrustlinePolicy_iff :
    ReturnsOrRejects (validateTrustlinePolicy policy) ↔ ¬ComparesNaN policy := by
  unfold validateTrustlinePolicy
  by_cases hUnknown : policy.keys.filter (· ∉ allowedTrustlinePolicyKeys) = []
  swap
  · have hNot : ¬ComparesNaN policy := by
      intro h
      refine hUnknown (List.filter_eq_nil_iff.mpr fun key hKey => ?_)
      simpa using h.known key hKey
    rw [if_pos hUnknown]
    exact iff_of_true (.inr ⟨_, rfl⟩) hNot
  have hKnown : ∀ key ∈ policy.keys, key ∈ allowedTrustlinePolicyKeys := by
    intro key hKey
    simpa using List.filter_eq_nil_iff.mp hUnknown key hKey
  rw [if_neg (not_not_intro hUnknown)]
  rcases checkPolicyBool_cases policy "auto_clearing" with ⟨hAuto, hAutoFits⟩ | ⟨⟨_, hAuto⟩, hAutoFits⟩
  swap
  · rw [hAuto]
    exact iff_of_true (.inr ⟨_, rfl⟩) fun h => hAutoFits h.autoClearing
  rcases checkPolicyBool_cases policy "can_be_intermediate" with ⟨hHop, hHopFits⟩ | ⟨⟨_, hHop⟩, hHopFits⟩
  swap
  · rw [hAuto, hHop]
    exact iff_of_true (.inr ⟨_, rfl⟩) fun h => hHopFits h.canBeIntermediate
  rw [hAuto, hHop]
  rcases checkPolicyNumber_cases policy "max_hop_usage" with
    ⟨hUsage, hUsageFits, hUsageNaN⟩ | ⟨⟨_, hUsage⟩, hUsageFits, hUsageNaN⟩ | ⟨hUsage, hUsageNaN⟩
  · rw [hUsage]
    rcases checkPolicyNumber_cases policy "daily_limit" with
      ⟨hDaily, hDailyFits, hDailyNaN⟩ | ⟨⟨_, hDaily⟩, hDailyFits, hDailyNaN⟩ | ⟨hDaily, hDailyNaN⟩
    · rw [hDaily]
      refine iff_of_true ?_ fun h => h.nan.elim hUsageNaN fun hLater => hDailyNaN hLater.2
      cases policy.get? "blocked_participants" with
      | none => exact .inl rfl
      | some value =>
          cases value with
          | null => exact .inl rfl
          | list items =>
              by_cases hItems : ∀ item ∈ items, item ≠ none ∧ item ≠ some ""
              · exact .inl (if_pos hItems)
              · exact .inr ⟨_, if_neg hItems⟩
          | bool _ | int _ | float _ | nan | infinity _ | str _ | dict _ => exact .inr ⟨_, rfl⟩
    · rw [hDaily]
      exact iff_of_true (.inr ⟨_, rfl⟩) fun h => h.nan.elim hUsageNaN fun hLater => hDailyNaN hLater.2
    · rw [hDaily]
      refine iff_of_false ?_ (not_not_intro ⟨hKnown, hAutoFits, hHopFits, .inr ⟨hUsageFits, hDailyNaN⟩⟩)
      rintro (hOk | ⟨message, hRejected⟩)
      · cases hOk
      · cases hRejected
  · rw [hUsage]
    exact iff_of_true (.inr ⟨_, rfl⟩) fun h => h.nan.elim hUsageNaN fun hLater => hUsageFits hLater.1
  · rw [hUsage]
    refine iff_of_false ?_ (not_not_intro ⟨hKnown, hAutoFits, hHopFits, .inl hUsageNaN⟩)
    rintro (hOk | ⟨message, hRejected⟩)
    · cases hOk
    · cases hRejected

end Verdicts

/-- A policy that validation accepts reads the same with a key at null and without
it, and validation itself returns or turns the policy down. -/
def NullMeansAbsent (policy : Policy) (key : String) : Prop :=
  (validateTrustlinePolicy policy = .ok () → NullOrAbsent policy key → ReadsNullAsAbsent policy key) ∧
    ReturnsOrRejects (validateTrustlinePolicy policy)

/-- What goes wrong: the intermediate flag of an accepted policy, and a NaN. -/
theorem nullMeansAbsent_iff (policy : Policy) (key : String) :
    NullMeansAbsent policy key ↔
      ¬(key = "can_be_intermediate" ∧ NullOrAbsent policy key ∧ hopUsageZero policy = false ∧
        validateTrustlinePolicy policy = .ok ()) ∧ ¬ComparesNaN policy := by
  unfold NullMeansAbsent
  rw [validateTrustlinePolicy_iff, readsNullAsAbsent_iff, ← Bool.not_eq_true]
  tauto

/-- An accepted policy whose intermediate flag is null closes the edge, and a NaN
for the daily limit is an error of its own. -/
theorem null_closes_edge :
    validateTrustlinePolicy (Dict.ofList [("can_be_intermediate", .null)]) = .ok () ∧
      canBeIntermediate (some (Dict.ofList [("can_be_intermediate", .null)])) = false ∧
      canBeIntermediate (some Dict.empty) = true ∧
      validateTrustlinePolicy (Dict.ofList [("daily_limit", .str "NaN")]) = .error .internal ∧
      ¬NullMeansAbsent (Dict.ofList [("can_be_intermediate", .null)]) "can_be_intermediate" ∧
      ¬NullMeansAbsent (Dict.ofList [("daily_limit", .str "NaN")]) "daily_limit" := by
  have hAccepted : validateTrustlinePolicy (Dict.ofList [("can_be_intermediate", .null)]) = .ok () := by
    decide +kernel
  have hInternal : validateTrustlinePolicy (Dict.ofList [("daily_limit", .str "NaN")]) = .error .internal := by
    decide +kernel
  refine ⟨hAccepted, by decide +kernel, by decide +kernel, hInternal, fun h => ?_, fun h => ?_⟩
  · rcases (readsNullAsAbsent_iff _ _).mp (h.1 hAccepted (.inr rfl)) with hKey | hZero
    · exact hKey rfl
    · exact absurd hZero (by decide +kernel)
  · rcases h.2 with hOk | ⟨message, hRejected⟩
    · rw [hInternal] at hOk
      cases hOk
    · rw [hInternal] at hRejected
      cases hRejected

end GeoLedger.PolicyNulls

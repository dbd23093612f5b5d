import Mathlib
import GeoLedger.Payments.ExactTransfer

/-! What a list of flows leaves in the debts table. Each pair ends in a single row
with its balance and what its flows add up to, in whatever order they are applied. -/
namespace GeoLedger
open Outcomes

variable {env : Env} {t t' : DebtTable env} {flows others : List Flow} {a b e : Uuid} {f : Flow}

section Pairs

/-- The flow runs between two participants. -/
def Flow.Between (f : Flow) (a b : Uuid) : Prop := (a, b) = (f.fromId, f.toId) ∨ (a, b) = (f.toId, f.fromId)

instance (f : Flow) (a b : Uuid) : Decidable (f.Between a b) := inferInstanceAs (Decidable (_ ∨ _))

/-- What a flow adds to the balance of a pair. -/
def Flow.along (f : Flow) (a b : Uuid) : Amount :=
  if (a, b) = (f.fromId, f.toId) then f.amount else if (a, b) = (f.toId, f.fromId) then -f.amount else 0

def pairDelta (flows : List Flow) (a b : Uuid) : Amount := (flows.map (·.along a b)).sum

/-- A flow between other participants carries nothing between these two. -/
theorem Flow.along_eq_zero {f : Flow} (h : ¬f.Between a b) : f.along a b = 0 := by
  rw [Flow.Between, not_or] at h
  rw [Flow.along, if_neg h.1, if_neg h.2]

/-- A flow among some participants does not run between one of them and somebody else. -/
theorem Flow.not_between_outside {f : Flow} {ids : List Uuid} {q : Uuid}
    (hEnds : f.fromId ∈ ids ∧ f.toId ∈ ids) (hq : q ∉ ids) (p : Uuid) :
    ¬f.Between q p ∧ ¬f.Between p q := by
  have hFrom : q ≠ f.fromId := fun h => hq (h ▸ hEnds.1)
  have hTo : q ≠ f.toId := fun h => hq (h ▸ hEnds.2)
  simp [Flow.Between, hFrom, hTo]

/-- Flows between other participants move nothing between these two. -/
theorem pairDelta_eq_zero (h : ∀ f ∈ flows, ¬f.Between a b) : pairDelta flows a b = 0 := by
  refine List.sum_eq_zero fun x hx => ?_
  obtain ⟨f, hf, rfl⟩ := List.mem_map.mp hx
  exact Flow.along_eq_zero (h f hf)

/-- What flows move between two participants does not depend on their order. -/
theorem pairDelta_perm {others : List Flow} (h : flows.Perm others) (a b : Uuid) :
    pairDelta flows a b = pairDelta others a b := (h.map _).sum_eq

end Pairs

section Landing

/-- A stored flow moves the balance of its pair by its amount. -/
theorem balance_applyFlow {f : Flow} (hPos : 0 < f.amount) (hE : f.equivalentId = e)
    (hGrid : f.amount ∈ env.column.grid) (h : applyFlow f t = .ok t') (a b : Uuid) :
    t'.balance a b e = t.balance a b e + f.along a b ∧
      t'.owed a b e = if f.Between a b then max (t'.balance a b e) 0 else t.owed a b e := by
  obtain ⟨hNe, hSettles⟩ := applyFlow_settles hPos h
  subst hE
  have hMem : t.balance f.fromId f.toId f.equivalentId + f.amount ∈ env.column.grid :=
    env.column.grid.add_mem
      (env.column.grid.sub_mem (t.owed_mem_grid _ _ _) (t.owed_mem_grid _ _ _)) hGrid
  rw [env.column.round_of_mem _ hMem] at hSettles
  have hBalance : t'.balance a b f.equivalentId = t.balance a b f.equivalentId + f.along a b := by
    rw [hSettles.balance_eq, Flow.along]
    split
    · next hSame =>
        obtain ⟨rfl, rfl⟩ := Prod.mk.inj hSame
        rfl
    · split
      · next hBack =>
          obtain ⟨rfl, rfl⟩ := Prod.mk.inj hBack
          rw [t.balance_neg f.fromId f.toId]
          ring
      · exact (add_zero _).symm
  refine ⟨hBalance, ?_⟩
  split
  · next hBetween =>
      rcases hBetween with hSame | hBack
      · obtain ⟨rfl, rfl⟩ := Prod.mk.inj hSame
        rw [hSettles.forward, hSettles.balance]
      · obtain ⟨rfl, rfl⟩ := Prod.mk.inj hBack
        rw [hSettles.reverse, t'.balance_neg f.fromId f.toId, hSettles.balance]
  · next hAway =>
      rw [Flow.Between, not_or] at hAway
      refine hSettles.others a b _ ?_ ?_
      · intro hKey
        simp only [Prod.mk.injEq, and_true] at hKey
        exact hAway.1 (Prod.ext hKey.1 hKey.2)
      · intro hKey
        simp only [Prod.mk.injEq, and_true] at hKey
        exact hAway.2 (Prod.ext hKey.1 hKey.2)

/-- A flow in another equivalent leaves what a pair owes. -/
theorem owed_applyFlow_elsewhere (hPos : 0 < f.amount) (hE : f.equivalentId ≠ e) (h : applyFlow f t = .ok t')
    (a b : Uuid) : t'.owed a b e = t.owed a b e := by
  obtain ⟨-, hSettles⟩ := applyFlow_settles hPos h
  refine hSettles.others a b e ?_ ?_
  · exact fun hKey => hE (Prod.mk.inj (Prod.mk.inj hKey).2).2.symm
  · exact fun hKey => hE (Prod.mk.inj (Prod.mk.inj hKey).2).2.symm

/-- Stored flows move the balance of every pair by their total, and leave a pair they
run between with its balance. -/
theorem landing_applyFlows (hPos : ∀ f ∈ flows, 0 < f.amount) (hGrid : ∀ f ∈ flows, f.amount ∈ env.column.grid)
    (h : applyFlows flows t = .ok t') (a b e : Uuid) :
    t'.balance a b e = t.balance a b e + pairDelta (flows.filter (·.equivalentId = e)) a b ∧
      t'.owed a b e = if ∃ f ∈ flows.filter (·.equivalentId = e), f.Between a b then
          max (t.balance a b e + pairDelta (flows.filter (·.equivalentId = e)) a b) 0
        else t.owed a b e := by
  induction flows generalizing t with
  | nil =>
      cases h
      simp [pairDelta]
  | cons f rest ih =>
      obtain ⟨t₁, hFlow, hRest⟩ := applyFlows_cons.mp h
      obtain ⟨hBalanceRest, hOwedRest⟩ := ih (fun g hg => hPos g (List.mem_cons_of_mem _ hg))
        (fun g hg => hGrid g (List.mem_cons_of_mem _ hg)) hRest
      by_cases hE : f.equivalentId = e
      · obtain ⟨hBalance, hOwed⟩ := balance_applyFlow (hPos f List.mem_cons_self) hE
          (hGrid f List.mem_cons_self) hFlow a b
        have hSplit : (f :: rest).filter (·.equivalentId = e) = f :: rest.filter (·.equivalentId = e) := by
          simp [hE]
        have hTotal : pairDelta (f :: rest.filter (·.equivalentId = e)) a b =
            f.along a b + pairDelta (rest.filter (·.equivalentId = e)) a b := List.sum_cons
        rw [hBalanceRest, hOwedRest, hOwed, hBalance, hSplit, hTotal, add_assoc]
        refine ⟨rfl, ?_⟩
        by_cases hLater : ∃ g ∈ rest.filter (·.equivalentId = e), g.Between a b
        · obtain ⟨g, hg, hBetween⟩ := hLater
          rw [if_pos ⟨g, hg, hBetween⟩, if_pos ⟨g, List.mem_cons_of_mem _ hg, hBetween⟩]
        · have hZero : pairDelta (rest.filter (·.equivalentId = e)) a b = 0 :=
            pairDelta_eq_zero fun g hg hBetween => hLater ⟨g, hg, hBetween⟩
          rw [if_neg hLater, hZero, add_zero]
          by_cases hNow : f.Between a b
          · rw [if_pos hNow, if_pos ⟨f, List.mem_cons_self, hNow⟩]
          · rw [if_neg hNow, if_neg]
            rintro ⟨g, hg, hBetween⟩
            rcases List.mem_cons.mp hg with rfl | hg
            · exact hNow hBetween
            · exact hLater ⟨g, hg, hBetween⟩
      · have hOwed := owed_applyFlow_elsewhere (hPos f List.mem_cons_self) hE hFlow
        have hBalance : t₁.balance a b e = t.balance a b e := by
          rw [DebtTable.balance, DebtTable.balance, hOwed, hOwed]
        have hSkip : (f :: rest).filter (·.equivalentId = e) = rest.filter (·.equivalentId = e) := by
          simp [hE]
        rw [hSkip, hBalanceRest, hOwedRest, hBalance, hOwed]
        exact ⟨rfl, rfl⟩

end Landing

section Kept

/-- Rows of other keys than two are the same in both tables. -/
def SameAway (t t' : DebtTable env) (k₁ k₂ : Uuid × Uuid × Uuid) : Prop :=
  ∀ d : Debt, d.key ≠ k₁ → d.key ≠ k₂ → (d ∈ t'.rows ↔ d ∈ t.rows)

variable {k₁ k₂ : Uuid × Uuid × Uuid} {t₁ t₂ : DebtTable env}

/-- Tables that agree away from two keys, one after the other, agree away from them. -/
theorem SameAway.trans (h : SameAway t t₁ k₁ k₂) (h' : SameAway t₁ t₂ k₁ k₂) : SameAway t t₂ k₁ k₂ :=
  fun d h₁ h₂ => (h' d h₁ h₂).trans (h d h₁ h₂)

/-- A row whose id stands in two tables at one of the keys. -/
theorem SameAway.key_of_id (h : SameAway t t₁ k₁ k₂) {d : Debt} (hMem : d ∈ t.rows)
    (hKey : d.key = k₁ ∨ d.key = k₂) : ∀ old ∈ t₁.rows, old.id = d.id → old.key = k₁ ∨ old.key = k₂ := by
  intro old hOld hId
  by_contra hAway
  rw [not_or] at hAway
  have hBefore := (h old hAway.1 hAway.2).mp hOld
  rw [Rows.eq_of_column t.id_unique hBefore hMem hId] at hAway
  exact hKey.elim hAway.1 hAway.2

/-- Saving a debt changes the rows of its own key only. -/
theorem sameAway_save {id : Uuid} {amount : Amount}
    (hKey : ∀ old ∈ t.rows, old.id = id → old.key = k₁ ∨ old.key = k₂) (h : t.save id amount = .ok t') :
    SameAway t t' k₁ k₂ := by
  intro d h₁ h₂
  have hNe : d ∈ t.rows → d.id ≠ id := fun hMem hId => (hKey d hMem hId).elim h₁ h₂
  unfold DebtTable.save at h
  split at h
  · cases h
    rw [DebtTable.delete, Rows.mem_delete_iff]
    exact ⟨fun hd => hd.1, fun hd => ⟨hd, hNe hd⟩⟩
  · rw [(DebtTable.rows_of_write h).1, Rows.mem_update_iff]
    constructor
    · rintro (⟨old, hOld, hId, rfl⟩ | ⟨hd, -⟩)
      · exact absurd (hKey old hOld hId) (by simpa [Debt.key] using ⟨h₁, h₂⟩)
      · exact hd
    · exact fun hd => Or.inr ⟨hd, hNe hd⟩

/-- Raising the forward debt changes the rows of the forward key only. -/
theorem sameAway_raiseForward {remaining : Amount} (h : raiseForward f remaining t = .ok t') :
    SameAway t t' (f.fromId, f.toId, f.equivalentId) k₂ := by
  intro d h₁ h₂
  unfold raiseForward at h
  split at h
  · cases hDebt : t.getDebt f.fromId f.toId f.equivalentId with
    | none =>
        simp only [hDebt] at h
        rw [(DebtTable.rows_of_insert h).1, List.mem_append, List.mem_singleton]
        refine ⟨fun hd => hd.resolve_right ?_, Or.inl⟩
        rintro rfl
        exact h₁ rfl
    | some debt =>
        simp only [hDebt] at h
        obtain ⟨hMem, hKey⟩ := DebtTable.getDebt_eq_some_iff.mp hDebt
        rw [(DebtTable.rows_of_write h).1, Rows.mem_update_iff]
        constructor
        · rintro (⟨old, hOld, hId, rfl⟩ | ⟨hd, -⟩)
          · rw [Rows.eq_of_column t.id_unique hOld hMem hId] at h₁
            exact absurd hKey h₁
          · exact hd
        · refine fun hd => Or.inr ⟨hd, fun hId => h₁ ?_⟩
          rw [Rows.eq_of_column t.id_unique hd hMem hId]
          exact hKey
  · cases h
    exact Iff.rfl

/-- Settling the reverse debt changes the rows of the reverse key only. -/
theorem sameAway_settleReverse {remaining reverse : Amount} (h : settleReverse f t = .ok (t', remaining, reverse)) :
    SameAway t t' k₁ (f.toId, f.fromId, f.equivalentId) := by
  unfold settleReverse at h
  split at h
  · cases h
    exact fun _ _ _ => Iff.rfl
  · next debt hDebt =>
      obtain ⟨hMem, hKey⟩ := DebtTable.getDebt_eq_some_iff.mp hDebt
      split at h
      · obtain ⟨t₁, hSave, hOk⟩ := bind_eq_ok_iff.mp h
        cases hOk
        exact sameAway_save (fun old hOld hId => Or.inr (Rows.eq_of_column t.id_unique hOld hMem hId ▸ hKey)) hSave
      · cases h
        exact fun _ _ _ => Iff.rfl

/-- Netting mutual debts changes the rows of the two keys only. -/
theorem sameAway_netMutual {reverse : Amount} (h : netMutual f reverse t = .ok t') :
    SameAway t t' (f.fromId, f.toId, f.equivalentId) (f.toId, f.fromId, f.equivalentId) := by
  unfold netMutual at h
  split at h
  · next forward back hForward hBack =>
      obtain ⟨hForwardMem, hForwardKey⟩ := DebtTable.getDebt_eq_some_iff.mp hForward
      obtain ⟨hBackMem, hBackKey⟩ := DebtTable.getDebt_eq_some_iff.mp hBack
      split at h
      · obtain ⟨t₁, hFirst, hSecond⟩ := bind_eq_ok_iff.mp h
        have hAway : SameAway t t₁ (f.fromId, f.toId, f.equivalentId) (f.toId, f.fromId, f.equivalentId) :=
          sameAway_save (fun old hOld hId =>
            Or.inl (Rows.eq_of_column t.id_unique hOld hForwardMem hId ▸ hForwardKey)) hFirst
        exact hAway.trans (sameAway_save (hAway.key_of_id hBackMem (Or.inr hBackKey)) hSecond)
      · cases h
        exact fun _ _ _ => Iff.rfl
  · cases h
    exact fun _ _ _ => Iff.rfl

/-- A flow leaves every row of another pair or another equivalent. -/
theorem sameAway_applyFlow (h : applyFlow f t = .ok t') :
    SameAway t t' (f.fromId, f.toId, f.equivalentId) (f.toId, f.fromId, f.equivalentId) := by
  obtain ⟨⟨t₁, remaining, reverse⟩, hSettle, hRest⟩ := bind_eq_ok_iff.mp h
  obtain ⟨t₂, hRaise, hNet⟩ := bind_eq_ok_iff.mp hRest
  exact ((sameAway_settleReverse hSettle).trans (sameAway_raiseForward hRaise)).trans (sameAway_netMutual hNet)

/-- The flows touch a pair in an equivalent. -/
def Touches (flows : List Flow) (a b e : Uuid) : Prop := ∃ f ∈ flows, f.equivalentId = e ∧ f.Between a b

theorem touches_cons : Touches (f :: flows) a b e ↔ (f.equivalentId = e ∧ f.Between a b) ∨ Touches flows a b e := by
  simp [Touches]

/-- Applied flows leave the debts between other participants as they are. -/
theorem rows_applyFlows (h : applyFlows flows t = .ok t') (d : Debt)
    (hAway : ¬Touches flows d.debtorId d.creditorId d.equivalentId) : d ∈ t'.rows ↔ d ∈ t.rows := by
  induction flows generalizing t with
  | nil =>
      cases h
      exact Iff.rfl
  | cons f rest ih =>
      obtain ⟨t₁, hFlow, hRest⟩ := applyFlows_cons.mp h
      rw [touches_cons, not_or] at hAway
      refine (ih hRest hAway.2).trans (sameAway_applyFlow hFlow d ?_ ?_)
      · intro hKey
        obtain ⟨hFrom, hTo, hE⟩ := by simpa [Debt.key] using hKey
        exact hAway.1 ⟨hE.symm, Or.inl (by rw [hFrom, hTo])⟩
      · intro hKey
        obtain ⟨hFrom, hTo, hE⟩ := by simpa [Debt.key] using hKey
        exact hAway.1 ⟨hE.symm, Or.inr (by rw [hFrom, hTo])⟩

end Kept

section Netting

/-- What a owes b beyond what it is owed, with the flows between them. -/
def netValue (t : DebtTable env) (flows : List Flow) (a b e : Uuid) : Amount :=
  t.owed a b e - t.owed b a e + localReserved flows a b e - localReserved flows b a e

/-- A first flow adds its amount to what is reserved along its own segment. -/
theorem localReserved_cons (f : Flow) (flows : List Flow) (a b e : Uuid) :
    localReserved (f :: flows) a b e =
      (if f.fromId = a ∧ f.toId = b ∧ f.equivalentId = e then f.amount else 0) + localReserved flows a b e := by
  unfold localReserved
  rw [List.filter_cons]
  by_cases h : f.fromId = a ∧ f.toId = b ∧ f.equivalentId = e
  · rw [if_pos h, if_pos (decide_eq_true h), List.map_cons, List.sum_cons]
  · rw [if_neg h, if_neg (by simpa using h), zero_add]

/-- What flows move between two participants is what they reserve one way less what they
reserve the other. -/
theorem pairDelta_eq_sub (hDistinct : ∀ f ∈ flows, f.fromId ≠ f.toId) (a b e : Uuid) :
    pairDelta (flows.filter (·.equivalentId = e)) a b = localReserved flows a b e - localReserved flows b a e := by
  induction flows with
  | nil => simp [pairDelta, localReserved]
  | cons f rest ih =>
      have hRest := ih fun g hg => hDistinct g (List.mem_cons_of_mem _ hg)
      have hNe := hDistinct f List.mem_cons_self
      rw [localReserved_cons, localReserved_cons]
      by_cases hE : f.equivalentId = e
      · have hSplit : (f :: rest).filter (·.equivalentId = e) = f :: rest.filter (·.equivalentId = e) := by
          simp [hE]
        have hTotal : pairDelta (f :: rest.filter (·.equivalentId = e)) a b =
            f.along a b + pairDelta (rest.filter (·.equivalentId = e)) a b := List.sum_cons
        rw [hSplit, hTotal, hRest, Flow.along]
        by_cases hSame : f.fromId = a ∧ f.toId = b
        · obtain ⟨rfl, rfl⟩ := hSame
          simp [hE, hNe]
          ring
        · by_cases hBack : f.fromId = b ∧ f.toId = a
          · obtain ⟨rfl, rfl⟩ := hBack
            simp [hE, hNe, hNe.symm]
            ring
          · have hAway : ¬(a = f.fromId ∧ b = f.toId) ∧ ¬(a = f.toId ∧ b = f.fromId) :=
              ⟨fun h => hSame ⟨h.1.symm, h.2.symm⟩, fun h => hBack ⟨h.2.symm, h.1.symm⟩⟩
            simp [hE, hSame, hBack, hAway.1, hAway.2]
      · have hSkip : (f :: rest).filter (·.equivalentId = e) = rest.filter (·.equivalentId = e) := by
          simp [hE]
        rw [hSkip, hRest]
        simp [hE]

/-- The balances that the flows can reach in some order fit the column. -/
def HasRoom (t : DebtTable env) (flows : List Flow) : Prop :=
  ∀ f ∈ flows, 0 < t.balance f.fromId f.toId f.equivalentId + localReserved flows f.fromId f.toId f.equivalentId →
    env.column.fits
      (t.balance f.fromId f.toId f.equivalentId + localReserved flows f.fromId f.toId f.equivalentId) = true

/-- Whether flows have room does not depend on their order. -/
theorem HasRoom.perm (h : HasRoom t flows) (hPerm : others.Perm flows) : HasRoom t others := by
  intro f hf
  rw [localReserved_perm hPerm]
  exact h f (hPerm.mem_iff.mp hf)

/-- Applying a flow leaves room for the rest. -/
theorem HasRoom.next (h : HasRoom t (f :: flows)) (hPos : 0 < f.amount) (hGrid : f.amount ∈ env.column.grid)
    (hApplied : applyFlow f t = .ok t') : HasRoom t' flows := by
  intro g hg hNow
  have hLe : t'.balance g.fromId g.toId g.equivalentId + localReserved flows g.fromId g.toId g.equivalentId ≤
      t.balance g.fromId g.toId g.equivalentId + localReserved (f :: flows) g.fromId g.toId g.equivalentId := by
    rw [localReserved_cons]
    by_cases hE : f.equivalentId = g.equivalentId
    · rw [(balance_applyFlow hPos hE hGrid hApplied g.fromId g.toId).1, Flow.along]
      by_cases hSame : (g.fromId, g.toId) = (f.fromId, f.toId)
      · obtain ⟨hFrom, hTo⟩ := Prod.mk.inj hSame
        rw [if_pos hSame, if_pos ⟨hFrom.symm, hTo.symm, hE⟩]
        linarith
      · have hNot : ¬(f.fromId = g.fromId ∧ f.toId = g.toId ∧ f.equivalentId = g.equivalentId) :=
          fun hAll => hSame (by rw [hAll.1, hAll.2.1])
        rw [if_neg hSame, if_neg hNot]
        split
        · linarith
        · linarith
    · have hOwed := owed_applyFlow_elsewhere hPos hE hApplied
      rw [DebtTable.balance, hOwed, hOwed, DebtTable.balance, if_neg fun hAll => hE hAll.2.2, zero_add]
  have hFits := h g (List.mem_cons_of_mem _ hg) (hNow.trans_le hLe)
  refine env.column.fits_of_abs_le _ _ ?_ hFits
  rw [abs_of_pos hNow, abs_of_pos (hNow.trans_le hLe)]
  exact hLe

/-- Flows of stored amounts between different participants are applied when there is room. -/
theorem applyFlows_eq_ok (hPos : ∀ f ∈ flows, 0 < f.amount) (hDistinct : ∀ f ∈ flows, f.fromId ≠ f.toId)
    (hGrid : ∀ f ∈ flows, f.amount ∈ env.column.grid) (hRoom : HasRoom t flows) :
    ∃ t', applyFlows flows t = .ok t' := by
  induction flows generalizing t with
  | nil => exact ⟨t, rfl⟩
  | cons f rest ih =>
      have hFirst := hPos f List.mem_cons_self
      have hStored := hGrid f List.mem_cons_self
      have hNonneg : 0 ≤ localReserved rest f.fromId f.toId f.equivalentId :=
        localReserved_nonneg (fun g hg => (hPos g (List.mem_cons_of_mem _ hg)).le) _ _
      have hTotal : localReserved (f :: rest) f.fromId f.toId f.equivalentId =
          f.amount + localReserved rest f.fromId f.toId f.equivalentId := by
        rw [localReserved_cons, if_pos ⟨rfl, rfl, rfl⟩]
      obtain ⟨t₁, hFlow⟩ := applyFlow_eq_ok (t := t) hFirst hStored (hDistinct f List.mem_cons_self) fun hNow => by
        have hLe : t.balance f.fromId f.toId f.equivalentId + f.amount ≤
            t.balance f.fromId f.toId f.equivalentId + localReserved (f :: rest) f.fromId f.toId f.equivalentId := by
          rw [hTotal]
          linarith
        refine env.column.fits_of_abs_le _ _ ?_ (hRoom f List.mem_cons_self (hNow.trans_le hLe))
        rw [abs_of_pos hNow, abs_of_pos (hNow.trans_le hLe)]
        exact hLe
      obtain ⟨t', hRest⟩ := ih (fun g hg => hPos g (List.mem_cons_of_mem _ hg))
        (fun g hg => hDistinct g (List.mem_cons_of_mem _ hg)) (fun g hg => hGrid g (List.mem_cons_of_mem _ hg))
        (hRoom.next hFirst hStored hFlow)
      exact ⟨t', applyFlows_cons.mpr ⟨t₁, hFlow, hRest⟩⟩

/-- Every touched pair holds its net value in a single row, and every other row is as it was. -/
structure NetsOut (t : DebtTable env) (flows : List Flow) (t' : DebtTable env) : Prop where
  touched : ∀ a b e, Touches flows a b e → (t'.getDebt a b e).map (·.amount) =
    if 0 < netValue t flows a b e then some (netValue t flows a b e) else none
  untouched : ∀ d : Debt, ¬Touches flows d.debtorId d.creditorId d.equivalentId → (d ∈ t'.rows ↔ d ∈ t.rows)

/-- A debt is found exactly where something is owed. -/
theorem DebtTable.map_getDebt (t : DebtTable env) (a b e : Uuid) :
    (t.getDebt a b e).map (·.amount) = if 0 < t.owed a b e then some (t.owed a b e) else none := by
  cases h : t.getDebt a b e with
  | none => simp [DebtTable.owed, h]
  | some d =>
      have hPos := t.amount_positive d (DebtTable.getDebt_eq_some_iff.mp h).1
      simp [DebtTable.owed, h, hPos]

/-- Applied flows net out: every pair is left with its canonical net debt. -/
theorem applyFlows_netsOut (hPos : ∀ f ∈ flows, 0 < f.amount) (hDistinct : ∀ f ∈ flows, f.fromId ≠ f.toId)
    (hGrid : ∀ f ∈ flows, f.amount ∈ env.column.grid) (h : applyFlows flows t = .ok t') : NetsOut t flows t' := by
  refine ⟨fun a b e hTouches => ?_, rows_applyFlows h⟩
  have hOwed := (landing_applyFlows hPos hGrid h a b e).2
  obtain ⟨f, hf, hE, hBetween⟩ := hTouches
  have hNet : t.balance a b e + pairDelta (flows.filter (·.equivalentId = e)) a b = netValue t flows a b e := by
    rw [pairDelta_eq_sub hDistinct, DebtTable.balance, netValue]
    ring
  rw [if_pos ⟨f, List.mem_filter.mpr ⟨hf, decide_eq_true hE⟩, hBetween⟩, hNet] at hOwed
  rw [DebtTable.map_getDebt, hOwed]
  by_cases hNow : 0 < netValue t flows a b e
  · rw [max_eq_left hNow.le]
  · rw [max_eq_right (not_lt.mp hNow), if_neg (lt_irrefl _), if_neg hNow]

/-- What flows net out to does not depend on their order. -/
theorem NetsOut.perm (h : NetsOut t others t') (hPerm : others.Perm flows) : NetsOut t flows t' := by
  have hNet : ∀ a b e, netValue t others a b e = netValue t flows a b e := fun a b e => by
    rw [netValue, netValue, localReserved_perm hPerm, localReserved_perm hPerm]
  have hTouches : ∀ a b e, Touches others a b e ↔ Touches flows a b e := fun a b e => by
    simp only [Touches, hPerm.mem_iff]
  refine ⟨fun a b e hTouched => ?_, fun d hAway => h.untouched d fun hTouched => hAway ((hTouches _ _ _).mp hTouched)⟩
  rw [h.touched a b e ((hTouches a b e).mpr hTouched), hNet]

/-- What a list of flows leaves for every pair is determined. -/
theorem NetsOut.owed_eq {t₁ t₂ : DebtTable env} (h₁ : NetsOut t flows t₁) (h₂ : NetsOut t flows t₂) (a b e : Uuid) :
    t₁.owed a b e = t₂.owed a b e := by
  by_cases hTouches : Touches flows a b e
  · rw [DebtTable.owed, DebtTable.owed, h₁.touched a b e hTouches, h₂.touched a b e hTouches]
  · have hSame : ∀ d : Debt, d.key = (a, b, e) → (d ∈ t₁.rows ↔ d ∈ t₂.rows) := by
      intro d hKey
      obtain ⟨rfl, rfl, rfl⟩ : d.debtorId = a ∧ d.creditorId = b ∧ d.equivalentId = e := by
        simpa [Debt.key] using hKey
      exact (h₁.untouched d hTouches).trans (h₂.untouched d hTouches).symm
    refine DebtTable.owed_congr fun x => exists_congr fun d => ?_
    constructor
    · rintro ⟨hd, hKey, hx⟩
      exact ⟨(hSame d hKey).mp hd, hKey, hx⟩
    · rintro ⟨hd, hKey, hx⟩
      exact ⟨(hSame d hKey).mpr hd, hKey, hx⟩

/-- Flows of stored amounts between different participants, with room for every balance
they can reach, net out exactly in every order, and every order leaves the same amounts. -/
theorem applyFlows_net (hPos : ∀ f ∈ flows, 0 < f.amount) (hDistinct : ∀ f ∈ flows, f.fromId ≠ f.toId)
    (hGrid : ∀ f ∈ flows, f.amount ∈ env.column.grid) (hRoom : HasRoom t flows) :
    ∃ t', applyFlows flows t = .ok t' ∧ NetsOut t flows t' ∧
      ∀ others, others.Perm flows → ∃ t'', applyFlows others t = .ok t'' ∧ NetsOut t flows t'' ∧
        ∀ a b e, t''.owed a b e = t'.owed a b e := by
  obtain ⟨t', hApplied⟩ := applyFlows_eq_ok hPos hDistinct hGrid hRoom
  have hNets := applyFlows_netsOut hPos hDistinct hGrid hApplied
  refine ⟨t', hApplied, hNets, fun others hPerm => ?_⟩
  have hPos' : ∀ f ∈ others, 0 < f.amount := fun f hf => hPos f (hPerm.mem_iff.mp hf)
  have hDistinct' : ∀ f ∈ others, f.fromId ≠ f.toId := fun f hf => hDistinct f (hPerm.mem_iff.mp hf)
  have hGrid' : ∀ f ∈ others, f.amount ∈ env.column.grid := fun f hf => hGrid f (hPerm.mem_iff.mp hf)
  obtain ⟨t'', hOther⟩ := applyFlows_eq_ok hPos' hDistinct' hGrid' (hRoom.perm hPerm)
  have hNets' := (applyFlows_netsOut hPos' hDistinct' hGrid' hOther).perm hPerm
  exact ⟨t'', hOther, hNets', fun a b e => hNets'.owed_eq hNets a b e⟩

section Sample

/-- Two flows against each other over an empty table leave their difference, in either order. -/
theorem applyFlows_net_pair : ∃ t', applyFlows [⟨1, 2, 5, 1⟩, ⟨2, 1, 3, 1⟩]
      (DebtTable.empty : DebtTable (Env.sample .numeric208 true)) = .ok t' ∧
    ∃ t'', applyFlows [⟨2, 1, 3, 1⟩, ⟨1, 2, 5, 1⟩]
      (DebtTable.empty : DebtTable (Env.sample .numeric208 true)) = .ok t'' ∧ t''.owed 1 2 1 = t'.owed 1 2 1 := by
  have hStored : ∀ f ∈ [(⟨1, 2, 5, 1⟩ : Flow), ⟨2, 1, 3, 1⟩],
      f.amount ∈ (Env.sample .numeric208 true).column.grid := by
    intro f hf
    refine (Grid.mem_multiples_iff_den AmountColumn.storageQuantum_pos).mpr ?_
    revert f hf
    decide +kernel
  obtain ⟨t', hApplied, -, hOrders⟩ :=
    @applyFlows_net (Env.sample .numeric208 true) .empty [⟨1, 2, 5, 1⟩, ⟨2, 1, 3, 1⟩] (by decide +kernel)
      (by decide) hStored (by intro f hf; revert f hf; decide +kernel)
  obtain ⟨t'', hOther, -, hSame⟩ := hOrders _ (List.Perm.swap _ _ _)
  exact ⟨t', hApplied, t'', hOther, hSame 1 2 1⟩

/-- A flow with nine fractional digits is stored rounded, a flow of 10^12 does not fit the
column, and a flow from a participant to itself is refused. -/
theorem not_applyFlows_net :
    (¬∃ t', applyFlows [⟨1, 2, 1000000001 / 1000000000, 1⟩]
      (DebtTable.empty : DebtTable (Env.sample .numeric208 true)) = .ok t' ∧
        NetsOut .empty [⟨1, 2, 1000000001 / 1000000000, 1⟩] t') ∧
    (¬∃ t', applyFlows [⟨1, 2, 1000000000000, 1⟩]
      (DebtTable.empty : DebtTable (Env.sample .numeric208 true)) = .ok t' ∧
        NetsOut .empty [⟨1, 2, 1000000000000, 1⟩] t') ∧
    ¬∃ t', applyFlows [⟨1, 1, 1, 1⟩] (DebtTable.empty : DebtTable (Env.sample .numeric208 true)) = .ok t' ∧
        NetsOut .empty [⟨1, 1, 1, 1⟩] t' := by
  have hWide : (applyFlows [⟨1, 2, 1000000000000, 1⟩]
      (DebtTable.empty : DebtTable (Env.sample .numeric208 true))).toBool = false := by decide +kernel
  have hLoop : (applyFlows [⟨1, 1, 1, 1⟩]
      (DebtTable.empty : DebtTable (Env.sample .numeric208 true))).toBool = false := by decide +kernel
  refine ⟨fun ⟨t', _, hNets⟩ => ?_, fun ⟨t', hOk, _⟩ => ?_, fun ⟨t', hOk, _⟩ => ?_⟩
  · have hRow := hNets.touched 1 2 1 ⟨_, List.mem_cons_self, rfl, Or.inl rfl⟩
    have hValue : netValue (DebtTable.empty : DebtTable (Env.sample .numeric208 true))
        [⟨1, 2, 1000000001 / 1000000000, 1⟩] 1 2 1 = 1000000001 / 1000000000 := by decide +kernel
    rw [hValue, if_pos (by norm_num)] at hRow
    obtain ⟨d, hDebt, hAmount⟩ := Option.map_eq_some_iff.mp hRow
    have hStored := t'.stored d (DebtTable.getDebt_eq_some_iff.mp hDebt).1
    rw [hAmount] at hStored
    have hDen := (Grid.mem_multiples_iff_den AmountColumn.storageQuantum_pos).mp hStored
    revert hDen
    decide +kernel
  · rw [hOk] at hWide
    cases hWide
  · rw [hOk] at hLoop
    cases hLoop

end Sample

end Netting

end GeoLedger

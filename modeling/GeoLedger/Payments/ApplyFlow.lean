import Mathlib
import GeoLedger.Debts

/-! `PaymentEngine._apply_flow`. A flow first reduces what the receiver owes the
sender, raises the sender's debt by what is left, and then nets the two rows of
the pair if both exist. Its effect is one rounding of the pair's balance. -/
namespace GeoLedger

variable {env : Env}

/-- Step 1: reduce the receiver's debt to the sender. Returns the table, the
amount that is left, and the reduced amount as the session holds it, which the
flush has not rounded. -/
def settleReverse (f : Flow) (t : DebtTable env) :
    Except GeoError (DebtTable env × Amount × Amount) :=
  match t.getDebt f.toId f.fromId f.equivalentId with
  | none => .ok (t, f.amount, 0)
  | some debt =>
      if 0 < debt.amount then do
        let reduction := min f.amount debt.amount
        let t' ← t.save debt.id (debt.amount - reduction)
        return (t', f.amount - reduction, debt.amount - reduction)
      else .ok (t, f.amount, debt.amount)

/-- Step 2: raise the sender's debt to the receiver, creating its row if needed. -/
def raiseForward (f : Flow) (remaining : Amount) (t : DebtTable env) :
    Except GeoError (DebtTable env) :=
  if 0 < remaining then
    match t.getDebt f.fromId f.toId f.equivalentId with
    | none => t.insert f.fromId f.toId f.equivalentId (0 + remaining)
    | some debt => t.write debt.id (debt.amount + remaining)
  else .ok t

/-- Step 3: net mutual debts. Step 1 deletes the reverse row whenever step 2
raises the forward one, so only the reverse amount can differ from its row. -/
def netMutual (f : Flow) (reverse : Amount) (t : DebtTable env) :
    Except GeoError (DebtTable env) :=
  match t.getDebt f.fromId f.toId f.equivalentId, t.getDebt f.toId f.fromId f.equivalentId with
  | some debtForward, some debtReverse =>
      if 0 < debtForward.amount ∧ 0 < reverse then do
        let net := min debtForward.amount reverse
        let t' ← t.save debtForward.id (debtForward.amount - net)
        t'.save debtReverse.id (reverse - net)
      else .ok t
  | _, _ => .ok t

def applyFlow (f : Flow) (t : DebtTable env) : Except GeoError (DebtTable env) := do
  let (t₁, remaining, reverse) ← settleReverse f t
  let t₂ ← raiseForward f remaining t₁
  netMutual f reverse t₂

/-- What an ordered pair owes beyond what it is owed. -/
def DebtTable.balance (t : DebtTable env) (a b e : Uuid) : Amount := t.owed a b e - t.owed b a e

theorem DebtTable.balance_neg (t : DebtTable env) (a b e : Uuid) :
    t.balance b a e = -t.balance a b e := by
  simp only [balance, neg_sub]

/-- `t'` differs from `t` on one pair only, whose balance is now `z` and stands
in a single row. -/
structure Settles (t t' : DebtTable env) (a b e : Uuid) (z : Amount) : Prop where
  retires : t.Retires t'
  forward : t'.owed a b e = max z 0
  reverse : t'.owed b a e = max (-z) 0
  others : ∀ x y w, (x, y, w) ≠ (a, b, e) → (x, y, w) ≠ (b, a, e) → t'.owed x y w = t.owed x y w

theorem Settles.balance {t t' : DebtTable env} {a b e : Uuid} {z : Amount}
    (h : Settles t t' a b e z) : t'.balance a b e = z := by
  rw [DebtTable.balance, h.forward, h.reverse]
  rcases le_total z 0 with hz | hz
  · rw [max_eq_right hz, max_eq_left (neg_nonneg.mpr hz)]
    ring
  · rw [max_eq_left hz, max_eq_right (neg_nonpos.mpr hz)]
    ring

section Effect

variable {f : Flow} {t t₁ t₂ t' : DebtTable env}

theorem DebtTable.ne_of_owed_pos {a b e : Uuid} (h : 0 < t.owed a b e) : a ≠ b := by
  rintro rfl
  rw [t.owed_self] at h
  exact lt_irrefl _ h

/-- The reverse row keeps what the flow does not use up, and the flow what the row does not. -/
theorem settleReverse_effect {remaining reverse : Amount} (hPos : 0 < f.amount)
    (h : settleReverse f t = .ok (t₁, remaining, reverse)) :
    remaining = f.amount - min f.amount (t.owed f.toId f.fromId f.equivalentId) ∧
      reverse = t.owed f.toId f.fromId f.equivalentId -
        min f.amount (t.owed f.toId f.fromId f.equivalentId) ∧
      (0 < reverse → 0 < env.column.round reverse) ∧
      t.Retires t₁ ∧
      ∀ x y w, t₁.owed x y w =
        if (f.toId, f.fromId, f.equivalentId) = (x, y, w) then env.column.round reverse
        else t.owed x y w := by
  unfold settleReverse at h
  split at h
  · next hNone =>
      cases h
      have hZero : t.owed f.toId f.fromId f.equivalentId = 0 := by
        simp [DebtTable.owed, hNone]
      rw [hZero, min_eq_right hPos.le]
      refine ⟨by ring, by ring, fun h => absurd h (lt_irrefl 0), .refl t, fun x y w => ?_⟩
      split
      · next hKey =>
          simp only [Prod.mk.injEq] at hKey
          obtain ⟨rfl, rfl, rfl⟩ := hKey
          rw [hZero, env.column.round_zero]
      · rfl
  · next debt hSome =>
      obtain ⟨hMem, hKey⟩ := DebtTable.getDebt_eq_some_iff.mp hSome
      rw [if_pos (t.amount_positive debt hMem)] at h
      rw [DebtTable.owed_of_getDebt hSome]
      simp only [bind, Except.bind] at h
      split at h
      · cases h
      · next saved hSave =>
          cases h
          refine ⟨rfl, rfl, fun hLeft => ?_, DebtTable.retires_save hSave, fun x y w => ?_⟩
          · rw [DebtTable.save, if_neg hLeft.ne'] at hSave
            exact (DebtTable.rows_of_write hSave).2.2
          · rw [DebtTable.owed_save hMem hSave, hKey]

theorem raiseForward_effect {remaining : Amount} (h : raiseForward f remaining t = .ok t') :
    t.Retires t' ∧ (0 < remaining → f.fromId ≠ f.toId) ∧
      ∀ x y w, t'.owed x y w =
        if 0 < remaining ∧ (f.fromId, f.toId, f.equivalentId) = (x, y, w) then
          env.column.round (t.owed f.fromId f.toId f.equivalentId + remaining)
        else t.owed x y w := by
  unfold raiseForward at h
  split at h
  · next hPos =>
      split at h
      · next hNone =>
          obtain ⟨_, _, hNe, _⟩ := DebtTable.rows_of_insert h
          refine ⟨DebtTable.retires_insert h, fun _ => hNe, fun x y w => ?_⟩
          rw [DebtTable.owed_insert h]
          simp [hPos, DebtTable.owed, hNone]
      · next debt hSome =>
          obtain ⟨hMem, hKey⟩ := DebtTable.getDebt_eq_some_iff.mp hSome
          refine ⟨DebtTable.retires_write h, fun _ => ?_, fun x y w => ?_⟩
          · apply DebtTable.ne_of_owed_pos (t := t) (e := f.equivalentId)
            rw [DebtTable.owed_of_getDebt hSome]
            exact t.amount_positive debt hMem
          · rw [DebtTable.owed_write hMem h, hKey, DebtTable.owed_of_getDebt hSome]
            simp [hPos]
  · next hPos =>
      cases h
      exact ⟨.refl t, fun hp => absurd hp hPos, fun x y w => by simp [hPos]⟩

theorem netMutual_effect {reverse : Amount} (hNe : f.fromId ≠ f.toId) (hNonneg : 0 ≤ reverse)
    (hReverse : t.owed f.toId f.fromId f.equivalentId = env.column.round reverse)
    (hStored : 0 < reverse → 0 < env.column.round reverse)
    (h : netMutual f reverse t = .ok t') :
    t.Retires t' ∧
      ∀ x y w, t'.owed x y w =
        if (f.toId, f.fromId, f.equivalentId) = (x, y, w) then
          env.column.round (reverse - min (t.owed f.fromId f.toId f.equivalentId) reverse)
        else if (f.fromId, f.toId, f.equivalentId) = (x, y, w) then
          env.column.round (t.owed f.fromId f.toId f.equivalentId -
            min (t.owed f.fromId f.toId f.equivalentId) reverse)
        else t.owed x y w := by
  have hSame (hZero : t.owed f.fromId f.toId f.equivalentId = 0 ∨ reverse = 0) (x y w : Uuid) :
      t.owed x y w =
        if (f.toId, f.fromId, f.equivalentId) = (x, y, w) then
          env.column.round (reverse - min (t.owed f.fromId f.toId f.equivalentId) reverse)
        else if (f.fromId, f.toId, f.equivalentId) = (x, y, w) then
          env.column.round (t.owed f.fromId f.toId f.equivalentId -
            min (t.owed f.fromId f.toId f.equivalentId) reverse)
        else t.owed x y w := by
    have hMin : min (t.owed f.fromId f.toId f.equivalentId) reverse = 0 := by
      rcases hZero with hZero | hZero
      · rw [hZero, min_eq_left hNonneg]
      · rw [hZero, min_eq_right (t.owed_nonneg _ _ _)]
    rw [hMin, sub_zero, sub_zero, ← hReverse, env.column.round_of_mem _ (t.owed_mem_grid _ _ _)]
    split
    · next hKey =>
        simp only [Prod.mk.injEq] at hKey
        obtain ⟨rfl, rfl, rfl⟩ := hKey
        rfl
    · split
      · next hKey =>
          simp only [Prod.mk.injEq] at hKey
          obtain ⟨rfl, rfl, rfl⟩ := hKey
          rfl
      · rfl
  unfold netMutual at h
  split at h
  · next forwardRow reverseRow hForward hBack =>
      obtain ⟨hMemF, hKeyF⟩ := DebtTable.getDebt_eq_some_iff.mp hForward
      obtain ⟨hMemR, hKeyR⟩ := DebtTable.getDebt_eq_some_iff.mp hBack
      split at h
      · simp only [bind, Except.bind] at h
        split at h
        · cases h
        · next t₁ hSaveF =>
            have hOwedF := DebtTable.owed_save hMemF hSaveF
            rw [hKeyF] at hOwedF
            have hRowNe : reverseRow.id ≠ forwardRow.id := by
              intro hId
              have hRow := Rows.eq_of_column t.id_unique hMemR hMemF hId
              rw [hRow, hKeyF, Prod.mk.injEq] at hKeyR
              exact hNe hKeyR.1
            have hOwedR := DebtTable.owed_save (DebtTable.mem_save_of_ne hMemR hRowNe hSaveF) h
            rw [hKeyR] at hOwedR
            refine ⟨(DebtTable.retires_save hSaveF).trans (DebtTable.retires_save h),
              fun x y w => ?_⟩
            rw [hOwedR, hOwedF, DebtTable.owed_of_getDebt hForward]
      · next hNot =>
          cases h
          refine ⟨.refl t, hSame ?_⟩
          right
          have hPosF := t.amount_positive forwardRow hMemF
          by_contra hne
          exact hNot ⟨hPosF, lt_of_le_of_ne hNonneg (Ne.symm hne)⟩
  · next hNone =>
      cases h
      refine ⟨.refl t, hSame ?_⟩
      cases hForward : t.getDebt f.fromId f.toId f.equivalentId with
      | none => exact Or.inl (by simp [DebtTable.owed, hForward])
      | some forwardRow =>
          cases hBack : t.getDebt f.toId f.fromId f.equivalentId with
          | none =>
              have hZero : t.owed f.toId f.fromId f.equivalentId = 0 := by
                simp [DebtTable.owed, hBack]
              right
              by_contra hne
              have hPos := hStored (lt_of_le_of_ne hNonneg (Ne.symm hne))
              rw [← hReverse, hZero] at hPos
              exact lt_irrefl _ hPos
          | some reverseRow => exact absurd hBack (hNone forwardRow reverseRow hForward)

/-- The three steps on two amounts of the column round their difference once. -/
theorem AmountColumn.round_steps (c : AmountColumn) {x y a : Amount} (hx : x ∈ c.grid)
    (hx0 : 0 ≤ x) :
    let reverse := y - min a y
    let forward := if 0 < a - min a y then c.round (x + (a - min a y)) else x
    c.round (forward - min forward reverse) = max (c.round (x - y + a)) 0 ∧
      c.round (reverse - min forward reverse) = max (-c.round (x - y + a)) 0 := by
  intro reverse forward
  rcases le_or_gt y a with hya | hay
  · -- the reverse row is used up, and the rest raises the forward row
    have hReverse : reverse = 0 := by simp [reverse, min_eq_right hya]
    have hForward : forward = c.round (x - y + a) := by
      simp only [forward, min_eq_right hya]
      split
      · congr 1
        ring
      · next h =>
          have hEq : a = y := le_antisymm (by linarith) hya
          rw [hEq, sub_add_cancel, c.round_of_mem x hx]
    have hNonneg : 0 ≤ forward := by
      rw [hForward]
      exact c.round_nonneg (by linarith)
    rw [hReverse, min_eq_right hNonneg, sub_zero, sub_zero, c.round_zero, ← hForward]
    have hMem : forward ∈ c.grid := hForward ▸ c.round_mem _
    rw [c.round_of_mem _ hMem, max_eq_left hNonneg, max_eq_right (neg_nonpos.mpr hNonneg)]
    exact ⟨rfl, rfl⟩
  · -- the flow only reduces the reverse row, which may then be netted with the forward one
    have hReverse : reverse = y - a := by simp [reverse, min_eq_left hay.le]
    have hForward : forward = x := by simp [forward, min_eq_left hay.le]
    rw [hReverse, hForward]
    rcases le_total x (y - a) with hle | hle
    · have hNeg : c.round (x - y + a) = -c.round (y - a - x) := by
        rw [← c.round_neg]
        congr 1
        ring
      have hNonneg := c.round_nonneg (sub_nonneg.mpr hle)
      rw [min_eq_left hle, sub_self, c.round_zero, hNeg, neg_neg, max_eq_left hNonneg,
        max_eq_right (neg_nonpos.mpr hNonneg)]
      exact ⟨rfl, rfl⟩
    · have hEq : x - y + a = x - (y - a) := by ring
      have hNonneg := c.round_nonneg (sub_nonneg.mpr hle)
      rw [min_eq_right hle, sub_self, c.round_zero, hEq, max_eq_left hNonneg,
        max_eq_right (neg_nonpos.mpr hNonneg)]
      exact ⟨rfl, rfl⟩

/-- A flow moves the balance of its pair by its amount, rounded once, leaves the pair in a
single row, and touches no other pair. -/
theorem applyFlow_settles (hPos : 0 < f.amount) (h : applyFlow f t = .ok t') :
    f.fromId ≠ f.toId ∧
      Settles t t' f.fromId f.toId f.equivalentId
        (env.column.round (t.balance f.fromId f.toId f.equivalentId + f.amount)) := by
  simp only [applyFlow, bind, Except.bind] at h
  split at h
  · cases h
  · next result hSettle =>
      obtain ⟨t₁, remaining, reverse⟩ := result
      simp only at h
      split at h
      · cases h
      · next t₂ hRaise =>
          obtain ⟨hRemaining, hReverse, hStored, hRetire₁, hOwed₁⟩ :=
            settleReverse_effect hPos hSettle
          obtain ⟨hRetire₂, hRaiseNe, hOwed₂⟩ := raiseForward_effect hRaise
          have hReverseNonneg : 0 ≤ reverse := by
            rw [hReverse]
            exact sub_nonneg.mpr (min_le_right _ _)
          have hNe : f.fromId ≠ f.toId := by
            by_cases hLeft : 0 < remaining
            · exact hRaiseNe hLeft
            · refine (DebtTable.ne_of_owed_pos (t := t) (e := f.equivalentId) ?_).symm
              by_contra hZero
              rw [hRemaining, min_eq_right ((not_lt.mp hZero).trans hPos.le)] at hLeft
              linarith [not_lt.mp hZero, not_lt.mp hLeft]
          have hForward₁ : t₁.owed f.fromId f.toId f.equivalentId =
              t.owed f.fromId f.toId f.equivalentId := by
            rw [hOwed₁, if_neg (by simp [hNe.symm])]
          have hForward₂ : t₂.owed f.fromId f.toId f.equivalentId =
              if 0 < remaining then
                env.column.round (t.owed f.fromId f.toId f.equivalentId + remaining)
              else t.owed f.fromId f.toId f.equivalentId := by
            rw [hOwed₂, hForward₁]
            simp
          have hReverse₂ : t₂.owed f.toId f.fromId f.equivalentId = env.column.round reverse := by
            rw [hOwed₂, if_neg (by simp [hNe]), hOwed₁, if_pos rfl]
          obtain ⟨hRetire₃, hOwed₃⟩ :=
            netMutual_effect hNe hReverseNonneg hReverse₂ hStored h
          obtain ⟨hUp, hDown⟩ := env.column.round_steps (a := f.amount)
            (t.owed_mem_grid f.fromId f.toId f.equivalentId)
            (t.owed_nonneg f.fromId f.toId f.equivalentId) (y := t.owed f.toId f.fromId f.equivalentId)
          rw [← hRemaining, ← hReverse, ← hForward₂] at hUp hDown
          refine ⟨hNe, (hRetire₁.trans hRetire₂).trans hRetire₃, ?_, ?_, ?_⟩
          · rw [hOwed₃, if_neg (by simp [hNe.symm]), if_pos rfl, hUp, DebtTable.balance]
          · rw [hOwed₃, if_pos rfl, hDown, DebtTable.balance]
          · intro x y w hForwardKey hReverseKey
            rw [hOwed₃, if_neg (Ne.symm hReverseKey), if_neg (Ne.symm hForwardKey), hOwed₂,
              if_neg (fun hKey => hForwardKey hKey.2.symm), hOwed₁, if_neg (Ne.symm hReverseKey)]

/-- An amount of the column that is positive and fits can be written. -/
theorem DebtTable.save_eq_ok (id : Uuid) {amount : Amount} (hGrid : amount ∈ env.column.grid)
    (hNonneg : 0 ≤ amount) (hFits : env.column.fits amount = true) :
    ∃ t', t.save id amount = .ok t' := by
  unfold save
  split
  · exact ⟨_, rfl⟩
  · next hZero =>
      rw [write_eq_ok_iff, env.column.round_of_mem _ hGrid]
      exact ⟨hFits, lt_of_le_of_ne hNonneg (Ne.symm hZero)⟩

theorem DebtTable.fits_of_le_amount {debt : Debt} {amount : Amount} (hMem : debt ∈ t.rows)
    (hNonneg : 0 ≤ amount) (hLe : amount ≤ debt.amount) : env.column.fits amount = true := by
  apply env.column.fits_of_abs_le amount debt.amount _ (t.amount_fits debt hMem)
  rwa [abs_of_nonneg hNonneg, abs_of_pos (t.amount_positive debt hMem)]

theorem settleReverse_eq_ok (hPos : 0 < f.amount) (hGrid : f.amount ∈ env.column.grid) :
    ∃ result, settleReverse f t = .ok result := by
  unfold settleReverse
  split
  · exact ⟨_, rfl⟩
  · next debt hSome =>
      obtain ⟨hMem, _⟩ := DebtTable.getDebt_eq_some_iff.mp hSome
      rw [if_pos (t.amount_positive debt hMem)]
      have hReduction : min f.amount debt.amount ∈ env.column.grid := by
        rcases min_choice f.amount debt.amount with h | h
        · rw [h]
          exact hGrid
        · rw [h]
          exact t.stored debt hMem
      have hNonneg : 0 ≤ debt.amount - min f.amount debt.amount :=
        sub_nonneg.mpr (min_le_right _ _)
      have hLe : debt.amount - min f.amount debt.amount ≤ debt.amount :=
        sub_le_self _ (le_min hPos.le (t.amount_positive debt hMem).le)
      obtain ⟨t', hSave⟩ := DebtTable.save_eq_ok (t := t) debt.id
        (env.column.grid.sub_mem (t.stored debt hMem) hReduction) hNonneg
        (DebtTable.fits_of_le_amount hMem hNonneg hLe)
      simp [hSave, bind, Except.bind, pure, Except.pure]

theorem raiseForward_eq_ok {remaining : Amount} (hNe : f.fromId ≠ f.toId)
    (hGrid : remaining ∈ env.column.grid)
    (hFits : 0 < remaining →
      env.column.fits (t.owed f.fromId f.toId f.equivalentId + remaining) = true) :
    ∃ t', raiseForward f remaining t = .ok t' := by
  unfold raiseForward
  split
  · next hPos =>
      have hValue := hFits hPos
      split
      · next hNone =>
          have hZero : t.owed f.fromId f.toId f.equivalentId = 0 := by
            simp [DebtTable.owed, hNone]
          rw [hZero] at hValue
          apply DebtTable.insert_eq_ok _ _ hNe hNone
          · rwa [env.column.round_of_mem _ (env.column.grid.add_mem env.column.grid.zero_mem hGrid)]
          · rw [env.column.round_of_mem _ (env.column.grid.add_mem env.column.grid.zero_mem hGrid)]
            linarith
      · next debt hSome =>
          obtain ⟨hMem, _⟩ := DebtTable.getDebt_eq_some_iff.mp hSome
          rw [DebtTable.owed_of_getDebt hSome] at hValue
          have hSum := env.column.grid.add_mem (t.stored debt hMem) hGrid
          rw [DebtTable.write_eq_ok_iff, env.column.round_of_mem _ hSum]
          exact ⟨hValue, by linarith [t.amount_positive debt hMem]⟩
  · exact ⟨t, rfl⟩

theorem netMutual_eq_ok {reverse : Amount} (hGrid : reverse ∈ env.column.grid)
    (hReverse : t.owed f.toId f.fromId f.equivalentId = reverse) :
    ∃ t', netMutual f reverse t = .ok t' := by
  unfold netMutual
  split
  · next forwardRow reverseRow hForward hBack =>
      obtain ⟨hMemF, _⟩ := DebtTable.getDebt_eq_some_iff.mp hForward
      obtain ⟨hMemR, _⟩ := DebtTable.getDebt_eq_some_iff.mp hBack
      rw [DebtTable.owed_of_getDebt hBack] at hReverse
      split
      · next hPos =>
          have hNet : min forwardRow.amount reverse ∈ env.column.grid := by
            rcases min_choice forwardRow.amount reverse with h | h
            · rw [h]
              exact t.stored forwardRow hMemF
            · rw [h]
              exact hGrid
          have hNetPos : 0 ≤ min forwardRow.amount reverse := le_min hPos.1.le hPos.2.le
          have hNonnegF : 0 ≤ forwardRow.amount - min forwardRow.amount reverse :=
            sub_nonneg.mpr (min_le_left _ _)
          have hNonnegR : 0 ≤ reverse - min forwardRow.amount reverse :=
            sub_nonneg.mpr (min_le_right _ _)
          obtain ⟨t₁, hSave⟩ := DebtTable.save_eq_ok (t := t) forwardRow.id
            (env.column.grid.sub_mem (t.stored forwardRow hMemF) hNet) hNonnegF
            (DebtTable.fits_of_le_amount hMemF hNonnegF (sub_le_self _ hNetPos))
          simp only [hSave, bind, Except.bind]
          refine DebtTable.save_eq_ok _ (env.column.grid.sub_mem hGrid hNet) hNonnegR
            (DebtTable.fits_of_le_amount hMemR hNonnegR ?_)
          rw [hReverse]
          exact sub_le_self _ hNetPos
      · exact ⟨t, rfl⟩
  · exact ⟨t, rfl⟩

/-- A flow of a stored amount between two participants is applied when the
balance it leaves fits the column. -/
theorem applyFlow_eq_ok (hPos : 0 < f.amount) (hGrid : f.amount ∈ env.column.grid)
    (hNe : f.fromId ≠ f.toId)
    (hFits : 0 < t.balance f.fromId f.toId f.equivalentId + f.amount →
      env.column.fits (t.balance f.fromId f.toId f.equivalentId + f.amount) = true) :
    ∃ t', applyFlow f t = .ok t' := by
  obtain ⟨⟨t₁, remaining, reverse⟩, hSettle⟩ := settleReverse_eq_ok (t := t) hPos hGrid
  obtain ⟨hRemaining, hReverse, _, _, hOwed₁⟩ := settleReverse_effect hPos hSettle
  have hReduction : min f.amount (t.owed f.toId f.fromId f.equivalentId) ∈ env.column.grid := by
    rcases min_choice f.amount (t.owed f.toId f.fromId f.equivalentId) with h | h
    · rw [h]
      exact hGrid
    · rw [h]
      exact t.owed_mem_grid _ _ _
  have hReverseGrid : reverse ∈ env.column.grid :=
    hReverse ▸ env.column.grid.sub_mem (t.owed_mem_grid _ _ _) hReduction
  have hForward₁ : t₁.owed f.fromId f.toId f.equivalentId =
      t.owed f.fromId f.toId f.equivalentId := by
    rw [hOwed₁, if_neg (by simp [hNe.symm])]
  obtain ⟨t₂, hRaise⟩ := raiseForward_eq_ok (t := t₁) hNe
    (hRemaining ▸ env.column.grid.sub_mem hGrid hReduction) (by
      intro hLeft
      have hUsed : min f.amount (t.owed f.toId f.fromId f.equivalentId) =
          t.owed f.toId f.fromId f.equivalentId := by
        apply min_eq_right
        by_contra hLt
        rw [hRemaining, min_eq_left (not_le.mp hLt).le, sub_self] at hLeft
        exact lt_irrefl _ hLeft
      have hValue : t₁.owed f.fromId f.toId f.equivalentId + remaining =
          t.balance f.fromId f.toId f.equivalentId + f.amount := by
        rw [hForward₁, hRemaining, hUsed, DebtTable.balance]
        ring
      rw [hValue]
      apply hFits
      rw [← hValue]
      linarith [t₁.owed_nonneg f.fromId f.toId f.equivalentId])
  obtain ⟨_, _, hOwed₂⟩ := raiseForward_effect hRaise
  obtain ⟨t₃, hNet⟩ := netMutual_eq_ok (f := f) (t := t₂) hReverseGrid (by
    rw [hOwed₂, if_neg (by simp [hNe]), hOwed₁, if_pos rfl,
      env.column.round_of_mem _ hReverseGrid])
  exact ⟨t₃, by simp [applyFlow, bind, Except.bind, hSettle, hRaise, hNet]⟩

end Effect

/-- Settling a pair moves the two net positions by the change of its balance. -/
theorem Settles.netPosition {t t' : DebtTable env} {a b e : Uuid} {z : Amount}
    (h : Settles t t' a b e z) (hNe : a ≠ b) (p w : Uuid) :
    t'.netPosition p w = t.netPosition p w +
      if w = e then
        (if p = b then z - t.balance a b e else 0) - (if p = a then z - t.balance a b e else 0)
      else 0 := by
  have hS : t.participants ⊆ t.participants ∪ t'.participants ∪ {a, b} := by
    intro x hx
    simp [hx]
  have hS' : t'.participants ⊆ t.participants ∪ t'.participants ∪ {a, b} := by
    intro x hx
    simp [hx]
  rw [← sub_eq_iff_eq_add', DebtTable.netPosition_sub hS hS' p w]
  generalize hSet : t.participants ∪ t'.participants ∪ {a, b} = S
  have ha : a ∈ S := by simp [← hSet]
  have hb : b ∈ S := by simp [← hSet]
  have hBalance (x y v : Uuid) (h₁ : (x, y, v) ≠ (a, b, e)) (h₂ : (x, y, v) ≠ (b, a, e)) :
      (t'.owed x y v - t'.owed y x v) - (t.owed x y v - t.owed y x v) = 0 := by
    rw [h.others x y v h₁ h₂, h.others y x v]
    · ring
    · intro hKey
      simp only [Prod.mk.injEq] at hKey
      exact h₂ (by simp [hKey])
    · intro hKey
      simp only [Prod.mk.injEq] at hKey
      exact h₁ (by simp [hKey])
  have hz := h.balance
  unfold DebtTable.balance at hz
  by_cases hw : w = e
  · subst hw
    rw [if_pos rfl]
    by_cases hpb : p = b
    · subst hpb
      rw [if_pos rfl, if_neg (Ne.symm hNe), sub_zero, Finset.sum_eq_single a]
      · rw [hz, DebtTable.balance]
      · intro q _ hq
        exact hBalance q p w (by simp [hq]) (by simp [Ne.symm hNe])
      · exact fun hOut => absurd ha hOut
    · by_cases hpa : p = a
      · subst hpa
        rw [if_neg hpb, if_pos rfl, Finset.sum_eq_single b]
        · rw [DebtTable.balance, ← hz]
          ring
        · intro q _ hq
          exact hBalance q p w (by simp [hNe]) (by simp [hq])
        · exact fun hOut => absurd hb hOut
      · rw [if_neg hpb, if_neg hpa, sub_zero]
        apply Finset.sum_eq_zero
        intro q _
        exact hBalance q p w (by simp [hpb]) (by simp [hpa])
  · rw [if_neg hw]
    apply Finset.sum_eq_zero
    intro q _
    exact hBalance q p w (by simp [hw]) (by simp [hw])

end GeoLedger

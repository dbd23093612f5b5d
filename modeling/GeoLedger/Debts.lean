import Mathlib
import GeoLedger.Tables

/-! What a debt table says: the amount owed along an ordered pair, and the net
position of a participant. Writes are described by their effect on `owed`, and
net positions are sums of `owed`. -/
namespace GeoLedger.DebtTable

variable {env : Env} {t t' : DebtTable env} {d : Debt} {a b e : Uuid}

theorem getDebt_eq_some_iff : t.getDebt a b e = some d ↔ d ∈ t.rows ∧ d.key = (a, b, e) :=
  Rows.find?_eq_some_iff t.key_unique

theorem getDebt_eq_none_iff : t.getDebt a b e = none ↔ ∀ d ∈ t.rows, d.key ≠ (a, b, e) := by
  simp [getDebt, List.find?_eq_none]

theorem owed_of_getDebt (h : t.getDebt a b e = some d) : t.owed a b e = d.amount := by
  simp [owed, h]

theorem owed_of_mem (hMem : d ∈ t.rows) (hKey : d.key = (a, b, e)) : t.owed a b e = d.amount :=
  owed_of_getDebt (getDebt_eq_some_iff.mpr ⟨hMem, hKey⟩)

theorem owed_eq_zero_iff : t.owed a b e = 0 ↔ ∀ d ∈ t.rows, d.key ≠ (a, b, e) := by
  rw [← getDebt_eq_none_iff]
  cases h : t.getDebt a b e with
  | none => simp [owed, h]
  | some d =>
      have hPos := t.amount_positive d (getDebt_eq_some_iff.mp h).1
      simp [owed, h, hPos.ne']

/-- Every amount owed is the amount of a row, or zero. -/
theorem owed_cases (t : DebtTable env) (a b e : Uuid) :
    t.owed a b e = 0 ∨ ∃ d ∈ t.rows, d.key = (a, b, e) ∧ t.owed a b e = d.amount := by
  cases h : t.getDebt a b e with
  | none => exact Or.inl (by simp [owed, h])
  | some d =>
      have hMem := getDebt_eq_some_iff.mp h
      exact Or.inr ⟨d, hMem.1, hMem.2, owed_of_getDebt h⟩

theorem owed_nonneg (t : DebtTable env) (a b e : Uuid) : 0 ≤ t.owed a b e := by
  rcases t.owed_cases a b e with h | ⟨d, hMem, _, h⟩
  · exact h.ge
  · rw [h]
    exact (t.amount_positive d hMem).le

theorem owed_mem_grid (t : DebtTable env) (a b e : Uuid) : t.owed a b e ∈ env.column.grid := by
  rcases t.owed_cases a b e with h | ⟨d, hMem, _, h⟩
  · rw [h]
    exact env.column.grid.zero_mem
  · rw [h]
    exact t.stored d hMem

theorem owed_self (t : DebtTable env) (a e : Uuid) : t.owed a a e = 0 := by
  rw [owed_eq_zero_iff]
  intro d hMem hKey
  simp only [Debt.key, Prod.mk.injEq] at hKey
  exact t.no_self_loop d hMem (hKey.1.trans hKey.2.1.symm)

/-- A dictionary whose entries at a key are the rows of a pair holds the amount owed. -/
theorem getD_ofList_eq_owed {Key : Type} [DecidableEq Key] {entries : List (Key × Amount)} {k : Key}
    (hUnique : (entries.map Prod.fst).Nodup)
    (hEntry : ∀ v, (k, v) ∈ entries ↔ ∃ d ∈ t.rows, d.key = (a, b, e) ∧ d.amount = v) :
    (Dict.ofList entries).getD k 0 = t.owed a b e := by
  rw [Dict.getD]
  rcases t.owed_cases a b e with hZero | ⟨d, hMem, hKey, hOwed⟩
  · cases hGet : (Dict.ofList entries).get? k with
    | none => exact hZero.symm
    | some v =>
        obtain ⟨d, hMem, hKey, _⟩ := (hEntry v).mp ((Dict.get?_ofList_eq_some_iff hUnique).mp hGet)
        exact absurd hKey (owed_eq_zero_iff.mp hZero d hMem)
  · rw [(Dict.get?_ofList_eq_some_iff hUnique).mpr ((hEntry _).mpr ⟨d, hMem, hKey, rfl⟩), hOwed]
    rfl

/-- Amounts owed are equal when the same rows stand for the pair. -/
theorem owed_congr (h : ∀ x, (∃ d ∈ t'.rows, d.key = (a, b, e) ∧ d.amount = x) ↔
    ∃ d ∈ t.rows, d.key = (a, b, e) ∧ d.amount = x) : t'.owed a b e = t.owed a b e := by
  rcases t.owed_cases a b e with hZero | ⟨d, hMem, hKey, hOwed⟩
  · rw [hZero, owed_eq_zero_iff]
    intro d hd hKey
    obtain ⟨old, hOld, hOldKey, _⟩ := (h d.amount).mp ⟨d, hd, hKey, rfl⟩
    exact owed_eq_zero_iff.mp hZero old hOld hOldKey
  · obtain ⟨d', hd', hKey', hAmount⟩ := (h d.amount).mpr ⟨d, hMem, hKey, rfl⟩
    rw [owed_of_mem hd' hKey', hOwed, hAmount]

/-- Identifiers that have been drawn and are not in the table any more stay out of it. -/
def Retires (t t' : DebtTable env) : Prop :=
  t.generated ≤ t'.generated ∧
    ∀ n < t.generated, env.uuid4 n ∉ t.rows.map Debt.id → env.uuid4 n ∉ t'.rows.map Debt.id

theorem Retires.refl (t : DebtTable env) : t.Retires t := ⟨le_rfl, fun _ _ h => h⟩

theorem Retires.trans {t'' : DebtTable env} (h : t.Retires t') (h' : t'.Retires t'') :
    t.Retires t'' :=
  ⟨h.1.trans h'.1, fun n hn hOut => h'.2 n (hn.trans_le h.1) (h.2 n hn hOut)⟩

theorem retires_of_subset (hGenerated : t'.generated = t.generated)
    (h : ∀ d ∈ t'.rows, d.id ∈ t.rows.map Debt.id) : t.Retires t' := by
  refine ⟨hGenerated.ge, fun n _ hOut hIn => hOut ?_⟩
  obtain ⟨d, hd, hId⟩ := List.mem_map.mp hIn
  rw [← hId]
  exact h d hd

theorem retires_delete (t : DebtTable env) (id : Uuid) : t.Retires (t.delete id) :=
  retires_of_subset rfl fun _ hd => List.mem_map_of_mem (Rows.mem_delete_iff.mp hd).1

theorem owed_delete (hMem : d ∈ t.rows) (a b e : Uuid) :
    (t.delete d.id).owed a b e = if d.key = (a, b, e) then 0 else t.owed a b e := by
  split
  · next hKey =>
      rw [owed_eq_zero_iff]
      intro other hOther hOtherKey
      obtain ⟨hOld, hId⟩ := Rows.mem_delete_iff.mp hOther
      exact hId (congrArg Debt.id (Rows.eq_of_column t.key_unique hOld hMem
        (hOtherKey.trans hKey.symm)))
  · next hKey =>
      apply owed_congr
      intro x
      constructor
      · rintro ⟨other, hOther, h⟩
        exact ⟨other, (Rows.mem_delete_iff.mp hOther).1, h⟩
      · rintro ⟨other, hOther, hOtherKey, h⟩
        refine ⟨other, Rows.mem_delete_iff.mpr ⟨hOther, fun hId => hKey ?_⟩, hOtherKey, h⟩
        rw [← Rows.eq_of_column t.id_unique hOther hMem hId]
        exact hOtherKey

/-- A flushed amount: the column keeps the rounded value, which is positive and fits. -/
theorem write_eq_ok_iff {id : Uuid} {amount : Amount} :
    (∃ t', t.write id amount = .ok t') ↔
      env.column.fits (env.column.round amount) = true ∧ 0 < env.column.round amount := by
  unfold write
  split
  · next h => simp [h]
  · next h =>
      split
      · next hPos => simpa [hPos] using h
      · next hPos => simp [hPos]

theorem rows_of_write {id : Uuid} {amount : Amount} (h : t.write id amount = .ok t') :
    t'.rows = Rows.update Debt.id id (fun d => { d with amount := env.column.round amount }) t.rows ∧
      t'.generated = t.generated ∧ 0 < env.column.round amount := by
  unfold write at h
  split at h
  · cases h
  · split at h
    · next hPos =>
        cases h
        exact ⟨rfl, rfl, hPos⟩
    · cases h

theorem retires_write {id : Uuid} {amount : Amount} (h : t.write id amount = .ok t') :
    t.Retires t' := by
  obtain ⟨hRows, hGenerated, _⟩ := rows_of_write h
  refine retires_of_subset hGenerated fun d hd => ?_
  rw [hRows] at hd
  rcases Rows.mem_update_iff.mp hd with ⟨old, hOld, _, rfl⟩ | ⟨hOld, _⟩
  · exact List.mem_map.mpr ⟨old, hOld, rfl⟩
  · exact List.mem_map_of_mem hOld

theorem owed_write {amount : Amount} (hMem : d ∈ t.rows) (h : t.write d.id amount = .ok t')
    (a b e : Uuid) :
    t'.owed a b e = if d.key = (a, b, e) then env.column.round amount else t.owed a b e := by
  obtain ⟨hRows, _, _⟩ := rows_of_write h
  split
  · next hKey =>
      refine owed_of_mem (d := { d with amount := env.column.round amount }) ?_ hKey
      rw [hRows]
      exact Rows.mem_update_iff.mpr (Or.inl ⟨d, hMem, rfl, rfl⟩)
  · next hKey =>
      apply owed_congr
      intro x
      rw [hRows]
      constructor
      · rintro ⟨other, hOther, hOtherKey, hx⟩
        rcases Rows.mem_update_iff.mp hOther with ⟨old, hOld, hId, rfl⟩ | ⟨hOld, _⟩
        · rw [Rows.eq_of_column t.id_unique hOld hMem hId] at hOtherKey
          exact absurd hOtherKey hKey
        · exact ⟨other, hOld, hOtherKey, hx⟩
      · rintro ⟨other, hOther, hOtherKey, hx⟩
        refine ⟨other, Rows.mem_update_iff.mpr (Or.inr ⟨hOther, fun hId => hKey ?_⟩), hOtherKey, hx⟩
        rw [← Rows.eq_of_column t.id_unique hOther hMem hId]
        exact hOtherKey

/-- A saved row holds the rounded amount, and is gone when the amount is zero. -/
theorem owed_save {amount : Amount} (hMem : d ∈ t.rows) (h : t.save d.id amount = .ok t')
    (a b e : Uuid) :
    t'.owed a b e = if d.key = (a, b, e) then env.column.round amount else t.owed a b e := by
  unfold save at h
  split at h
  · next hZero =>
      cases h
      rw [owed_delete hMem, hZero, env.column.round_zero]
  · exact owed_write hMem h a b e

/-- Saving one row leaves the others in place. -/
theorem mem_save_of_ne {id : Uuid} {amount : Amount} (hMem : d ∈ t.rows) (hNe : d.id ≠ id)
    (h : t.save id amount = .ok t') : d ∈ t'.rows := by
  unfold save at h
  split at h
  · cases h
    exact Rows.mem_delete_iff.mpr ⟨hMem, hNe⟩
  · rw [(rows_of_write h).1]
    exact Rows.mem_update_iff.mpr (Or.inr ⟨hMem, hNe⟩)

theorem retires_save {id : Uuid} {amount : Amount} (h : t.save id amount = .ok t') :
    t.Retires t' := by
  unfold save at h
  split at h
  · cases h
    exact retires_delete t id
  · exact retires_write h

theorem rows_of_insert {amount : Amount} (h : t.insert a b e amount = .ok t') :
    t'.rows = t.rows ++ [⟨env.uuid4 t.generated, a, b, e, env.column.round amount⟩] ∧
      t'.generated = t.generated + 1 ∧ a ≠ b ∧ 0 < env.column.round amount := by
  unfold insert at h
  split at h
  · cases h
  · split at h
    · next hPos =>
        split at h
        · cases h
        · next hLoop =>
            split at h
            · cases h
            · cases h
              exact ⟨rfl, rfl, hLoop, hPos⟩
    · cases h

theorem owed_insert {amount : Amount} (h : t.insert a b e amount = .ok t') (x y z : Uuid) :
    t'.owed x y z = if (a, b, e) = (x, y, z) then env.column.round amount else t.owed x y z := by
  obtain ⟨hRows, _, _, _⟩ := rows_of_insert h
  split
  · next hKey =>
      refine owed_of_mem
        (d := ⟨env.uuid4 t.generated, a, b, e, env.column.round amount⟩) ?_ hKey
      rw [hRows]
      exact List.mem_append_right _ (List.mem_singleton.mpr rfl)
  · next hKey =>
      apply owed_congr
      intro v
      rw [hRows]
      constructor
      · rintro ⟨other, hOther, hOtherKey, hv⟩
        rcases List.mem_append.mp hOther with hOld | hNew
        · exact ⟨other, hOld, hOtherKey, hv⟩
        · rw [List.mem_singleton.mp hNew] at hOtherKey
          exact absurd hOtherKey hKey
      · rintro ⟨other, hOther, h⟩
        exact ⟨other, List.mem_append_left _ hOther, h⟩

theorem retires_insert {amount : Amount} (h : t.insert a b e amount = .ok t') : t.Retires t' := by
  obtain ⟨hRows, hGenerated, _, _⟩ := rows_of_insert h
  refine ⟨by omega, fun n hn hOut hIn => ?_⟩
  rw [hRows, List.map_append, List.mem_append] at hIn
  rcases hIn with hOld | hNew
  · exact hOut hOld
  · have hEq : env.uuid4 n = env.uuid4 t.generated := by simpa using hNew
    exact hn.ne (env.uuid4_injective hEq)

/-- A new row can be inserted when the value fits, is positive and has no row yet. -/
theorem insert_eq_ok {amount : Amount} (hFits : env.column.fits (env.column.round amount) = true)
    (hPos : 0 < env.column.round amount) (hNe : a ≠ b) (hNone : t.getDebt a b e = none) :
    ∃ t', t.insert a b e amount = .ok t' := by
  have hKey : (a, b, e) ∉ t.rows.map Debt.key := by
    intro h
    obtain ⟨d, hd, hk⟩ := List.mem_map.mp h
    exact getDebt_eq_none_iff.mp hNone d hd hk
  simp [insert, hFits, hPos, hNe, hKey]

section Positions

/-- Sum of the debts owed to a participant. -/
def credits (t : DebtTable env) (p e : Uuid) : Amount :=
  ((t.rows.filter fun d => d.creditorId = p ∧ d.equivalentId = e).map (·.amount)).sum

/-- Sum of the debts a participant owes. -/
def debits (t : DebtTable env) (p e : Uuid) : Amount :=
  ((t.rows.filter fun d => d.debtorId = p ∧ d.equivalentId = e).map (·.amount)).sum

/-- `_calculate_net_position`: credits minus debts. -/
def netPosition (t : DebtTable env) (p e : Uuid) : Amount := t.credits p e - t.debits p e

/-- The amount owed as a sum over the table. -/
theorem owed_eq_sum (t : DebtTable env) (a b e : Uuid) :
    t.owed a b e = (t.rows.map fun d => if d.key = (a, b, e) then d.amount else 0).sum :=
  (Rows.sum_ite_key t.key_unique (a, b, e)).symm

/-- Credits are the amounts owed by everybody in a set that holds all debtors. -/
theorem credits_eq_sum {S : Finset Uuid} (hS : ∀ d ∈ t.rows, d.debtorId ∈ S) (p e : Uuid) :
    t.credits p e = ∑ q ∈ S, t.owed q p e := by
  simp only [owed_eq_sum, Rows.sum_finset_comm, credits, Rows.sum_filter]
  congr 1
  apply List.map_congr_left
  intro d hd
  simp only [Debt.key, Prod.mk.injEq]
  by_cases h : d.creditorId = p ∧ d.equivalentId = e
  · simp [h, hS d hd]
  · simp [h]

/-- Debits are the amounts owed to everybody in a set that holds all creditors. -/
theorem debits_eq_sum {S : Finset Uuid} (hS : ∀ d ∈ t.rows, d.creditorId ∈ S) (p e : Uuid) :
    t.debits p e = ∑ q ∈ S, t.owed p q e := by
  simp only [owed_eq_sum, Rows.sum_finset_comm, debits, Rows.sum_filter]
  congr 1
  apply List.map_congr_left
  intro d hd
  simp only [Debt.key, Prod.mk.injEq]
  by_cases h : d.debtorId = p ∧ d.equivalentId = e
  · simp [h, hS d hd]
  · have hFalse : ∀ q, ¬(d.debtorId = p ∧ d.creditorId = q ∧ d.equivalentId = e) :=
      fun q hq => h ⟨hq.1, hq.2.2⟩
    simp [h, hFalse]

/-- The participants of a table. -/
def participants (t : DebtTable env) : Finset Uuid :=
  (t.rows.flatMap fun d => [d.debtorId, d.creditorId]).toFinset

theorem mem_participants (hMem : d ∈ t.rows) :
    d.debtorId ∈ t.participants ∧ d.creditorId ∈ t.participants := by
  simp only [participants, List.mem_toFinset, List.mem_flatMap]
  exact ⟨⟨d, hMem, by simp⟩, ⟨d, hMem, by simp⟩⟩

theorem netPosition_eq_sum {S : Finset Uuid} (hS : t.participants ⊆ S) (p e : Uuid) :
    t.netPosition p e = ∑ q ∈ S, (t.owed q p e - t.owed p q e) := by
  rw [netPosition, credits_eq_sum (fun d hd => hS (mem_participants hd).1),
    debits_eq_sum (fun d hd => hS (mem_participants hd).2), Finset.sum_sub_distrib]

theorem netPosition_mem_grid (t : DebtTable env) (p e : Uuid) : t.netPosition p e ∈ env.column.grid := by
  rw [netPosition_eq_sum (Finset.Subset.refl _)]
  exact env.column.grid.sum_mem fun q _ => env.column.grid.sub_mem (t.owed_mem_grid _ _ _) (t.owed_mem_grid _ _ _)

/-- Net positions move by the differences of the amounts owed. -/
theorem netPosition_sub {S : Finset Uuid} (hS : t.participants ⊆ S) (hS' : t'.participants ⊆ S)
    (p e : Uuid) :
    t'.netPosition p e - t.netPosition p e =
      ∑ q ∈ S, ((t'.owed q p e - t'.owed p q e) - (t.owed q p e - t.owed p q e)) := by
  rw [netPosition_eq_sum hS, netPosition_eq_sum hS', ← Finset.sum_sub_distrib]

end Positions

end GeoLedger.DebtTable

import Mathlib

/-! Tables as lists of rows. A row is found, rewritten or deleted by the value
of a key column; the lemmas say what each write does to membership, to the
keys, and to any sum over the table. -/
namespace Rows

variable {Row Key : Type*} [DecidableEq Key]

/-- `UPDATE … WHERE key = k`. -/
def update (key : Row → Key) (k : Key) (f : Row → Row) (rows : List Row) : List Row :=
  rows.map fun r => if key r = k then f r else r

/-- `DELETE … WHERE key = k`. -/
def delete (key : Row → Key) (k : Key) (rows : List Row) : List Row :=
  rows.filter fun r => key r ≠ k

variable {key : Row → Key} {k : Key} {f : Row → Row} {rows : List Row} {r : Row}

theorem mem_update_iff :
    r ∈ update key k f rows ↔
      (∃ old ∈ rows, key old = k ∧ r = f old) ∨ (r ∈ rows ∧ key r ≠ k) := by
  simp only [update, List.mem_map]
  constructor
  · rintro ⟨old, hOld, rfl⟩
    by_cases hk : key old = k
    · exact Or.inl ⟨old, hOld, hk, by rw [if_pos hk]⟩
    · refine Or.inr ?_
      rw [if_neg hk]
      exact ⟨hOld, hk⟩
  · rintro (⟨old, hOld, hk, rfl⟩ | ⟨hMem, hk⟩)
    · exact ⟨old, hOld, if_pos hk⟩
    · exact ⟨r, hMem, if_neg hk⟩

@[simp] theorem mem_delete_iff : r ∈ delete key k rows ↔ r ∈ rows ∧ key r ≠ k := by
  simp [delete]

/-- A rewrite that keeps a column keeps that column's list of values. -/
theorem map_update {Column : Type*} (column : Row → Column)
    (hKeep : ∀ r, column (f r) = column r) :
    (update key k f rows).map column = rows.map column := by
  simp only [update, List.map_map]
  apply List.map_congr_left
  intro r _
  simp only [Function.comp_apply]
  split
  · exact hKeep r
  · rfl

theorem nodup_map_update {Column : Type*} (column : Row → Column)
    (hKeep : ∀ r, column (f r) = column r) (h : (rows.map column).Nodup) :
    ((update key k f rows).map column).Nodup := by
  rwa [map_update column hKeep]

theorem nodup_map_delete {Column : Type*} (column : Row → Column)
    (h : (rows.map column).Nodup) : ((delete key k rows).map column).Nodup :=
  h.sublist (List.Sublist.map column List.filter_sublist)

theorem nodup_map_append {Column : Type*} (column : Row → Column) (new : Row)
    (h : (rows.map column).Nodup) (hNew : ∀ r ∈ rows, column r ≠ column new) :
    ((rows ++ [new]).map column).Nodup := by
  rw [List.map_append, List.map_cons, List.map_nil]
  refine List.nodup_append.mpr ⟨h, List.nodup_singleton _, ?_⟩
  intro a ha b hb
  obtain ⟨r, hr, rfl⟩ := List.mem_map.mp ha
  rw [List.mem_singleton.mp hb]
  exact hNew r hr

/-- Two rows of a table with a unique column agree when that column does. -/
theorem eq_of_column {Column : Type*} {column : Row → Column} (h : (rows.map column).Nodup)
    {a b : Row} (ha : a ∈ rows) (hb : b ∈ rows) (hc : column a = column b) : a = b :=
  List.inj_on_of_nodup_map h ha hb hc

/-- Looking a row up by a unique key finds the row with that key. -/
theorem find?_eq_some_iff (hUnique : (rows.map key).Nodup) :
    rows.find? (key · = k) = some r ↔ r ∈ rows ∧ key r = k := by
  have hFound {r : Row} (h : rows.find? (key · = k) = some r) : r ∈ rows ∧ key r = k := by
    refine ⟨List.mem_of_find?_eq_some h, ?_⟩
    have := List.find?_some h
    simpa using this
  refine ⟨hFound, ?_⟩
  rintro ⟨hMem, hKey⟩
  cases hFind : rows.find? (key · = k) with
  | none =>
      have hNone := List.find?_eq_none.mp hFind r hMem
      exact absurd hKey (by simpa using hNone)
  | some other =>
      obtain ⟨hOther, hOtherKey⟩ := hFound hFind
      rw [eq_of_column hUnique hMem hOther (hKey.trans hOtherKey.symm)]

/-- The rows with a given unique key are the one row found under it. -/
theorem filter_key_eq_singleton (hUnique : (rows.map key).Nodup) (hMem : r ∈ rows) (hKey : key r = k) :
    rows.filter (key · = k) = [r] := by
  induction rows with
  | nil => cases hMem
  | cons head tail ih =>
      rw [List.map_cons, List.nodup_cons] at hUnique
      rcases List.mem_cons.mp hMem with rfl | hTail
      · rw [List.filter_cons_of_pos (by simp [hKey]), List.cons_inj_right, List.filter_eq_nil_iff]
        intro other hOther hSame
        exact hUnique.1 ((hKey.trans (of_decide_eq_true hSame).symm) ▸ List.mem_map_of_mem hOther)
      · have hNe : key head ≠ k := by
          intro hHead
          exact hUnique.1 ((hHead.trans hKey.symm) ▸ List.mem_map_of_mem hTail)
        rw [List.filter_cons_of_neg (by simp [hNe])]
        exact ih hUnique.2 hTail

/-- Rewriting rows that a filter drops before and after leaves what the filter keeps. -/
theorem filter_update_of_drops {p : Row → Bool}
    (hDrop : ∀ r ∈ rows, key r = k → p r = false ∧ p (f r) = false) :
    (update key k f rows).filter p = rows.filter p := by
  induction rows with
  | nil => rfl
  | cons head tail ih =>
      have hTail := ih fun r hr => hDrop r (List.mem_cons_of_mem _ hr)
      have hUpdate : update key k f (head :: tail) =
          (if key head = k then f head else head) :: update key k f tail := rfl
      rw [hUpdate]
      split
      · next hKey =>
          obtain ⟨hOld, hNew⟩ := hDrop head List.mem_cons_self hKey
          rw [List.filter_cons_of_neg (by simp [hNew]), List.filter_cons_of_neg (by simp [hOld]), hTail]
      · rw [List.filter_cons, List.filter_cons, hTail]

/-- Rewriting rows that a filter drops leaves what the filter keeps, when the
filter does not see the rewrite. -/
theorem filter_update {p : Row → Bool} (hKeep : ∀ r, p (f r) = p r)
    (hDrop : ∀ r ∈ rows, key r = k → p r = false) :
    (update key k f rows).filter p = rows.filter p :=
  filter_update_of_drops fun r hr hk => ⟨hDrop r hr hk, (hKeep r).trans (hDrop r hr hk)⟩

/-- Deleting rows that a filter drops leaves what the filter keeps. -/
theorem filter_delete {p : Row → Bool} (hDrop : ∀ r ∈ rows, key r = k → p r = false) :
    (delete key k rows).filter p = rows.filter p := by
  rw [delete, List.filter_filter]
  apply List.filter_congr
  intro r hr
  by_cases hKey : key r = k
  · simp [hDrop r hr hKey]
  · simp [hKey]

/-- Rewriting rows adds none that a predicate counts, if it adds none row by row. -/
theorem countP_update_le {p : Row → Bool} (hKeep : ∀ r ∈ rows, key r = k → p (f r) → p r) :
    (update key k f rows).countP p ≤ rows.countP p := by
  rw [update, List.countP_map]
  refine List.countP_mono_left fun r hr hNew => ?_
  simp only [Function.comp_apply] at hNew
  split at hNew
  · next hKey => exact hKeep r hr hKey hNew
  · exact hNew

/-- Rewriting the one row with a given unique key changes what a predicate
counts by that row. -/
theorem countP_update (hUnique : (rows.map key).Nodup) (hr : r ∈ rows) (hk : key r = k) (p : Row → Bool) :
    (update key k f rows).countP p + (if p r then 1 else 0) =
      rows.countP p + (if p (f r) then 1 else 0) := by
  induction rows with
  | nil => simp at hr
  | cons head tail ih =>
      rw [List.map_cons, List.nodup_cons] at hUnique
      have hCons : update key k f (head :: tail) =
          (if key head = k then f head else head) :: update key k f tail := rfl
      rw [hCons, List.countP_cons, List.countP_cons]
      rcases List.mem_cons.mp hr with rfl | hTail
      · have hKeep : update key k f tail = tail := by
          rw [update, List.map_congr_left (g := id), List.map_id]
          intro other hOther
          refine if_neg fun hSame => hUnique.1 ?_
          rw [hk, ← hSame]
          exact List.mem_map_of_mem hOther
        rw [hKeep, if_pos hk]
        omega
      · have hNe : key head ≠ k := by
          intro hHead
          exact hUnique.1 ((hHead.trans hk.symm) ▸ List.mem_map_of_mem hTail)
        have hRest := ih hUnique.2 hTail
        rw [if_neg hNe]
        omega

section Sum
variable {M : Type*} [AddCommGroup M] {g : Row → M}

/-- A sum splits off the one row with a given unique key. -/
theorem sum_delete (hUnique : (rows.map key).Nodup) (hr : r ∈ rows) (hk : key r = k) :
    ((delete key k rows).map g).sum + g r = (rows.map g).sum := by
  induction rows with
  | nil => simp at hr
  | cons head tail ih =>
      rw [List.map_cons, List.nodup_cons] at hUnique
      rcases List.mem_cons.mp hr with rfl | hTail
      · have hKeep : delete key k (r :: tail) = tail := by
          simp only [delete]
          rw [List.filter_cons_of_neg (by simp [hk]), List.filter_eq_self]
          intro other hOther
          have hNe : key other ≠ key r := fun he =>
            hUnique.1 (he ▸ List.mem_map_of_mem hOther)
          simpa [← hk] using hNe
        rw [hKeep, List.map_cons, List.sum_cons, add_comm]
      · have hNe : key head ≠ k := by
          intro he
          exact hUnique.1 ((he.trans hk.symm) ▸ List.mem_map_of_mem hTail)
        have hKeep : delete key k (head :: tail) = head :: delete key k tail := by
          simp only [delete]
          rw [List.filter_cons_of_pos (by simpa using hNe)]
        rw [hKeep, List.map_cons, List.sum_cons, List.map_cons, List.sum_cons, add_assoc,
          ih hUnique.2 hTail]

/-- A sum over the rows that satisfy a predicate, as a sum over all rows. -/
theorem sum_filter (rows : List Row) (p : Row → Prop) [DecidablePred p] :
    ((rows.filter fun r => p r).map g).sum = (rows.map fun r => if p r then g r else 0).sum := by
  induction rows with
  | nil => rfl
  | cons head tail ih =>
      by_cases h : p head <;> simp [h, ih]

/-- A sum over the rows with a given unique key is the term of the row found there. -/
theorem sum_ite_key (hUnique : (rows.map key).Nodup) (k : Key) :
    (rows.map fun r => if key r = k then g r else 0).sum =
      ((rows.find? (key · = k)).map g).getD 0 := by
  induction rows with
  | nil => simp
  | cons head tail ih =>
      rw [List.map_cons, List.nodup_cons] at hUnique
      by_cases hHead : key head = k
      · have hTail : tail.find? (key · = k) = none := by
          rw [List.find?_eq_none]
          intro r hr he
          exact hUnique.1 (List.mem_map.mpr ⟨r, hr, (of_decide_eq_true he).trans hHead.symm⟩)
        have hZero := ih hUnique.2
        rw [hTail] at hZero
        rw [List.map_cons, List.sum_cons, hZero]
        simp [hHead]
      · rw [List.map_cons, List.sum_cons, ih hUnique.2, if_neg hHead, zero_add,
          List.find?_cons_of_neg (by simpa using hHead)]

/-- The sum of one amount over the places of a value in a list without repetitions. -/
theorem sum_ite_eq {values : List Key} (h : values.Nodup) (k : Key) (x : M) :
    (values.map fun v => if v = k then x else 0).sum = if k ∈ values then x else 0 := by
  induction values with
  | nil => simp
  | cons head tail ih =>
      rw [List.nodup_cons] at h
      rw [List.map_cons, List.sum_cons, ih h.2]
      by_cases hHead : head = k
      · simp [hHead, hHead ▸ h.1]
      · simp [hHead, Ne.symm hHead]

/-- Sums over a finite set and over a table commute. -/
theorem sum_finset_comm {Index : Type*} (rows : List Row) (S : Finset Index) (f : Index → Row → M) :
    ∑ k ∈ S, (rows.map (f k)).sum = (rows.map fun r => ∑ k ∈ S, f k r).sum := by
  induction rows with
  | nil => simp
  | cons head tail ih => simp [Finset.sum_add_distrib, ih]

/-- A sum over a table with unique keys, key by key. -/
theorem sum_by_key (hUnique : (rows.map key).Nodup) {S : Finset Key} (hS : ∀ r ∈ rows, key r ∈ S) :
    (rows.map g).sum = ∑ k ∈ S, ((rows.find? (key · = k)).map g).getD 0 := by
  simp only [← sum_ite_key hUnique, sum_finset_comm]
  congr 1
  refine List.map_congr_left fun r hr => ?_
  rw [Finset.sum_ite_eq, if_pos (hS r hr)]

/-- Rewriting the one row with a given unique key changes a sum by the change
of that row's term. -/
theorem sum_update (hUnique : (rows.map key).Nodup) (hr : r ∈ rows) (hk : key r = k) :
    ((update key k f rows).map g).sum + g r = (rows.map g).sum + g (f r) := by
  induction rows with
  | nil => simp at hr
  | cons head tail ih =>
      rw [List.map_cons, List.nodup_cons] at hUnique
      have hCons : update key k f (head :: tail) =
          (if key head = k then f head else head) :: update key k f tail := rfl
      rcases List.mem_cons.mp hr with rfl | hTail
      · have hKeep : update key k f tail = tail := by
          simp only [update]
          rw [List.map_congr_left (g := id), List.map_id]
          intro other hOther
          have hNe : key other ≠ k := fun he =>
            hUnique.1 ((he.trans hk.symm) ▸ List.mem_map_of_mem hOther)
          simp [hNe]
        rw [hCons, if_pos hk, hKeep, List.map_cons, List.sum_cons, List.map_cons, List.sum_cons]
        abel
      · have hNe : key head ≠ k := by
          intro he
          exact hUnique.1 ((he.trans hk.symm) ▸ List.mem_map_of_mem hTail)
        rw [hCons, if_neg hNe, List.map_cons, List.sum_cons, List.map_cons, List.sum_cons, add_assoc,
          ih hUnique.2 hTail, add_assoc]

end Sum

section Distinct

/-- The first row of every key, in order, of the keys that were not seen yet. -/
def distinctOn (key : Row → Key) : List Key → List Row → List Row
  | _, [] => []
  | seen, r :: rest =>
      if key r ∈ seen then distinctOn key seen rest else r :: distinctOn key (key r :: seen) rest

theorem distinctOn_sublist (key : Row → Key) (seen : List Key) (rows : List Row) :
    (distinctOn key seen rows).Sublist rows := by
  induction rows generalizing seen with
  | nil => exact List.Sublist.refl _
  | cons r rest ih =>
      rw [distinctOn]
      split
      · exact (ih seen).cons r
      · exact (ih _).cons_cons r

theorem distinctOn_fresh {seen : List Key} (hMem : r ∈ distinctOn key seen rows) : key r ∉ seen := by
  induction rows generalizing seen with
  | nil => cases hMem
  | cons head rest ih =>
      rw [distinctOn] at hMem
      split at hMem
      · exact ih hMem
      · next hNew =>
          rcases List.mem_cons.mp hMem with rfl | hRest
          · exact hNew
          · exact fun hSeen => ih hRest (List.mem_cons_of_mem _ hSeen)

/-- Rows that are kept have different keys. -/
theorem distinctOn_pairwise (key : Row → Key) (seen : List Key) (rows : List Row) :
    (distinctOn key seen rows).Pairwise fun r r' => key r ≠ key r' := by
  induction rows generalizing seen with
  | nil => exact List.Pairwise.nil
  | cons head rest ih =>
      rw [distinctOn]
      split
      · exact ih seen
      · refine List.pairwise_cons.mpr ⟨fun r hr hSame => ?_, ih _⟩
        exact distinctOn_fresh hr (hSame ▸ List.mem_cons_self)

end Distinct

end Rows

import Mathlib
import GeoLedger.Library.Rows

/-! Places in a sorted list and counts in buckets. A place is the number of
items that come before; counts do not depend on the order of the items. -/
namespace Distributions

variable {α : Type*}

/-- In a list sorted by a strict order, an item stands behind the items that come before it. -/
theorem idxOf_of_pairwise [DecidableEq α] {before : α → α → Prop} [DecidableRel before]
    (hAsymm : ∀ a b, before a b → ¬before b a) {items : List α} (hSorted : items.Pairwise before) {x : α}
    (hx : x ∈ items) : items.idxOf x = items.countP fun y => before y x := by
  induction items with
  | nil => cases hx
  | cons head rest ih =>
      obtain ⟨hHead, hRest⟩ := List.pairwise_cons.mp hSorted
      by_cases hEq : head = x
      · subst hEq
        rw [List.idxOf_cons_self, eq_comm, List.countP_eq_zero]
        intro y hy
        rw [decide_eq_true_eq]
        rcases List.mem_cons.mp hy with rfl | hLater
        · exact fun hSelf => hAsymm _ _ hSelf hSelf
        · exact hAsymm _ _ (hHead y hLater)
      · have hIn : x ∈ rest := (List.mem_cons.mp hx).resolve_left (Ne.symm hEq)
        rw [List.idxOf_cons_ne _ hEq, ih hRest hIn, List.countP_cons_of_pos (by simpa using hHead x hIn)]

/-- Sorting by a total order that is antisymmetric on the items puts an item
behind those that are before it and not after it. -/
theorem idxOf_insertionSort [DecidableEq α] {le : α → α → Prop} [DecidableRel le]
    (hTotal : ∀ a b, le a b ∨ le b a) (hTrans : ∀ a b c, le a b → le b c → le a c) {items : List α}
    (hNodup : items.Nodup) (hAntisymm : ∀ a ∈ items, ∀ b ∈ items, le a b → le b a → a = b) {x : α} (hx : x ∈ items) :
    (items.insertionSort le).idxOf x = items.countP fun y => le y x ∧ ¬le x y := by
  have hPerm := List.perm_insertionSort le items
  have hSorted : (items.insertionSort le).Pairwise le :=
    @List.pairwise_insertionSort _ le _ ⟨hTotal⟩ ⟨hTrans⟩ items
  have hStrict : (items.insertionSort le).Pairwise fun a b => le a b ∧ ¬le b a := by
    refine (hSorted.and (hPerm.nodup_iff.mpr hNodup)).imp_of_mem fun ha hb hPair => ⟨hPair.1, fun hBack => ?_⟩
    exact hPair.2 (hAntisymm _ (hPerm.mem_iff.mp ha) _ (hPerm.mem_iff.mp hb) hPair.1 hBack)
  rw [idxOf_of_pairwise (fun a b h h' => h.2 h'.1) hStrict (hPerm.mem_iff.mpr hx), hPerm.countP_eq]

/-- In a ranking by falling score, an item stands behind the better ones and
those of its score that are before it among the ties. -/
theorem idxOf_ranking [DecidableEq α] {Score : Type*} [LinearOrder Score] {score : α → Score} {tie : α → α → Prop}
    [DecidableRel tie] {le : α → α → Prop} [DecidableRel le]
    (hLe : ∀ a b, le a b ↔ score b < score a ∨ score a = score b ∧ tie a b)
    (hTotal : ∀ a b, tie a b ∨ tie b a) (hTrans : ∀ a b c, tie a b → tie b c → tie a c) {items : List α}
    (hNodup : items.Nodup) (hAntisymm : ∀ a ∈ items, ∀ b ∈ items, tie a b → tie b a → a = b) {x : α} (hx : x ∈ items) :
    (items.insertionSort le).idxOf x =
      (items.countP fun y => score x < score y) + items.countP fun y => score y = score x ∧ tie y x ∧ ¬tie x y := by
  rw [idxOf_insertionSort ?_ ?_ hNodup ?_ hx]
  · have hBefore (y : α) : le y x ∧ ¬le x y ↔ score x < score y ∨ score y = score x ∧ tie y x ∧ ¬tie x y := by
      rw [hLe, hLe]
      rcases lt_trichotomy (score x) (score y) with hLess | hEq | hMore
      · simp [hLess, hLess.not_gt, hLess.ne]
      · simp [hEq]
      · simp [hMore.not_gt, hMore, hMore.ne]
    rw [List.countP_eq_countP_filter_add _ _ fun y => score x < score y, List.countP_filter, List.countP_filter]
    congr 1
    · refine List.countP_congr fun y _ => ?_
      simp only [Bool.and_eq_true, decide_eq_true_eq, hBefore]
      exact ⟨And.right, fun h => ⟨Or.inl h, h⟩⟩
    · refine List.countP_congr fun y _ => ?_
      simp only [Bool.and_eq_true, Bool.not_eq_true', decide_eq_true_eq, decide_eq_false_iff_not, hBefore]
      constructor
      · exact fun h => h.1.resolve_left h.2
      · exact fun h => ⟨Or.inr h, h.1.le.not_gt⟩
  · intro a b
    rw [hLe, hLe]
    rcases lt_trichotomy (score a) (score b) with hLess | hEq | hMore
    · exact Or.inr (Or.inl hLess)
    · exact (hTotal a b).imp (fun h => Or.inr ⟨hEq, h⟩) fun h => Or.inr ⟨hEq.symm, h⟩
    · exact Or.inl (Or.inl hMore)
  · intro a b c hab hbc
    rw [hLe] at hab hbc ⊢
    rcases hab with hab | ⟨hab, hTie⟩ <;> rcases hbc with hbc | ⟨hbc, hTie'⟩
    · exact Or.inl (hbc.trans hab)
    · exact Or.inl (hbc ▸ hab)
    · exact Or.inl (hab ▸ hbc)
    · exact Or.inr ⟨hab.trans hbc, hTrans a b c hTie hTie'⟩
  · intro a ha b hb hab hba
    rw [hLe] at hab hba
    rcases hab with hab | ⟨hEq, hTie⟩
    · rcases hba with hba | ⟨hEq, _⟩
      · exact absurd hba hab.not_gt
      · exact absurd hEq hab.ne
    · rcases hba with hba | ⟨_, hTie'⟩
      · exact absurd hEq hba.ne
      · exact hAntisymm a ha b hb hTie hTie'

/-- In a list sorted by a total order that is antisymmetric on the items, the
places follow the order. -/
theorem idxOf_le_idxOf_iff [DecidableEq α] {le : α → α → Prop} (hTotal : ∀ a b, le a b ∨ le b a) {items : List α}
    (hSorted : items.Pairwise le) (hAntisymm : ∀ a ∈ items, ∀ b ∈ items, le a b → le b a → a = b) {x y : α}
    (hx : x ∈ items) (hy : y ∈ items) : items.idxOf x ≤ items.idxOf y ↔ le x y := by
  have hBefore {x y : α} (hx : x ∈ items) (hy : y ∈ items) (h : items.idxOf x < items.idxOf y) : le x y := by
    have hPair := List.pairwise_iff_getElem.mp hSorted _ _ (List.idxOf_lt_length_of_mem hx)
      (List.idxOf_lt_length_of_mem hy) h
    rwa [List.getElem_idxOf, List.getElem_idxOf] at hPair
  constructor
  · intro h
    rcases h.lt_or_eq with hLess | hSame
    · exact hBefore hx hy hLess
    · rw [(List.idxOf_inj hx).mp hSame]
      exact (hTotal y y).elim id id
  · intro h
    by_contra hBehind
    have hBack := hBefore hy hx (not_le.mp hBehind)
    exact hBehind (hAntisymm x hx y hy h hBack ▸ le_rfl)

theorem idxOf_map [DecidableEq α] {β : Type*} [DecidableEq β] {f : α → β} {items : List α} {x : α}
    (hInj : ∀ y ∈ items, f y = f x → y = x) : (items.map f).idxOf (f x) = items.idxOf x := by
  induction items with
  | nil => rfl
  | cons head rest ih =>
      by_cases hEq : head = x
      · rw [hEq, List.map_cons, List.idxOf_cons_self, List.idxOf_cons_self]
      · have hNe : f head ≠ f x := fun h => hEq (hInj head List.mem_cons_self h)
        rw [List.map_cons, List.idxOf_cons_ne _ hNe, List.idxOf_cons_ne _ hEq,
          ih fun y hy => hInj y (List.mem_cons_of_mem _ hy)]

/-- Count every item in its bucket. -/
def fill (bucket : α → Nat) (counts : List Nat) (items : List α) : List Nat :=
  items.foldl (fun counts x => counts.modify (bucket x) (· + 1)) counts

/-- A bucket holds what it held and the number of its items. -/
theorem getElem?_fill (bucket : α → Nat) (counts : List Nat) (items : List α) (i : Nat) :
    (fill bucket counts items)[i]? = counts[i]?.map (· + items.countP fun x => bucket x = i) := by
  unfold fill
  induction items generalizing counts with
  | nil => simp
  | cons x rest ih =>
      rw [List.foldl_cons, ih, List.getElem?_modify, List.countP_cons]
      cases counts[i]? with
      | none => simp
      | some n =>
          by_cases hBucket : bucket x = i
          · simp [hBucket]
            omega
          · simp [hBucket]

theorem sum_modify_succ {counts : List Nat} {i : Nat} (h : i < counts.length) :
    (counts.modify i (· + 1)).sum = counts.sum + 1 := by
  induction counts generalizing i with
  | nil => cases h
  | cons count rest ih =>
      cases i with
      | zero => simp [Nat.add_right_comm]
      | succ i =>
          rw [List.modify_succ_cons, List.sum_cons, List.sum_cons, ih (Nat.lt_of_succ_lt_succ h)]
          omega

theorem length_fill (bucket : α → Nat) (counts : List Nat) (items : List α) :
    (fill bucket counts items).length = counts.length := by
  unfold fill
  induction items generalizing counts with
  | nil => rfl
  | cons x rest ih => rw [List.foldl_cons, ih, List.length_modify]

/-- Every item is counted once when there is a bucket for it. -/
theorem sum_fill {bucket : α → Nat} {counts : List Nat} {items : List α}
    (h : ∀ x ∈ items, bucket x < counts.length) : (fill bucket counts items).sum = counts.sum + items.length := by
  unfold fill
  induction items generalizing counts with
  | nil => rfl
  | cons x rest ih =>
      have hFits := h x List.mem_cons_self
      rw [List.foldl_cons, ih fun y hy => ?_, sum_modify_succ hFits, List.length_cons]
      · omega
      · rw [List.length_modify]
        exact h y (List.mem_cons_of_mem x hy)

/-- The counts depend on the items only up to their order. -/
theorem fill_perm (bucket : α → Nat) (counts : List Nat) {items others : List α} (h : items.Perm others) :
    fill bucket counts items = fill bucket counts others := by
  refine List.ext_getElem? fun i => ?_
  rw [getElem?_fill, getElem?_fill, h.countP_eq]

/-- Counting what the items are mapped to. -/
theorem fill_map {β : Type*} (bucket : β → Nat) (f : α → β) (counts : List Nat) (items : List α) :
    fill bucket counts (items.map f) = fill (bucket ∘ f) counts items := by
  unfold fill
  rw [List.foldl_map]
  rfl

theorem fill_congr {bucket bucket' : α → Nat} (counts : List Nat) {items : List α}
    (h : ∀ x ∈ items, bucket x = bucket' x) : fill bucket counts items = fill bucket' counts items := by
  refine List.ext_getElem? fun i => ?_
  rw [getElem?_fill, getElem?_fill, List.countP_congr fun x hx => by rw [h x hx]]

section Transfers

variable {Key M : Type*} [DecidableEq Key] [AddCommGroup M] {giver taker : α → Key} {amount : α → M}

/-- What a key is left with: what it takes less what it gives. -/
theorem sum_transfers (items : List α) (k : Key) :
    (((items.flatMap fun x => [(giver x, -amount x), (taker x, amount x)]).filter (·.1 = k)).map (·.2)).sum =
      ((items.filter (taker · = k)).map amount).sum - ((items.filter (giver · = k)).map amount).sum := by
  induction items with
  | nil => simp
  | cons x rest ih =>
      rw [List.flatMap_cons, List.filter_append, List.map_append, List.sum_append, ih]
      by_cases hGiver : giver x = k <;> by_cases hTaker : taker x = k <;> simp [hGiver, hTaker] <;> abel

/-- Adding up by class over all classes adds up everything. -/
theorem sum_classes {keys : List Key} (hNodup : keys.Nodup) {key : α → Key} {items : List α}
    (hKeys : ∀ x ∈ items, key x ∈ keys) :
    (keys.map fun k => ((items.filter (key · = k)).map amount).sum).sum = (items.map amount).sum := by
  induction items with
  | nil => simp
  | cons x rest ih =>
      have hSplit (k : Key) : (((x :: rest).filter (key · = k)).map amount).sum =
          (if k = key x then amount x else 0) + ((rest.filter (key · = k)).map amount).sum := by
        by_cases hKey : key x = k
        · simp [hKey]
        · simp [hKey, Ne.symm hKey]
      simp only [hSplit]
      rw [List.sum_map_add, Rows.sum_ite_eq hNodup, if_pos (hKeys x List.mem_cons_self),
        ih fun y hy => hKeys y (List.mem_cons_of_mem _ hy), List.map_cons, List.sum_cons]

/-- Transfers between the keys add up to nothing. -/
theorem sum_positions {keys : List Key} (hNodup : keys.Nodup) {items : List α} (hGiver : ∀ x ∈ items, giver x ∈ keys)
    (hTaker : ∀ x ∈ items, taker x ∈ keys) :
    (keys.map fun k => ((items.filter (taker · = k)).map amount).sum -
      ((items.filter (giver · = k)).map amount).sum).sum = 0 := by
  have hSub := @Multiset.sum_map_sub _ _ _ (keys : Multiset Key)
    (fun k => ((items.filter (taker · = k)).map amount).sum) fun k => ((items.filter (giver · = k)).map amount).sum
  simp only [Multiset.map_coe, Multiset.sum_coe] at hSub
  rw [hSub, sum_classes hNodup hTaker, sum_classes hNodup hGiver, sub_self]

end Transfers

end Distributions

import Mathlib
import GeoLedger.Library.Dict

/-! A dictionary used as a bounded recency list: a touched entry moves to the
back, and entries leave from the front while the table is too large. Keys carry
a generation; a table ordered by generation loses its newest entries last. -/
namespace Recency

variable {Key Value Generation : Type*}

/-- `while len(d) > capacity: d.pop(next(iter(d)))`. -/
def trim (capacity : Nat) : List (Key × Value) → List (Key × Value)
  | [] => []
  | oldest :: rest => if capacity < (oldest :: rest).length then trim capacity rest else oldest :: rest

theorem trim_sublist (capacity : Nat) (items : List (Key × Value)) :
    (trim capacity items).Sublist items := by
  induction items with
  | nil => exact List.Sublist.refl _
  | cons oldest rest ih =>
      rw [trim]
      split
      · exact ih.cons _
      · exact List.Sublist.refl _

theorem length_trim_le (capacity : Nat) (items : List (Key × Value)) :
    (trim capacity items).length ≤ capacity := by
  induction items with
  | nil => exact Nat.zero_le _
  | cons oldest rest ih =>
      rw [trim]
      split
      · exact ih
      · omega

/-- In a table ordered by generation, an entry of the newest generation stays
unless that generation alone is larger than the capacity. -/
theorem mem_trim [LinearOrder Generation] {generation : Key → Generation} {newest : Generation}
    {capacity : Nat} {items : List (Key × Value)}
    (hOrdered : (items.map Prod.fst).Pairwise fun a b => generation a ≤ generation b)
    (hNewest : ∀ key ∈ items.map Prod.fst, generation key ≤ newest)
    (hFits : ((items.map Prod.fst).filter (generation · = newest)).length ≤ capacity)
    {entry : Key × Value} (hMem : entry ∈ items) (hEntry : generation entry.1 = newest) :
    entry ∈ trim capacity items := by
  induction items with
  | nil => exact absurd hMem (List.not_mem_nil)
  | cons oldest rest ih =>
      rw [List.map_cons, List.pairwise_cons] at hOrdered
      rw [trim]
      split
      · next hLarge =>
        have hOld : generation oldest.1 ≠ newest := by
          -- otherwise every entry behind it is of the newest generation too
          intro hOldest
          have hAll : ((oldest :: rest).map Prod.fst).filter (generation · = newest) =
              (oldest :: rest).map Prod.fst := by
            rw [List.filter_eq_self]
            intro key hKey
            refine decide_eq_true (le_antisymm (hNewest key hKey) ?_)
            rcases List.mem_cons.mp (List.map_cons ▸ hKey) with rfl | hRest
            · exact hOldest.ge
            · exact hOldest ▸ hOrdered.1 key hRest
          rw [hAll, List.length_map] at hFits
          omega
        have hRest : entry ∈ rest := (List.mem_cons.mp hMem).resolve_left
          fun hHead => hOld (hHead ▸ hEntry)
        refine ih hOrdered.2 (fun key hKey => hNewest key (List.mem_cons_of_mem _ hKey)) ?_ hRest
        rwa [List.map_cons, List.filter_cons_of_neg (by simpa using hOld)] at hFits
      · exact hMem

/-- The bounded table of a dictionary. -/
def evict (capacity : Nat) (d : Dict Key Value) : Dict Key Value :=
  ⟨trim capacity d.items, d.nodup.sublist ((trim_sublist capacity d.items).map Prod.fst)⟩

theorem keys_evict_sublist (capacity : Nat) (d : Dict Key Value) :
    (evict capacity d).keys.Sublist d.keys := (trim_sublist capacity d.items).map Prod.fst

variable [DecidableEq Key]

/-- `d.pop(k)` followed by `d[k] = v`. -/
def touch (k : Key) (v : Value) (d : Dict Key Value) : Dict Key Value := (d.pop k).set k v

theorem keys_touch (k : Key) (v : Value) (d : Dict Key Value) :
    (touch k v d).keys = d.keys.filter (· ≠ k) ++ [k] := by
  have hGone : k ∉ (d.pop k).items.map Prod.fst := Dict.get?_eq_none_iff.mp (by rw [Dict.get?_pop, if_pos rfl])
  have hPop : (d.pop k).items.map Prod.fst = d.keys.filter (· ≠ k) := by
    simp only [Dict.pop, Dict.keys, List.filter_map]
    rfl
  show (Dict.assign k v (d.pop k).items).map Prod.fst = _
  rw [Dict.map_fst_assign, if_neg hGone, hPop]

theorem get?_touch (k key : Key) (v : Value) (d : Dict Key Value) :
    (touch k v d).get? key = if key = k then some v else d.get? key := by
  rw [touch, Dict.get?_set, Dict.get?_pop]
  by_cases h : key = k <;> simp [h]

/-- Touching a key of the newest generation keeps the table ordered. -/
theorem pairwise_touch [LinearOrder Generation] (generation : Key → Generation) {d : Dict Key Value}
    {k : Key} (v : Value) (hOrdered : d.keys.Pairwise fun a b => generation a ≤ generation b)
    (hNewest : ∀ key ∈ d.keys, generation key ≤ generation k) :
    (touch k v d).keys.Pairwise fun a b => generation a ≤ generation b := by
  rw [keys_touch, List.pairwise_append]
  refine ⟨hOrdered.filter _, List.pairwise_singleton _ _, fun a hOld b hLast => ?_⟩
  rw [List.mem_singleton.mp hLast]
  exact hNewest a (List.mem_of_mem_filter hOld)

/-- Eviction does not touch the newest generation when it fits. -/
theorem get?_evict [LinearOrder Generation] (generation : Key → Generation) {newest : Generation}
    {capacity : Nat} {d : Dict Key Value}
    (hOrdered : d.keys.Pairwise fun a b => generation a ≤ generation b)
    (hNewest : ∀ key ∈ d.keys, generation key ≤ newest)
    (hFits : (d.keys.filter (generation · = newest)).length ≤ capacity)
    {k : Key} (hKey : generation k = newest) : (evict capacity d).get? k = d.get? k := by
  refine Option.ext fun v => ?_
  rw [Dict.get?_eq_some_iff, Dict.get?_eq_some_iff]
  exact ⟨fun h => (trim_sublist capacity d.items).mem h,
    fun h => mem_trim hOrdered hNewest hFits h hKey⟩

theorem keys_foldl_pop_sublist (popped : List Key) (d : Dict Key Value) :
    (popped.foldl Dict.pop d).keys.Sublist d.keys := by
  induction popped generalizing d with
  | nil => exact List.Sublist.refl _
  | cons first rest ih => exact (ih (d.pop first)).trans (List.filter_sublist.map Prod.fst)

end Recency

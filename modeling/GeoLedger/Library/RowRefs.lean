import Mathlib
import GeoLedger.Library.Dict

/-! Dictionaries whose values are references into a memory of mutable rows. A
copy that copies every row shares none, so writing through the copy leaves the
original as it was. -/
namespace RowRefs

variable {Key Row : Type*} [Inhabited Row] {memory memory' : List Row} {refs : Dict Key Nat}

/-- The rows that references stand for. -/
def load (memory : List Row) (items : List (Key × Nat)) : List (Key × Row) :=
  items.map fun entry => (entry.1, memory.getD entry.2 default)

/-- The same keys with successive references. -/
def relabel : Nat → List (Key × Nat) → List (Key × Nat)
  | _, [] => []
  | next, entry :: rest => (entry.1, next) :: relabel (next + 1) rest

theorem map_fst_relabel (next : Nat) (items : List (Key × Nat)) :
    (relabel next items).map Prod.fst = items.map Prod.fst := by
  induction items generalizing next with
  | nil => rfl
  | cons entry rest ih => rw [relabel, List.map_cons, List.map_cons, ih]

theorem relabel_ge {next : Nat} {items : List (Key × Nat)} : ∀ entry ∈ relabel next items, next ≤ entry.2 := by
  induction items generalizing next with
  | nil => exact fun entry hEntry => by cases hEntry
  | cons first rest ih =>
      intro entry hEntry
      rcases List.mem_cons.mp hEntry with rfl | hRest
      · exact le_rfl
      · exact (Nat.le_succ _).trans (ih entry hRest)

theorem relabel_distinct (next : Nat) (items : List (Key × Nat)) :
    ((relabel next items).map Prod.snd).Nodup := by
  induction items generalizing next with
  | nil => exact List.nodup_nil
  | cons first rest ih =>
      rw [relabel, List.map_cons, List.nodup_cons]
      refine ⟨fun hIn => ?_, ih _⟩
      obtain ⟨entry, hEntry, hSame⟩ := List.mem_map.mp hIn
      have hLater := relabel_ge entry hEntry
      omega

theorem load_relabel (before : List Row) (items : List (Key × Nat)) :
    load (before ++ items.map fun entry => memory.getD entry.2 default) (relabel before.length items) =
      load memory items := by
  induction items generalizing before with
  | nil => rfl
  | cons first rest ih =>
      have hNext := ih (before ++ [memory.getD first.2 default])
      rw [List.length_append, List.length_singleton, List.append_assoc, List.singleton_append] at hNext
      unfold load at hNext ⊢
      rw [relabel, List.map_cons, List.map_cons, List.map_cons, hNext]
      simp

/-- Writing one row changes the entry that refers to it. -/
theorem load_set [DecidableEq Key] {items : List (Key × Nat)} {ref : Nat} {key : Key} {row : Row}
    (hItem : (key, ref) ∈ items) (hKeys : (items.map Prod.fst).Nodup) (hDistinct : (items.map Prod.snd).Nodup)
    (hIn : ref < memory.length) : load (memory.set ref row) items = Dict.assign key row (load memory items) := by
  induction items with
  | nil => cases hItem
  | cons first rest ih =>
      obtain ⟨firstKey, firstRef⟩ := first
      rw [List.map_cons, List.nodup_cons] at hDistinct hKeys
      rw [load, load, List.map_cons, List.map_cons, Dict.assign]
      rcases List.mem_cons.mp hItem with hHead | hTail
      · obtain ⟨rfl, rfl⟩ := Prod.mk.inj hHead
        have hRest : load (memory.set ref row) rest = load memory rest := by
          refine List.map_congr_left fun entry hEntry => ?_
          have hNe : ref ≠ entry.2 := fun hSame =>
            hDistinct.1 (List.mem_map.mpr ⟨entry, hEntry, hSame.symm⟩)
          simp [List.getD_eq_getElem?_getD, List.getElem?_set_ne hNe]
        rw [if_pos rfl]
        refine congrArg₂ List.cons ?_ hRest
        simp [List.getD_eq_getElem?_getD, hIn]
      · have hKey : firstKey ≠ key := fun hSame =>
          hKeys.1 (List.mem_map.mpr ⟨(key, ref), hTail, hSame.symm⟩)
        have hNe : ref ≠ firstRef := fun hSame =>
          hDistinct.1 (List.mem_map.mpr ⟨(key, ref), hTail, hSame⟩)
        rw [if_neg hKey]
        refine congrArg₂ List.cons ?_ (ih hTail hKeys.2 hDistinct.2)
        simp [List.getD_eq_getElem?_getD, List.getElem?_set_ne hNe]

/-- The value of a dictionary of references. -/
def view (memory : List Row) (refs : Dict Key Nat) : Dict Key Row := refs.map fun ref => memory.getD ref default

/-- `{k: row.copy() for k, row in d.items()}`: every row is copied to a new place. -/
def copy (memory : List Row) (refs : Dict Key Nat) : List Row × Dict Key Nat :=
  (memory ++ refs.items.map fun entry => memory.getD entry.2 default,
    ⟨relabel memory.length refs.items, by
      rw [map_fst_relabel]
      exact refs.nodup⟩)

/-- No reference of the dictionary is below the bound, and no two are the same. -/
structure Unshared (bound : Nat) (refs : Dict Key Nat) : Prop where
  ge : ∀ entry ∈ refs.items, bound ≤ entry.2
  distinct : (refs.items.map Prod.snd).Nodup

theorem relabel_lt {next : Nat} {items : List (Key × Nat)} :
    ∀ entry ∈ relabel next items, entry.2 < next + items.length := by
  induction items generalizing next with
  | nil => exact fun entry hEntry => by cases hEntry
  | cons first rest ih =>
      intro entry hEntry
      rw [List.length_cons]
      rcases List.mem_cons.mp hEntry with rfl | hRest
      · omega
      · have hLater := ih entry hRest
        omega

theorem copy_placed : ∀ entry ∈ (copy memory refs).2.items, entry.2 < (copy memory refs).1.length := by
  intro entry hEntry
  rw [copy, List.length_append, List.length_map]
  exact relabel_lt entry hEntry

theorem unshared_copy : Unshared memory.length (copy memory refs).2 :=
  ⟨relabel_ge, relabel_distinct _ _⟩

/-- Where two memories agree on the references, the values are the same. -/
theorem view_congr (h : ∀ entry ∈ refs.items, memory.getD entry.2 default = memory'.getD entry.2 default) :
    view memory refs = view memory' refs := by
  have hRows : load memory refs.items = load memory' refs.items :=
    List.map_congr_left fun entry hEntry => congrArg (Prod.mk entry.1) (h entry hEntry)
  unfold view Dict.map
  rw [Dict.mk.injEq]
  exact hRows

/-- A copy has the value of the original. -/
theorem view_copy : view (copy memory refs).1 (copy memory refs).2 = view memory refs := by
  unfold view Dict.map
  rw [Dict.mk.injEq]
  exact load_relabel memory refs.items

theorem copy_below {place : Nat} (h : place < memory.length) :
    (copy memory refs).1.getD place default = memory.getD place default := by
  simp [copy, List.getD_eq_getElem?_getD, List.getElem?_append_left h]

/-- Writing a row through an unshared reference assigns it in the value. -/
theorem view_set [DecidableEq Key] {bound ref : Nat} {key : Key} {row : Row} (hUnshared : Unshared bound refs)
    (hRef : refs.get? key = some ref) (hIn : ref < memory.length) :
    view (memory.set ref row) refs = (view memory refs).set key row := by
  unfold view Dict.map Dict.set
  rw [Dict.mk.injEq]
  exact load_set (Dict.get?_eq_some_iff.mp hRef) refs.nodup hUnshared.distinct hIn

end RowRefs

import Mathlib

/-! Computations that return or raise. A computation in `Except` that returns is
taken apart into the results of its steps; loops return when every step does. -/
namespace Outcomes

variable {Error α β : Type}

theorem bind_eq_ok_iff {x : Except Error α} {f : α → Except Error β} {b : β} :
    x >>= f = .ok b ↔ ∃ a, x = .ok a ∧ f a = .ok b := by
  cases x with
  | error e => simp [bind, Except.bind]
  | ok a => simp [bind, Except.bind]

/-- A loop of checks returns exactly when every check does. -/
theorem forM_eq_ok_iff {f : α → Except Error Unit} {items : List α} :
    items.forM f = .ok () ↔ ∀ x ∈ items, f x = .ok () := by
  induction items with
  | nil => simp [pure, Except.pure]
  | cons head tail ih =>
      rw [List.forM, bind_eq_ok_iff, Unique.exists_iff, ih]
      simp

/-- The result of mapping a fallible function, position by position. -/
theorem mapM_eq_ok_iff {f : α → Except Error β} {items : List α} {results : List β} :
    items.mapM f = .ok results ↔ List.Forall₂ (fun x y => f x = .ok y) items results := by
  induction items generalizing results with
  | nil => simp [pure, Except.pure, eq_comm]
  | cons head tail ih =>
      rw [List.mapM_cons, bind_eq_ok_iff]
      constructor
      · rintro ⟨y, hHead, hTail⟩
        obtain ⟨ys, hys, hOk⟩ := bind_eq_ok_iff.mp hTail
        cases hOk
        exact List.Forall₂.cons hHead (ih.mp hys)
      · intro h
        cases h with
        | cons hHead hTail =>
            exact ⟨_, hHead, bind_eq_ok_iff.mpr ⟨_, ih.mpr hTail, rfl⟩⟩

/-- Mapping a function that always returns. -/
theorem mapM_eq_ok_map {f : α → Except Error β} {g : α → β} {items : List α}
    (h : ∀ x ∈ items, f x = .ok (g x)) : items.mapM f = .ok (items.map g) := by
  rw [mapM_eq_ok_iff, List.forall₂_map_right_iff]
  exact List.forall₂_same.mpr h

/-- Looking up items that are all found. -/
theorem exists_mapM_eq_some {f : α → Option β} {items : List α} (h : ∀ x ∈ items, ∃ y, f x = some y) :
    ∃ results, items.mapM f = some results := by
  induction items with
  | nil => exact ⟨[], rfl⟩
  | cons head tail ih =>
      obtain ⟨y, hHead⟩ := h head List.mem_cons_self
      obtain ⟨ys, hTail⟩ := ih fun x hx => h x (List.mem_cons_of_mem _ hx)
      exact ⟨y :: ys, by rw [List.mapM_cons, hHead, hTail]; rfl⟩

/-- Every result of a lookup comes from an item. -/
theorem exists_of_mem_mapM {f : α → Option β} {items : List α} {results : List β}
    (h : items.mapM f = some results) {y : β} (hy : y ∈ results) : ∃ x ∈ items, f x = some y := by
  induction items generalizing results with
  | nil =>
      cases h
      cases hy
  | cons head tail ih =>
      rw [List.mapM_cons] at h
      obtain ⟨first, hFirst, h⟩ := Option.bind_eq_some_iff.mp h
      obtain ⟨others, hOthers, h⟩ := Option.bind_eq_some_iff.mp h
      cases h
      rcases List.mem_cons.mp hy with rfl | hTail
      · exact ⟨head, List.mem_cons_self, hFirst⟩
      · obtain ⟨x, hx, hxy⟩ := ih hOthers hTail
        exact ⟨x, List.mem_cons_of_mem _ hx, hxy⟩

/-- Every result of a position-by-position relation comes from an item. -/
theorem exists_of_mem_results {γ : Type} {R : α → γ → Prop} {items : List α} {results : List γ}
    (h : List.Forall₂ R items results) {y : γ} (hy : y ∈ results) : ∃ x ∈ items, R x y := by
  induction h with
  | nil => cases hy
  | cons hHead _ ih =>
      rcases List.mem_cons.mp hy with rfl | hTail
      · exact ⟨_, List.mem_cons_self, hHead⟩
      · obtain ⟨x, hx, hR⟩ := ih hTail
        exact ⟨x, List.mem_cons_of_mem _ hx, hR⟩

/-- A fold that returns has an intermediate state after its first step. -/
theorem foldlM_cons_eq_ok_iff {f : β → α → Except Error β} {x : α} {rest : List α} {s t : β} :
    (x :: rest).foldlM f s = .ok t ↔ ∃ s', f s x = .ok s' ∧ rest.foldlM f s' = .ok t := by
  rw [List.foldlM_cons, bind_eq_ok_iff]

/-- A computation that raises, if at all, an error of a kind. -/
def Raises (P : Error → Prop) (x : Except Error α) : Prop := ∀ error, x = .error error → P error

namespace Raises

variable {P : Error → Prop}

theorem ok (a : α) : Raises P (.ok a : Except Error α) := by
  intro error h
  cases h

theorem error {error : Error} (h : P error) : Raises P (.error error : Except Error α) := by
  intro other hOther
  cases hOther
  exact h

theorem bind {x : Except Error α} {f : α → Except Error β} (hFirst : Raises P x)
    (hRest : ∀ a, Raises P (f a)) : Raises P (x >>= f) := by
  cases x with
  | error e => exact Raises.error (hFirst e rfl)
  | ok a => exact hRest a

theorem forM {f : α → Except Error Unit} (h : ∀ x, Raises P (f x)) (items : List α) :
    Raises P (items.forM f) := by
  induction items with
  | nil => exact ok ()
  | cons head tail ih => exact (h head).bind fun _ => ih

theorem foldlM {f : β → α → Except Error β} (h : ∀ s x, Raises P (f s x)) (items : List α) (s : β) :
    Raises P (items.foldlM f s) := by
  induction items generalizing s with
  | nil => exact ok s
  | cons head tail ih =>
      rw [List.foldlM_cons]
      exact (h s head).bind fun s' => ih s'

end Raises

end Outcomes

import Mathlib

/-! A view of a changing source that is refreshed on request. Each change of the
source issues a request, requests are served in order, and a served request
shows the fresh values of the keys it covers. Patches overwrite keys of a view. -/
namespace Refresh

variable {Key Value Request : Type*} {covers : Request → Key → Prop} {fresh fresh' seen seen' : Key → Value}
  {pending : List Request} {r : Request}

/-- Every key shows its fresh value, or a pending request covers it. -/
def Covered (covers : Request → Key → Prop) (fresh seen : Key → Value) (pending : List Request) : Prop :=
  ∀ k, seen k = fresh k ∨ ∃ r ∈ pending, covers r k

theorem Covered.of_eq (h : seen = fresh) (pending : List Request) : Covered covers fresh seen pending :=
  fun k => Or.inl (congrFun h k)

/-- A change that issues a request for every key it moves. -/
theorem Covered.change (h : Covered covers fresh seen pending)
    (hChange : ∀ k, covers r k ∨ fresh' k = fresh k) : Covered covers fresh' seen (pending ++ [r]) := by
  intro k
  rcases hChange k with hCovers | hSame
  · exact Or.inr ⟨r, List.mem_append_right _ (List.mem_singleton.mpr rfl), hCovers⟩
  · rcases h k with hFresh | ⟨other, hOther, hCovers⟩
    · exact Or.inl (hFresh.trans hSame.symm)
    · exact Or.inr ⟨other, List.mem_append_left _ hOther, hCovers⟩

/-- Serving the oldest request. -/
theorem Covered.serve (h : Covered covers fresh seen (r :: pending))
    (hServed : ∀ k, covers r k → seen' k = fresh k) (hKept : ∀ k, ¬covers r k → seen' k = seen k) :
    Covered covers fresh seen' pending := by
  intro k
  by_cases hCovers : covers r k
  · exact Or.inl (hServed k hCovers)
  · rcases h k with hFresh | ⟨other, hOther, hOtherCovers⟩
    · exact Or.inl ((hKept k hCovers).trans hFresh)
    · rcases List.mem_cons.mp hOther with rfl | hRest
      · exact absurd hOtherCovers hCovers
      · exact Or.inr ⟨other, hRest, hOtherCovers⟩

/-- A view without pending requests is fresh. -/
theorem Covered.eq_of_nil (h : Covered covers fresh seen []) : seen = fresh := by
  funext k
  rcases h k with hFresh | ⟨r, hr, _⟩
  · exact hFresh
  · cases hr

section Overwrite

variable {Patch : Type*} {hits : Patch → Key → Prop} [DecidableRel hits] {value : Patch → Value}

/-- A patch overwrites the keys it hits. -/
def overwrite (hits : Patch → Key → Prop) [DecidableRel hits] (value : Patch → Value)
    (seen : Key → Value) (patch : Patch) : Key → Value :=
  fun k => if hits patch k then value patch else seen k

theorem foldl_overwrite_of_miss {patches : List Patch} {k : Key} (h : ∀ patch ∈ patches, ¬hits patch k) :
    patches.foldl (overwrite hits value) seen k = seen k := by
  induction patches generalizing seen with
  | nil => rfl
  | cons patch rest ih =>
      rw [List.foldl_cons, ih fun other hOther => h other (List.mem_cons_of_mem _ hOther)]
      exact if_neg (h patch List.mem_cons_self)

/-- Patches that agree on a key leave their value there. -/
theorem foldl_overwrite_of_hit {patches : List Patch} {k : Key} {v : Value}
    (hAgree : ∀ patch ∈ patches, hits patch k → value patch = v) (hHit : ∃ patch ∈ patches, hits patch k) :
    patches.foldl (overwrite hits value) seen k = v := by
  induction patches generalizing seen with
  | nil =>
      obtain ⟨_, hNone, _⟩ := hHit
      cases hNone
  | cons patch rest ih =>
      rw [List.foldl_cons]
      by_cases hRest : ∃ other ∈ rest, hits other k
      · exact ih (fun other hOther => hAgree other (List.mem_cons_of_mem _ hOther)) hRest
      · push Not at hRest
        rw [foldl_overwrite_of_miss hRest]
        obtain ⟨other, hOther, hHits⟩ := hHit
        rcases List.mem_cons.mp hOther with rfl | hTail
        · exact (if_pos hHits).trans (hAgree _ List.mem_cons_self hHits)
        · exact absurd hHits (hRest other hTail)

end Overwrite

end Refresh

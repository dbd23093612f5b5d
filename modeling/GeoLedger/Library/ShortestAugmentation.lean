import Mathlib
import GeoLedger.Library.Flows

/-! Augmenting along shortest paths ends. An augmentation opens at most the reverses of the hops
of its path, and closes one of these hops. Then no node comes nearer to the source, and while none
moves away from it the edges that lead one level on become fewer. The capacities themselves play no
part, so it does not matter how they are rounded. -/
namespace ShortestAugmentation
open Flows Trails

variable {Node : Type*} {E E' : Node → Node → Prop} {nodes : Finset Node} {s t u v x : Node}
  {path : List (Node × Node)} {hop : Node × Node} {n : ℕ}

section Levels

/-- Walks of `n` edges from the source. -/
inductive Reaches (E : Node → Node → Prop) (s : Node) : ℕ → Node → Prop where
  | start : Reaches E s 0 s
  | step {n : ℕ} {u v : Node} (prior : Reaches E s n u) (edge : E u v) : Reaches E s (n + 1) v

theorem Reaches.along (h : Reaches E s n u) (hJoins : Joins u path v) (hOpen : ∀ hop ∈ path, E hop.1 hop.2) :
    Reaches E s (n + path.length) v := by
  induction path generalizing n u with
  | nil =>
      cases hJoins
      exact h
  | cons hop rest ih =>
      obtain ⟨rfl, hRest⟩ := hJoins
      have hNext := h.step (hOpen hop List.mem_cons_self)
      have hEnd := ih hNext hRest fun other hOther => hOpen other (List.mem_cons_of_mem _ hOther)
      rwa [List.length_cons, Nat.add_comm rest.length, ← Nat.add_assoc]

/-- The edges of a walk. -/
theorem Reaches.exists_walk (h : Reaches E s n x) :
    ∃ path, Joins s path x ∧ (∀ hop ∈ path, E hop.1 hop.2) ∧ path.length = n := by
  induction h with
  | start => exact ⟨[], rfl, fun _ hHop => (by cases hHop), rfl⟩
  | @step n u v prior edge ih =>
      obtain ⟨path, hJoins, hOpen, rfl⟩ := ih
      refine ⟨path ++ [(u, v)], hJoins.append (trail_singleton (u, v)), fun hop hHop => ?_, by simp⟩
      rcases List.mem_append.mp hHop with hOld | hNew
      · exact hOpen hop hOld
      · rw [List.mem_singleton.mp hNew]
        exact edge

/-- The number of edges from the source to a node, with a bound that stands for nodes out of reach. -/
noncomputable def level (E : Node → Node → Prop) (s : Node) (bound : ℕ) (x : Node) : ℕ :=
  sInf {n | n = bound ∨ Reaches E s n x}

variable {bound : ℕ}

theorem level_le_bound : level E s bound x ≤ bound := Nat.sInf_le (Or.inl rfl)

theorem Reaches.level_le (h : Reaches E s n x) : level E s bound x ≤ n := Nat.sInf_le (Or.inr h)

theorem level_cases (E : Node → Node → Prop) (s : Node) (bound : ℕ) (x : Node) :
    level E s bound x = bound ∨ Reaches E s (level E s bound x) x :=
  Nat.sInf_mem (s := {n | n = bound ∨ Reaches E s n x}) ⟨bound, Or.inl rfl⟩

/-- An edge leads at most one level on. -/
theorem level_step (h : E u v) : level E s bound v ≤ level E s bound u + 1 := by
  rcases level_cases E s bound u with hFar | hReach
  · exact level_le_bound.trans (by omega)
  · exact (hReach.step h).level_le

end Levels

section Paths

theorem joins_middle {before after : List (Node × Node)} (h : Joins s (before ++ hop :: after) t) :
    Joins s before hop.1 ∧ Joins hop.2 after t := by
  induction before generalizing s with
  | nil => exact ⟨h.1.symm, h.2⟩
  | cons first rest ih =>
      obtain ⟨hFirst, hRest⟩ := h
      obtain ⟨hBefore, hAfter⟩ := ih hRest
      exact ⟨⟨hFirst, hBefore⟩, hAfter⟩

/-- A path from source to sink that no walk is shorter than. -/
structure ShortestPath (E : Node → Node → Prop) (nodes : Finset Node) (s t : Node) (path : List (Node × Node)) :
    Prop where
  joins : Joins s path t
  opened : ∀ hop ∈ path, E hop.1 hop.2
  within : ∀ hop ∈ path, hop.1 ∈ nodes ∧ hop.2 ∈ nodes
  simple : (path.map Prod.snd).Nodup
  least : ∀ n, Reaches E s n t → path.length ≤ n

theorem ShortestPath.length_le (h : ShortestPath E nodes s t path) : path.length ≤ nodes.card := by
  classical
  have hSubset : (path.map Prod.snd).toFinset ⊆ nodes := by
    intro x hx
    obtain ⟨hop, hHop, rfl⟩ := List.mem_map.mp (List.mem_toFinset.mp hx)
    exact (h.within hop hHop).2
  have hCard := Finset.card_le_card hSubset
  rwa [List.toFinset_card_of_nodup h.simple, List.length_map] at hCard

/-- Every hop of a shortest path leads one level on: a shorter way to its end would shorten the path. -/
theorem ShortestPath.level_next (h : ShortestPath E nodes s t path) (hHop : hop ∈ path) :
    level E s nodes.card hop.2 = level E s nodes.card hop.1 + 1 := by
  refine le_antisymm (level_step (h.opened hop hHop)) (Nat.succ_le_of_lt ?_)
  obtain ⟨before, after, rfl⟩ := List.append_of_mem hHop
  obtain ⟨hBefore, hAfter⟩ := joins_middle h.joins
  have hLength := h.length_le
  rw [List.length_append, List.length_cons] at hLength
  have hStart : level E s nodes.card hop.1 ≤ before.length := by
    have hReach := Reaches.start.along hBefore fun other hOther => h.opened other (List.mem_append_left _ hOther)
    rw [Nat.zero_add] at hReach
    exact hReach.level_le
  by_contra hNot
  rcases level_cases E s nodes.card hop.2 with hFar | hReach
  · omega
  · have hShort := h.least _ (hReach.along hAfter fun other hOther =>
      h.opened other (List.mem_append_right _ (List.mem_cons_of_mem _ hOther)))
    rw [List.length_append, List.length_cons] at hShort
    omega

end Paths

section Augmentation

/-- What is left of a network after something was sent along a shortest path. -/
structure Augmentation (nodes : Finset Node) (s t : Node) (E E' : Node → Node → Prop) (path : List (Node × Node)) :
    Prop where
  shortest : ShortestPath E nodes s t path
  kept : ∀ u v, E' u v → E u v ∨ (v, u) ∈ path
  closed : ∃ hop ∈ path, ¬E' hop.1 hop.2

variable (h : Augmentation nodes s t E E' path)

include h in
/-- No node comes nearer to the source. -/
theorem Augmentation.level_mono (x : Node) : level E s nodes.card x ≤ level E' s nodes.card x := by
  have hWalk : ∀ n x, Reaches E' s n x → level E s nodes.card x ≤ n := by
    intro n x hReach
    induction hReach with
    | start => exact Reaches.start.level_le
    | @step n u v prior edge ih =>
        rcases h.kept u v edge with hOld | hBack
        · exact (level_step hOld).trans (Nat.succ_le_succ ih)
        · have hNext := h.shortest.level_next hBack
          simp only at hNext
          omega
  rcases level_cases E' s nodes.card x with hFar | hReach
  · rw [hFar]
    exact level_le_bound
  · exact hWalk _ _ hReach

open Classical in
/-- The edges that lead one level on. -/
noncomputable def levelEdges (E : Node → Node → Prop) (nodes : Finset Node) (s : Node) : Finset (Node × Node) :=
  (nodes ×ˢ nodes).filter fun e => E e.1 e.2 ∧ level E s nodes.card e.2 = level E s nodes.card e.1 + 1

theorem mem_levelEdges {e : Node × Node} : e ∈ levelEdges E nodes s ↔ (e.1 ∈ nodes ∧ e.2 ∈ nodes) ∧
    E e.1 e.2 ∧ level E s nodes.card e.2 = level E s nodes.card e.1 + 1 := by
  simp [levelEdges]

/-- How far all nodes still are from being out of reach, and then the edges that lead one level on. -/
noncomputable def potential (nodes : Finset Node) (s : Node) (E : Node → Node → Prop) : ℕ ×ₗ ℕ :=
  toLex (∑ x ∈ nodes, (nodes.card - level E s nodes.card x), (levelEdges E nodes s).card)

include h in
/-- While no node moves away, the closed hop is one of the edges that lead on, and none joins them. -/
theorem Augmentation.levelEdges_ssubset
    (hSame : ∀ x ∈ nodes, level E' s nodes.card x = level E s nodes.card x) :
    levelEdges E' nodes s ⊂ levelEdges E nodes s := by
  obtain ⟨hop, hHop, hClosed⟩ := h.closed
  have hWithin := h.shortest.within hop hHop
  refine (Finset.ssubset_iff_of_subset fun e he => ?_).mpr ⟨hop, ?_, fun hIn => ?_⟩
  · obtain ⟨hNodes, hOpen, hNext⟩ := mem_levelEdges.mp he
    rw [hSame _ hNodes.1, hSame _ hNodes.2] at hNext
    refine mem_levelEdges.mpr ⟨hNodes, (h.kept e.1 e.2 hOpen).resolve_right fun hBack => ?_, hNext⟩
    have hReverse := h.shortest.level_next hBack
    simp only at hReverse
    omega
  · exact mem_levelEdges.mpr ⟨hWithin, h.shortest.opened hop hHop, h.shortest.level_next hHop⟩
  · exact hClosed (mem_levelEdges.mp hIn).2.1

include h in
theorem Augmentation.decreases : potential nodes s E' < potential nodes s E := by
  have hEach : ∀ x ∈ nodes, nodes.card - level E' s nodes.card x ≤ nodes.card - level E s nodes.card x :=
    fun x _ => Nat.sub_le_sub_left (h.level_mono x) _
  by_cases hSame : ∀ x ∈ nodes, level E' s nodes.card x = level E s nodes.card x
  · have hSum : ∑ x ∈ nodes, (nodes.card - level E' s nodes.card x) =
        ∑ x ∈ nodes, (nodes.card - level E s nodes.card x) :=
      Finset.sum_congr rfl fun x hx => by rw [hSame x hx]
    rw [potential, potential, hSum]
    exact Prod.Lex.right _ (Finset.card_lt_card (h.levelEdges_ssubset hSame))
  · simp only [not_forall] at hSame
    obtain ⟨x, hx, hNe⟩ := hSame
    have hMoved := lt_of_le_of_ne (h.level_mono x) (Ne.symm hNe)
    have hFar : level E' s nodes.card x ≤ nodes.card := level_le_bound
    exact Prod.Lex.left _ _ (Finset.sum_lt_sum hEach ⟨x, hx, by omega⟩)

/-- There is no endless sequence of augmentations along shortest paths. -/
theorem augmentation_wellFounded (nodes : Finset Node) (s t : Node) :
    WellFounded fun E' E => ∃ path, Augmentation nodes s t E E' path :=
  (InvImage.wf (potential nodes s) wellFounded_lt).mono fun _ _ hStep => hStep.elim fun _ h => h.decreases

end Augmentation

end ShortestAugmentation

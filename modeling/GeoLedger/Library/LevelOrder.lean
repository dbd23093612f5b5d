import Mathlib

/-! Search of a tree with a first-in-first-out queue. The first goal that is
taken from the queue is at the least depth; a search that ends without a goal
has seen the whole tree; and a queue that the fuel pays for is searched to the end. -/
namespace LevelOrder

variable {α : Type*}

/-- Take entries from the queue until one is a goal; the children of any other
entry join the end of the queue. `none` is a search that ran out of fuel; the
other results carry the fuel that is left. -/
def search (goal : α → Bool) (children : α → List α) : Nat → List α → Option (Option α × Nat)
  | fuel, [] => some (none, fuel)
  | 0, _ :: _ => none
  | fuel + 1, x :: queue =>
      if goal x then some (some x, fuel) else search goal children fuel (queue ++ children x)

/-- The entries below one of the tree: a goal has no children that are searched. -/
inductive Below (goal : α → Bool) (children : α → List α) (x : α) : α → Prop where
  | refl : Below goal children x x
  | child {y z : α} (prior : Below goal children x y) (hInner : goal y = false) (hChild : z ∈ children y) :
      Below goal children x z

variable {goal : α → Bool} {children : α → List α} {x y : α} {queue : List α} {fuel left : Nat}

/-- Descend from a child of the root instead of the root. -/
theorem Below.from_child (h : Below goal children x y) :
    y = x ∨ (goal x = false ∧ ∃ c ∈ children x, Below goal children c y) := by
  induction h with
  | refl => exact Or.inl rfl
  | child prior hInner hChild ih =>
      rcases ih with rfl | ⟨hRoot, c, hc, hBelow⟩
      · exact Or.inr ⟨hInner, _, hChild, Below.refl⟩
      · exact Or.inr ⟨hRoot, c, hc, hBelow.child hInner hChild⟩

theorem Below.trans {z : α} (h : Below goal children x y) (hNext : Below goal children y z) :
    Below goal children x z := by
  induction hNext with
  | refl => exact h
  | child _ hInner hChild ih => exact ih.child hInner hChild

/-- The depths of a queue in level order: they do not decrease, and differ by at most one. -/
structure Levelled (depth : α → Nat) (queue : List α) : Prop where
  sorted : queue.Pairwise fun a b => depth a ≤ depth b
  spread : ∀ a ∈ queue, ∀ b ∈ queue, depth b ≤ depth a + 1

/-- Replacing the head of the queue by its children keeps the level order. -/
theorem Levelled.next {depth : α → Nat} (hDepth : ∀ a, ∀ c ∈ children a, depth c = depth a + 1)
    (h : Levelled depth (x :: queue)) : Levelled depth (queue ++ children x) := by
  have hHead : ∀ a ∈ queue, depth x ≤ depth a := (List.pairwise_cons.mp h.sorted).1
  have hNear : ∀ a ∈ queue, depth a ≤ depth x + 1 := fun a ha =>
    h.spread x List.mem_cons_self a (List.mem_cons_of_mem _ ha)
  constructor
  · refine List.pairwise_append.mpr ⟨(List.pairwise_cons.mp h.sorted).2, ?_, ?_⟩
    · refine List.pairwise_of_forall_mem_list fun a ha b hb => ?_
      rw [hDepth x a ha, hDepth x b hb]
    · intro a ha c hc
      rw [hDepth x c hc]
      exact hNear a ha
  · intro a ha b hb
    rcases List.mem_append.mp ha with ha | ha <;> rcases List.mem_append.mp hb with hb | hb
    · exact h.spread a (List.mem_cons_of_mem _ ha) b (List.mem_cons_of_mem _ hb)
    · rw [hDepth x b hb]
      exact Nat.add_le_add_right (hHead a ha) 1
    · rw [hDepth x a ha]
      exact (hNear b hb).trans (Nat.le_succ _)
    · rw [hDepth x a ha, hDepth x b hb]
      exact Nat.le_succ _

/-- The entry a search finds is a goal in the tree, and none is less deep. -/
theorem search_found {depth : α → Nat} (hDepth : ∀ a, ∀ c ∈ children a, depth c = depth a + 1)
    (hQueue : Levelled depth queue) (h : search goal children fuel queue = some (some y, left)) :
    goal y = true ∧ (∃ a ∈ queue, Below goal children a y) ∧
      ∀ a ∈ queue, ∀ z, Below goal children a z → goal z = true → depth y ≤ depth z := by
  induction fuel generalizing queue with
  | zero =>
      cases queue with
      | nil => cases h
      | cons x queue => cases h
  | succ fuel ih =>
      cases queue with
      | nil => cases h
      | cons x queue =>
          rw [search] at h
          split at h
          · next hGoal =>
              cases h
              refine ⟨hGoal, ⟨y, List.mem_cons_self, Below.refl⟩, fun a ha z hBelow hz => ?_⟩
              have hRoot : depth y ≤ depth a := by
                rcases List.mem_cons.mp ha with rfl | ha
                · exact le_rfl
                · exact (List.pairwise_cons.mp hQueue.sorted).1 a ha
              refine hRoot.trans ?_
              clear hz
              induction hBelow with
              | refl => exact le_rfl
              | child _ _ hChild ihBelow =>
                  rw [hDepth _ _ hChild]
                  exact ihBelow.trans (Nat.le_succ _)
          · next hInner =>
              obtain ⟨hGoal, ⟨a, ha, hBelow⟩, hLeast⟩ := ih (hQueue.next hDepth) h
              have hNot : goal x = false := by simpa using hInner
              refine ⟨hGoal, ?_, fun b hb z hz hGoalZ => ?_⟩
              · rcases List.mem_append.mp ha with ha | ha
                · exact ⟨a, List.mem_cons_of_mem _ ha, hBelow⟩
                · exact ⟨x, List.mem_cons_self, (Below.refl.child hNot ha).trans hBelow⟩
              · rcases List.mem_cons.mp hb with rfl | hb
                · rcases hz.from_child with rfl | ⟨_, c, hc, hUnder⟩
                  · rw [hNot] at hGoalZ
                    cases hGoalZ
                  · exact hLeast c (List.mem_append_right _ hc) z hUnder hGoalZ
                · exact hLeast b (List.mem_append_left _ hb) z hz hGoalZ

/-- A search that ends without a goal has no goal below its queue. -/
theorem search_none (h : search goal children fuel queue = some (none, left)) :
    ∀ a ∈ queue, ∀ z, Below goal children a z → goal z = false := by
  induction fuel generalizing queue with
  | zero =>
      cases queue with
      | nil => exact fun a ha => absurd ha List.not_mem_nil
      | cons x queue => cases h
  | succ fuel ih =>
      cases queue with
      | nil => exact fun a ha => absurd ha List.not_mem_nil
      | cons x queue =>
          rw [search] at h
          split at h
          · cases h
          · next hInner =>
              intro a ha z hz
              rcases List.mem_cons.mp ha with rfl | ha
              · rcases hz.from_child with rfl | ⟨_, c, hc, hUnder⟩
                · simpa using hInner
                · exact ih h c (List.mem_append_right _ hc) z hUnder
              · exact ih h a (List.mem_append_left _ ha) z hz

/-- Fuel that pays for every entry of the queue and its children is enough. -/
theorem search_ends {weight : α → Nat} (hWeight : ∀ a, goal a = false →
      1 + ((children a).map weight).sum ≤ weight a) (hPos : ∀ a, 1 ≤ weight a)
    (hFuel : (queue.map weight).sum ≤ fuel) : ∃ result, search goal children fuel queue = some result := by
  induction fuel generalizing queue with
  | zero =>
      cases queue with
      | nil => exact ⟨_, by rw [search]⟩
      | cons x queue =>
          rw [List.map_cons, List.sum_cons] at hFuel
          have := hPos x
          omega
  | succ fuel ih =>
      cases queue with
      | nil => exact ⟨_, by rw [search]⟩
      | cons x queue =>
          rw [search]
          split
          · exact ⟨_, rfl⟩
          · next hInner =>
              refine ih ?_
              have hRoot := hWeight x (by simpa using hInner)
              rw [List.map_cons, List.sum_cons] at hFuel
              rw [List.map_append, List.sum_append]
              omega

end LevelOrder

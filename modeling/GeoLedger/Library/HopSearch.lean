import Mathlib

/-! Breadth-first search with a bound on the number of hops. Nodes are marked with
the depth at which they were first met; the marks of the queue are in level order,
so a mark is never deeper than a walk to its node. -/
namespace HopSearch

variable {Node : Type*}

/-- A walk of `n` hops. -/
inductive Walk (next : Node → List Node) (start : Node) : Nat → Node → Prop where
  | nil : Walk next start 0 start
  | snoc {n : Nat} {x z : Node} (prior : Walk next start n x) (last : z ∈ next x) : Walk next start (n + 1) z

/-- A search that has taken the marks `done` from its queue and has not met the goal. -/
structure Explored (next : Node → List Node) (start goal : Node) (bound : Nat) (done queue : List (Node × Nat)) :
    Prop where
  marked : (start, 0) ∈ done ++ queue
  walks : ∀ a ∈ done ++ queue, Walk next start a.2 a.1
  sorted : (done ++ queue).Pairwise fun a b => a.2 ≤ b.2
  spread : ∀ a ∈ done ++ queue, ∀ b ∈ queue, a.2 ≤ b.2 + 1
  closed : ∀ a ∈ done, a.2 < bound → ∀ z ∈ next a.1, z ≠ goal ∧ ∃ d, d ≤ a.2 + 1 ∧ (z, d) ∈ done ++ queue

variable {next : Node → List Node} {start goal : Node} {bound : Nat} {done queue : List (Node × Nat)} {a : Node × Nat}

theorem explored_start : Explored next start goal bound [] [(start, 0)] where
  marked := List.mem_singleton_self _
  walks := by
    intro a ha
    rw [List.mem_singleton.mp ha]
    exact Walk.nil
  sorted := List.pairwise_singleton _ _
  spread := by
    intro a ha b hb
    rw [List.mem_singleton.mp ha]
    exact Nat.zero_le _
  closed := fun _ h => absurd h List.not_mem_nil

/-- The marks behind the head of the queue are at least as deep. -/
theorem Explored.head_le (h : Explored next start goal bound done (a :: queue)) : ∀ b ∈ queue, a.2 ≤ b.2 := by
  have hQueue := (List.pairwise_append.mp h.sorted).2.1
  exact (List.pairwise_cons.mp hQueue).1

/-- The head of the queue is done: its new neighbours join the end of the queue. -/
theorem Explored.expand (h : Explored next start goal bound done (a :: queue)) {fresh : List Node}
    (hFresh : ∀ z ∈ fresh, z ∈ next a.1)
    (hClosed : a.2 < bound → ∀ z ∈ next a.1, z ≠ goal ∧ (z ∈ fresh ∨ ∃ d, (z, d) ∈ done ++ a :: queue)) :
    Explored next start goal bound (done ++ [a]) (queue ++ fresh.map fun z => (z, a.2 + 1)) := by
  have hSplit : (done ++ [a]) ++ (queue ++ fresh.map fun z => (z, a.2 + 1)) =
      (done ++ a :: queue) ++ fresh.map fun z => (z, a.2 + 1) := by simp
  have hNew : ∀ b ∈ fresh.map (fun z => (z, a.2 + 1)), b.2 = a.2 + 1 := by
    intro b hb
    obtain ⟨z, -, rfl⟩ := List.mem_map.mp hb
    rfl
  have hOld : ∀ b ∈ done ++ a :: queue, b.2 ≤ a.2 + 1 := fun b hb => h.spread b hb a List.mem_cons_self
  refine ⟨?_, ?_, ?_, ?_, ?_⟩
  · rw [hSplit]
    exact List.mem_append_left _ h.marked
  · rw [hSplit]
    intro b hb
    rcases List.mem_append.mp hb with hb | hb
    · exact h.walks b hb
    · obtain ⟨z, hz, rfl⟩ := List.mem_map.mp hb
      exact (h.walks a (List.mem_append_right _ List.mem_cons_self)).snoc (hFresh z hz)
  · rw [hSplit]
    refine List.pairwise_append.mpr ⟨h.sorted, ?_, fun b hb c hc => (hOld b hb).trans (hNew c hc).ge⟩
    exact List.pairwise_of_forall_mem_list fun b hb c hc => (hNew b hb).le.trans (hNew c hc).ge
  · rw [hSplit]
    intro b hb c hc
    have hDeep : a.2 ≤ c.2 := by
      rcases List.mem_append.mp hc with hc | hc
      · exact h.head_le c hc
      · exact (Nat.le_succ _).trans (hNew c hc).ge
    rcases List.mem_append.mp hb with hb | hb
    · exact (hOld b hb).trans (Nat.succ_le_succ hDeep)
    · exact (hNew b hb).le.trans (Nat.succ_le_succ hDeep)
  · rw [hSplit]
    intro b hb hBound z hz
    rcases List.mem_append.mp hb with hb | hb
    · obtain ⟨hGoal, d, hd, hMark⟩ := h.closed b hb hBound z hz
      exact ⟨hGoal, d, hd, List.mem_append_left _ hMark⟩
    · rw [List.mem_singleton.mp hb] at hBound hz ⊢
      obtain ⟨hGoal, hMarked⟩ := hClosed hBound z hz
      refine ⟨hGoal, ?_⟩
      rcases hMarked with hz | ⟨d, hMark⟩
      · exact ⟨a.2 + 1, le_rfl, List.mem_append_right _ (List.mem_map_of_mem hz)⟩
      · exact ⟨d, hOld _ hMark, List.mem_append_left _ hMark⟩

/-- A mark at the bound is not expanded. -/
theorem Explored.skip (h : Explored next start goal bound done (a :: queue)) (hBound : bound ≤ a.2) :
    Explored next start goal bound (done ++ [a]) queue := by
  have hExpand := h.expand (fun _ (hz : _ ∈ ([] : List Node)) => absurd hz List.not_mem_nil)
    fun hLt => absurd hLt (not_lt.mpr hBound)
  rwa [List.map_nil, List.append_nil] at hExpand

theorem Explored.found (h : Explored next start goal bound done (a :: queue)) (hBound : a.2 < bound)
    (hGoal : goal ∈ next a.1) : ∃ n, n ≤ bound ∧ Walk next start n goal :=
  ⟨a.2 + 1, hBound, (h.walks a (List.mem_append_right _ List.mem_cons_self)).snoc hGoal⟩

/-- When the queue is empty every node within the bound is marked, no deeper than the
walk to it. -/
theorem Explored.reached (h : Explored next start goal bound done []) {n : Nat} {x : Node}
    (walk : Walk next start n x) (hBound : n ≤ bound) : ∃ d, d ≤ n ∧ (x, d) ∈ done := by
  induction walk with
  | nil => exact ⟨0, le_rfl, by simpa using h.marked⟩
  | @snoc n x z prior last ih =>
      obtain ⟨d, hd, hMark⟩ := ih (by omega)
      obtain ⟨-, d', hd', hMark'⟩ := h.closed (x, d) hMark (by omega) z last
      exact ⟨d', by omega, by simpa using hMark'⟩

/-- An empty queue means that the goal is out of reach. -/
theorem Explored.exhausted (h : Explored next start goal bound done []) (hNe : start ≠ goal) :
    ¬∃ n, n ≤ bound ∧ Walk next start n goal := by
  rintro ⟨n, hBound, walk⟩
  cases walk with
  | nil => exact hNe rfl
  | @snoc n x _ prior last =>
      obtain ⟨d, hd, hMark⟩ := h.reached prior (by omega)
      exact (h.closed (x, d) hMark (by omega) goal last).1 rfl

end HopSearch

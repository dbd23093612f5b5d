import Mathlib
import GeoLedger.Library.Flows
import GeoLedger.Library.Rows

/-! Paths and cuts of a flow. A path can be freed of its detours, a flow splits
into simple paths that carry its value, and no flow exceeds a cut. -/
namespace Flows
open Trails

variable {Node Amount : Type*}

section Detours

variable {s t x : Node} {edges : List (Node × Node)}

/-- From every node of a path the rest of it leads on to the end. -/
theorem Joins.suffix (h : Joins s edges t) (hx : x ∈ s :: edges.map Prod.snd) :
    ∃ rest, rest ⊆ edges ∧ Joins x rest t ∧ x :: rest.map Prod.snd <:+ s :: edges.map Prod.snd := by
  induction edges generalizing s with
  | nil =>
      rw [List.map_nil, List.mem_singleton] at hx
      cases hx
      exact ⟨[], List.Subset.refl _, h, List.suffix_refl _⟩
  | cons hop tail ih =>
      rcases List.mem_cons.mp hx with rfl | hLater
      · exact ⟨_, List.Subset.refl _, h, List.suffix_refl _⟩
      · obtain ⟨rest, hSubset, hRest, hNodes⟩ := ih h.2 hLater
        exact ⟨rest, List.subset_cons_of_subset hop hSubset, hRest, hNodes.trans (List.suffix_cons s _)⟩

/-- A path can be shortened to one that visits no node twice. -/
theorem Joins.exists_simple (h : Joins s edges t) :
    ∃ direct, direct ⊆ edges ∧ Joins s direct t ∧ (s :: direct.map Prod.snd).Nodup := by
  classical
  induction edges generalizing s with
  | nil => exact ⟨[], List.Subset.refl _, h, List.nodup_singleton _⟩
  | cons hop tail ih =>
      obtain ⟨rfl, hTail⟩ := h
      obtain ⟨direct, hSubset, hJoins, hSimple⟩ := ih hTail
      by_cases hBack : hop.1 ∈ hop.2 :: direct.map Prod.snd
      · obtain ⟨rest, hRestSubset, hRest, hNodes⟩ := hJoins.suffix hBack
        exact ⟨rest, fun _ hHop => List.mem_cons_of_mem _ (hSubset (hRestSubset hHop)), hRest,
          hSimple.sublist hNodes.sublist⟩
      · exact ⟨hop :: direct, List.cons_subset_cons _ hSubset, ⟨rfl, hJoins⟩, List.nodup_cons.mpr ⟨hBack, hSimple⟩⟩

end Detours

variable [DecidableEq Node] [AddCommGroup Amount] {nodes inside : Finset Node} {s t : Node}
  {value : Amount} {net : Node → Node → Amount}

/-- What an amount that is sent along a path puts on an edge. -/
def sentAlong (amount : Amount) (edges : List (Node × Node)) (u v : Node) : Amount :=
  (edges.map fun hop => if hop = (u, v) then amount else 0).sum

theorem sentAlong_of_nodup {edges : List (Node × Node)} (h : edges.Nodup) (amount : Amount) (u v : Node) :
    sentAlong amount edges u v = if (u, v) ∈ edges then amount else 0 := by
  induction edges with
  | nil => simp [sentAlong]
  | cons hop rest ih =>
      obtain ⟨hOut, hRest⟩ := List.nodup_cons.mp h
      have hTail : sentAlong amount (hop :: rest) u v =
          (if hop = (u, v) then amount else 0) + sentAlong amount rest u v := by
        simp [sentAlong]
      rw [hTail, ih hRest]
      by_cases hHop : hop = (u, v)
      · rw [if_pos hHop, if_neg (hHop ▸ hOut), add_zero, if_pos (hHop ▸ List.mem_cons_self)]
      · have hMem : (u, v) ∈ hop :: rest ↔ (u, v) ∈ rest := by
          rw [List.mem_cons, or_iff_right (Ne.symm hHop)]
        rw [if_neg hHop, zero_add]
        simp only [hMem]

theorem carried_eq (amount : Amount) (edges : List (Node × Node)) (u v : Node) :
    carried amount edges u v = sentAlong amount edges u v - sentAlong amount edges v u := by
  induction edges with
  | nil => simp [carried, sentAlong]
  | cons hop rest ih =>
      simp only [carried, sentAlong, List.map_cons, List.sum_cons] at ih ⊢
      rw [ih]
      abel

theorem carried_neg (amount : Amount) (edges : List (Node × Node)) (u v : Node) :
    carried (-amount) edges u v = -carried amount edges u v := by
  induction edges with
  | nil => simp [carried]
  | cons hop rest ih =>
      simp only [carried, List.map_cons, List.sum_cons] at ih ⊢
      rw [ih]
      split <;> split <;> abel

section Cuts

/-- What the edges out of a set of nodes can carry. -/
def cutCapacity (capacity : Node → Node → Amount) (nodes inside : Finset Node) : Amount :=
  ∑ u ∈ inside, ∑ v ∈ nodes \ inside, capacity u v

variable [LinearOrder Amount] [IsOrderedAddMonoid Amount] {capacity : Node → Node → Amount}

/-- A flow within the capacities is at most what a cut can carry. -/
theorem NetFlow.value_le_cut [IsAddTorsionFree Amount] (h : NetFlow nodes s t value net)
    (hWithin : ∀ u v, net u v ≤ capacity u v) (hInside : inside ⊆ nodes) (hs : s ∈ inside) (ht : t ∉ inside) :
    value ≤ cutCapacity capacity nodes inside := by
  rw [h.value_eq_cut hInside hs ht]
  exact Finset.sum_le_sum fun u _ => Finset.sum_le_sum fun v _ => hWithin u v

/-- A flow that fills a cut has its capacity for its value. -/
theorem NetFlow.cut_le_value [IsAddTorsionFree Amount] (h : NetFlow nodes s t value net)
    (hFull : ∀ u ∈ inside, ∀ v ∈ nodes \ inside, capacity u v ≤ net u v) (hInside : inside ⊆ nodes)
    (hs : s ∈ inside) (ht : t ∉ inside) : cutCapacity capacity nodes inside ≤ value := by
  rw [h.value_eq_cut hInside hs ht]
  exact Finset.sum_le_sum fun u hu => Finset.sum_le_sum fun v hv => hFull u hu v hv

end Cuts

section Split

variable [LinearOrder Amount] [IsOrderedAddMonoid Amount]

/-- A simple path from source to sink and the amount that is sent along it. -/
structure PathShare (s t : Node) (Amount : Type*) [Zero Amount] [LT Amount] where
  edges : List (Node × Node)
  amount : Amount
  joins : Joins s edges t
  simple : (s :: edges.map Prod.snd).Nodup
  positive : 0 < amount

/-- A flow of positive value leaves the source along edges that carry something. -/
theorem NetFlow.exists_path [IsAddTorsionFree Amount] (h : NetFlow nodes s t value net) (hs : s ∈ nodes)
    (hWithin : ∀ u v, 0 < net u v → u ∈ nodes ∧ v ∈ nodes) (hValue : 0 < value) :
    ∃ edges, Joins s edges t ∧ (s :: edges.map Prod.snd).Nodup ∧ ∀ hop ∈ edges, 0 < net hop.1 hop.2 := by
  classical
  let reached := nodes.filter fun x => ∃ edges, Joins s edges x ∧ ∀ hop ∈ edges, 0 < net hop.1 hop.2
  by_cases ht : t ∈ reached
  · obtain ⟨_, edges, hJoins, hPositive⟩ := Finset.mem_filter.mp ht
    obtain ⟨direct, hSubset, hDirect, hSimple⟩ := hJoins.exists_simple
    exact ⟨direct, hDirect, hSimple, fun hop hHop => hPositive hop (hSubset hHop)⟩
  · have hSource : s ∈ reached := Finset.mem_filter.mpr ⟨hs, [], rfl, fun _ hHop => by cases hHop⟩
    have hCut := h.value_eq_cut (Finset.filter_subset _ _) hSource ht
    -- Nothing leaves the nodes that the source reaches.
    have hNone : ∑ u ∈ reached, ∑ v ∈ nodes \ reached, net u v ≤ 0 := by
      refine Finset.sum_nonpos fun u hu => Finset.sum_nonpos fun v hv => not_lt.mp fun hOpen => ?_
      obtain ⟨_, edges, hJoins, hPositive⟩ := Finset.mem_filter.mp hu
      refine (Finset.mem_sdiff.mp hv).2 (Finset.mem_filter.mpr
        ⟨(hWithin u v hOpen).2, edges ++ [(u, v)], hJoins.append (trail_singleton (u, v)), fun hop hHop => ?_⟩)
      rcases List.mem_append.mp hHop with hOld | hNew
      · exact hPositive hop hOld
      · rw [List.mem_singleton.mp hNew]
        exact hOpen
    exact absurd hValue (not_lt.mpr (hCut.trans_le hNone))

omit [DecidableEq Node] [IsOrderedAddMonoid Amount] in
/-- The least of what the edges of a path carry and of what is asked for. -/
theorem exists_bottleneck (edges : List (Node × Node)) (hPositive : ∀ hop ∈ edges, 0 < net hop.1 hop.2)
    (hValue : 0 < value) : ∃ b, 0 < b ∧ b ≤ value ∧ (∀ hop ∈ edges, b ≤ net hop.1 hop.2) ∧
      (b = value ∨ ∃ hop ∈ edges, b = net hop.1 hop.2) := by
  induction edges with
  | nil => exact ⟨value, hValue, le_rfl, fun _ hHop => (by cases hHop), Or.inl rfl⟩
  | cons hop rest ih =>
      obtain ⟨b, hPos, hLe, hAll, hTight⟩ := ih fun other hOther => hPositive other (List.mem_cons_of_mem _ hOther)
      rcases le_total b (net hop.1 hop.2) with hLess | hMore
      · refine ⟨b, hPos, hLe, fun other hOther => ?_, hTight.imp_right fun ⟨other, hOther, hEq⟩ =>
          ⟨other, List.mem_cons_of_mem _ hOther, hEq⟩⟩
        rcases List.mem_cons.mp hOther with rfl | hOther
        · exact hLess
        · exact hAll other hOther
      · refine ⟨net hop.1 hop.2, hPositive hop List.mem_cons_self, hMore.trans hLe, fun other hOther => ?_,
          Or.inr ⟨hop, List.mem_cons_self, rfl⟩⟩
        rcases List.mem_cons.mp hOther with rfl | hOther
        · exact le_rfl
        · exact hMore.trans (hAll other hOther)

/-- What an amount sent along carrying edges puts on an edge comes off what the edge carries. -/
theorem sentAlong_add_le {edges : List (Node × Node)} (hSkew : ∀ u v, net v u = -net u v) (hUnique : edges.Nodup)
    {b : Amount} (hPos : 0 < b) (hLe : ∀ hop ∈ edges, b ≤ net hop.1 hop.2) (u v : Node) :
    sentAlong b edges u v + max (net u v - carried b edges u v) 0 ≤ max (net u v) 0 := by
  rw [carried_eq, sentAlong_of_nodup hUnique, sentAlong_of_nodup hUnique]
  by_cases hForth : (u, v) ∈ edges
  · have hEdge : b ≤ net u v := hLe (u, v) hForth
    have hBack : (v, u) ∉ edges := by
      intro hBack
      have hOther : b ≤ net v u := hLe (v, u) hBack
      rw [hSkew u v] at hOther
      exact absurd (hPos.trans_le hOther) (not_lt.mpr (neg_nonpos.mpr (hPos.trans_le hEdge).le))
    rw [if_pos hForth, if_neg hBack, sub_zero, max_eq_left (sub_nonneg.mpr hEdge),
      max_eq_left (hPos.trans_le hEdge).le, add_sub_cancel]
  · rw [if_neg hForth, zero_sub, sub_neg_eq_add, zero_add]
    by_cases hBack : (v, u) ∈ edges
    · have hEdge : b ≤ net v u := hLe (v, u) hBack
      rw [hSkew u v] at hEdge
      have hNone : net u v + b ≤ 0 := by
        calc net u v + b ≤ net u v + -net u v := add_le_add le_rfl hEdge
          _ = 0 := add_neg_cancel _
      rw [if_pos hBack, max_eq_right hNone]
      exact le_max_right _ _
    · rw [if_neg hBack, add_zero]

/-- A flow splits into simple paths that carry its value, and no edge carries more than before. -/
theorem NetFlow.exists_split [IsAddTorsionFree Amount] (h : NetFlow nodes s t value net) (hNe : s ≠ t)
    (hs : s ∈ nodes) (hWithin : ∀ u v, 0 < net u v → u ∈ nodes ∧ v ∈ nodes) (hValue : 0 ≤ value) :
    ∃ shares : List (PathShare s t Amount), (shares.map (·.amount)).sum = value ∧
      ∀ u v, (shares.map fun share => sentAlong share.amount share.edges u v).sum ≤ max (net u v) 0 := by
  -- Every path but the last one uses up an edge.
  induction hCount : ((nodes ×ˢ nodes).filter fun hop => 0 < net hop.1 hop.2).card using Nat.strong_induction_on
    generalizing value net with
  | _ count ih =>
      rcases hValue.eq_or_lt with hZero | hPositive
      · exact ⟨[], by simpa using hZero, fun u v => by simp⟩
      · obtain ⟨edges, hJoins, hSimple, hOpen⟩ := h.exists_path hs hWithin hPositive
        obtain ⟨b, hPos, hLe, hAll, hTight⟩ := exists_bottleneck edges hOpen hPositive
        have hUnique : edges.Nodup := (List.nodup_cons.mp hSimple).2.of_map _
        have hNodes : ∀ hop ∈ edges, hop.1 ∈ nodes ∧ hop.2 ∈ nodes := fun hop hHop =>
          hWithin hop.1 hop.2 (hOpen hop hHop)
        have hLess (u v : Node) : sentAlong b edges u v + max (net u v - carried b edges u v) 0 ≤ max (net u v) 0 :=
          sentAlong_add_le h.skew hUnique hPos hAll u v
        have hSent (u v : Node) : 0 ≤ sentAlong b edges u v := by
          rw [sentAlong_of_nodup hUnique]
          split
          · exact hPos.le
          · exact le_rfl
        have hStill {u v : Node} (hLeft : 0 < net u v - carried b edges u v) : 0 < net u v := by
          have hMax := (le_add_of_nonneg_left (hSent u v)).trans (hLess u v)
          rcases lt_max_iff.mp (hLeft.trans_le ((le_max_left _ _).trans hMax)) with hNow | hNever
          · exact hNow
          · exact absurd hNever (lt_irrefl 0)
        have hRest := h.augment (-b) hNe hJoins hNodes
        simp only [carried_neg, ← sub_eq_add_neg] at hRest
        rcases hTight with rfl | ⟨hop, hHop, rfl⟩
        · refine ⟨[⟨edges, b, hJoins, hSimple, hPos⟩], by simp, fun u v => ?_⟩
          rw [List.map_singleton, List.sum_singleton]
          exact (le_add_of_nonneg_right (le_max_right _ _)).trans (hLess u v)
        · have hFewer : ((nodes ×ˢ nodes).filter fun other =>
              0 < net other.1 other.2 - carried (net hop.1 hop.2) edges other.1 other.2).card < count := by
            rw [← hCount]
            refine Finset.card_lt_card (Finset.ssubset_iff_of_subset (fun other hOther => ?_) |>.mpr ⟨hop, ?_, ?_⟩)
            · obtain ⟨hMem, hLeft⟩ := Finset.mem_filter.mp hOther
              exact Finset.mem_filter.mpr ⟨hMem, hStill hLeft⟩
            · exact Finset.mem_filter.mpr ⟨Finset.mem_product.mpr (hNodes hop hHop), hOpen hop hHop⟩
            · intro hMem
              have hLeft := (Finset.mem_filter.mp hMem).2
              have hUsed := hLess hop.1 hop.2
              rw [sentAlong_of_nodup hUnique, if_pos hHop, max_eq_left hLeft.le, max_eq_left hPos.le] at hUsed
              exact absurd hUsed (not_le.mpr (lt_add_of_pos_right _ hLeft))
          obtain ⟨shares, hTotal, hEdges⟩ := ih _ hFewer hRest
            (fun u v hLeft => hWithin u v (hStill hLeft)) (sub_nonneg.mpr hLe) rfl
          refine ⟨⟨edges, net hop.1 hop.2, hJoins, hSimple, hPos⟩ :: shares, ?_, fun u v => ?_⟩
          · rw [List.map_cons, List.sum_cons, hTotal, add_sub_cancel]
          · rw [List.map_cons, List.sum_cons]
            exact (add_le_add le_rfl (hEdges u v)).trans (hLess u v)

end Split

end Flows

import Mathlib
import GeoLedger.Library.Trails

/-! Flows in a network. A flow is what it carries net along every ordered pair
of nodes; its value is the same across every cut between source and sink, so
no set of paths within the capacities can carry more than a flow that fills a
cut. A path is given by its list of hops. -/
namespace Flows
open Trails

variable {Node Amount : Type*} [DecidableEq Node] [AddCommGroup Amount]

section Hops

/-- The hops lead from one node to another. -/
abbrev Joins (first : Node) (edges : List (Node × Node)) (last : Node) : Prop :=
  Trail Prod.fst Prod.snd first edges last

variable {s t : Node} {edges : List (Node × Node)}

omit [DecidableEq Node] in
/-- A path that leaves a set crosses its border. -/
theorem exists_crossing (h : Joins s edges t) {P : Node → Prop} (hs : P s)
    (ht : ¬P t) : ∃ hop ∈ edges, P hop.1 ∧ ¬P hop.2 := by
  induction edges generalizing s with
  | nil => exact absurd (h ▸ hs) ht
  | cons hop rest ih =>
      obtain ⟨rfl, hRest⟩ := h
      by_cases hNext : P hop.2
      · obtain ⟨other, hOther, hCrosses⟩ := ih hRest hNext
        exact ⟨other, List.mem_cons_of_mem _ hOther, hCrosses⟩
      · exact ⟨hop, List.mem_cons_self, hs, hNext⟩

/-- What an amount sent along hops carries net from `u` to `v`. -/
def carried (amount : Amount) (edges : List (Node × Node)) (u v : Node) : Amount :=
  (edges.map fun hop => (if hop = (u, v) then amount else 0) - (if hop = (v, u) then amount else 0)).sum

theorem carried_skew (amount : Amount) (edges : List (Node × Node)) (u v : Node) :
    carried amount edges v u = -carried amount edges u v := by
  induction edges with
  | nil => simp [carried]
  | cons hop rest ih =>
      simp only [carried, List.map_cons, List.sum_cons] at ih ⊢
      rw [ih]
      abel

/-- Along a path only the first node sends and only the last node receives. -/
theorem sum_carried {nodes : Finset Node} {amount : Amount} (h : Joins s edges t)
    (hNodes : ∀ hop ∈ edges, hop.1 ∈ nodes ∧ hop.2 ∈ nodes) (u : Node) :
    ∑ v ∈ nodes, carried amount edges u v = (if s = u then amount else 0) - (if t = u then amount else 0) := by
  induction edges generalizing s with
  | nil =>
      cases h
      simp [carried]
  | cons hop rest ih =>
      obtain ⟨rfl, hRest⟩ := h
      obtain ⟨hFirst, hSecond⟩ := hNodes hop List.mem_cons_self
      have hTail := ih hRest fun other hOther => hNodes other (List.mem_cons_of_mem _ hOther)
      have hHead : ∑ v ∈ nodes, ((if hop = (u, v) then amount else 0) - (if hop = (v, u) then amount else 0)) =
          (if hop.1 = u then amount else 0) - (if hop.2 = u then amount else 0) := by
        rw [Finset.sum_sub_distrib]
        congr 1
        · by_cases hu : hop.1 = u
          · simp [Prod.ext_iff, hu, hSecond]
          · simp [Prod.ext_iff, hu]
        · by_cases hu : hop.2 = u
          · simp [Prod.ext_iff, hu, hFirst]
          · simp [Prod.ext_iff, hu]
      have hSplit (v : Node) : carried amount (hop :: rest) u v =
          ((if hop = (u, v) then amount else 0) - (if hop = (v, u) then amount else 0)) +
            carried amount rest u v := by
        simp [carried]
      simp only [hSplit, Finset.sum_add_distrib, hTail, hHead]
      abel

end Hops

/-- A flow between two nodes: what it carries one way it carries back the other
way with the opposite sign, and only the source and the sink keep anything. -/
structure NetFlow (nodes : Finset Node) (s t : Node) (value : Amount) (net : Node → Node → Amount) : Prop where
  skew : ∀ u v, net v u = -net u v
  conserved : ∀ u ∈ nodes, u ≠ s → u ≠ t → ∑ v ∈ nodes, net u v = 0
  source : ∑ v ∈ nodes, net s v = value

variable {nodes inside : Finset Node} {s t : Node} {value amount : Amount} {net : Node → Node → Amount}

omit [DecidableEq Node] in
/-- Nothing flows. -/
theorem NetFlow.zero (nodes : Finset Node) (s t : Node) :
    NetFlow nodes s t (0 : Amount) fun _ _ => 0 where
  skew _ _ := neg_zero.symm
  conserved _ _ _ _ := Finset.sum_const_zero
  source := Finset.sum_const_zero

/-- Sending an amount along a path raises the value by that amount. -/
theorem NetFlow.augment (h : NetFlow nodes s t value net) (amount : Amount) (hNe : s ≠ t) {edges : List (Node × Node)}
    (hPath : Joins s edges t) (hNodes : ∀ hop ∈ edges, hop.1 ∈ nodes ∧ hop.2 ∈ nodes) :
    NetFlow nodes s t (value + amount) fun u v => net u v + carried amount edges u v where
  skew u v := by
    rw [h.skew, carried_skew, neg_add]
  conserved u hu hSource hSink := by
    rw [Finset.sum_add_distrib, h.conserved u hu hSource hSink, sum_carried hPath hNodes,
      if_neg (Ne.symm hSource), if_neg (Ne.symm hSink), sub_zero, add_zero]
  source := by
    rw [Finset.sum_add_distrib, h.source, sum_carried hPath hNodes, if_pos rfl, if_neg (Ne.symm hNe), sub_zero]

omit [DecidableEq Node] in
/-- What flows inside a set cancels out. -/
theorem sum_inside_eq_zero [IsAddTorsionFree Amount] (hSkew : ∀ u v, net v u = -net u v) (inside : Finset Node) :
    ∑ u ∈ inside, ∑ v ∈ inside, net u v = 0 := by
  have hSwap : ∑ u ∈ inside, ∑ v ∈ inside, net u v = -∑ u ∈ inside, ∑ v ∈ inside, net u v := by
    conv_lhs => rw [Finset.sum_comm]
    rw [← Finset.sum_neg_distrib]
    refine Finset.sum_congr rfl fun u _ => ?_
    rw [← Finset.sum_neg_distrib]
    exact Finset.sum_congr rfl fun v _ => hSkew u v
  exact self_eq_neg.mp hSwap

/-- The value crosses every cut. -/
theorem NetFlow.value_eq_cut [IsAddTorsionFree Amount] (h : NetFlow nodes s t value net)
    (hInside : inside ⊆ nodes) (hs : s ∈ inside) (ht : t ∉ inside) :
    value = ∑ u ∈ inside, ∑ v ∈ nodes \ inside, net u v := by
  have hOut : ∑ u ∈ inside, ∑ v ∈ nodes, net u v = value := by
    rw [Finset.sum_eq_single_of_mem s hs, h.source]
    intro u hu hNe
    exact h.conserved u (hInside hu) hNe fun hSink => ht (hSink ▸ hu)
  have hSplit (u : Node) : ∑ v ∈ nodes, net u v =
      ∑ v ∈ nodes \ inside, net u v + ∑ v ∈ inside, net u v :=
    (Finset.sum_sdiff hInside).symm
  rw [← hOut]
  simp only [hSplit, Finset.sum_add_distrib, sum_inside_eq_zero h.skew, add_zero]

section Bound

variable [LinearOrder Amount] [IsOrderedAddMonoid Amount]

/-- An amount sent along a path is at most what the path carries across a cut. -/
theorem amount_le_cut {edges : List (Node × Node)} (hPath : Joins s edges t) (hAmount : 0 ≤ amount)
    (hNodes : ∀ hop ∈ edges, hop.1 ∈ nodes ∧ hop.2 ∈ nodes) (hs : s ∈ inside) (ht : t ∉ inside) :
    amount ≤ ∑ u ∈ inside, ∑ v ∈ nodes \ inside, (edges.map fun hop => if hop = (u, v) then amount else 0).sum := by
  obtain ⟨hop, hHop, hIn, hOut⟩ := exists_crossing (P := fun x => x ∈ inside) hPath hs ht
  have hNonneg (u v : Node) : 0 ≤ (edges.map fun hop => if hop = (u, v) then amount else 0).sum := by
    refine List.sum_nonneg fun x hx => ?_
    obtain ⟨other, _, rfl⟩ := List.mem_map.mp hx
    split
    · exact hAmount
    · exact le_rfl
  have hCarries : amount ≤ (edges.map fun other => if other = (hop.1, hop.2) then amount else 0).sum := by
    have hTerm : (if hop = (hop.1, hop.2) then amount else 0) ∈
        edges.map fun other => if other = (hop.1, hop.2) then amount else 0 :=
      List.mem_map.mpr ⟨hop, hHop, rfl⟩
    rw [if_pos rfl] at hTerm
    refine List.single_le_sum (fun x hx => ?_) amount hTerm
    obtain ⟨other, _, rfl⟩ := List.mem_map.mp hx
    split
    · exact hAmount
    · exact le_rfl
  have hMem : hop.2 ∈ nodes \ inside := Finset.mem_sdiff.mpr ⟨(hNodes hop hHop).2, hOut⟩
  calc amount ≤ (edges.map fun other => if other = (hop.1, hop.2) then amount else 0).sum := hCarries
    _ ≤ ∑ v ∈ nodes \ inside, (edges.map fun other => if other = (hop.1, v) then amount else 0).sum :=
        Finset.single_le_sum (fun v _ => hNonneg hop.1 v) hMem
    _ ≤ ∑ u ∈ inside, ∑ v ∈ nodes \ inside, (edges.map fun other => if other = (u, v) then amount else 0).sum :=
        Finset.single_le_sum (f := fun u => ∑ v ∈ nodes \ inside,
          (edges.map fun other => if other = (u, v) then amount else 0).sum)
          (fun u _ => Finset.sum_nonneg fun v _ => hNonneg u v) hIn

/-- A flow that fills every edge out of a set that holds the source but not the
sink is not exceeded by paths that stay within the capacities. -/
theorem NetFlow.total_le [IsAddTorsionFree Amount] {Path : Type*} (h : NetFlow nodes s t value net)
    (capacity : Node → Node → Amount) (inside : Finset Node) (hInside : inside ⊆ nodes) (hs : s ∈ inside)
    (ht : t ∉ inside) (hFull : ∀ u ∈ inside, ∀ v ∈ nodes \ inside, capacity u v ≤ net u v)
    {paths : List Path} (edges : Path → List (Node × Node)) {sent : Path → Amount}
    (hPaths : ∀ p ∈ paths, Joins s (edges p) t ∧ 0 ≤ sent p ∧
      ∀ hop ∈ edges p, hop.1 ∈ nodes ∧ hop.2 ∈ nodes)
    (hWithin : ∀ u v, (paths.map fun p =>
      ((edges p).map fun hop => if hop = (u, v) then sent p else 0).sum).sum ≤ capacity u v) :
    (paths.map sent).sum ≤ value := by
  have hCut : (paths.map sent).sum ≤ ∑ u ∈ inside, ∑ v ∈ nodes \ inside,
      (paths.map fun p => ((edges p).map fun hop => if hop = (u, v) then sent p else 0).sum).sum := by
    clear hWithin
    induction paths with
    | nil => simp
    | cons p rest ih =>
        obtain ⟨hJoins, hSent, hNodes⟩ := hPaths p List.mem_cons_self
        have hRest := ih fun other hOther => hPaths other (List.mem_cons_of_mem _ hOther)
        simp only [List.map_cons, List.sum_cons, Finset.sum_add_distrib]
        exact add_le_add (amount_le_cut hJoins hSent hNodes hs ht) hRest
  calc (paths.map sent).sum ≤ _ := hCut
    _ ≤ ∑ u ∈ inside, ∑ v ∈ nodes \ inside, net u v :=
        Finset.sum_le_sum fun u hu => Finset.sum_le_sum fun v hv => (hWithin u v).trans (hFull u hu v hv)
    _ = value := (h.value_eq_cut hInside hs ht).symm

end Bound

end Flows

import Mathlib

/-! A bounded memory of a history. The memory is the end of the history, and
forgetting leaves a guaranteed number of its last entries. -/
namespace BoundedMemory

variable {Entry : Type*} {guaranteed : Nat} {history memory : List Entry}

/-- The memory is the end of the history, all of it or at least the guaranteed part. -/
structure Remembers (guaranteed : Nat) (history memory : List Entry) : Prop where
  suffix : memory <:+ history
  enough : memory = history ∨ guaranteed ≤ memory.length

theorem remembers_nil : Remembers guaranteed ([] : List Entry) [] := ⟨List.suffix_refl _, Or.inl rfl⟩

/-- The last entries of the history are in the memory. -/
theorem Remembers.mem_of_mem_rtake (h : Remembers guaranteed history memory) {x : Entry}
    (hx : x ∈ history.rtake guaranteed) : x ∈ memory := by
  rcases h.enough with rfl | hEnough
  · exact List.mem_of_mem_drop hx
  · obtain ⟨old, rfl⟩ := h.suffix
    rw [List.rtake, List.length_append] at hx
    have hOld : old.length ≤ old.length + memory.length - guaranteed := by omega
    rw [List.drop_append, List.drop_eq_nil_of_le hOld, List.nil_append] at hx
    exact List.mem_of_mem_drop hx

theorem Remembers.concat (h : Remembers guaranteed history memory) (x : Entry) :
    Remembers guaranteed (history ++ [x]) (memory ++ [x]) := by
  refine ⟨?_, ?_⟩
  · obtain ⟨old, rfl⟩ := h.suffix
    exact ⟨old, (List.append_assoc ..).symm⟩
  · rcases h.enough with rfl | hEnough
    · exact Or.inl rfl
    · refine Or.inr ?_
      rw [List.length_append]
      omega

/-- Forgetting from the front leaves the guaranteed part. -/
theorem Remembers.drop (h : Remembers guaranteed history memory) {n : Nat}
    (hn : guaranteed ≤ memory.length - n) : Remembers guaranteed history (memory.drop n) := by
  refine ⟨(List.drop_suffix ..).trans h.suffix, Or.inr ?_⟩
  rwa [List.length_drop]

/-- Every entry stands in a relation to the entries before it. -/
def EachAfter (R : List Entry → Entry → Prop) (log : List Entry) : Prop :=
  ∀ before entry, before ++ [entry] <+: log → R before entry

variable {R S : List Entry → Entry → Prop} {log : List Entry}

theorem eachAfter_nil : EachAfter R [] := fun before entry h => by
  have := List.prefix_nil.mp h
  simp at this

theorem EachAfter.concat (h : EachAfter R log) {x : Entry} (hx : R log x) : EachAfter R (log ++ [x]) := by
  intro before entry hPrefix
  rcases List.prefix_concat_iff.mp hPrefix with hWhole | hEarlier
  · obtain ⟨rfl, hEntry⟩ := List.append_inj' hWhole rfl
    cases hEntry
    exact hx
  · exact h before entry hEarlier

/-- Weaken the relation for the entries of the log. -/
theorem EachAfter.mono (h : EachAfter R log)
    (hRS : ∀ before entry, before ++ [entry] <+: log → R before entry → S before entry) : EachAfter S log :=
  fun before entry hPrefix => hRS before entry hPrefix (h before entry hPrefix)

end BoundedMemory

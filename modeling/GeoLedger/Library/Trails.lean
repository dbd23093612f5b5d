import Mathlib

/-! Lists of steps that join up. Every step has a source and a target, and a
trail leads from one state to another through all of its steps in order. -/
namespace Trails

variable {State Step : Type*}

/-- The steps join up from the first state to the last. -/
def Trail (source target : Step → State) : State → List Step → State → Prop
  | first, [], last => first = last
  | first, step :: rest, last => source step = first ∧ Trail source target (target step) rest last

variable {source target : Step → State} {first middle last : State} {steps rest : List Step}

theorem Trail.append (h : Trail source target first steps middle)
    (hRest : Trail source target middle rest last) :
    Trail source target first (steps ++ rest) last := by
  induction steps generalizing first with
  | nil =>
      cases h
      exact hRest
  | cons step tail ih => exact ⟨h.1, ih h.2⟩

theorem trail_singleton (step : Step) : Trail source target (source step) [step] (target step) :=
  ⟨rfl, rfl⟩

/-- Steps refined by steps of another kind: when every step is refined by a
trail between the images of its ends, the whole trail is. -/
theorem Trail.flatMap {State' Step' : Type*} {source' target' : Step' → State'} (image : State → State')
    {refine : Step → List Step'} (h : Trail source target first steps last)
    (hEach : ∀ step ∈ steps,
      Trail source' target' (image (source step)) (refine step) (image (target step))) :
    Trail source' target' (image first) (steps.flatMap refine) (image last) := by
  induction steps generalizing first with
  | nil => exact congrArg image h
  | cons step tail ih =>
      obtain ⟨rfl, hTail⟩ := h
      rw [List.flatMap_cons]
      exact (hEach step List.mem_cons_self).append
        (ih hTail fun other hOther => hEach other (List.mem_cons_of_mem _ hOther))

theorem Trail.concat {step : Step} (h : Trail source target first steps (source step)) :
    Trail source target first (steps ++ [step]) (target step) :=
  h.append (trail_singleton step)

/-- The sources of a trail, with its end, are its start with the targets. -/
theorem Trail.map_source (h : Trail source target first steps last) :
    steps.map source ++ [last] = first :: steps.map target := by
  induction steps generalizing first with
  | nil =>
      cases h
      rfl
  | cons step tail ih =>
      obtain ⟨rfl, hTail⟩ := h
      rw [List.map_cons, List.cons_append, ih hTail, List.map_cons]

/-- Steps that follow each other around a closed cycle and leave no state twice. -/
structure Circuit (source target : Step → State) (steps : List Step) : Prop where
  nonempty : steps ≠ []
  closed : steps.map target = (steps.map source).rotate 1
  simple : (steps.map source).Nodup

/-- A trail that returns to its start is a circuit when it leaves no state twice. -/
theorem Trail.circuit (h : Trail source target first steps first) (hNe : steps ≠ [])
    (hSimple : (steps.map source).Nodup) : Circuit source target steps := by
  refine ⟨hNe, ?_, hSimple⟩
  obtain ⟨step, tail, rfl⟩ := List.exists_cons_of_ne_nil hNe
  obtain ⟨rfl, -⟩ := id h
  have hEnds := h.map_source
  rw [List.map_cons, List.cons_append, List.cons.injEq] at hEnds
  rw [← hEnds.2, List.map_cons, List.rotate_cons_succ, List.rotate_zero]

end Trails

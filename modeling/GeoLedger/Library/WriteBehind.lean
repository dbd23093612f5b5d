import Mathlib
import GeoLedger.Library.Runs

/-! A session in front of a store. A step is taken in the session, which may keep
its effect back, and `settle` brings what is kept to the store. A step agrees when
it settles to the step that is taken alone on the settled state. -/
namespace WriteBehind
open Transition

variable {Session Action : Type*} {step : Session → Action → Session} {agrees : Session → Action → Prop}
  {start finish : Session} {trace : List Action}

theorem finish_eq (run : Run step agrees start trace finish) : finish = trace.foldl step start := by
  induction run with
  | nil => rfl
  | snoc prior last ih => rw [List.foldl_append, List.foldl_cons, List.foldl_nil, ih]

/-- A run ends with a step after a run. -/
theorem run_append_iff {a : Action} :
    Run step agrees start (trace ++ [a]) ((trace ++ [a]).foldl step start) ↔
      Run step agrees start trace (trace.foldl step start) ∧ agrees (trace.foldl step start) a := by
  rw [List.foldl_append, List.foldl_cons, List.foldl_nil]
  constructor
  · intro run
    generalize hTrace : trace ++ [a] = whole at run
    generalize step (trace.foldl step start) a = last at run
    cases run with
    | nil => exact absurd hTrace (by simp)
    | snoc prior hAgrees =>
        obtain ⟨rfl, hLast⟩ := List.append_inj' hTrace rfl
        cases hLast
        rw [← finish_eq prior]
        exact ⟨prior, hAgrees⟩
  · rintro ⟨prior, hAgrees⟩
    exact Run.snoc prior hAgrees

section Settling

variable {Inv : Session → Prop} {settle : Session → Session} {alone : Session → Action → Session}

/-- A run whose steps agree settles to the steps taken alone, one after another. -/
theorem settle_run (hStep : ∀ s a, Inv s → agrees s a → Inv (step s a) ∧ settle (step s a) = alone (settle s) a)
    (hStart : Inv start) (run : Run step agrees start trace finish) :
    Inv finish ∧ settle finish = trace.foldl alone (settle start) := by
  induction run with
  | nil => exact ⟨hStart, rfl⟩
  | snoc prior last ih =>
      obtain ⟨hInv, hSettle⟩ := ih
      obtain ⟨hNext, hAlone⟩ := hStep _ _ hInv last
      refine ⟨hNext, ?_⟩
      rw [hAlone, hSettle, List.foldl_append, List.foldl_cons, List.foldl_nil]

end Settling

/-- A property of the prefixes of a trace that holds as long as the steps agree
and fails at the first step that does not. -/
theorem prefixes_iff {Holds : List Action → Prop} (whole : List Action)
    (hAgrees : ∀ trace a, trace ++ [a] <+: whole →
      Run step agrees start (trace ++ [a]) ((trace ++ [a]).foldl step start) → Holds (trace ++ [a]))
    (hBreaks : ∀ trace a, trace ++ [a] <+: whole → Run step agrees start trace (trace.foldl step start) →
      ¬agrees (trace.foldl step start) a → ¬Holds (trace ++ [a])) :
    (∀ before, before ≠ [] → before <+: whole → Holds before) ↔
      Run step agrees start whole (whole.foldl step start) := by
  suffices hTrace : ∀ trace, trace <+: whole → ((∀ before, before ≠ [] → before <+: trace → Holds before) ↔
      Run step agrees start trace (trace.foldl step start)) from hTrace whole (List.prefix_refl _)
  intro trace hWhole
  induction trace using List.reverseRecOn with
  | nil =>
      refine ⟨fun _ => Run.nil, fun _ before hNe hPrefix => ?_⟩
      exact absurd (List.prefix_nil.mp hPrefix) hNe
  | append_singleton trace a ih =>
      have hPrior := ih ((List.prefix_append _ _).trans hWhole)
      constructor
      · intro h
        have run := hPrior.mp fun before hNe hPrefix => h before hNe (hPrefix.trans (List.prefix_append _ _))
        refine run_append_iff.mpr ⟨run, ?_⟩
        by_contra hNot
        exact hBreaks trace a hWhole run hNot (h _ (by simp) (List.prefix_refl _))
      · intro run before hNe hPrefix
        rcases List.prefix_concat_iff.mp hPrefix with rfl | hBefore
        · exact hAgrees trace a hWhole run
        · exact hPrior.mpr (run_append_iff.mp run).1 before hNe hBefore

end WriteBehind

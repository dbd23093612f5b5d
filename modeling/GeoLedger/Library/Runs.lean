import Mathlib

/-! Finite runs of a deterministic step function. Nondeterminism of an
environment is carried by the actions, so one list of actions is one schedule.
An admission predicate restricts which actions may be taken in which states. -/
namespace Transition

variable {State Action : Type*}

/-- A finite run from `start`. Every action was admitted in the state it was
taken from; the trace lists the actions in the order they were taken. -/
inductive Run (step : State → Action → State) (admits : State → Action → Prop) (start : State) :
    List Action → State → Prop where
  | nil : Run step admits start [] start
  | snoc {trace : List Action} {s : State} {a : Action}
      (prior : Run step admits start trace s) (last : admits s a) :
      Run step admits start (trace ++ [a]) (step s a)

variable {step : State → Action → State} {admits : State → Action → Prop}
  {start finish : State} {trace : List Action}

/-- The induction principle of a run: a property of the start that every
admitted action preserves holds in every state a run reaches. -/
theorem Run.invariant {P : State → Prop} (run : Run step admits start trace finish)
    (hStart : P start)
    (hStep : ∀ s a, P s → admits s a → P (step s a)) : P finish := by
  induction run with
  | nil => exact hStart
  | snoc prior last ih => exact hStep _ _ ih last

/-- Without an admission condition every list of actions is a run. -/
theorem Run.of_foldl (step : State → Action → State) (start : State) (trace : List Action) :
    Run step (fun _ _ => True) start trace (trace.foldl step start) := by
  induction trace using List.reverseRecOn with
  | nil => exact Run.nil
  | append_singleton trace a ih =>
      rw [List.foldl_append, List.foldl_cons, List.foldl_nil]
      exact Run.snoc ih trivial

/-- A property that every action keeps, from any state in which it holds,
holds after any number of further actions. -/
theorem foldl_invariant {P : State → Prop} (trace : List Action) (s : State) (hStart : P s)
    (hStep : ∀ s a, P s → P (step s a)) : P (trace.foldl step s) :=
  (Run.of_foldl step s trace).invariant hStart (fun s a h _ => hStep s a h)

end Transition

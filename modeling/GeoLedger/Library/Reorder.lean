import Mathlib
import GeoLedger.Library.Dict

/-! A reorder buffer. Numbered items arrive in any order and are handed on in the
order of their numbers, each as soon as all the items before it have been. -/
namespace Reorder

variable {Item State : Type*}

/-- The next number to hand on, the items that wait, and what has become of the others. -/
structure Buffer (Item State : Type*) where
  next : Nat
  ready : Dict Nat Item
  state : State

def Buffer.empty (start : State) : Buffer Item State := ⟨0, Dict.empty, start⟩

variable (step : State → Nat → Item → State)

/-- Hand on waiting items while the next number is among them, at most `fuel` ones. -/
def drain : Nat → Buffer Item State → Buffer Item State
  | 0, b => b
  | fuel + 1, b =>
      match b.ready.get? b.next with
      | none => b
      | some item => drain fuel ⟨b.next + 1, b.ready.pop b.next, step b.state b.next item⟩

/-- Hand on all that can be handed on. -/
def Buffer.flush (b : Buffer Item State) : Buffer Item State := drain step b.ready.items.length b

/-- An item arrives. -/
def Buffer.offer (b : Buffer Item State) (number : Nat) (item : Item) : Buffer Item State :=
  { b with ready := b.ready.set number item }.flush step

/-- The items up to a number, handed on in order. -/
def handOn (start : State) (arrived : Nat → Option Item) : Nat → State
  | 0 => start
  | n + 1 =>
      match arrived n with
      | none => handOn start arrived n
      | some item => step (handOn start arrived n) n item

theorem handOn_congr {start : State} {arrived arrived' : Nat → Option Item} {n : Nat}
    (h : ∀ k < n, arrived k = arrived' k) : handOn step start arrived n = handOn step start arrived' n := by
  induction n with
  | zero => rfl
  | succ n ih => rw [handOn, handOn, ih fun k hk => h k (Nat.lt_succ_of_lt hk), h n (Nat.lt_succ_self n)]

/-- A property of the start that every item keeps. -/
theorem handOn_invariant {P : Nat → State → Prop} {start : State} {arrived : Nat → Option Item} {n : Nat}
    (hStart : P 0 start) (hAll : ∀ k < n, (arrived k).isSome)
    (hStep : ∀ k s item, arrived k = some item → P k s → P (k + 1) (step s k item)) :
    P n (handOn step start arrived n) := by
  induction n with
  | zero => exact hStart
  | succ n ih =>
      obtain ⟨item, hItem⟩ := Option.isSome_iff_exists.mp (hAll n (Nat.lt_succ_self n))
      rw [handOn, hItem]
      exact hStep n _ item hItem (ih fun k hk => hAll k (Nat.lt_succ_of_lt hk))

/-- A function that commutes with the steps commutes with handing on. -/
theorem handOn_map {Item' State' : Type*} {step' : State' → Nat → Item' → State'} (onState : State → State')
    (onItem : Item → Item') (h : ∀ s k item, onState (step s k item) = step' (onState s) k (onItem item))
    (start : State) (arrived : Nat → Option Item) (n : Nat) :
    onState (handOn step start arrived n) =
      handOn step' (onState start) (fun k => (arrived k).map onItem) n := by
  induction n with
  | zero => rfl
  | succ n ih =>
      rw [handOn, handOn]
      cases hItem : arrived n with
      | none => exact ih
      | some item =>
          rw [h, ih]
          rfl

/-- A measure that every item adds to. -/
theorem handOn_measure (measure : State → Nat) (weight : Item → Nat)
    (h : ∀ s k item, measure (step s k item) = measure s + weight item) (start : State)
    (arrived : Nat → Option Item) (n : Nat) :
    measure (handOn step start arrived n) =
      measure start + ((List.range n).map fun k => (arrived k).elim 0 weight).sum := by
  induction n with
  | zero => simp [handOn]
  | succ n ih =>
      rw [handOn, List.range_succ, List.map_append, List.sum_append, List.map_singleton, List.sum_singleton]
      cases hItem : arrived n with
      | none => simpa [hItem] using ih
      | some item =>
          rw [h, ih]
          simp [Nat.add_assoc]

section Holds

/-- The buffer stands at its next number: all before it has been handed on, and
the rest of what arrived waits. -/
structure Reaches (start : State) (arrived : Nat → Option Item) (b : Buffer Item State) : Prop where
  before : ∀ k < b.next, (arrived k).isSome
  waiting : ∀ k, b.ready.get? k = if k < b.next then none else arrived k
  state : b.state = handOn step start arrived b.next

/-- The buffer has handed on all it could: the next item is missing. -/
structure Holds (start : State) (arrived : Nat → Option Item) (b : Buffer Item State) : Prop
    extends Reaches step start arrived b where
  missing : arrived b.next = none

variable {step} {start : State} {arrived : Nat → Option Item} {b : Buffer Item State}

theorem Holds.empty (start : State) : Holds step start (fun _ => none) (.empty start : Buffer Item State) where
  before k hk := absurd hk (Nat.not_lt_zero k)
  waiting k := by simp [Buffer.empty]
  state := rfl
  missing := rfl

theorem Reaches.handed {item : Item} (h : Reaches step start arrived b) (hItem : b.ready.get? b.next = some item) :
    Reaches step start arrived ⟨b.next + 1, b.ready.pop b.next, step b.state b.next item⟩ := by
  have hNext : arrived b.next = some item := by
    rw [h.waiting, if_neg (Nat.lt_irrefl _)] at hItem
    exact hItem
  refine ⟨fun k hk => ?_, fun k => ?_, ?_⟩
  · rcases Nat.lt_succ_iff_lt_or_eq.mp hk with hLess | rfl
    · exact h.before k hLess
    · rw [hNext]
      rfl
  · rw [Dict.get?_pop, h.waiting]
    by_cases hEq : k = b.next
    · rw [if_pos hEq, if_pos (show k < b.next + 1 by omega)]
    · by_cases hLess : k < b.next
      · rw [if_neg hEq, if_pos hLess, if_pos (Nat.lt_succ_of_lt hLess)]
      · rw [if_neg hEq, if_neg hLess, if_neg (show ¬k < b.next + 1 by omega)]
  · rw [h.state, handOn, hNext]

theorem length_pop_lt {d : Dict Nat Item} {k : Nat} {item : Item} (h : d.get? k = some item) :
    (d.pop k).items.length < d.items.length := by
  refine List.length_filter_lt_length_iff_exists.mpr ⟨(k, item), Dict.get?_eq_some_iff.mp h, ?_⟩
  simp

/-- With an item of fuel for each one that waits, the loop stops at a missing item. -/
theorem Reaches.drain {fuel : Nat} (h : Reaches step start arrived b) (hFuel : b.ready.items.length ≤ fuel) :
    Holds step start arrived (Reorder.drain step fuel b) := by
  induction fuel generalizing b with
  | zero =>
      have hEmpty : b.ready.get? b.next = none := by
        rw [Dict.get?, List.length_eq_zero_iff.mp (Nat.le_zero.mp hFuel)]
        rfl
      rw [h.waiting, if_neg (Nat.lt_irrefl _)] at hEmpty
      exact ⟨h, hEmpty⟩
  | succ fuel ih =>
      rw [Reorder.drain]
      cases hItem : b.ready.get? b.next with
      | none =>
          rw [h.waiting, if_neg (Nat.lt_irrefl _)] at hItem
          exact ⟨h, hItem⟩
      | some item =>
          have hLess := length_pop_lt hItem
          exact ih (h.handed hItem) (by simp only; omega)

theorem Holds.flush (h : Holds step start arrived b) : Holds step start arrived (b.flush step) :=
  h.toReaches.drain le_rfl

/-- An item with a new number arrives. -/
theorem Holds.offer (h : Holds step start arrived b) {number : Nat} (hNew : arrived number = none) (item : Item) :
    Holds step start (Function.update arrived number (some item)) (b.offer step number item) := by
  have hLater : b.next ≤ number := by
    by_contra hBefore
    have hArrived := h.before number (not_le.mp hBefore)
    rw [hNew] at hArrived
    cases hArrived
  refine Reaches.drain ⟨fun k hk => ?_, fun k => ?_, ?_⟩ le_rfl
  · by_cases hEq : k = number
    · rw [hEq, Function.update_self]
      rfl
    · rw [Function.update_of_ne hEq]
      exact h.before k hk
  · rw [Dict.get?_set, h.waiting]
    by_cases hEq : k = number
    · rw [if_pos hEq, if_neg (show ¬k < b.next by omega), hEq, Function.update_self]
    · rw [if_neg hEq, Function.update_of_ne hEq]
  · refine h.state.trans (handOn_congr step fun k hk => ?_)
    have hBefore : k < b.next := hk
    rw [Function.update_of_ne (by omega)]

/-- What has not arrived has not been handed on, nor anything after it. -/
theorem Reaches.next_le (h : Reaches step start arrived b) {number : Nat} (hMissing : arrived number = none) :
    b.next ≤ number := by
  by_contra hBefore
  have hArrived := h.before number (not_le.mp hBefore)
  rw [hMissing] at hArrived
  cases hArrived

/-- When the items below a number and no others have arrived, all have been handed on. -/
theorem Holds.next_eq (h : Holds step start arrived b) {n : Nat} (hAll : ∀ k, (arrived k).isSome ↔ k < n) :
    b.next = n := by
  refine Nat.le_antisymm (h.toReaches.next_le ?_) ?_
  · rw [← Option.not_isSome_iff_eq_none, hAll]
    exact Nat.lt_irrefl n
  · by_contra hLess
    have hArrived := (hAll b.next).mpr (not_le.mp hLess)
    rw [h.missing] at hArrived
    cases hArrived

end Holds

end Reorder

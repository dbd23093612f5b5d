import Mathlib

/-! Credit limits under reservations. Every ordered pair has a net balance, a
limit and a part reserved for later. The book is sound when whatever is reserved
can still be drawn, all of it, in any order and from both ends of a pair. -/
namespace Headroom

variable {Node G : Type*} [AddCommGroup G] [LinearOrder G] [IsOrderedAddMonoid G]

/-- What each ordered pair owes, has reserved, and may owe at most. -/
structure Book (Node G : Type*) where
  net : Node → Node → G
  reserved : Node → Node → G
  limit : Node → Node → G

/-- What is reserved fits on top of the balance. -/
def Book.Sound (b : Book Node G) : Prop := ∀ x y, b.net x y + b.reserved x y ≤ b.limit x y

variable {b b' : Book Node G}

/-- More limit, less balance or fewer reservations keep the book sound. -/
theorem Book.Sound.relax (h : b.Sound) (hNet : ∀ x y, b'.net x y ≤ b.net x y)
    (hReserved : ∀ x y, b'.reserved x y ≤ b.reserved x y) (hLimit : ∀ x y, b.limit x y ≤ b'.limit x y) :
    b'.Sound := by
  intro x y
  calc b'.net x y + b'.reserved x y ≤ b.net x y + b.reserved x y := add_le_add (hNet x y) (hReserved x y)
    _ ≤ b.limit x y := h x y
    _ ≤ b'.limit x y := hLimit x y

/-- A reservation within what the limit leaves. -/
theorem Book.Sound.reserve (h : b.Sound) {extra : Node → Node → G} (hNet : b'.net = b.net)
    (hLimit : b'.limit = b.limit) (hReserved : ∀ x y, b'.reserved x y ≤ b.reserved x y + extra x y)
    (hFits : ∀ x y, extra x y = 0 ∨ extra x y + b.reserved x y ≤ b.limit x y - b.net x y) : b'.Sound := by
  intro x y
  rw [hNet, hLimit]
  have hBound := add_le_add_right (hReserved x y) (b.net x y)
  rcases hFits x y with hNone | hRoom
  · rw [hNone, add_zero] at hBound
    exact hBound.trans (h x y)
  · refine hBound.trans ?_
    rw [add_comm (b.reserved x y)]
    exact le_sub_iff_add_le'.mp hRoom

/-- Drawing reserved amounts moves them from the reservations to the balance; what the
other end draws only lowers the balance. -/
theorem Book.Sound.draw (h : b.Sound) {drawn : Node → Node → G} (hNonneg : ∀ x y, 0 ≤ drawn x y)
    (hNet : ∀ x y, b'.net x y = b.net x y + drawn x y - drawn y x)
    (hReserved : ∀ x y, b'.reserved x y = b.reserved x y - drawn x y) (hLimit : b'.limit = b.limit) :
    b'.Sound := by
  intro x y
  rw [hNet, hReserved, hLimit]
  have hSum : b.net x y + drawn x y - drawn y x + (b.reserved x y - drawn x y) =
      b.net x y + b.reserved x y - drawn y x := by
    abel
  rw [hSum]
  exact (sub_le_self _ (hNonneg y x)).trans (h x y)

omit [IsOrderedAddMonoid G] in
/-- The balance of a pair may move in any way as long as nothing of it is reserved. -/
theorem Book.Sound.move (h : b.Sound) (hReserved : b'.reserved = b.reserved) (hLimit : b'.limit = b.limit)
    (hNet : ∀ x y, b'.net x y = b.net x y ∨ (b.reserved x y = 0 ∧ b'.net x y ≤ b.limit x y)) : b'.Sound := by
  intro x y
  rw [hReserved, hLimit]
  rcases hNet x y with hSame | ⟨hFree, hWithin⟩
  · rw [hSame]
    exact h x y
  · rw [hFree, add_zero]
    exact hWithin

/-- What is reserved can be drawn. -/
theorem Book.Sound.drawable (h : b.Sound) {drawn : Node → Node → G}
    (hReserved : ∀ x y, drawn x y ≤ b.reserved x y) (x y : Node) : b.net x y + drawn x y ≤ b.limit x y := by
  calc b.net x y + drawn x y ≤ b.net x y + b.reserved x y := add_le_add_right (hReserved x y) _
    _ ≤ b.limit x y := h x y

end Headroom

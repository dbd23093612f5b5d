import Mathlib

/-! Texts whose fields are joined by a separator. A field that cannot hold the
separator is determined by the text when it stands first or last. -/
namespace Delimited

variable {Symbol : Type*} {sep : Symbol} {a b r s : List Symbol}

/-- The first field, and what follows it. -/
theorem first_field (ha : sep ∉ a) (hb : sep ∉ b) (h : a ++ sep :: r = b ++ sep :: s) : a = b ∧ r = s := by
  induction a generalizing b with
  | nil =>
      cases b with
      | nil => exact ⟨rfl, (List.cons.inj h).2⟩
      | cons y ys =>
          have hHead : sep = y := (List.cons.inj h).1
          exact absurd (hHead ▸ List.mem_cons_self) hb
  | cons x xs ih =>
      cases b with
      | nil =>
          have hHead : x = sep := (List.cons.inj h).1
          exact absurd (hHead ▸ List.mem_cons_self) ha
      | cons y ys =>
          obtain ⟨hHead, hTail⟩ := List.cons.inj h
          have hRest := ih (fun hx => ha (List.mem_cons_of_mem x hx))
            (fun hy => hb (List.mem_cons_of_mem y hy)) hTail
          exact ⟨by rw [hHead, hRest.1], hRest.2⟩

/-- The last field, and what comes before it. -/
theorem last_field (ha : sep ∉ a) (hb : sep ∉ b) (h : r ++ sep :: a = s ++ sep :: b) : r = s ∧ a = b := by
  have hReverse : a.reverse ++ sep :: r.reverse = b.reverse ++ sep :: s.reverse := by
    have hBoth := congrArg List.reverse h
    simpa using hBoth
  obtain ⟨hField, hRest⟩ := first_field (by simpa using ha) (by simpa using hb) hReverse
  exact ⟨List.reverse_injective hRest, List.reverse_injective hField⟩

/-- The decimal digits of a number hold no separator that is not a digit. -/
theorem not_mem_digits {c : Char} (hc : c.isDigit = false) (n : Nat) : c ∉ (Nat.repr n).toList := by
  intro hMem
  have hDigit : c.isDigit = true := by
    simp only [Nat.repr, String.toList_ofList] at hMem
    exact Nat.isDigit_of_mem_toDigits (by decide) (by decide) hMem
  rw [hc] at hDigit
  exact absurd hDigit (by simp)

end Delimited

import Mathlib

/-! Feeds: entries that carry increasing numbers, the readers that follow them
from a cursor, and readers that continue where another one stopped. -/
namespace Feed

variable {α : Type*} {number : α → Nat} {feed seen more : List α}

/-- The entries are numbered consecutively from `first`. -/
def Consecutive (number : α → Nat) (first : Nat) (feed : List α) : Prop :=
  feed.map number = List.range' first feed.length

theorem Consecutive.append_singleton {first : Nat} (h : Consecutive number first feed) {a : α}
    (hNumber : number a = first + feed.length) : Consecutive number first (feed ++ [a]) := by
  unfold Consecutive at *
  rw [List.map_append, h, List.length_append, List.length_singleton, List.map_singleton, hNumber,
    List.range'_concat, Nat.one_mul]

theorem Consecutive.drop {first : Nat} (h : Consecutive number first feed) (k : Nat) :
    Consecutive number (first + k) (feed.drop k) := by
  unfold Consecutive at *
  rw [List.map_drop, h, List.drop_range', Nat.mul_one, List.length_drop]

theorem Consecutive.bounds {first : Nat} (h : Consecutive number first feed) {a : α} (hMem : a ∈ feed) :
    first ≤ number a ∧ number a < first + feed.length := by
  have hNumber : number a ∈ feed.map number := List.mem_map_of_mem hMem
  rw [h, List.mem_range'_1] at hNumber
  exact hNumber

/-- The numbers increase along the feed. -/
def Increasing (number : α → Nat) (feed : List α) : Prop :=
  feed.Pairwise fun a b => number a < number b

theorem Consecutive.increasing {first : Nat} (h : Consecutive number first feed) :
    Increasing number feed := by
  have hRange : (feed.map number).Pairwise (· < ·) := h ▸ List.pairwise_lt_range'
  exact List.pairwise_map.mp hRange

theorem Increasing.filter (h : Increasing number feed) (keep : α → Bool) :
    Increasing number (feed.filter keep) := List.Pairwise.filter keep h

/-- A reader that has seen a prefix of an increasing feed has seen every entry
up to the number of any entry it has seen. -/
theorem Increasing.mem_of_prefixed (h : Increasing number feed) (hPrefix : seen <+: feed) {a last : α}
    (hMem : a ∈ feed) (hLast : last ∈ seen) (hLe : number a ≤ number last) : a ∈ seen := by
  obtain ⟨rest, rfl⟩ := hPrefix
  rcases List.mem_append.mp hMem with hSeen | hRest
  · exact hSeen
  · have hLt := (List.pairwise_append.mp h).2.2 last hLast a hRest
    omega

/-- What a reader of `offered` has to receive from the numbers after `since`: in
increasing order, nothing from before, everything offered up to the last entry
received, and besides the offered entries only `extra` ones. -/
structure GapFree (number : α → Nat) (offered extra : α → Prop) (since : Nat) (seen : List α) :
    Prop where
  increasing : Increasing number seen
  after : ∀ a ∈ seen, since < number a
  complete : ∀ a, offered a → since < number a → (∃ last ∈ seen, number a ≤ number last) → a ∈ seen
  genuine : ∀ a ∈ seen, offered a ∨ extra a

/-- A reader that continues after an entry of another one misses and repeats
nothing: what the two have seen together is without a gap. -/
theorem GapFree.resume {offered extra : α → Prop} {since : Nat} {last : α}
    (hSeen : GapFree number offered extra since (seen ++ [last]))
    (hMore : GapFree number offered extra (number last) more) :
    GapFree number offered extra since (seen ++ [last] ++ more) := by
  have hLe : ∀ a ∈ seen ++ [last], number a ≤ number last := by
    intro a ha
    rcases List.mem_append.mp ha with ha | ha
    · exact ((List.pairwise_append.mp hSeen.increasing).2.2 a ha last List.mem_cons_self).le
    · rw [List.mem_singleton.mp ha]
  have hLast : last ∈ seen ++ [last] := List.mem_append_right _ List.mem_cons_self
  constructor
  · refine List.pairwise_append.mpr ⟨hSeen.increasing, hMore.increasing, ?_⟩
    intro a ha b hb
    exact lt_of_le_of_lt (hLe a ha) (hMore.after b hb)
  · intro a ha
    rcases List.mem_append.mp ha with ha | ha
    · exact hSeen.after a ha
    · exact lt_trans (hSeen.after last hLast) (hMore.after a ha)
  · rintro a hOffered hSince ⟨top, hTop, hUpTo⟩
    by_cases hOld : number a ≤ number last
    · exact List.mem_append_left _ (hSeen.complete a hOffered hSince ⟨last, hLast, hOld⟩)
    · rcases List.mem_append.mp hTop with hTop | hTop
      · exact absurd (hUpTo.trans (hLe top hTop)) hOld
      · exact List.mem_append_right _
          (hMore.complete a hOffered (not_le.mp hOld) ⟨top, hTop, hUpTo⟩)
  · intro a ha
    rcases List.mem_append.mp ha with ha | ha
    · exact hSeen.genuine a ha
    · exact hMore.genuine a ha

/-- A prefix of the part of an increasing feed that a reader is due is gap-free. -/
theorem GapFree.of_prefixed {offered extra : α → Prop} {since : Nat} {due : List α}
    (hIncreasing : Increasing number due) (hPrefix : seen <+: due)
    (hAfter : ∀ a ∈ due, since < number a)
    (hOffered : ∀ a, offered a → since < number a → a ∈ due)
    (hGenuine : ∀ a ∈ due, offered a ∨ extra a) : GapFree number offered extra since seen where
  increasing := List.Pairwise.sublist hPrefix.sublist hIncreasing
  after a ha := hAfter a (hPrefix.subset ha)
  complete a hOff hSince := by
    rintro ⟨last, hLast, hLe⟩
    exact hIncreasing.mem_of_prefixed hPrefix (hOffered a hOff hSince) hLast hLe
  genuine a ha := hGenuine a (hPrefix.subset ha)

end Feed

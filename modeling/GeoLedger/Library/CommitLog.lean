import Mathlib

/-! Read-through caches of a store that changes. Every change is logged when it is
committed, and marked when its invalidation has run. A value is fresh for a key
when it was read after every change of the key that has been invalidated; when
none is waiting for its invalidation, a fresh value shows the current state. -/
namespace CommitLog

/-- A committed change of the store. -/
structure Entry (State : Type*) where
  before : State
  after : State
  invalidated : Bool

variable {State Key View : Type*}

/-- The store after the first changes of a log. -/
def stateAt (start : State) (log : List (Entry State)) (n : Nat) : State :=
  ((log.map Entry.after).take n).getLast?.getD start

/-- Mark the change at a position as invalidated. -/
def invalidate (log : List (Entry State)) (i : Nat) : List (Entry State) :=
  log.modify i fun entry => { entry with invalidated := true }

/-- The change shows in the view of a key. -/
def Entry.affects (view : State → Key → View) (entry : Entry State) (key : Key) : Prop :=
  view entry.before key ≠ view entry.after key

/-- Every change starts from the state that the one before it left. -/
def Chained (start : State) (log : List (Entry State)) : Prop :=
  ∀ i entry, log[i]? = some entry → entry.before = stateAt start log i

/-- The value was read when the log had `readAt` entries, after every change of
the key whose invalidation has run. -/
def Fresh (view : State → Key → View) (log : List (Entry State)) (readAt : Nat) (key : Key) : Prop :=
  ∀ i entry, log[i]? = some entry → entry.invalidated = true → entry.affects view key → i < readAt

/-- A value with the property was read when the log had `readAt` entries. -/
def Seen (start : State) (log : List (Entry State)) (readAt : Nat) (P : State → Prop) : Prop :=
  readAt ≤ log.length ∧ P (stateAt start log readAt)

variable {view : State → Key → View} {start : State} {log : List (Entry State)} {readAt n i : Nat} {key : Key}

section States

theorem stateAt_succ {entry : Entry State} (h : log[n]? = some entry) : stateAt start log (n + 1) = entry.after := by
  rw [stateAt, List.take_add_one, List.getElem?_map, h]
  simp

theorem stateAt_append (h : n ≤ log.length) (entry : Entry State) :
    stateAt start (log ++ [entry]) n = stateAt start log n := by
  rw [stateAt, List.map_append, List.take_append_of_le_length (by rwa [List.length_map]), stateAt]

theorem getElem?_invalidate {j : Nat} {entry : Entry State} (h : (invalidate log i)[j]? = some entry) :
    ∃ old, log[j]? = some old ∧ entry.before = old.before ∧ entry.after = old.after ∧
      entry.invalidated = (if i = j then true else old.invalidated) := by
  rw [invalidate, List.getElem?_modify] at h
  cases hOld : log[j]? with
  | none =>
      rw [hOld] at h
      cases h
  | some old =>
      rw [hOld, Option.map_eq_map, Option.map_some, Option.some.injEq] at h
      subst h
      refine ⟨old, rfl, ?_⟩
      split
      · exact ⟨rfl, rfl, rfl⟩
      · exact ⟨rfl, rfl, rfl⟩

theorem stateAt_invalidate : stateAt start (invalidate log i) n = stateAt start log n := by
  have hMap : (invalidate log i).map Entry.after = log.map Entry.after := by
    refine List.ext_getElem? fun j => ?_
    rw [List.getElem?_map, List.getElem?_map, invalidate, List.getElem?_modify]
    cases log[j]? with
    | none => rfl
    | some entry =>
        simp only [Option.map_eq_map, Option.map_some]
        split <;> rfl
  rw [stateAt, stateAt, hMap]

theorem length_invalidate : (invalidate log i).length = log.length := List.length_modify _ _ _

end States

section Seen

variable {P : State → Prop}

theorem Seen.commit (h : Seen start log readAt P) (entry : Entry State) : Seen start (log ++ [entry]) readAt P := by
  refine ⟨?_, ?_⟩
  · rw [List.length_append]
    exact Nat.le_add_right_of_le h.1
  · rw [stateAt_append h.1]
    exact h.2

theorem Seen.invalidate (h : Seen start log readAt P) : Seen start (invalidate log i) readAt P := by
  refine ⟨?_, ?_⟩
  · rw [length_invalidate]
    exact h.1
  · rw [stateAt_invalidate]
    exact h.2

end Seen

section Chained

theorem chained_nil : Chained start ([] : List (Entry State)) := fun i entry h => by cases h

/-- A change that starts from the current state. -/
theorem Chained.commit (h : Chained start log) (after : State) (invalidated : Bool) :
    Chained start (log ++ [⟨stateAt start log log.length, after, invalidated⟩]) := by
  intro i entry hEntry
  rcases lt_or_ge i log.length with hOld | hNew
  · rw [List.getElem?_append_left hOld] at hEntry
    rw [stateAt_append hOld.le]
    exact h i entry hEntry
  · obtain ⟨hLength, hEq⟩ := List.getElem?_eq_some_iff.mp hEntry
    obtain rfl : i = log.length := by
      rw [List.length_append, List.length_singleton] at hLength
      omega
    rw [stateAt_append le_rfl]
    rw [List.getElem_append_right le_rfl] at hEq
    simp only [Nat.sub_self, List.getElem_singleton] at hEq
    exact hEq ▸ rfl

theorem Chained.invalidate (h : Chained start log) : Chained start (invalidate log i) := by
  intro j entry hEntry
  obtain ⟨old, hOld, hBefore, -, -⟩ := getElem?_invalidate hEntry
  rw [hBefore, stateAt_invalidate]
  exact h j old hOld

/-- Changes that do not affect a key do not change its view. -/
theorem Chained.view_eq (h : Chained start log) (hLe : readAt ≤ n) (hLength : n ≤ log.length)
    (hQuiet : ∀ i entry, readAt ≤ i → log[i]? = some entry → ¬entry.affects view key) :
    view (stateAt start log readAt) key = view (stateAt start log n) key := by
  induction n, hLe using Nat.le_induction with
  | base => rfl
  | succ n hn ih =>
      have hEntry : log[n]? = some log[n] := List.getElem?_eq_getElem hLength
      rw [ih (Nat.le_of_succ_le hLength), stateAt_succ hEntry, ← h n _ hEntry]
      exact not_not.mp (hQuiet n _ hn hEntry)

end Chained

section Fresh

/-- A change that is committed but not invalidated leaves values fresh. -/
theorem Fresh.commit (h : Fresh view log readAt key) (before after : State) :
    Fresh view (log ++ [⟨before, after, false⟩]) readAt key := by
  intro i entry hEntry hInvalidated hAffects
  rcases lt_or_ge i log.length with hOld | hNew
  · rw [List.getElem?_append_left hOld] at hEntry
    exact h i entry hEntry hInvalidated hAffects
  · rw [List.getElem?_append_right hNew] at hEntry
    rw [List.mem_singleton.mp (List.mem_of_getElem? hEntry)] at hInvalidated
    cases hInvalidated

/-- After an invalidation, the values that were read after the change are fresh still. -/
theorem Fresh.invalidate (h : Fresh view log readAt key)
    (hRead : ∀ entry, log[i]? = some entry → entry.affects view key → i < readAt) :
    Fresh view (invalidate log i) readAt key := by
  intro j entry hEntry hInvalidated hAffects
  obtain ⟨old, hOld, hBefore, hAfter, hMark⟩ := getElem?_invalidate hEntry
  have hAffects : old.affects view key := by
    rw [Entry.affects, ← hBefore, ← hAfter]
    exact hAffects
  by_cases hSame : i = j
  · subst hSame
    exact hRead old hOld hAffects
  · rw [if_neg hSame] at hMark
    exact h j old hOld (hMark ▸ hInvalidated) hAffects

/-- When no change of the key waits for its invalidation, a fresh value shows
the current state. -/
theorem Fresh.view_eq (h : Fresh view log readAt key) (hChained : Chained start log)
    (hRead : readAt ≤ log.length)
    (hSettled : ∀ entry ∈ log, entry.affects view key → entry.invalidated = true) :
    view (stateAt start log readAt) key = view (stateAt start log log.length) key := by
  refine hChained.view_eq hRead le_rfl fun i entry hLe hEntry hAffects => ?_
  have hInvalidated := hSettled entry (List.mem_of_getElem? hEntry) hAffects
  exact absurd (h i entry hEntry hInvalidated hAffects) (not_lt.mpr hLe)

end Fresh

end CommitLog

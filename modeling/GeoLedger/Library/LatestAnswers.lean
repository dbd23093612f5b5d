import Mathlib

/-! Requests whose answers may come in any order. A register keeps the answer of the
latest request only; a client that numbers its requests and remembers the number of the
current one keeps such a register. -/
namespace LatestAnswers

variable {Request Answer : Type*}

/-- What happens to a register: it is cleared, a request is sent, or a request is
answered, possibly without anything to show. -/
inductive Entry (Request Answer : Type*) where
  | cleared
  | sent (request : Request)
  | answered (request : Request) (answer : Option Answer)
deriving DecidableEq

/-- The latest request since the register was cleared, and the answer that is shown. -/
structure Register (Request Answer : Type*) where
  latest : Option Request := none
  waiting : Bool := false
  shown : Option (Request × Answer) := none

variable [DecidableEq Request]

def Register.next (g : Register Request Answer) : Entry Request Answer → Register Request Answer
  | .cleared => {}
  | .sent r => { g with latest := some r, waiting := true }
  | .answered r a =>
      if g.latest = some r then { g with waiting := false, shown := (a.map fun value => (r, value)).or g.shown } else g

/-- The register after a log. -/
def register (log : List (Entry Request Answer)) : Register Request Answer := log.foldl Register.next {}

theorem register_snoc (log : List (Entry Request Answer)) (entry : Entry Request Answer) :
    register (log ++ [entry]) = (register log).next entry := by
  rw [register, List.foldl_append, List.foldl_cons, List.foldl_nil]
  rfl

section Published

/-- No request is sent and nothing is cleared. -/
def Quiet (log : List (Entry Request Answer)) : Prop := ∀ entry ∈ log, entry ≠ .cleared ∧ ∀ r, entry ≠ .sent r

/-- The request is the last one sent since the last clearing. -/
def LastSent (log : List (Entry Request Answer)) (r : Request) : Prop :=
  ∃ before between, log = before ++ .sent r :: between ∧ Quiet between

/-- The answer of a request came while it was the latest one; since then nothing was
cleared, and no later request was answered while it was the latest one. -/
def Published (log : List (Entry Request Answer)) (r : Request) (a : Answer) : Prop :=
  ∃ before between after, log = before ++ .sent r :: (between ++ .answered r (some a) :: after) ∧ Quiet between ∧
    .cleared ∉ after ∧
    ∀ r' b x y z, after = x ++ .sent r' :: (y ++ .answered r' (some b) :: z) → ¬Quiet y

omit [DecidableEq Request] in
theorem Quiet.snoc {log : List (Entry Request Answer)} (h : Quiet log) (r : Request) (a : Option Answer) :
    Quiet (log ++ [.answered r a]) := by
  intro entry hEntry
  rcases List.mem_append.mp hEntry with hLog | hLast
  · exact h entry hLog
  · rw [List.mem_singleton.mp hLast]
    exact ⟨nofun, nofun⟩

/-- The latest request is the last one sent. -/
theorem exists_of_latest {log : List (Entry Request Answer)} {r : Request} (h : (register log).latest = some r) :
    LastSent log r := by
  induction log using List.reverseRecOn with
  | nil => cases h
  | append_singleton log entry ih =>
      rw [register_snoc] at h
      cases entry with
      | cleared => cases h
      | sent q =>
          cases h
          exact ⟨log, [], rfl, nofun⟩
      | answered q a =>
          have hLatest : (register log).latest = some r := by
            rw [Register.next] at h
            split at h <;> exact h
          obtain ⟨before, between, hLog, hQuiet⟩ := ih hLatest
          exact ⟨before, between ++ [.answered q a], by rw [hLog, List.append_assoc]; rfl, hQuiet.snoc q a⟩

/-- The last request sent is the latest one. -/
theorem latest_of_quiet (before : List (Entry Request Answer)) (r : Request) {between : List (Entry Request Answer)}
    (hQuiet : Quiet between) : (register (before ++ .sent r :: between)).latest = some r := by
  induction between using List.reverseRecOn with
  | nil => rw [register_snoc]; rfl
  | append_singleton between entry ih =>
      have hPrior := ih fun other hOther => hQuiet other (List.mem_append_left _ hOther)
      obtain ⟨hCleared, hSent⟩ := hQuiet entry (List.mem_append_right _ (List.mem_singleton_self _))
      rw [← List.cons_append, ← List.append_assoc, register_snoc]
      cases entry with
      | cleared => exact absurd rfl hCleared
      | sent q => exact absurd rfl (hSent q)
      | answered q a =>
          rw [Register.next]
          split <;> exact hPrior

theorem latest_iff {log : List (Entry Request Answer)} {r : Request} :
    (register log).latest = some r ↔ LastSent log r := by
  constructor
  · exact exists_of_latest
  · rintro ⟨before, between, rfl, hQuiet⟩
    exact latest_of_quiet before r hQuiet

/-- Once the latest request is answered, and every answer has something to show, its answer is shown. -/
theorem shown_of_settled {log : List (Entry Request Answer)} {r : Request}
    (hAnswers : ∀ q, Entry.answered q none ∉ log) (hLatest : (register log).latest = some r)
    (hWaiting : (register log).waiting = false) : ∃ a, (register log).shown = some (r, a) := by
  induction log using List.reverseRecOn with
  | nil => cases hLatest
  | append_singleton log entry ih =>
      have hPrior := ih fun q hq => hAnswers q (List.mem_append_left _ hq)
      rw [register_snoc] at hLatest hWaiting ⊢
      cases entry with
      | cleared => cases hLatest
      | sent q => cases hWaiting
      | answered q a =>
          rw [Register.next] at hLatest hWaiting ⊢
          split at hLatest
          · next hOwn =>
            rw [if_pos hOwn]
            obtain rfl : q = r := Option.some.inj (hOwn.symm.trans hLatest)
            cases a with
            | none => exact absurd (List.mem_append_right _ (List.mem_singleton_self _)) (hAnswers q)
            | some value => exact ⟨value, rfl⟩
          · next hOwn =>
            rw [if_neg hOwn] at hWaiting ⊢
            exact hPrior hLatest hWaiting

/-- One more entry that clears nothing and is not the answer of the latest request. -/
theorem Published.snoc {log : List (Entry Request Answer)} {r : Request} {a : Answer} (h : Published log r a)
    {entry : Entry Request Answer} (hCleared : entry ≠ .cleared)
    (hOther : ∀ r' b, entry = .answered r' (some b) → (register log).latest ≠ some r') :
    Published (log ++ [entry]) r a := by
  obtain ⟨before, between, after, rfl, hQuiet, hAfter, hLater⟩ := h
  refine ⟨before, between, after ++ [entry], by simp, hQuiet, ?_, ?_⟩
  · rw [List.mem_append, List.mem_singleton, not_or]
    exact ⟨hAfter, hCleared.symm⟩
  · intro r' b x y z hSplit hy
    rcases List.eq_nil_or_concat z with rfl | ⟨front, last, rfl⟩
    · have hEnd : after ++ [entry] = (x ++ .sent r' :: y) ++ [.answered r' (some b)] := by
        rw [hSplit]
        simp
      obtain ⟨rfl, hLast⟩ := List.append_inj' hEnd rfl
      refine hOther r' b (List.cons.inj hLast).1 ?_
      have hPath : before ++ .sent r :: (between ++ .answered r (some a) :: (x ++ .sent r' :: y)) =
          (before ++ .sent r :: (between ++ .answered r (some a) :: x)) ++ .sent r' :: y := by simp
      rw [hPath]
      exact latest_of_quiet _ r' hy
    · have hEnd : after ++ [entry] = (x ++ .sent r' :: (y ++ .answered r' (some b) :: front)) ++ [last] := by
        rw [hSplit]
        simp
      exact hLater r' b x y front (List.append_inj' hEnd rfl).1 hy

/-- What a register shows was published. -/
theorem published_of_shown {log : List (Entry Request Answer)} {r : Request} {a : Answer}
    (h : (register log).shown = some (r, a)) : Published log r a := by
  induction log using List.reverseRecOn with
  | nil => cases h
  | append_singleton log entry ih =>
      rw [register_snoc] at h
      cases entry with
      | cleared => cases h
      | sent q => exact (ih h).snoc nofun nofun
      | answered q b =>
          rw [Register.next] at h
          split at h
          · next hLatest =>
            cases b with
            | none => exact (ih h).snoc nofun nofun
            | some value =>
                cases h
                obtain ⟨before, between, rfl, hQuiet⟩ := exists_of_latest hLatest
                refine ⟨before, between, [], by simp, hQuiet, nofun, ?_⟩
                intro r' b x y z hSplit
                simp at hSplit
          · next hLatest =>
            refine (ih h).snoc nofun fun r' value hEq => ?_
            cases hEq
            exact hLatest

end Published

section Tracks

variable {idOf : Request → ℕ} {owner : Option ℕ} {bound : ℕ} {inFlight : List Request}
  {log : List (Entry Request Answer)}

/-- The number that a client remembers picks the latest request among those in flight. -/
structure Tracks (idOf : Request → ℕ) (owner : Option ℕ) (bound : ℕ) (inFlight : List Request)
    (log : List (Entry Request Answer)) : Prop where
  unique : (inFlight.map idOf).Nodup
  bounded : ∀ r ∈ inFlight, idOf r ≤ bound
  owned : ∀ r ∈ inFlight, owner = some (idOf r) ↔ (register log).latest = some r
  waiting : (register log).waiting = true ↔ ∃ r ∈ inFlight, owner = some (idOf r)

theorem Tracks.start (owner : Option ℕ) (bound : ℕ) :
    Tracks idOf owner bound [] ([] : List (Entry Request Answer)) where
  unique := List.nodup_nil
  bounded := nofun
  owned := nofun
  waiting := ⟨nofun, nofun⟩

/-- The register waits iff its latest request is in flight. -/
theorem Tracks.waiting_iff (h : Tracks idOf owner bound inFlight log) :
    (register log).waiting = true ↔ ∃ r ∈ inFlight, LastSent log r := by
  rw [h.waiting]
  constructor
  · rintro ⟨r, hr, hOwner⟩
    exact ⟨r, hr, latest_iff.mp ((h.owned r hr).mp hOwner)⟩
  · rintro ⟨r, hr, hLast⟩
    exact ⟨r, hr, (h.owned r hr).mpr (latest_iff.mpr hLast)⟩

/-- Remembering a number that no request in flight has clears the register. -/
theorem Tracks.cleared (h : Tracks idOf owner bound inFlight log) {owner' : Option ℕ} {bound' : ℕ}
    (hBound : bound ≤ bound') (hOwner : ∀ r ∈ inFlight, owner' ≠ some (idOf r)) :
    Tracks idOf owner' bound' inFlight (log ++ [.cleared]) where
  unique := h.unique
  bounded r hr := (h.bounded r hr).trans hBound
  owned r hr := by
    rw [register_snoc]
    exact iff_of_false (hOwner r hr) nofun
  waiting := by
    rw [register_snoc]
    refine ⟨nofun, ?_⟩
    rintro ⟨r, hr, hEq⟩
    exact absurd hEq (hOwner r hr)

/-- A request with a new number. -/
theorem Tracks.sent (h : Tracks idOf owner bound inFlight log) {r : Request} (hNew : bound < idOf r) :
    Tracks idOf (some (idOf r)) (idOf r) (inFlight ++ [r]) (log ++ [.sent r]) where
  unique := by
    rw [List.map_append, List.map_singleton]
    refine List.nodup_append.mpr ⟨h.unique, List.nodup_singleton _, ?_⟩
    intro n hn m hm hEq
    obtain ⟨q, hq, rfl⟩ := List.mem_map.mp hn
    rw [List.mem_singleton.mp hm] at hEq
    have := h.bounded q hq
    omega
  bounded q hq := by
    rcases List.mem_append.mp hq with hOld | hLast
    · exact (h.bounded q hOld).trans hNew.le
    · rw [List.mem_singleton.mp hLast]
  owned q hq := by
    rw [register_snoc]
    rcases List.mem_append.mp hq with hOld | hLast
    · have hNe : idOf r ≠ idOf q := by
        have := h.bounded q hOld
        omega
      refine iff_of_false (fun hEq => hNe (Option.some.inj hEq)) fun hEq => ?_
      cases hEq
      exact hNe rfl
    · rw [List.mem_singleton.mp hLast]
      exact iff_of_true rfl rfl
  waiting := by
    rw [register_snoc]
    exact iff_of_true rfl ⟨r, List.mem_append_right _ (List.mem_singleton_self r), rfl⟩

/-- The answer of a request in flight. -/
theorem Tracks.answered (h : Tracks idOf owner bound inFlight log) {r : Request} (hr : r ∈ inFlight)
    (a : Option Answer) :
    Tracks idOf owner bound (inFlight.filter fun q => idOf q ≠ idOf r) (log ++ [.answered r a]) := by
  have hLatest : (register (log ++ [Entry.answered r a])).latest = (register log).latest := by
    rw [register_snoc, Register.next]
    split <;> rfl
  constructor
  · exact h.unique.sublist (List.filter_sublist.map idOf)
  · exact fun q hq => h.bounded q (List.mem_of_mem_filter hq)
  · intro q hq
    rw [hLatest]
    exact h.owned q (List.mem_of_mem_filter hq)
  · rw [register_snoc, Register.next]
    split
    · next hOwn =>
      refine ⟨nofun, ?_⟩
      rintro ⟨q, hq, hEq⟩
      obtain ⟨-, hNe⟩ := List.mem_filter.mp hq
      have hOwner := (h.owned r hr).mpr hOwn
      exact absurd (Option.some.inj (hEq.symm.trans hOwner)) (of_decide_eq_true hNe)
    · next hOwn =>
      rw [h.waiting]
      constructor
      · rintro ⟨q, hq, hEq⟩
        refine ⟨q, List.mem_filter.mpr ⟨hq, decide_eq_true fun hId => hOwn ?_⟩, hEq⟩
        rw [hId] at hEq
        exact (h.owned r hr).mp hEq
      · rintro ⟨q, hq, hEq⟩
        exact ⟨q, List.mem_of_mem_filter hq, hEq⟩

end Tracks

end LatestAnswers

import Mathlib
import GeoLedger.Library.Runs
import GeoLedger.Simulator.PaymentsExecutor

/-! `execute_planned_payments` as a run of its tasks and of the loop that takes
their results. A task ends at any time; the loop takes the results in the order
in which the tasks ended, and before it leaves it waits for the tasks that are left. -/
namespace PaymentsExecutor

open GeoLedger

section Collection

/-- One call, with what each action does and the counters of the run it finds. -/
structure Call (Effects : Type) where
  tasks : List (Action × Attempt Effects)
  knownSender : Pid → Bool
  equivalents : List String
  maxTimeoutsPerTick : ℤ
  queueDepth : Nat
  allRejectedTicks : Nat

/-- `RealPaymentsResult`. -/
structure Result (Effects Patch : Type) where
  tally : Tally Effects Patch
  stallTicks : Nat
  stopRequested : Bool

/-- Where the function is: in the loop over the results, in its `finally` block
(with the task that raised), or left. -/
inductive Phase (Effects Patch : Type) where
  | collecting
  | gathering (raised : Option Nat)
  | returned (result : Result Effects Patch)
  | raised (task : Nat)

structure Collector (Effects Patch : Type) where
  ended : List Nat
  taken : Nat
  buffer : Reorder.Buffer (Item Effects Patch) (Tally Effects Patch)
  stopRequested : Bool
  timeoutStopTriggered : Bool
  phase : Phase Effects Patch

/-- A task ends, the loop takes the next result (with the state of the run and
the patches that would be built at that moment), or `gather` returns. -/
inductive Event (Patch : Type) where
  | ends (task : Nat)
  | take (running : Bool) (edgePatch nodePatch : Option Patch)
  | leave (running : Bool)

variable {Effects Patch : Type} (call : Call Effects)

/-- How a task ends by itself. -/
def Call.endOf (task : Nat) : Option (TaskEnd Effects) :=
  (call.tasks[task]?).map fun t => doOne call.knownSender t.1 t.2

def Call.startTally : Tally Effects Patch := Tally.start call.equivalents call.queueDepth

def Call.start : Collector Effects Patch where
  ended := []
  taken := 0
  buffer := Reorder.Buffer.empty call.startTally
  stopRequested := false
  timeoutStopTriggered := false
  phase := if call.tasks.length = 0 then .gathering none else .collecting

/-- The body of the loop for a result. -/
def Call.received (c : Collector Effects Patch) (r : ActionResult Effects) (running : Bool)
    (edgePatch nodePatch : Option Patch) : Collector Effects Patch :=
  let stop := c.stopRequested || !running
  let patched := r.status = some "COMMITTED" ∧ stop = false
  let buffer := c.buffer.offer record r.seq
    ⟨r, if patched then edgePatch else none, if patched then nodePatch else none⟩
  let triggered := decide (0 < call.maxTimeoutsPerTick ∧ call.maxTimeoutsPerTick ≤ buffer.state.timeouts) &&
    !c.timeoutStopTriggered
  { c with
    taken := c.taken + 1
    buffer := buffer
    stopRequested := stop || triggered
    timeoutStopTriggered := c.timeoutStopTriggered || triggered
    phase := if c.taken + 1 = call.tasks.length then .gathering none else .collecting }

/-- What follows the `finally` block when no task raised. -/
def Call.finish (c : Collector Effects Patch) (running : Bool) : Collector Effects Patch :=
  let buffer := c.buffer.flush record
  let stalled := 0 < call.tasks.length ∧ buffer.state.committed = 0 ∧ buffer.state.errors = 0
  { c with
    buffer := buffer
    phase := .returned
      ⟨{ buffer.state with queueDepth := 0 }, if stalled then call.allRejectedTicks + 1 else 0,
        c.stopRequested || !running⟩ }

def Call.step (c : Collector Effects Patch) : Event Patch → Collector Effects Patch
  | .ends task =>
      if task < call.tasks.length ∧ task ∉ c.ended then { c with ended := c.ended ++ [task] } else c
  | .take running edgePatch nodePatch =>
      match c.phase, c.ended[c.taken]? with
      | .collecting, some task =>
          match call.endOf task with
          | none => c
          | some .raises => { c with taken := c.taken + 1, phase := .gathering (some task) }
          | some (.returns r) => call.received c r running edgePatch nodePatch
      | _, _ => c
  | .leave running =>
      match c.phase with
      | .gathering raised =>
          if ∀ task < call.tasks.length, task ∈ c.ended then
            match raised with
            | none => call.finish c running
            | some task => { c with phase := .raised task }
          else c
      | _ => c

/-- The state after a schedule. -/
def Call.run (trace : List (Event Patch)) : Collector Effects Patch := trace.foldl call.step call.start

end Collection

section Order

variable {Effects Patch : Type} {call : Call Effects}

/-- A payment attempt returns under the number of its action. -/
theorem doOne_seq {knownSender : Pid → Bool} {action : Action} {attempt : Attempt Effects}
    {r : ActionResult Effects} (h : doOne knownSender action attempt = .returns r) : r.seq = action.seq := by
  unfold doOne at h
  split at h
  · cases h
    rfl
  · split at h
    · cases h
    · cases h
      rfl
    · split at h
      · cases h
        rfl
      · split at h
        · cases h
          rfl
        · simp only at h
          split at h <;> cases h <;> rfl

/-- The actions are numbered from zero without a gap. -/
def Call.Numbered (call : Call Effects) : Prop :=
  (call.tasks.map (·.1.seq)).Perm (List.range call.tasks.length)

instance : Decidable call.Numbered := inferInstanceAs (Decidable (List.Perm _ _))

/-- The number of a task's action. -/
def Call.HasSeq (call : Call Effects) (task seq : Nat) : Prop :=
  (call.tasks[task]?).map (·.1.seq) = some seq

theorem Call.Numbered.hasSeq_inj (h : call.Numbered) {task task' seq : Nat} (hSeq : call.HasSeq task seq)
    (hSeq' : call.HasSeq task' seq) : task = task' := by
  have hNodup : (call.tasks.map (·.1.seq)).Nodup := h.nodup_iff.mpr List.nodup_range
  rw [Call.HasSeq, ← List.getElem?_map] at hSeq hSeq'
  have hLess := (List.getElem?_eq_some_iff.mp hSeq).1
  exact (List.getElem?_inj hLess hNodup).mp (hSeq.trans hSeq'.symm)

/-- Every number below the count of the tasks belongs to a task. -/
theorem Call.Numbered.exists_task (h : call.Numbered) {seq : Nat} (hSeq : seq < call.tasks.length) :
    ∃ task < call.tasks.length, call.HasSeq task seq := by
  have hMem : seq ∈ call.tasks.map (·.1.seq) := h.mem_iff.mpr (List.mem_range.mpr hSeq)
  obtain ⟨task, hTask⟩ := List.mem_iff_getElem?.mp hMem
  refine ⟨task, ?_, by rwa [Call.HasSeq, ← List.getElem?_map]⟩
  have hLess := (List.getElem?_eq_some_iff.mp hTask).1
  rwa [List.length_map] at hLess

theorem Call.Numbered.lt (h : call.Numbered) {task seq : Nat} (hSeq : call.HasSeq task seq) :
    seq < call.tasks.length := by
  rw [Call.HasSeq, ← List.getElem?_map] at hSeq
  exact List.mem_range.mp (h.mem_iff.mp (List.mem_of_getElem? hSeq))

/-- A task that returns has the number that it returns. -/
theorem Call.hasSeq_of_endOf {task : Nat} {r : ActionResult Effects} (h : call.endOf task = some (.returns r)) :
    call.HasSeq task r.seq := by
  rw [Call.endOf, Option.map_eq_some_iff] at h
  obtain ⟨t, hTask, hEnd⟩ := h
  rw [Call.HasSeq, hTask, doOne_seq hEnd]
  rfl

/-- The tasks whose results have been taken. -/
def Collector.takenTasks (c : Collector Effects Patch) : List Nat := c.ended.take c.taken

/-- A task returned a result. -/
def Call.Returns (call : Call Effects) (task : Nat) : Prop := ∃ r, call.endOf task = some (.returns r)

/-- What holds of a phase. -/
def PhaseHolds (call : Call Effects) (c : Collector Effects Patch) : Phase Effects Patch → Prop
  | .collecting => c.taken < call.tasks.length ∧ ∀ task ∈ c.takenTasks, call.Returns task
  | .gathering none => ∀ task < call.tasks.length, task ∈ c.takenTasks ∧ call.Returns task
  | .gathering (some task) => call.endOf task = some .raises
  | .returned result =>
      (∀ task < call.tasks.length, task ∈ c.takenTasks ∧ call.Returns task) ∧
        result.tally = { c.buffer.state with queueDepth := 0 } ∧
        result.stallTicks =
          if 0 < call.tasks.length ∧ c.buffer.state.committed = 0 ∧ c.buffer.state.errors = 0 then
            call.allRejectedTicks + 1
          else 0
  | .raised task => call.endOf task = some .raises ∧ ∀ other < call.tasks.length, other ∈ c.ended

/-- The state of the loop, with the entries that the reorder buffer has received. -/
structure Collects (call : Call Effects) (c : Collector Effects Patch)
    (items : Nat → Option (Item Effects Patch)) : Prop where
  nodup : c.ended.Nodup
  bounded : ∀ task ∈ c.ended, task < call.tasks.length
  taken_le : c.taken ≤ c.ended.length
  holds : Reorder.Holds record call.startTally items c.buffer
  sound : ∀ seq item, items seq = some item →
    ∃ task ∈ c.takenTasks, call.endOf task = some (.returns item.result) ∧ item.result.seq = seq
  complete : ∀ task ∈ c.takenTasks, ∀ r, call.endOf task = some (.returns r) →
    (items r.seq).map (·.result) = some r
  phase : PhaseHolds call c c.phase

variable {c : Collector Effects Patch} {items : Nat → Option (Item Effects Patch)}

/-- The collector starts with nothing taken and nothing received. -/
theorem Collects.start (call : Call Effects) : Collects call (call.start : Collector Effects Patch) fun _ => none where
  nodup := List.nodup_nil
  bounded task hTask := absurd hTask List.not_mem_nil
  taken_le := Nat.le_refl 0
  holds := Reorder.Holds.empty call.startTally
  sound seq item hItem := nomatch hItem
  complete task hTask := absurd hTask List.not_mem_nil
  phase := by
    rw [Call.start]
    simp only
    split
    · rename_i hNone
      intro task hTask
      omega
    · rename_i hSome
      exact ⟨Nat.pos_of_ne_zero hSome, fun task hTask => absurd hTask List.not_mem_nil⟩

/-- The phase looks at the tasks taken, the tasks that ended and the tally only. -/
theorem PhaseHolds.mono {c c' : Collector Effects Patch} {p : Phase Effects Patch} (h : PhaseHolds call c p)
    (hTaken : c'.taken = c.taken) (hTasks : c'.takenTasks = c.takenTasks) (hBuffer : c'.buffer = c.buffer)
    (hEnded : ∀ task ∈ c.ended, task ∈ c'.ended) : PhaseHolds call c' p := by
  cases p with
  | collecting =>
      rw [PhaseHolds, hTaken, hTasks]
      exact h
  | gathering raised =>
      cases raised with
      | none =>
          rw [PhaseHolds, hTasks]
          exact h
      | some task => exact h
  | returned result =>
      rw [PhaseHolds, hTasks, hBuffer]
      exact h
  | raised task => exact ⟨h.1, fun other hOther => hEnded other (h.2 other hOther)⟩

/-- The end of a task joins the tasks that have ended. -/
theorem Collects.ends (h : Collects call c items) {task : Nat} (hLess : task < call.tasks.length)
    (hNew : task ∉ c.ended) : Collects call { c with ended := c.ended ++ [task] } items := by
  have hTasks : ({ c with ended := c.ended ++ [task] } : Collector Effects Patch).takenTasks = c.takenTasks :=
    List.take_append_of_le_length h.taken_le
  refine ⟨?_, ?_, ?_, h.holds, ?_, ?_, ?_⟩
  · exact List.nodup_append.mpr ⟨h.nodup, List.nodup_singleton task, fun a ha b hb => by
      rw [List.mem_singleton] at hb
      rintro rfl
      exact hNew (hb ▸ ha)⟩
  · intro other hOther
    rcases List.mem_append.mp hOther with hOld | hTask
    · exact h.bounded other hOld
    · rw [List.mem_singleton.mp hTask]
      exact hLess
  · exact h.taken_le.trans (by simp)
  · rw [hTasks]
    exact h.sound
  · rw [hTasks]
    exact h.complete
  · exact h.phase.mono rfl hTasks rfl fun other hOther => List.mem_append_left _ hOther

/-- The tasks that have ended are different tasks of the call. -/
theorem Collects.subperm (h : Collects call c items) : c.ended.Subperm (List.range call.tasks.length) :=
  List.subperm_of_subset h.nodup fun task hTask => List.mem_range.mpr (h.bounded task hTask)

/-- When as many tasks ended as there are, all did. -/
theorem Collects.mem_ended (h : Collects call c items) (hAll : call.tasks.length ≤ c.ended.length) {task : Nat}
    (hTask : task < call.tasks.length) : task ∈ c.ended := by
  have hPerm := h.subperm.perm_of_length_le (by rwa [List.length_range])
  exact hPerm.mem_iff.mpr (List.mem_range.mpr hTask)

theorem Collects.take_eq (h : Collects call c items) : c.ended.take call.tasks.length = c.ended := by
  refine List.take_of_length_le ?_
  simpa using h.subperm.length_le

/-- The task whose result is next. -/
theorem takenTasks_succ {task : Nat} (hNext : c.ended[c.taken]? = some task) :
    c.ended.take (c.taken + 1) = c.takenTasks ++ [task] := by
  rw [List.take_add_one, hNext]
  rfl

/-- The next task that has ended has not been taken before. -/
theorem Collects.next_not_taken (h : Collects call c items) {task : Nat}
    (hNext : c.ended[c.taken]? = some task) : task ∉ c.takenTasks := by
  have hNodup : (c.ended.take (c.taken + 1)).Nodup := h.nodup.sublist (List.take_sublist _ _)
  rw [takenTasks_succ hNext] at hNodup
  intro hMem
  exact (List.nodup_append.mp hNodup).2.2 task hMem task (List.mem_singleton_self task) rfl

/-- An entry that has arrived was a task's result, taken before. -/
theorem Collects.missing (h : Collects call c items) (hPlan : call.Numbered) {task seq : Nat}
    (hSeq : call.HasSeq task seq) (hTask : task ∉ c.takenTasks ∨ call.endOf task = some .raises) :
    items seq = none := by
  cases hItem : items seq with
  | none => rfl
  | some item =>
      obtain ⟨other, hTaken, hEnd, hEq⟩ := h.sound seq item hItem
      have hSame : other = task := hPlan.hasSeq_inj (hEq ▸ Call.hasSeq_of_endOf hEnd) hSeq
      rw [hSame] at hTaken hEnd
      rcases hTask with hNot | hRaises
      · exact absurd hTaken hNot
      · rw [hRaises] at hEnd
        cases hEnd

/-- A result that is received joins the items under its own number. -/
theorem Collects.received (h : Collects call c items) (hPlan : call.Numbered) (hPhase : c.phase = .collecting)
    {task : Nat} (hNext : c.ended[c.taken]? = some task) {r : ActionResult Effects}
    (hEnd : call.endOf task = some (.returns r)) (running : Bool) (edgePatch nodePatch : Option Patch) :
    ∃ items', Collects call (call.received c r running edgePatch nodePatch) items' := by
  have hCollecting : c.taken < call.tasks.length ∧ ∀ other ∈ c.takenTasks, call.Returns other := by
    have hHolds := h.phase
    rwa [hPhase] at hHolds
  have hNew : items r.seq = none :=
    h.missing hPlan (Call.hasSeq_of_endOf hEnd) (Or.inl (h.next_not_taken hNext))
  have hLength : c.taken < c.ended.length := (List.getElem?_eq_some_iff.mp hNext).1
  have hTasks : (call.received c r running edgePatch nodePatch).takenTasks = c.takenTasks ++ [task] :=
    takenTasks_succ hNext
  have hReturns : ∀ other ∈ (call.received c r running edgePatch nodePatch).takenTasks, call.Returns other := by
    intro other hOther
    rw [hTasks] at hOther
    rcases List.mem_append.mp hOther with hOld | hTask
    · exact hCollecting.2 other hOld
    · rw [List.mem_singleton.mp hTask]
      exact ⟨r, hEnd⟩
  refine ⟨Function.update items r.seq (some ⟨r, _, _⟩), h.nodup, h.bounded, hLength, h.holds.offer hNew _, ?_, ?_, ?_⟩
  · intro seq item hItem
    rw [hTasks]
    by_cases hSeq : seq = r.seq
    · rw [hSeq, Function.update_self, Option.some.injEq] at hItem
      subst hItem
      exact ⟨task, List.mem_append_right _ (List.mem_singleton_self task), hEnd, hSeq.symm⟩
    · rw [Function.update_of_ne hSeq] at hItem
      obtain ⟨other, hTaken, hOther⟩ := h.sound seq item hItem
      exact ⟨other, List.mem_append_left _ hTaken, hOther⟩
  · intro other hOther r' hEnd'
    rw [hTasks] at hOther
    by_cases hSeq : r'.seq = r.seq
    · have hSame : other = task :=
        hPlan.hasSeq_inj (hSeq ▸ Call.hasSeq_of_endOf hEnd') (Call.hasSeq_of_endOf hEnd)
      rw [hSame, hEnd] at hEnd'
      cases hEnd'
      rw [Function.update_self]
      rfl
    · rw [Function.update_of_ne hSeq]
      rcases List.mem_append.mp hOther with hOld | hTask
      · exact h.complete other hOld r' hEnd'
      · rw [List.mem_singleton.mp hTask, hEnd] at hEnd'
        cases hEnd'
        exact absurd rfl hSeq
  · have hPhase' : (call.received c r running edgePatch nodePatch).phase =
        if c.taken + 1 = call.tasks.length then .gathering none else .collecting := rfl
    rw [hPhase']
    by_cases hLast : c.taken + 1 = call.tasks.length
    · rw [if_pos hLast]
      intro other hOther
      have hMem : other ∈ (call.received c r running edgePatch nodePatch).takenTasks := by
        have hEnded := h.mem_ended (hLast ▸ hLength) hOther
        rw [← h.take_eq, ← hLast] at hEnded
        exact hEnded
      exact ⟨hMem, hReturns other hMem⟩
    · rw [if_neg hLast]
      exact ⟨Nat.lt_of_le_of_ne hCollecting.1 hLast, hReturns⟩

/-- Every event keeps the invariant. -/
theorem Collects.step (h : Collects call c items) (hPlan : call.Numbered) (event : Event Patch) :
    ∃ items', Collects call (call.step c event) items' := by
  cases event with
  | ends task =>
      rw [Call.step]
      split
      · rename_i hNew
        exact ⟨items, h.ends hNew.1 hNew.2⟩
      · exact ⟨items, h⟩
  | take running edgePatch nodePatch =>
      rw [Call.step]
      split
      · rename_i task hPhase hNext
        split
        · exact ⟨items, h⟩
        · rename_i hEnd
          have hLength : c.taken < c.ended.length := (List.getElem?_eq_some_iff.mp hNext).1
          refine ⟨items, h.nodup, h.bounded, hLength, h.holds, fun seq item hItem => ?_, fun other hOther => ?_, hEnd⟩
          · obtain ⟨other, hTaken, hOther⟩ := h.sound seq item hItem
            have hMem : other ∈ c.ended.take (c.taken + 1) := by
              rw [takenTasks_succ hNext]
              exact List.mem_append_left _ hTaken
            exact ⟨other, hMem, hOther⟩
          · intro r hReturns
            have hMem : other ∈ c.takenTasks ++ [task] := takenTasks_succ hNext ▸ hOther
            rcases List.mem_append.mp hMem with hOld | hTask
            · exact h.complete other hOld r hReturns
            · rw [List.mem_singleton.mp hTask, hEnd] at hReturns
              cases hReturns
        · rename_i r hEnd
          exact h.received hPlan hPhase hNext hEnd running edgePatch nodePatch
      · exact ⟨items, h⟩
  | leave running =>
      rw [Call.step]
      split
      · rename_i raised hPhase
        have hHolds := h.phase
        rw [hPhase] at hHolds
        split
        · rename_i hAll
          cases raised with
          | none =>
              exact ⟨items, h.nodup, h.bounded, h.taken_le, h.holds.flush, h.sound, h.complete, hHolds, rfl, rfl⟩
          | some task =>
              exact ⟨items, h.nodup, h.bounded, h.taken_le, h.holds, h.sound, h.complete, hHolds, hAll⟩
        · exact ⟨items, h⟩
      · exact ⟨items, h⟩

/-- Along every sequence of events the collector collects some items. -/
theorem Collects.run (hPlan : call.Numbered) (trace : List (Event Patch)) :
    ∃ items, Collects call (call.run trace) items :=
  Transition.foldl_invariant (P := fun c => ∃ items, Collects call c items) trace call.start
    ⟨_, Collects.start call⟩ fun _ event h => h.elim fun _ hItems => hItems.step hPlan event

end Order

section Agreement

variable {Effects Patch : Type} {call : Call Effects}

/-- An entry without the patches, which depend on when its result was taken. -/
def Item.withoutPatches (item : Item Effects Patch) : Item Effects Patch := ⟨item.result, none, none⟩

def Observation.withoutPatches (o : Observation Effects Patch) : Observation Effects Patch :=
  { o with edgePatch := none, nodePatch := none }

def Tally.withoutPatches (s : Tally Effects Patch) : Tally Effects Patch :=
  { s with observations := s.observations.map Observation.withoutPatches }

/-- What is recorded does not depend on the patches, up to the patches themselves. -/
theorem record_withoutPatches (s : Tally Effects Patch) (nextSeq : Nat) (item : Item Effects Patch) :
    (record s nextSeq item).withoutPatches = record s.withoutPatches nextSeq item.withoutPatches := by
  rw [record, record]
  cases hCode : item.result.errCode with
  | some code => simp [Item.withoutPatches, hCode, recordError, Tally.withoutPatches, Observation.withoutPatches]
  | none =>
      by_cases hStatus : item.result.status = some "COMMITTED"
      · simp only [Item.withoutPatches, hCode, hStatus, recordCommitted, Tally.withoutPatches,
          Observation.withoutPatches, List.map_append, List.map_cons, List.map_nil, if_true]
        rfl
      · simp [Item.withoutPatches, hCode, hStatus, recordRejected, Tally.withoutPatches,
          Observation.withoutPatches]

/-- Each entry adds one observation, with its number. -/
theorem record_seqs (s : Tally Effects Patch) (nextSeq : Nat) (item : Item Effects Patch) :
    (record s nextSeq item).observations.map (·.seq) = s.observations.map (·.seq) ++ [nextSeq] := by
  rw [record]
  split
  · simp [recordError]
  · split
    · simp [recordCommitted]
    · simp [recordRejected]

/-- Items handed on without a gap are observed in the order of their numbers. -/
theorem handOn_seqs {items : Nat → Option (Item Effects Patch)} {n : Nat} (hAll : ∀ k < n, (items k).isSome) :
    (Reorder.handOn record call.startTally items n).observations.map (·.seq) = List.range n :=
  Reorder.handOn_invariant record (P := fun n s => s.observations.map (·.seq) = List.range n) rfl hAll
    fun k s item _ hSeqs => by rw [record_seqs, hSeqs, List.range_succ]

variable {c c' : Collector Effects Patch} {items items' : Nat → Option (Item Effects Patch)}

/-- When every task has returned and been taken, the entries are their results. -/
theorem Collects.result_of_seq (h : Collects call c items) (hPlan : call.Numbered)
    (hAll : ∀ task < call.tasks.length, task ∈ c.takenTasks ∧ call.Returns task) {seq : Nat}
    (hSeq : seq < call.tasks.length) :
    ∃ task r, call.HasSeq task seq ∧ call.endOf task = some (.returns r) ∧
      (items seq).map (·.result) = some r := by
  obtain ⟨task, hTask, hHasSeq⟩ := hPlan.exists_task hSeq
  obtain ⟨hTaken, r, hEnd⟩ := hAll task hTask
  have hEq : r.seq = seq := Option.some.inj ((Call.hasSeq_of_endOf hEnd).symm.trans hHasSeq)
  exact ⟨task, r, hHasSeq, hEnd, hEq ▸ h.complete task hTaken r hEnd⟩

/-- When all tasks have returned, the numbers that have arrived are those below the count of
the tasks. -/
theorem Collects.arrived_iff (h : Collects call c items) (hPlan : call.Numbered)
    (hAll : ∀ task < call.tasks.length, task ∈ c.takenTasks ∧ call.Returns task) (seq : Nat) :
    (items seq).isSome ↔ seq < call.tasks.length := by
  constructor
  · intro hSome
    obtain ⟨item, hItem⟩ := Option.isSome_iff_exists.mp hSome
    obtain ⟨task, -, hEnd, hEq⟩ := h.sound seq item hItem
    exact hPlan.lt (hEq ▸ Call.hasSeq_of_endOf hEnd)
  · intro hSeq
    obtain ⟨-, r, -, -, hResult⟩ := h.result_of_seq hPlan hAll hSeq
    rw [← Option.isSome_map, hResult]
    rfl

/-- Everything has been recorded, in the order of the plan. -/
theorem Collects.state_eq (h : Collects call c items) (hPlan : call.Numbered)
    (hAll : ∀ task < call.tasks.length, task ∈ c.takenTasks ∧ call.Returns task) :
    c.buffer.state = Reorder.handOn record call.startTally items call.tasks.length := by
  rw [h.holds.state, h.holds.next_eq (h.arrived_iff hPlan hAll)]

/-- Two collections of the same results differ in the patches at most. -/
theorem Collects.agree (h : Collects call c items) (h' : Collects call c' items') (hPlan : call.Numbered)
    (hAll : ∀ task < call.tasks.length, task ∈ c.takenTasks ∧ call.Returns task)
    (hAll' : ∀ task < call.tasks.length, task ∈ c'.takenTasks ∧ call.Returns task) :
    c.buffer.state.withoutPatches = c'.buffer.state.withoutPatches := by
  have hMap := @Reorder.handOn_map _ _ (@record Effects Patch) _ _ record
    Tally.withoutPatches Item.withoutPatches record_withoutPatches call.startTally
  rw [h.state_eq hPlan hAll, h'.state_eq hPlan hAll', hMap, hMap]
  refine Reorder.handOn_congr record fun seq hSeq => ?_
  obtain ⟨task, r, hHasSeq, hEnd, hResult⟩ := h.result_of_seq hPlan hAll hSeq
  obtain ⟨task', r', hHasSeq', hEnd', hResult'⟩ := h'.result_of_seq hPlan hAll' hSeq
  rw [hPlan.hasSeq_inj hHasSeq' hHasSeq, hEnd] at hEnd'
  cases hEnd'
  have hItems : (items seq).map (·.result) = (items' seq).map (·.result) := hResult.trans hResult'.symm
  have hWithout : ∀ item : Option (Item Effects Patch),
      item.map Item.withoutPatches = (item.map (·.result)).map fun r => ⟨r, none, none⟩ := by
    intro item
    rw [Option.map_map]
    rfl
  rw [hWithout, hWithout, hItems]

end Agreement

section Ends

variable {Effects Patch : Type} {call : Call Effects} {c : Collector Effects Patch}

/-- The function has left, with a result or with the exception of a task. -/
def Phase.Left : Phase Effects Patch → Prop
  | .returned _ | .raised _ => True
  | _ => False

/-- Tasks may end in any order, each of them once. -/
theorem foldl_ends {order : List Nat} {c : Collector Effects Patch} (hNodup : (c.ended ++ order).Nodup)
    (hBounded : ∀ task ∈ order, task < call.tasks.length) :
    (order.map Event.ends).foldl call.step c = { c with ended := c.ended ++ order } := by
  induction order generalizing c with
  | nil => simp
  | cons task rest ih =>
      have hNew : task ∉ c.ended := fun hMem =>
        (List.nodup_append.mp hNodup).2.2 task hMem task List.mem_cons_self rfl
      have hAppend : c.ended ++ task :: rest = (c.ended ++ [task]) ++ rest := by simp
      rw [hAppend] at hNodup
      rw [List.map_cons, List.foldl_cons, Call.step, if_pos ⟨hBounded task List.mem_cons_self, hNew⟩,
        ih hNodup fun other hOther => hBounded other (List.mem_cons_of_mem _ hOther), hAppend]

/-- Every task of a call has an end. -/
theorem endOf_isSome {task : Nat} (hTask : task < call.tasks.length) : (call.endOf task).isSome := by
  rw [Call.endOf, List.getElem?_eq_getElem hTask]
  rfl

/-- Taking a result leaves the loop after the last one or after an exception,
and otherwise one result fewer is left to take. -/
theorem step_take {left : Nat} (hAll : ∀ task ∈ c.ended, task < call.tasks.length)
    (hLength : c.ended.length = call.tasks.length)
    (hPhase : (∃ raised, c.phase = .gathering raised) ∨ c.phase = .collecting ∧ c.taken + (left + 1) = call.tasks.length) :
    (call.step c (.take true none none)).ended = c.ended ∧
      ((∃ raised, (call.step c (.take true none none)).phase = .gathering raised) ∨
        (call.step c (.take true none none)).phase = .collecting ∧
          (call.step c (.take true none none)).taken + left = call.tasks.length ∧ 0 < left) := by
  rcases hPhase with ⟨raised, hGathering⟩ | ⟨hCollecting, hTaken⟩
  · have hSame : call.step c (.take true none none) = c := by simp only [Call.step, hGathering]
    rw [hSame]
    exact ⟨rfl, Or.inl ⟨raised, hGathering⟩⟩
  · have hLess : c.taken < c.ended.length := by omega
    have hNext := List.getElem?_eq_getElem hLess
    obtain ⟨taskEnd, hEnd⟩ := Option.isSome_iff_exists.mp
      (endOf_isSome (hAll _ (List.getElem_mem hLess)))
    cases taskEnd with
    | raises =>
        have hStep : call.step c (.take true none none) =
            { c with taken := c.taken + 1, phase := .gathering (some c.ended[c.taken]) } := by
          simp only [Call.step, hCollecting, hNext, hEnd]
        rw [hStep]
        exact ⟨rfl, Or.inl ⟨_, rfl⟩⟩
    | returns r =>
        have hStep : call.step c (.take true none none) = call.received c r true none none := by
          simp only [Call.step, hCollecting, hNext, hEnd]
        have hPhase : (call.received c r true none none).phase =
            if c.taken + 1 = call.tasks.length then .gathering none else .collecting := rfl
        rw [hStep, hPhase]
        refine ⟨rfl, ?_⟩
        by_cases hLast : c.taken + 1 = call.tasks.length
        · rw [if_pos hLast]
          exact Or.inl ⟨none, rfl⟩
        · rw [if_neg hLast]
          have hTakenSucc : (call.received c r true none none).taken = c.taken + 1 := rfl
          exact Or.inr ⟨rfl, by omega, by omega⟩

/-- Once all tasks have ended, taking those that are left one after the other goes over to
gathering. -/
theorem foldl_takes {left : Nat} {c : Collector Effects Patch} (hAll : ∀ task ∈ c.ended, task < call.tasks.length)
    (hLength : c.ended.length = call.tasks.length)
    (hPhase : (∃ raised, c.phase = .gathering raised) ∨
      c.phase = .collecting ∧ c.taken + left = call.tasks.length ∧ 0 < left) :
    ((List.replicate left (Event.take true none none)).foldl call.step c).ended = c.ended ∧
      ∃ raised, ((List.replicate left (Event.take true none none)).foldl call.step c).phase = .gathering raised := by
  induction left generalizing c with
  | zero =>
      rcases hPhase with hGathering | ⟨-, -, hNone⟩
      · exact ⟨rfl, hGathering⟩
      · exact absurd hNone (Nat.lt_irrefl 0)
  | succ left ih =>
      obtain ⟨hEnded, hStep⟩ := @step_take _ _ _ _ left hAll hLength (hPhase.imp id fun h => ⟨h.1, h.2.1⟩)
      rw [List.replicate_succ, List.foldl_cons, ← hEnded]
      exact ih (hEnded ▸ hAll) (hEnded ▸ hLength) hStep

/-- Whatever the order in which the tasks end, the function leaves. -/
theorem leaves_after (call : Call Effects) (Patch : Type) {order : List Nat}
    (hOrder : order.Perm (List.range call.tasks.length)) :
    ∃ trace : List (Event Patch), (call.run trace).ended = order ∧ (call.run trace).phase.Left := by
  have hNodup : order.Nodup := hOrder.nodup_iff.mpr List.nodup_range
  have hMem : ∀ task, task ∈ order ↔ task < call.tasks.length := fun task =>
    hOrder.mem_iff.trans List.mem_range
  have hEnds := @foldl_ends _ _ call order (call.start : Collector Effects Patch) hNodup
    fun task hTask => (hMem task).mp hTask
  have hLength : order.length = call.tasks.length := by simpa using hOrder.length_eq
  refine ⟨order.map Event.ends ++ List.replicate call.tasks.length (.take true none none) ++ [.leave true], ?_⟩
  rw [Call.run, List.foldl_append, List.foldl_append, List.foldl_cons, List.foldl_nil]
  generalize (order.map Event.ends).foldl call.step call.start = ready at hEnds
  have hReady : ready.ended = order := hEnds ▸ rfl
  have hStart : (∃ raised, ready.phase = .gathering raised) ∨
      ready.phase = .collecting ∧ ready.taken + call.tasks.length = call.tasks.length ∧ 0 < call.tasks.length := by
    rw [hEnds]
    by_cases hNone : call.tasks.length = 0
    · exact Or.inl ⟨none, if_pos hNone⟩
    · exact Or.inr ⟨if_neg hNone, Nat.zero_add _, Nat.pos_of_ne_zero hNone⟩
  obtain ⟨hEnded, raised, hPhase⟩ := foldl_takes (fun task hTask => (hMem task).mp (hReady ▸ hTask))
    (hReady ▸ hLength) hStart
  generalize (List.replicate call.tasks.length (Event.take true none none)).foldl call.step ready = c
    at hEnded hPhase
  rw [hReady] at hEnded
  have hEvery : ∀ task < call.tasks.length, task ∈ c.ended := fun task hTask => hEnded ▸ (hMem task).mpr hTask
  simp only [Call.step, hPhase]
  rw [if_pos hEvery]
  cases raised with
  | none => exact ⟨hEnded, trivial⟩
  | some task => exact ⟨hEnded, trivial⟩

end Ends

section Statements

variable {Effects : Type}

/-- Counters, statistics and observations do not depend on the order in which the
tasks end, but for the patches of the observations. When a task raises, all have
ended before the exception leaves, and nothing from its number on is recorded. -/
theorem payments_completion_order (call : Call Effects) (Patch : Type) (hPlan : call.Numbered) :
    (∀ (trace trace' : List (Event Patch)) (result result' : Result Effects Patch),
      (call.run trace).phase = .returned result → (call.run trace').phase = .returned result' →
        (∀ task < call.tasks.length, call.Returns task) ∧
          result.tally.withoutPatches = result'.tally.withoutPatches ∧ result.stallTicks = result'.stallTicks ∧
          result.tally.observations.map (·.seq) = List.range call.tasks.length) ∧
    (∀ (trace : List (Event Patch)) (task : Nat), (call.run trace).phase = .raised task →
      call.endOf task = some .raises ∧ (∀ other < call.tasks.length, other ∈ (call.run trace).ended) ∧
        ∀ seq, call.HasSeq task seq → ∀ o ∈ (call.run trace).buffer.state.observations, o.seq < seq) ∧
    ∀ order, order.Perm (List.range call.tasks.length) →
      ∃ trace : List (Event Patch), (call.run trace).ended = order ∧ (call.run trace).phase.Left := by
  refine ⟨fun trace trace' result result' hReturned hReturned' => ?_, fun trace task hRaised => ?_,
    fun order hOrder => leaves_after call Patch hOrder⟩
  · obtain ⟨items, h⟩ := @Collects.run _ Patch _ hPlan trace
    obtain ⟨items', h'⟩ := @Collects.run _ Patch _ hPlan trace'
    have hPhase := h.phase
    have hPhase' := h'.phase
    rw [hReturned] at hPhase
    rw [hReturned'] at hPhase'
    obtain ⟨hAll, hTally, hStall⟩ := hPhase
    obtain ⟨hAll', hTally', hStall'⟩ := hPhase'
    have hAgree := h.agree h' hPlan hAll hAll'
    refine ⟨fun task hTask => (hAll task hTask).2, ?_, ?_, ?_⟩
    · rw [hTally, hTally']
      exact congrArg (fun s : Tally Effects Patch => { s with queueDepth := 0 }) hAgree
    · have hCommitted : (call.run trace).buffer.state.committed = (call.run trace').buffer.state.committed :=
        congrArg (·.committed) hAgree
      have hErrors : (call.run trace).buffer.state.errors = (call.run trace').buffer.state.errors :=
        congrArg (·.errors) hAgree
      rw [hStall, hStall', hCommitted, hErrors]
    · rw [hTally]
      have hState := h.state_eq hPlan hAll
      exact (congrArg (fun s => s.observations.map (·.seq)) hState).trans
        (handOn_seqs fun seq hSeq => (h.arrived_iff hPlan hAll seq).mpr hSeq)
  · obtain ⟨items, h⟩ := @Collects.run _ Patch _ hPlan trace
    have hPhase := h.phase
    rw [hRaised] at hPhase
    refine ⟨hPhase.1, hPhase.2, fun seq hSeq o hMem => ?_⟩
    have hNext := h.holds.toReaches.next_le (h.missing hPlan hSeq (Or.inr hPhase.1))
    have hSeqs := @handOn_seqs _ _ call _ _ h.holds.before
    rw [← h.holds.state] at hSeqs
    have hRange := hSeqs ▸ List.mem_map_of_mem hMem
    exact Nat.lt_of_lt_of_le (List.mem_range.mp hRange) hNext

/-- Two payments, of which the first times out and the second is committed, in a
run that stops after one timeout. -/
def timeoutCall : Call Unit where
  tasks := [
    (⟨0, "ALICE", "BOB", "UAH", "1"⟩, .raised ⟨"TimeoutException", true, some 504, some "E007", "Timeout"⟩),
    (⟨1, "CAROL", "DAVE", "UAH", "1"⟩, .returned "COMMITTED" [["CAROL", "DAVE"]] none)]
  knownSender := fun _ => true
  equivalents := ["UAH"]
  maxTimeoutsPerTick := 1
  queueDepth := 2
  allRejectedTicks := 0

/-- The second of two payments ends before the first, which times out, and the call is left
all the same. -/
theorem payments_completion_order_timeout : timeoutCall.Numbered ∧
    ∃ trace : List (Event Unit), (timeoutCall.run trace).ended = [1, 0] ∧ (timeoutCall.run trace).phase.Left :=
  ⟨by decide, (payments_completion_order timeoutCall Unit (by decide)).2.2 [1, 0] (by decide)⟩

/-- The committed payment has its patch when it ends first, and none when the
timeout comes before it: the run is then asked to stop. -/
theorem patch_follows_completion : timeoutCall.Numbered ∧ ∃ result result' : Result Unit Unit,
    (timeoutCall.run [.ends 1, .take true (some ()) none, .ends 0, .take true none none, .leave true]).phase =
        .returned result ∧
      (timeoutCall.run [.ends 0, .take true none none, .ends 1, .take true (some ()) none, .leave true]).phase =
        .returned result' ∧
      result.tally.observations ≠ result'.tally.observations := by
  refine ⟨by decide, _, _, rfl, rfl, fun h => ?_⟩
  have hPatches := congrArg (List.map (·.edgePatch.isSome)) h
  revert hPatches
  decide +kernel

end Statements

end PaymentsExecutor

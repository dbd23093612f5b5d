import Mathlib
import GeoLedger.Library.JsonText
import GeoLedger.Library.Runs
import GeoLedger.Simulator.EventsWriter

/-! What the event artifacts keep over a stop. A line is in the file, in the
append of its writer or in the queue of its writer, in this order, as long as at
most one writer runs and none is cancelled. -/
namespace EventsWriter
open Transition JsonText

/-- The lines among the items of a queue. -/
def linesOf (queue : List (Option String)) : List String := queue.reduceOption

/-- The sentinel is the last item of a queue, if it is there. -/
def SentinelLast : List (Option String) → Prop
  | [] => True
  | none :: rest => rest = []
  | some _ :: rest => SentinelLast rest

/-- A queue without a sentinel may take one at its end. -/
theorem sentinelLast_snoc {queue : List (Option String)} {item : Option String} (hNone : none ∉ queue) :
    SentinelLast (queue ++ [item]) := by
  induction queue with
  | nil => cases item <;> simp [SentinelLast]
  | cons head rest ih =>
      cases head with
      | none => exact absurd (List.mem_cons_self ..) hNone
      | some line => exact ih fun hMem => hNone (List.mem_cons_of_mem _ hMem)

/-- Draining splits the lines of a queue and keeps its sentinel last. -/
theorem drain_spec (budget : Nat) {queue : List (Option String)} (hLast : SentinelLast queue) :
    (drain budget queue).1 ++ linesOf (drain budget queue).2 = linesOf queue ∧
      SentinelLast (drain budget queue).2 ∧ (none ∉ queue → none ∉ (drain budget queue).2) := by
  induction budget, queue using drain.induct with
  | case1 queue => exact ⟨rfl, hLast, id⟩
  | case2 budget => exact ⟨rfl, hLast, id⟩
  | case3 budget rest =>
      have hRest : rest = [] := hLast
      subst hRest
      exact ⟨rfl, rfl, fun hNone => absurd (List.mem_cons_self ..) hNone⟩
  | case4 budget line rest ih =>
      obtain ⟨hLines, hSentinel, hNone⟩ := ih hLast
      refine ⟨?_, hSentinel, fun h => hNone fun hMem => h (List.mem_cons_of_mem _ hMem)⟩
      rw [drain, List.cons_append, hLines]
      rfl

/-- The text that a writer still has to write. -/
def Writer.rest (w : Writer) : List Char := w.append.rest ++ text (linesOf w.queue)

/-- A writer that was not cancelled: it appends nothing while it waits for a line,
and has nothing left once it is done. -/
structure Writer.Sound (w : Writer) : Prop where
  sentinel : SentinelLast w.queue
  getting : w.phase = .getting → w.append = .idle
  ended : w.phase.isRunning = false → w.phase = .done ∧ w.queue = [] ∧ w.append = .idle

/-- A step of a writer that writes `out`. -/
structure Writer.Moves (w next : Writer) (out : List Char) : Prop where
  sound : next.Sound
  rest : out ++ next.rest = w.rest
  running : next.phase.isRunning = true → w.phase.isRunning = true
  goesOn : w.phase.isRunning = true → none ∉ w.queue → next.phase.isRunning = true ∧ none ∉ next.queue

theorem Writer.Moves.refl {w : Writer} (hSound : w.Sound) : w.Moves w [] :=
  ⟨hSound, rfl, id, fun hRun hNone => ⟨hRun, hNone⟩⟩

/-- A writer that has ended owes nothing to the file. -/
theorem Writer.Sound.rest_ended {w : Writer} (hSound : w.Sound) (hEnded : w.phase.isRunning = false) :
    w.rest = [] := by
  obtain ⟨-, hQueue, hAppend⟩ := hSound.ended hEnded
  rw [Writer.rest, hQueue, hAppend]
  rfl

/-- `_events_writer_loop` takes a batch, or ends at its sentinel. -/
theorem Writer.take_moves {w : Writer} (hSound : w.Sound) : w.Moves w.take [] := by
  unfold Writer.take
  split
  · next rest hPhase hQueue =>
    have hRest : rest = [] := by
      have hLast := hSound.sentinel
      rwa [hQueue] at hLast
    subst hRest
    refine ⟨⟨trivial, nofun, fun _ => ⟨rfl, rfl, hSound.getting hPhase⟩⟩, ?_, nofun, fun _ hNone => ?_⟩
    · simp [Writer.rest, hQueue, linesOf]
    · exact absurd (hQueue ▸ List.mem_cons_self ..) hNone
  · next line rest hPhase hQueue =>
    have hLast : SentinelLast rest := by
      have hLast := hSound.sentinel
      rwa [hQueue] at hLast
    obtain ⟨hLines, hSentinel, hNone⟩ := drain_spec 1000 hLast
    refine ⟨⟨hSentinel, nofun, nofun⟩, ?_, fun _ => by rw [hPhase]; rfl, fun _ h => ⟨rfl, hNone fun hMem => h ?_⟩⟩
    · have hWhole : linesOf w.queue = line :: linesOf rest := by rw [hQueue]; rfl
      simp only [Writer.rest, Append.rest, List.nil_append, hWhole, hSound.getting hPhase, ← hLines,
        text_cons, text_append, List.append_assoc]
    · exact hQueue ▸ List.mem_cons_of_mem _ hMem
  · exact Writer.Moves.refl hSound

/-- A writer with an append in progress is suspended in it. -/
theorem Writer.Sound.appending {w : Writer} (hSound : w.Sound) (hAppend : w.append ≠ .idle) :
    w.phase = .appending := by
  cases hPhase : w.phase with
  | getting => exact absurd (hSound.getting hPhase) hAppend
  | appending => rfl
  | done => exact absurd (hSound.ended (by rw [hPhase]; rfl)).2.2 hAppend
  | cancelled => exact absurd (hSound.ended (by rw [hPhase]; rfl)).2.2 hAppend

/-- The thread of an append goes from one text to another. -/
theorem Writer.append_moves {w : Writer} {append : Append} {out : List Char} (hSound : w.Sound)
    (hAppend : w.append ≠ .idle) (hRest : out ++ append.rest = w.append.rest) :
    w.Moves { w with append := append } out := by
  have hPhase := hSound.appending hAppend
  refine ⟨⟨hSound.sentinel, ?_, ?_⟩, ?_, id, fun hRun hNone => ⟨hRun, hNone⟩⟩
  · intro hGetting
    rw [show w.phase = .getting from hGetting] at hPhase
    cases hPhase
  · intro hEnded
    rw [show w.phase.isRunning = true by rw [hPhase]; rfl] at hEnded
    cases hEnded
  · simp only [Writer.rest, ← hRest, List.append_assoc]

/-- A writer that has appended its batch goes back to its queue. -/
theorem Writer.finish_moves {w : Writer} (hSound : w.Sound) (hAppend : w.append = .writing []) :
    w.Moves { w with append := .idle, phase := if w.phase = .appending then .getting else w.phase } [] := by
  have hPhase := hSound.appending (by rw [hAppend]; nofun)
  rw [if_pos hPhase]
  refine ⟨⟨hSound.sentinel, fun _ => rfl, nofun⟩, ?_, fun _ => by rw [hPhase]; rfl, fun _ hNone => ⟨rfl, hNone⟩⟩
  simp only [Writer.rest, hAppend, Append.rest, List.nil_append]

/-- What holds of a call of `stop_events_writer`: the writer it took is no longer
the one of the run; while that writer runs nothing else is accepted, and when it
has ended every line accepted before the call is in the file. -/
structure StopSound (s : System) (call : StopCall) : Prop where
  before : call.before ≤ s.accepted.length
  taken : ∀ w, call.took = some w → w < s.started ∧ s.task ≠ some w
  running : ∀ w, call.took = some w → s.isRunning w = true →
    call.outcome = none ∧ call.before = s.accepted.length
  ended : ∀ w, call.took = some w → s.isRunning w = false → text (s.accepted.take call.before) <+: s.file
  waits : call.outcome = none → call.took ≠ none
  returned : ∀ outcome, call.outcome = some outcome → outcome = .returned

/-- Where the accepted lines are, in a run in which no wait times out and no
writer is started beside another. -/
structure Flow (s : System) : Prop where
  fields : s.queue = s.task
  registered : ∀ w, s.task = some w → s.isRunning w = true ∧ none ∉ (s.writers w).queue
  newest : ∀ w, s.isRunning w = true → w + 1 = s.started
  sound : ∀ w, (s.writers w).Sound
  written : s.file ++ (s.writers (s.started - 1)).rest = text s.accepted
  stops : ∀ call < s.called, StopSound s (s.stops call)

/-- The invariant of such a run: a writer that is not the one of the run has a
call that waits for it. -/
structure Inv (s : System) : Prop extends Flow s where
  watched : ∀ w, s.isRunning w = true → s.task = some w ∨ ∃ call, s.waitsFor call = some w

/-- The invariant holds before the first writer is started. -/
theorem inv_initial : Inv System.initial where
  fields := rfl
  registered := nofun
  newest := nofun
  sound := fun _ => ⟨trivial, nofun, fun _ => ⟨rfl, rfl, rfl⟩⟩
  written := rfl
  stops := nofun
  watched := nofun

/-- At most one writer runs. -/
theorem Flow.running_unique {s : System} (hInv : Flow s) {v w : Nat} (hv : s.isRunning v = true)
    (hw : s.isRunning w = true) : v = w := by
  have := hInv.newest v hv
  have := hInv.newest w hw
  omega

/-- When no writer runs every accepted line is in the file. -/
theorem Flow.flushed {s : System} (hInv : Flow s) (hEnded : s.isRunning (s.started - 1) = false) :
    s.file = text s.accepted := by
  rw [← hInv.written, (hInv.sound _).rest_ended hEnded, List.append_nil]

section Writer

variable {s : System} {w : Nat} {next : Writer} {out : List Char}

/-- The state in which one writer moved and wrote `out`. -/
def System.move (s : System) (w : Nat) (next : Writer) (out : List Char) : System :=
  { s.setWriter w next with file := s.file ++ out }

theorem move_nil : s.move w next [] = s.setWriter w next := by
  simp only [System.move, List.append_nil]
  rfl

theorem move_writers_of_ne {v : Nat} (hNe : v ≠ w) : (s.move w next out).writers v = s.writers v :=
  Function.update_of_ne hNe ..

theorem move_writers_self : (s.move w next out).writers w = next := Function.update_self ..

/-- A move of one writer starts no writer. -/
theorem move_isRunning (hMoves : (s.writers w).Moves next out) {v : Nat}
    (hRun : (s.move w next out).isRunning v = true) : s.isRunning v = true := by
  by_cases hEq : v = w
  · subst hEq
    rw [System.isRunning, move_writers_self] at hRun
    exact hMoves.running hRun
  · rwa [System.isRunning, move_writers_of_ne hEq] at hRun

/-- What is written and what is left add up over a step of a writer. -/
theorem move_written (hInv : Inv s) (hMoves : (s.writers w).Moves next out) :
    (s.move w next out).file ++ ((s.move w next out).writers (s.started - 1)).rest = text s.accepted := by
  by_cases hEq : s.started - 1 = w
  · rw [hEq, move_writers_self, System.move, List.append_assoc, hMoves.rest, ← hInv.written, hEq]
  · have hEnded : s.isRunning w = false := by
      by_contra hRun
      have := hInv.newest w (by simpa using hRun)
      omega
    have hOut : out ++ next.rest = [] := by rw [hMoves.rest, (hInv.sound w).rest_ended hEnded]
    rw [move_writers_of_ne hEq, System.move, (List.append_eq_nil_iff.mp hOut).1, List.append_nil]
    exact hInv.written

/-- What a stop call waits for is kept by the moves of all writers. -/
theorem StopSound.move {call : StopCall} (hCall : StopSound s call) (hInv : Inv s)
    (hMoves : (s.writers w).Moves next out) : StopSound (s.move w next out) call where
  before := hCall.before
  taken := hCall.taken
  running := fun v hTook hRun => hCall.running v hTook (move_isRunning hMoves hRun)
  ended := by
    intro v hTook hEnded
    by_cases hBefore : s.isRunning v = true
    · -- the writer of the call ends in this step, so nothing is left of the accepted lines
      have hLast : v = s.started - 1 := by
        have := hInv.newest v hBefore
        omega
      have hVW : v = w := by
        by_contra hNe
        rw [System.isRunning, move_writers_of_ne hNe] at hEnded
        exact absurd (hBefore.symm.trans hEnded) nofun
      have hWritten := move_written hInv hMoves
      rw [← hLast, hVW, move_writers_self] at hWritten
      rw [hVW, System.isRunning, move_writers_self] at hEnded
      rw [hMoves.sound.rest_ended hEnded, List.append_nil] at hWritten
      rw [(hCall.running v hTook hBefore).2, hWritten, show (s.move w next out).accepted = s.accepted from rfl,
        List.take_length]
    · exact (hCall.ended v hTook (by simpa using hBefore)).trans (List.prefix_append _ _)
  waits := hCall.waits
  returned := hCall.returned

/-- A move of one writer keeps the invariant of the system. -/
theorem inv_move (hInv : Inv s) (hMoves : (s.writers w).Moves next out) : Inv (s.move w next out) where
  fields := hInv.fields
  registered := by
    intro v hTask
    obtain ⟨hRun, hNone⟩ := hInv.registered v hTask
    by_cases hEq : v = w
    · subst hEq
      rw [System.isRunning, move_writers_self]
      exact hMoves.goesOn hRun hNone
    · rw [System.isRunning, move_writers_of_ne hEq]
      exact ⟨hRun, hNone⟩
  newest := fun v hRun => hInv.newest v (move_isRunning hMoves hRun)
  sound := by
    intro v
    by_cases hEq : v = w
    · subst hEq
      rw [move_writers_self]
      exact hMoves.sound
    · rw [move_writers_of_ne hEq]
      exact hInv.sound v
  written := move_written hInv hMoves
  stops := fun call hCall => (hInv.stops call hCall).move hInv hMoves
  watched := fun v hRun => hInv.watched v (move_isRunning hMoves hRun)

end Writer

section Source

variable {Payload : Type*} {encode : Payload → Option String} {s : System}

/-- An item that a queue takes stands at its end. -/
theorem putNowait_eq {item : Option String} {queue next : List (Option String)}
    (h : putNowait item queue = some next) : next = queue ++ [item] := by
  unfold putNowait at h
  split at h
  · exact (Option.some.inj h).symm
  · cases h

/-- The state after a line was accepted. -/
def System.accept (s : System) (w : Nat) (line : String) : System :=
  { s.setWriter w { s.writers w with queue := (s.writers w).queue ++ [some line] } with
    accepted := s.accepted ++ [line] }

theorem accept_writers_self (w : Nat) (line : String) :
    (s.accept w line).writers w = { s.writers w with queue := (s.writers w).queue ++ [some line] } :=
  Function.update_self ..

theorem accept_writers_of_ne {w v : Nat} (line : String) (hNe : v ≠ w) :
    (s.accept w line).writers v = s.writers v :=
  Function.update_of_ne hNe ..

theorem accept_isRunning (w v : Nat) (line : String) : (s.accept w line).isRunning v = s.isRunning v := by
  by_cases hEq : v = w
  · rw [hEq, System.isRunning, accept_writers_self]
    rfl
  · rw [System.isRunning, accept_writers_of_ne line hEq]
    rfl

/-- Accepting a line into the queue of the current writer keeps the invariant. -/
theorem inv_accept {w : Nat} {line : String} (hInv : Inv s) (hTask : s.task = some w) :
    Inv (s.accept w line) := by
  obtain ⟨hRun, hNone⟩ := hInv.registered w hTask
  have hLast : s.started - 1 = w := by
    have := hInv.newest w hRun
    omega
  have hSelf := accept_writers_self (s := s) w line
  refine ⟨⟨hInv.fields, ?_, ?_, ?_, ?_, ?_⟩, ?_⟩
  · intro v hTaskV
    have hEq : v = w := Option.some.inj (hTaskV.symm.trans hTask)
    subst hEq
    refine ⟨(accept_isRunning ..).trans hRun, ?_⟩
    rw [hSelf]
    simpa using hNone
  · intro v hRunV
    exact hInv.newest v ((accept_isRunning ..).symm.trans hRunV)
  · intro v
    by_cases hEq : v = w
    · subst hEq
      rw [hSelf]
      refine ⟨sentinelLast_snoc hNone, (hInv.sound v).getting, fun hEnded => ?_⟩
      exact absurd (hRun.symm.trans hEnded) nofun
    · rw [accept_writers_of_ne line hEq]
      exact hInv.sound v
  · have hWritten := hInv.written
    rw [hLast] at hWritten
    have hLines : linesOf ((s.writers w).queue ++ [some line]) = linesOf (s.writers w).queue ++ [line] := by
      rw [linesOf, List.reduceOption_append]
      rfl
    show s.file ++ ((s.accept w line).writers (s.started - 1)).rest = text (s.accepted ++ [line])
    rw [hLast, hSelf, Writer.rest, hLines, text_append, text_append, ← hWritten, Writer.rest]
    simp only [List.append_assoc]
  · intro call hCall
    have hStop := hInv.stops call hCall
    refine ⟨?_, hStop.taken, ?_, ?_, hStop.waits, hStop.returned⟩
    · have hBefore := hStop.before
      show (s.stops call).before ≤ (s.accepted ++ [line]).length
      rw [List.length_append]
      omega
    · intro v hTook hRunV
      -- the writer that accepts is the one of the run, the writer of a call is not
      have hEq := hInv.running_unique ((accept_isRunning ..).symm.trans hRunV) hRun
      exact absurd (hEq ▸ hTask) (hStop.taken v hTook).2
    · intro v hTook hEnded
      show text ((s.accepted ++ [line]).take (s.stops call).before) <+: s.file
      rw [List.take_append_of_le_length hStop.before]
      exact hStop.ended v hTook ((accept_isRunning ..).symm.trans hEnded)
  · intro v hRunV
    exact hInv.watched v ((accept_isRunning ..).symm.trans hRunV)

/-- Enqueueing an event artifact keeps the invariant, whether the queue has room or not. -/
theorem inv_enqueue (hInv : Inv s) (payload : Payload) : Inv (enqueueEventArtifact encode payload s) := by
  unfold enqueueEventArtifact
  split
  · exact hInv
  · next w hQueue =>
    split
    · exact hInv
    · next line hEncode =>
      split
      · exact hInv
      · next queue hPut =>
        rw [putNowait_eq hPut]
        exact inv_accept hInv (hInv.fields ▸ hQueue)

/-- No writer runs beside the one of the run. -/
def System.Quiet (s : System) : Prop := ∀ w, s.isRunning w = true → s.task = some w

/-- Starting a writer keeps the invariant, as no other one is at work then. -/
theorem inv_start (hInv : Inv s) {ready : Bool} (hReady : ready = true → s.Quiet) :
    Inv (startEventsWriter ready s) := by
  unfold startEventsWriter
  split
  · exact hInv
  · next hStart =>
    have hQuiet := hReady (by simpa using fun hNot => hStart (Or.inl hNot))
    have hEnded : ∀ w, s.isRunning w = false := by
      intro w
      by_contra hRun
      have hTask := hQuiet w (by simpa using hRun)
      rw [hTask] at hStart
      exact hStart (Or.inr (by simpa using hRun))
    set started : System :=
      { s.setWriter s.started {} with task := some s.started, queue := some s.started, started := s.started + 1 }
      with hStarted
    have hSelf : started.writers s.started = {} := Function.update_self ..
    have hOther : ∀ v, v ≠ s.started → started.writers v = s.writers v := fun v hNe => Function.update_of_ne hNe ..
    have hRunning : ∀ v, started.isRunning v = true → v = s.started := by
      intro v hRun
      by_contra hNe
      rw [System.isRunning, hOther v hNe] at hRun
      exact absurd ((hEnded v).symm.trans hRun) nofun
    refine ⟨⟨rfl, ?_, ?_, ?_, ?_, ?_⟩, ?_⟩
    · intro v hTask
      obtain rfl : s.started = v := Option.some.inj hTask
      rw [System.isRunning, hSelf]
      exact ⟨rfl, nofun⟩
    · intro v hRun
      rw [hRunning v hRun]
    · intro v
      by_cases hEq : v = s.started
      · rw [hEq, hSelf]
        exact ⟨trivial, fun _ => rfl, nofun⟩
      · rw [hOther v hEq]
        exact hInv.sound v
    · show s.file ++ (started.writers s.started).rest = text s.accepted
      rw [hSelf, hInv.flushed (hEnded _)]
      exact List.append_nil _
    · intro call hCall
      have hStop := hInv.stops call hCall
      refine ⟨hStop.before, fun w hTook => ?_, fun w hTook hRun => ?_, fun w hTook _ => ?_, hStop.waits,
        hStop.returned⟩
      · have hLt := (hStop.taken w hTook).1
        refine ⟨hLt.trans (Nat.lt_succ_self _), fun hTask => ?_⟩
        exact absurd (Option.some.inj hTask) hLt.ne'
      · exact absurd (hRunning w hRun) (hStop.taken w hTook).1.ne
      · exact hStop.ended w hTook (hEnded w)
    · intro v hRun
      exact Or.inl (congrArg some (hRunning v hRun).symm)

/-- The state in which the run has given its writer up, with the sentinel in the
queue of that writer if it fits. -/
def System.release (s : System) : System := putSentinel s.queue { s with task := none, queue := none }

/-- The sentinel changes neither what is accepted nor what is left to write. -/
theorem release_eq (hInv : Inv s) {w : Nat} (hTask : s.task = some w) :
    ∃ next, s.release = { s.setWriter w next with task := none, queue := none } ∧ next.Sound ∧
      next.rest = (s.writers w).rest ∧ next.phase = (s.writers w).phase := by
  obtain ⟨hRun, hNone⟩ := hInv.registered w hTask
  have hSound := hInv.sound w
  rw [System.release, hInv.fields, hTask, putSentinel]
  dsimp only
  split
  · refine ⟨s.writers w, ?_, hSound, rfl, rfl⟩
    rw [System.setWriter, Function.update_eq_self]
  · next queue hPut =>
    have hQueue : queue = (s.writers w).queue ++ [none] := putNowait_eq hPut
    refine ⟨{ s.writers w with queue := queue }, rfl, ⟨?_, hSound.getting, fun hEnded => ?_⟩, ?_, rfl⟩
    · rw [hQueue]
      exact sentinelLast_snoc hNone
    · exact absurd (hRun.symm.trans hEnded) nofun
    · have hLines : linesOf ((s.writers w).queue ++ [none]) = linesOf (s.writers w).queue := by
        rw [linesOf, List.reduceOption_append]
        exact List.append_nil _
      simp only [Writer.rest, hQueue, hLines]

theorem addStop_stops_self {call : StopCall} : (s.addStop call).stops s.called = call := Function.update_self ..

theorem addStop_stops_of_ne {call : StopCall} {k : Nat} (hNe : k ≠ s.called) :
    (s.addStop call).stops k = s.stops k :=
  Function.update_of_ne hNe ..

/-- A new call of `stop_events_writer` that is sound leaves the accepted lines where they
are. -/
theorem flow_addStop {call : StopCall} (hFlow : Flow s) (hCall : StopSound s call) : Flow (s.addStop call) where
  fields := hFlow.fields
  registered := hFlow.registered
  newest := hFlow.newest
  sound := hFlow.sound
  written := hFlow.written
  stops := by
    intro k hLt
    by_cases hEq : k = s.called
    · rw [hEq, addStop_stops_self]
      exact ⟨hCall.before, hCall.taken, hCall.running, hCall.ended, hCall.waits, hCall.returned⟩
    · rw [addStop_stops_of_ne hEq]
      have hStop := hFlow.stops k (Nat.lt_of_le_of_ne (Nat.le_of_lt_succ hLt) hEq)
      exact ⟨hStop.before, hStop.taken, hStop.running, hStop.ended, hStop.waits, hStop.returned⟩

/-- A stop call waits for the writer it has taken, until it has an outcome. -/
theorem waitsFor_eq_some {k w : Nat} :
    s.waitsFor k = some w ↔ (k < s.called ∧ (s.stops k).outcome = none) ∧ (s.stops k).took = some w := by
  unfold System.waitsFor
  split
  · next h => exact ⟨fun hTook => ⟨h, hTook⟩, And.right⟩
  · next h => exact ⟨nofun, fun hTook => absurd hTook.1 h⟩

/-- A further call leaves what the earlier ones wait for as it is. -/
theorem addStop_waitsFor {call : StopCall} {k w : Nat} (h : s.waitsFor k = some w) :
    (s.addStop call).waitsFor k = some w := by
  obtain ⟨⟨hLt, hOutcome⟩, hTook⟩ := waitsFor_eq_some.mp h
  have hSame := @addStop_stops_of_ne _ call _ hLt.ne
  exact waitsFor_eq_some.mpr ⟨⟨hLt.trans (Nat.lt_succ_self _), hSame ▸ hOutcome⟩, hSame ▸ hTook⟩

/-- The state after the run gave its writer up, whatever the sentinel did. -/
theorem flow_release (hInv : Inv s) {w : Nat} (hTask : s.task = some w) :
    Flow s.release ∧ s.release.accepted = s.accepted ∧ s.release.called = s.called ∧
      s.release.stops = s.stops ∧ s.release.started = s.started ∧ s.release.task = none ∧
      ∀ v, s.release.isRunning v = s.isRunning v := by
  obtain ⟨next, hRelease, hSound, hRest, hPhase⟩ := release_eq hInv hTask
  have hLast : s.started - 1 = w := by
    have := hInv.newest w (hInv.registered w hTask).1
    omega
  have hSelf : s.release.writers w = next := by
    rw [hRelease]
    exact Function.update_self ..
  have hOther : ∀ v, v ≠ w → s.release.writers v = s.writers v := fun v hNe => by
    rw [hRelease]
    exact Function.update_of_ne hNe ..
  have hRunning : ∀ v, s.release.isRunning v = s.isRunning v := by
    intro v
    by_cases hEq : v = w
    · rw [hEq, System.isRunning, hSelf, hPhase, System.isRunning]
    · rw [System.isRunning, hOther v hEq, System.isRunning]
  have hFields : s.release.accepted = s.accepted ∧ s.release.called = s.called ∧ s.release.stops = s.stops ∧
      s.release.started = s.started ∧ s.release.task = none ∧ s.release.queue = none ∧ s.release.file = s.file := by
    rw [hRelease]
    exact ⟨rfl, rfl, rfl, rfl, rfl, rfl, rfl⟩
  obtain ⟨hAccepted, hCalled, hStops, hStarted, hNoTask, hNoQueue, hFile⟩ := hFields
  refine ⟨⟨hNoQueue.trans hNoTask.symm, ?_, ?_, ?_, ?_, ?_⟩, hAccepted, hCalled, hStops, hStarted, hNoTask, hRunning⟩
  · intro v hTaskV
    rw [hNoTask] at hTaskV
    cases hTaskV
  · intro v hRun
    rw [hStarted]
    exact hInv.newest v ((hRunning v).symm.trans hRun)
  · intro v
    by_cases hEq : v = w
    · rw [hEq, hSelf]
      exact hSound
    · rw [hOther v hEq]
      exact hInv.sound v
  · rw [hStarted, hLast, hSelf, hFile, hRest, hAccepted, ← hInv.written, hLast]
  · intro call hCall
    rw [hCalled] at hCall
    rw [hStops]
    have hStop := hInv.stops call hCall
    refine ⟨hAccepted ▸ hStop.before, fun v hTook => ?_, fun v hTook hRun => ?_, fun v hTook hEnded => ?_,
      hStop.waits, hStop.returned⟩
    · rw [hStarted, hNoTask]
      exact ⟨(hStop.taken v hTook).1, nofun⟩
    · rw [hAccepted]
      exact hStop.running v hTook ((hRunning v).symm.trans hRun)
    · rw [hAccepted, hFile]
      exact hStop.ended v hTook ((hRunning v).symm.trans hEnded)

/-- A stop call keeps the invariant, whether or not there is a writer to take. -/
theorem inv_stop (hInv : Inv s) : Inv (stopEventsWriter s) := by
  unfold stopEventsWriter
  split
  · next hTask =>
    have hQueue := hInv.fields.trans hTask
    have hSame : ({ s with task := none, queue := none } : System) = s := by
      cases s
      cases hTask
      cases hQueue
      rfl
    rw [hSame]
    refine ⟨flow_addStop hInv.toFlow ⟨le_rfl, nofun, nofun, nofun, nofun, ?_⟩, fun w hRun => ?_⟩
    · rintro outcome ⟨⟩
      rfl
    · exact (hInv.watched w hRun).imp id fun ⟨k, hWaits⟩ => ⟨k, addStop_waitsFor hWaits⟩
  · next w hTask =>
    obtain ⟨hFlow, hAccepted, hCalled, hStops, hStarted, hNoTask, hRunning⟩ := flow_release hInv hTask
    have hRunW := (hInv.registered w hTask).1
    have hNewest := hInv.newest w hRunW
    change Inv (s.release.addStop ⟨some w, s.accepted.length, false, none⟩)
    refine ⟨flow_addStop hFlow ⟨?_, ?_, ?_, ?_, nofun, nofun⟩, fun v hRun => ?_⟩
    · exact (congrArg List.length hAccepted).ge
    · rintro v ⟨⟩
      rw [hStarted, hNoTask]
      exact ⟨by omega, nofun⟩
    · rintro v ⟨⟩ -
      exact ⟨rfl, (congrArg List.length hAccepted).symm⟩
    · rintro v ⟨⟩ hEnded
      exact absurd (hRunW.symm.trans ((hRunning w).symm.trans hEnded)) nofun
    · obtain rfl : v = w := hInv.running_unique ((hRunning v).symm.trans hRun) hRunW
      refine Or.inr ⟨s.release.called, waitsFor_eq_some.mpr ?_⟩
      have hSelf := @addStop_stops_self s.release ⟨some v, s.accepted.length, false, none⟩
      exact ⟨⟨Nat.lt_succ_self _, congrArg StopCall.outcome hSelf⟩, congrArg StopCall.took hSelf⟩

theorem endStop_stops_self {call : Nat} {timedOut : Bool} {outcome : Outcome} :
    (s.endStop call timedOut outcome).stops call =
      { s.stops call with timedOut := timedOut, outcome := some outcome } :=
  Function.update_self ..

theorem endStop_stops_of_ne {call k : Nat} {timedOut : Bool} {outcome : Outcome} (hNe : k ≠ call) :
    (s.endStop call timedOut outcome).stops k = s.stops k :=
  Function.update_of_ne hNe ..

/-- The end of a wait, by the writer's end or by its time, keeps the invariant. -/
theorem inv_waitEnds (hInv : Inv s) (call : Nat) : Inv (waitEnds call s) := by
  unfold waitEnds
  split
  · exact hInv
  · next w hWaits =>
    split
    · exact hInv
    · next hEnded =>
      obtain ⟨⟨hLt, -⟩, hTook⟩ := waitsFor_eq_some.mp hWaits
      have hStop := hInv.stops call hLt
      have hDone := ((hInv.sound w).ended (Bool.eq_false_iff.mpr hEnded)).1
      have hOutcome : afterWait (s.writers w).phase = .returned := by rw [hDone]; rfl
      rw [hOutcome]
      refine ⟨⟨hInv.fields, hInv.registered, hInv.newest, hInv.sound, hInv.written, ?_⟩, fun v hRun => ?_⟩
      · intro k hK
        by_cases hEq : k = call
        · subst hEq
          rw [endStop_stops_self]
          refine ⟨hStop.before, hStop.taken, ?_, hStop.ended, nofun, ?_⟩
          · intro v hTookV hRun
            obtain rfl : w = v := Option.some.inj (hTook.symm.trans hTookV)
            exact absurd hRun hEnded
          · rintro outcome ⟨⟩
            rfl
        · rw [endStop_stops_of_ne hEq]
          have hOther := hInv.stops k hK
          exact ⟨hOther.before, hOther.taken, hOther.running, hOther.ended, hOther.waits, hOther.returned⟩
      · refine (hInv.watched v hRun).imp id fun ⟨k, hWaitsK⟩ => ⟨k, ?_⟩
        have hNe : k ≠ call := by
          rintro rfl
          obtain rfl : w = v := Option.some.inj (hWaits.symm.trans hWaitsK)
          exact hEnded hRun
        obtain ⟨⟨hLtK, hOutcomeK⟩, hTookK⟩ := waitsFor_eq_some.mp hWaitsK
        have hSame := @endStop_stops_of_ne s _ _ false .returned hNe
        exact waitsFor_eq_some.mpr ⟨⟨hLtK, hSame ▸ hOutcomeK⟩, hSame ▸ hTookK⟩

/-- The condition on a step: no wait times out, and a writer is not started while
one runs that a stop has taken from the run. -/
def Orderly (s : System) : Action Payload → Prop
  | .timeout call => ∀ w, s.waitsFor call = some w → s.isRunning w = false
  | .start ready => ready = true → s.Quiet
  | _ => True

/-- Every orderly action keeps the invariant. -/
theorem step_inv (hInv : Inv s) {a : Action Payload} (hOrderly : Orderly s a) : Inv (step encode s a) := by
  cases a with
  | enqueue payload => exact inv_enqueue hInv payload
  | start ready => exact inv_start hInv hOrderly
  | stop => exact inv_stop hInv
  | take w =>
      rw [step, ← move_nil]
      exact inv_move hInv (Writer.take_moves (hInv.sound w))
  | begin w =>
      rw [step, beginAppend]
      split
      · next queued hAppend =>
        rw [← move_nil]
        exact inv_move hInv (Writer.append_moves (hInv.sound w) (by rw [hAppend]; nofun) (by rw [hAppend]; rfl))
      · exact hInv
  | write w n =>
      rw [step, writeSome]
      split
      · next rest hAppend =>
        refine inv_move hInv (Writer.append_moves (hInv.sound w) (by rw [hAppend]; nofun) ?_)
        rw [hAppend]
        exact List.take_append_drop n rest
      · exact hInv
  | finish w =>
      rw [step, finishAppend]
      split
      · next hAppend =>
        rw [← move_nil]
        exact inv_move hInv (Writer.finish_moves (hInv.sound w) hAppend)
      · exact hInv
  | ended call => exact inv_waitEnds hInv call
  | timeout call =>
      rw [step, waitTimesOut]
      split
      · exact hInv
      · next w hWaits =>
        rw [if_neg (by rw [hOrderly w hWaits]; nofun)]
        exact hInv

/-- What the artifacts keep. Every call of `stop_events_writer` that has ended
returned, so that `RunLifecycle.stop` goes on, and left its writer ended; a writer
that runs is the one of the run or has a call that waits for it. -/
structure Survives (s : System) : Prop where
  inOrder : s.file <+: text s.accepted
  returns : ∀ call < s.called, ∀ outcome, (s.stops call).outcome = some outcome →
    outcome = .returned ∧ GoesOn outcome
  stopped : ∀ call < s.called, (s.stops call).outcome ≠ none → ∀ w, (s.stops call).took = some w →
    s.isRunning w = false
  watched : ∀ w, s.isRunning w = true → s.task = some w ∨ ∃ call, s.waitsFor call = some w
  durable : ∀ call < s.called, (s.stops call).outcome ≠ none → (s.stops call).timedOut = false →
    (s.stops call).took ≠ none → text (s.accepted.take (s.stops call).before) <+: s.file
  flushed : (∀ w, s.isRunning w = false) → s.file = text s.accepted

/-- From the invariant follows what is asked of the artifacts. -/
theorem Inv.survives (hInv : Inv s) : Survives s where
  inOrder := hInv.written ▸ List.prefix_append _ _
  returns := by
    intro call hCall outcome hOutcome
    obtain rfl := (hInv.stops call hCall).returned outcome hOutcome
    exact ⟨rfl, goesOn_iff.mpr nofun⟩
  stopped := by
    intro call hCall hEnded w hTook
    by_contra hRun
    exact hEnded ((hInv.stops call hCall).running w hTook (by simpa using hRun)).1
  watched := hInv.watched
  durable := by
    intro call hCall hEnded _ hTook
    obtain ⟨w, hTookW⟩ := Option.ne_none_iff_exists'.mp hTook
    refine (hInv.stops call hCall).ended w hTookW ?_
    by_contra hRun
    exact hEnded ((hInv.stops call hCall).running w hTookW (by simpa using hRun)).1
  flushed := fun hEnded => hInv.flushed (hEnded _)

/-- A wait that timed out ends with the cancelled task, whose `CancelledError` is
not an `Exception`. -/
def TimeoutsEscape (s : System) : Prop :=
  ∀ call < s.called, (s.stops call).timedOut = true → (s.stops call).outcome = some .cancelled

theorem TimeoutsEscape.endStop (h : TimeoutsEscape s) {call : Nat} {timedOut : Bool} {outcome : Outcome}
    (hOutcome : timedOut = true → outcome = .cancelled) : TimeoutsEscape (s.endStop call timedOut outcome) := by
  intro k hK
  by_cases hEq : k = call
  · rw [hEq, endStop_stops_self]
    exact fun hTimedOut => congrArg some (hOutcome hTimedOut)
  · rw [endStop_stops_of_ne hEq]
    exact h k hK

theorem TimeoutsEscape.addStop (h : TimeoutsEscape s) {call : StopCall} (hCall : call.timedOut = false) :
    TimeoutsEscape (s.addStop call) := by
  intro k hK
  by_cases hEq : k = s.called
  · rw [hEq, addStop_stops_self, hCall]
    exact nofun
  · rw [addStop_stops_of_ne hEq]
    exact h k (Nat.lt_of_le_of_ne (Nat.le_of_lt_succ hK) hEq)

/-- The steps other than the calls of `stop_events_writer` leave these as they are. -/
theorem TimeoutsEscape.of_stops {next : System} (h : TimeoutsEscape s) (hStops : next.stops = s.stops)
    (hCalled : next.called = s.called) : TimeoutsEscape next := by
  intro k hK
  rw [hStops]
  exact h k (hCalled ▸ hK)

theorem putSentinel_stops (queue : Option Nat) :
    (putSentinel queue s).stops = s.stops ∧ (putSentinel queue s).called = s.called := by
  unfold putSentinel
  split
  · exact ⟨rfl, rfl⟩
  · split <;> exact ⟨rfl, rfl⟩

/-- Every action keeps that a wait that has run out of time escapes as a cancellation. -/
theorem step_timeoutsEscape (h : TimeoutsEscape s) (a : Action Payload) : TimeoutsEscape (step encode s a) := by
  cases a with
  | enqueue payload =>
      rw [step, enqueueEventArtifact]
      repeat' split
      all_goals exact h
  | start ready =>
      rw [step, startEventsWriter]
      split <;> exact h
  | stop =>
      rw [step, stopEventsWriter]
      split
      · exact TimeoutsEscape.addStop h rfl
      · obtain ⟨hStops, hCalled⟩ := putSentinel_stops (s := { s with task := none, queue := none }) s.queue
        exact TimeoutsEscape.addStop (h.of_stops hStops hCalled) rfl
  | take w => exact h
  | begin w =>
      rw [step, beginAppend]
      split <;> exact h
  | write w n =>
      rw [step, writeSome]
      split <;> exact h
  | finish w =>
      rw [step, finishAppend]
      split <;> exact h
  | ended call =>
      rw [step, waitEnds]
      split
      · exact h
      · split
        · exact h
        · exact h.endStop nofun
  | timeout call =>
      rw [step, waitTimesOut]
      split
      · exact h
      · next w hWaits =>
        split
        · next hRun =>
          refine TimeoutsEscape.endStop (h.of_stops rfl rfl) fun _ => ?_
          rw [Writer.cancel, if_pos (show (s.writers w).phase.isRunning = true from hRun)]
          rfl
        · exact h

/-- In every schedule the artifacts survive only if no wait has timed out. -/
theorem no_timeout_of_survives {trace : List (Action Payload)}
    (run : Run (step encode) (fun _ _ => True) System.initial trace s) (hSurvives : Survives s) :
    ∀ call < s.called, (s.stops call).timedOut = false := by
  have hEscape : TimeoutsEscape s := run.invariant nofun fun s a h _ => step_timeoutsEscape h a
  intro call hCall
  by_contra hTimedOut
  have hOutcome := hEscape call hCall (by simpa using hTimedOut)
  exact absurd (hSurvives.returns call hCall _ hOutcome).1 nofun

/-- In a run whose steps are orderly the artifacts survive: the file is a prefix of
the accepted lines, every stop returns with its writer ended and the lines accepted
before it in the file, and the shutdown of the run goes on. -/
theorem artifacts_survive {trace : List (Action Payload)}
    (run : Run (step encode) Orderly System.initial trace s) : Survives s :=
  (run.invariant inv_initial fun _ _ hInv hOrderly => step_inv hInv hOrderly).survives

end Source

/-- The line of a payload, `json.dumps(payload, ensure_ascii=False, separators=(",", ":")) + "\n"`. -/
def line (payload : List (String × Json)) : Option String :=
  some (String.ofList (dumps Escaping.unicode (.dict payload) ++ ['\n']))

/-- A stop that waits until the line it found in the queue is written. -/
theorem artifacts_survive_flushed :
    Survives
      ([.start true, .enqueue [("type", .text "tx")], .stop, .take 0, .begin 0, .write 0 14, .finish 0, .take 0,
        .ended 0].foldl (step line) System.initial) := by
  have started : Run (step line) Orderly System.initial [.start true] (step line System.initial (.start true)) :=
    Run.nil.snoc (a := Action.start true) fun _ w (hRun : false = true) => nomatch hRun
  have stopping := ((started.snoc (a := Action.enqueue [("type", .text "tx")]) (by trivial)).snoc
    (a := Action.stop) (by trivial)).snoc (a := Action.take 0) (by trivial)
  have written := ((stopping.snoc (a := Action.begin 0) (by trivial)).snoc
    (a := Action.write 0 14) (by trivial)).snoc (a := Action.finish 0) (by trivial)
  exact artifacts_survive
    ((written.snoc (a := Action.take 0) (by trivial)).snoc (a := Action.ended 0) (by trivial))

/-- A wait that times out while the append is in progress: the cancellation of the
writer comes out of `stop_events_writer`, and the run is not persisted. -/
theorem slow_append_escapes :
    ¬∀ (trace : List (Action (List (String × Json)))) (s : System),
      Run (step line) (fun _ _ => True) System.initial trace s → Survives s := by
  intro h
  have hSurvives := h [.start true, .enqueue [("type", .text "tx")], .take 0, .begin 0, .stop, .timeout 0] _
    (Run.of_foldl _ _ _)
  exact absurd (hSurvives.returns 0 (by decide) .cancelled rfl).1 nofun

end EventsWriter

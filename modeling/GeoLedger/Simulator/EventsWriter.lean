import Mathlib
import GeoLedger.Library.Runs

/-! The event artifacts of a run. Lines are accepted into the bounded queue of a
writer task, which appends them in batches to `events.ndjson` through a worker
thread; `stop_events_writer` takes the writer from the run, sends it a sentinel
and waits for it. Actions are the steps between two awaits. -/
namespace EventsWriter

/-- The text of lines, `"".join(lines)`, as characters. -/
def text (lines : List String) : List Char := lines.flatMap String.toList

@[simp] theorem text_nil : text [] = [] := rfl

@[simp] theorem text_cons (line : String) (lines : List String) : text (line :: lines) = line.toList ++ text lines :=
  rfl

@[simp] theorem text_append (xs ys : List String) : text (xs ++ ys) = text xs ++ text ys :=
  List.flatMap_append

/-- Where a writer task is suspended, or how it ended. -/
inductive Phase where
  | getting
  | appending
  | done
  | cancelled
deriving DecidableEq

/-- `task.done()` is false. -/
def Phase.isRunning : Phase → Bool
  | .getting | .appending => true
  | .done | .cancelled => false

/-- The append handed to `asyncio.to_thread`: waiting for a thread, or partly
written with the text that is left. -/
inductive Append where
  | idle
  | queued (text : List Char)
  | writing (rest : List Char)
deriving DecidableEq

def Append.rest : Append → List Char
  | .idle => []
  | .queued text => text
  | .writing rest => rest

/-- A cancelled future takes its call back while no thread has begun it; a thread
that runs goes on. -/
def Append.cancel : Append → Append
  | .idle | .queued _ => .idle
  | .writing rest => .writing rest

/-- A writer task with its own queue; `none` is the sentinel. -/
structure Writer where
  queue : List (Option String) := []
  phase : Phase := .getting
  append : Append := .idle
deriving DecidableEq

/-- The queue of `start_events_writer` holds this many items at most. -/
def maxsize : Nat := 10000

/-- `q.put_nowait(item)`, which raises `QueueFull` when there is no room. -/
def putNowait (item : Option String) (queue : List (Option String)) : Option (List (Option String)) :=
  if queue.length < maxsize then some (queue ++ [item]) else none

/-- The batch of `_events_writer_loop` beyond its first line. The sentinel is put
back; the queue has room, as two items were just taken from it. -/
def drain : Nat → List (Option String) → List String × List (Option String)
  | 0, queue => ([], queue)
  | _ + 1, [] => ([], [])
  | _ + 1, none :: rest => ([], rest ++ [none])
  | budget + 1, some line :: rest => (line :: (drain budget rest).1, (drain budget rest).2)

/-- `_events_writer_loop` from `queue.get()` to its next await. -/
def Writer.take (w : Writer) : Writer :=
  match w.phase, w.queue with
  | .getting, none :: rest => { w with queue := rest, phase := .done }
  | .getting, some line :: rest =>
      { queue := (drain 1000 rest).2, phase := .appending, append := .queued (text (line :: (drain 1000 rest).1)) }
  | _, _ => w

/-- The task is cancelled at its await, and no handler of the loop takes
`CancelledError`. -/
def Writer.cancel (w : Writer) : Writer :=
  if w.phase.isRunning then { w with phase := .cancelled, append := w.append.cancel } else w

/-- How an awaited call ends: normally, with a subclass of `Exception`, or with
`asyncio.CancelledError`, which is none. -/
inductive Outcome where
  | returned
  | failed
  | cancelled
deriving DecidableEq

/-- The result of a task that has ended. -/
def Phase.outcome : Phase → Outcome
  | .cancelled => .cancelled
  | _ => .returned

/-- `try: ... except Exception: log`. -/
def exceptException : Outcome → Outcome
  | .failed => .returned
  | outcome => outcome

/-- A call of `stop_events_writer`: the writer it took from the run, the number of
lines accepted before it, and how it ended; `outcome` is empty while it waits. -/
structure StopCall where
  took : Option Nat := none
  before : Nat := 0
  timedOut : Bool := false
  outcome : Option Outcome := none
deriving DecidableEq

/-- `_artifact_events_task` and `_artifact_events_queue` of the run, the writers
in the order they were started, the file, the accepted lines, and the calls of
`stop_events_writer` in the order they were made. -/
structure System where
  task : Option Nat := none
  queue : Option Nat := none
  writers : Nat → Writer := fun _ => { phase := .done }
  started : Nat := 0
  file : List Char := []
  accepted : List String := []
  stops : Nat → StopCall := fun _ => {}
  called : Nat := 0

def System.initial : System := {}

def System.isRunning (s : System) (w : Nat) : Bool := (s.writers w).phase.isRunning

def System.setWriter (s : System) (w : Nat) (writer : Writer) : System :=
  { s with writers := Function.update s.writers w writer }

section Source

variable {Payload : Type*} (encode : Payload → Option String)

/-- The steps between two awaits. `begin`, `write` and `finish` are those of the
thread that appends; `write w n` writes at most `n` characters. -/
inductive Action (Payload : Type*) where
  | enqueue (payload : Payload)
  | start (ready : Bool)
  | stop
  | take (w : Nat)
  | begin (w : Nat)
  | write (w n : Nat)
  | finish (w : Nat)
  | ended (call : Nat)
  | timeout (call : Nat)

/-- `enqueue_event_artifact`. A line that is not encoded, or does not fit, is dropped. -/
def enqueueEventArtifact (payload : Payload) (s : System) : System :=
  match s.queue with
  | none => s
  | some w =>
      match encode payload with
      | none => s
      | some line =>
          match putNowait (some line) (s.writers w).queue with
          | none => s
          | some queue =>
              { s.setWriter w { s.writers w with queue := queue } with accepted := s.accepted ++ [line] }

/-- `start_events_writer`; `ready` tells that the run has an artifacts directory
in which the file exists or was created. -/
def startEventsWriter (ready : Bool) (s : System) : System :=
  if ready = false ∨ s.task.any s.isRunning then s
  else
    { s.setWriter s.started {} with
      task := some s.started
      queue := some s.started
      started := s.started + 1 }

/-- The sentinel for the queue that was taken; when it does not fit this is logged. -/
def putSentinel (queue : Option Nat) (s : System) : System :=
  match queue with
  | none => s
  | some w =>
      match putNowait none (s.writers w).queue with
      | none => s
      | some queue => s.setWriter w { s.writers w with queue := queue }

def System.addStop (s : System) (call : StopCall) : System :=
  { s with stops := Function.update s.stops s.called call, called := s.called + 1 }

/-- `stop_events_writer` up to its wait. -/
def stopEventsWriter (s : System) : System :=
  match s.task with
  | none => { s with task := none, queue := none }.addStop ⟨none, s.accepted.length, false, some .returned⟩
  | some w =>
      (putSentinel s.queue { s with task := none, queue := none }).addStop ⟨some w, s.accepted.length, false, none⟩

/-- `stop_events_writer` after `wait_for` returned or raised what the task raised. -/
def afterWait (phase : Phase) : Outcome := exceptException phase.outcome

/-- `stop_events_writer` after `wait_for` raised `TimeoutError`: it has cancelled
the task and waited for it, and the task is awaited once more. -/
def afterTimeout (phase : Phase) : Outcome := exceptException phase.outcome

def System.endStop (s : System) (call : Nat) (timedOut : Bool) (outcome : Outcome) : System :=
  { s with stops := Function.update s.stops call { s.stops call with timedOut := timedOut, outcome := some outcome } }

/-- The writer that a call of `stop_events_writer` waits for. -/
def System.waitsFor (s : System) (call : Nat) : Option Nat :=
  if call < s.called ∧ (s.stops call).outcome = none then (s.stops call).took else none

/-- The wait of a call ends with its writer. -/
def waitEnds (call : Nat) (s : System) : System :=
  match s.waitsFor call with
  | none => s
  | some w => if s.isRunning w then s else s.endStop call false (afterWait (s.writers w).phase)

/-- The wait of a call times out while its writer runs. -/
def waitTimesOut (call : Nat) (s : System) : System :=
  match s.waitsFor call with
  | none => s
  | some w =>
      if s.isRunning w then
        (s.setWriter w (s.writers w).cancel).endStop call true (afterTimeout (s.writers w).cancel.phase)
      else s

/-- A thread begins the append of a writer. -/
def beginAppend (w : Nat) (s : System) : System :=
  match (s.writers w).append with
  | .queued text => s.setWriter w { s.writers w with append := .writing text }
  | _ => s

/-- The thread writes some of the text. -/
def writeSome (w n : Nat) (s : System) : System :=
  match (s.writers w).append with
  | .writing rest =>
      { s.setWriter w { s.writers w with append := .writing (rest.drop n) } with file := s.file ++ rest.take n }
  | _ => s

/-- The thread has written everything, and the loop goes on unless it was cancelled. -/
def finishAppend (w : Nat) (s : System) : System :=
  match (s.writers w).append with
  | .writing [] =>
      s.setWriter w
        { s.writers w with
          append := .idle
          phase := if (s.writers w).phase = .appending then .getting else (s.writers w).phase }
  | _ => s

def step (s : System) : Action Payload → System
  | .enqueue payload => enqueueEventArtifact encode payload s
  | .start ready => startEventsWriter ready s
  | .stop => stopEventsWriter s
  | .take w => s.setWriter w (s.writers w).take
  | .begin w => beginAppend w s
  | .write w n => writeSome w n s
  | .finish w => finishAppend w s
  | .ended call => waitEnds call s
  | .timeout call => waitTimesOut call s

end Source

/-- The calls that `RunLifecycle.stop` makes one after another. -/
inductive Stage where
  | stopEventsWriter
  | upsertRun
  | finalizeRunArtifacts
deriving DecidableEq

/-- One guarded call of `RunLifecycle.stop` and what follows when it is left normally. -/
def guarded (stage : Stage) (outcome : Outcome) (rest : List Stage × Outcome) : List Stage × Outcome :=
  match exceptException outcome with
  | .returned => (stage :: rest.1, rest.2)
  | raised => ([stage], raised)

/-- `RunLifecycle.stop` from its call of `stop_events_writer` on. -/
def lifecycleStop (writer upsert finalize : Outcome) : List Stage × Outcome :=
  guarded .stopEventsWriter writer (guarded .upsertRun upsert (guarded .finalizeRunArtifacts finalize ([], .returned)))

/-- `RunLifecycle.stop` persists the run and finalizes its artifacts, and returns,
whatever errors these two calls raise. -/
def GoesOn (writer : Outcome) : Prop :=
  ∀ upsert finalize, upsert ≠ .cancelled → finalize ≠ .cancelled →
    lifecycleStop writer upsert finalize = ([.stopEventsWriter, .upsertRun, .finalizeRunArtifacts], .returned)

/-- It goes on exactly when no `CancelledError` comes out of the stop of the writer. -/
theorem goesOn_iff {writer : Outcome} : GoesOn writer ↔ writer ≠ .cancelled := by
  constructor
  · rintro hGoes rfl
    exact absurd (hGoes .returned .returned (by decide) (by decide)) (by decide)
  · intro hWriter upsert finalize hUpsert hFinalize
    cases writer <;> cases upsert <;> cases finalize <;> first | rfl | contradiction

end EventsWriter

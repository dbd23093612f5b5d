import Mathlib
import GeoLedger.Library.Feeds
import GeoLedger.Library.Outcomes
import GeoLedger.Library.Runs
import GeoLedger.Simulator.SseBroadcast

/-! Event streams without gaps. Whatever a subscription is due is split, in
order, over what its client was sent, what its generator holds, its queue and
its bootstrap tail; an overflow drops the end of this sequence as a whole. -/
namespace SseBroadcast
open Feed

/-- The events that a subscription to an equivalent is for. -/
def wanted (equivalent : String) (e : SseEvent) : Bool :=
  e.type = RUN_STATUS ∨ e.equivalent = equivalent

/-- The sequence number after which a subscription reports every event: that
of its cursor, or of the last event before its own status. -/
def Stream.since (run_id : String) (s : Stream) : Nat :=
  (s.after_event_id.bind (eventSeqFromEventId run_id)).getD (s.status_seq - 1)

/-- The emissions a subscription is due: up to its own status everything
wanted, afterwards no status of another subscription. -/
def Stream.isDue (run_id : String) (s : Stream) (em : Emission) : Bool :=
  s.since run_id < em.event.seq ∧ wanted s.sub.equivalent em.event ∧
    (em.event.seq ≤ s.status_seq ∨ em.bootstrap = false)

def Stream.due (run_id : String) (history : List Emission) (s : Stream) : List SseEvent :=
  (history.filter (s.isDue run_id)).map (·.event)

/-- The events that the generator took from its queue and has not sent yet. -/
def Stage.staged : Stage → List SseEvent
  | .draining prefetched => prefetched
  | .sendingPrefix rest status => rest ++ [status]
  | .flushing bootstrap_tail => bootstrap_tail
  | .checkingPending _ | .finishingReplay _ | .live | .returned => []

/-- How far the hand-over from the replay to the live queue got. -/
def Stage.Handover (status_seq : Nat) (sub : Subscription) : Stage → Prop
  | .draining _ =>
      sub.replay_bootstrap_pending = true ∧ ∃ replay status, sub.queue = (replay ++ [status]).map .event ∧
        status.seq = status_seq ∧ ∀ e ∈ replay, e.seq ≠ status_seq
  | .sendingPrefix _ _ | .checkingPending _ | .finishingReplay _ =>
      sub.replay_bootstrap_pending = true ∧ sub.queue = []
  | .flushing _ | .live => sub.replay_bootstrap_pending = false ∧ sub.replay_bootstrap_tail = []
  | .returned => True

/-- A subscription that gets every event it is due. -/
structure Stream.Open (due : List SseEvent) (s : Stream) : Prop where
  subscribed : s.subscribed = true
  notClosed : s.sub.closed = false
  split : ∃ waiting, s.sub.queue = waiting.map .event ∧
    s.yielded ++ s.stage.staged ++ waiting ++ s.sub.replay_bootstrap_tail = due
  handover : s.stage.Handover s.status_seq s.sub

/-- A subscription that overflowed: its generator will find the marker. -/
structure Stream.Overflowed (s : Stream) : Prop where
  closed : s.sub.closed = true
  marked : ∃ reason, s.sub.queue = [.closed reason]

/-- What a client was sent and what its generator holds are, in order, the
beginning of what its subscription is due. -/
structure Stream.Ordered (run_id : String) (history : List Emission) (s : Stream) : Prop where
  cursor : ∀ id ∈ s.after_event_id, (eventSeqFromEventId run_id id).isSome
  since_lt : s.since run_id < s.status_seq
  status_le : s.status_seq ≤ history.length
  noSnapshot : ∀ state, Frame.init state ∉ s.frames
  sent : s.yielded ++ s.stage.staged <+: s.due run_id history

/-- What holds of every subscription at any time. -/
structure Stream.Sound (run_id : String) (history : List Emission) (s : Stream) : Prop
    extends s.Ordered run_id history where
  reading : s.stage = .returned ∨ s.Open (s.due run_id history) ∨ s.Overflowed

variable {run_id : String} {history : List Emission} {s : Stream} {e : SseEvent}

/-- A published event that the subscription is for becomes due. -/
theorem Stream.Ordered.due_published (h : s.Ordered run_id history) (hSeq : e.seq = history.length + 1) :
    s.due run_id (history ++ [⟨e, false⟩]) =
      s.due run_id history ++ if wanted s.sub.equivalent e then [e] else [] := by
  have hSince : s.since run_id < e.seq := by
    have := h.since_lt
    have := h.status_le
    omega
  cases hWanted : wanted s.sub.equivalent e <;>
    simp [Stream.due, Stream.isDue, hSince, hWanted, List.filter_append]

/-- The status of a later subscription does not become due. -/
theorem Stream.Ordered.due_bootstrap (h : s.Ordered run_id history) (hSeq : e.seq = history.length + 1) :
    s.due run_id (history ++ [⟨e, true⟩]) = s.due run_id history := by
  have hLate : ¬e.seq ≤ s.status_seq := by
    have := h.status_le
    omega
  simp [Stream.due, Stream.isDue, hLate, List.filter_append]

/-- Later emissions keep the order of the earlier ones. -/
theorem Stream.Ordered.extend (h : s.Ordered run_id history) (em : Emission) :
    s.Ordered run_id (history ++ [em]) where
  cursor := h.cursor
  since_lt := h.since_lt
  status_le := by
    rw [List.length_append]
    exact h.status_le.trans (Nat.le_add_right _ _)
  noSnapshot := h.noSnapshot
  sent := by
    refine h.sent.trans ?_
    unfold Stream.due
    rw [List.filter_append, List.map_append]
    exact List.prefix_append _ _

/-- A subscription that was handed no event stays sound when none became due. -/
theorem Stream.Sound.extend (h : s.Sound run_id history) (em : Emission)
    (hSame : s.subscribed = true → s.sub.closed = false →
      s.due run_id (history ++ [em]) = s.due run_id history) :
    s.Sound run_id (history ++ [em]) where
  toOrdered := h.toOrdered.extend em
  reading := by
    rcases h.reading with hReturned | hOpen | hOver
    · exact Or.inl hReturned
    · exact Or.inr (Or.inl (hSame hOpen.subscribed hOpen.notClosed ▸ hOpen))
    · exact Or.inr (Or.inr hOver)

/-- Closing a subscription keeps what was sent and staged. -/
theorem Stream.Ordered.close (h : s.Ordered run_id history) (hOpen : s.sub.closed = false) (reason : String) :
    (closeSubscription reason s).Sound run_id history := by
  unfold closeSubscription
  rw [if_neg (by simp [hOpen])]
  exact ⟨⟨h.cursor, h.since_lt, h.status_le, h.noSnapshot, h.sent⟩, Or.inr (Or.inr ⟨rfl, reason, rfl⟩)⟩

/-- Until the hand-over the bootstrap tail may grow. -/
theorem Stage.Handover.withTail {status_seq : Nat} {sub : Subscription} {stage : Stage}
    (h : stage.Handover status_seq sub) (hPending : sub.replay_bootstrap_pending = true)
    (tail : List SseEvent) :
    stage.Handover status_seq { sub with replay_bootstrap_tail := tail } := by
  cases stage with
  | draining prefetched | sendingPrefix rest status | checkingPending state | finishingReplay state => exact h
  | flushing bootstrap_tail | live => exact absurd (h.1.symm.trans hPending) Bool.false_ne_true
  | returned => trivial

/-- After the hand-over the tail stays empty, and the queue may change. -/
theorem Stage.Handover.withQueue {status_seq : Nat} {sub : Subscription} {stage : Stage}
    (h : stage.Handover status_seq sub) (hPending : sub.replay_bootstrap_pending = false)
    (hReading : stage ≠ .returned) (queue : List QueueItem) :
    sub.replay_bootstrap_tail = [] ∧ stage.Handover status_seq { sub with queue } := by
  cases stage with
  | flushing bootstrap_tail | live => exact ⟨h.2, h⟩
  | draining prefetched | sendingPrefix rest status | checkingPending state | finishingReplay state =>
      exact absurd (hPending.symm.trans h.1) Bool.false_ne_true
  | returned => exact absurd rfl hReading

/-- An event enters the bootstrap tail while the replay is being handed over. -/
theorem Stream.Open.appendTail {due : List SseEvent} (h : s.Open due)
    (hPending : s.sub.replay_bootstrap_pending = true) (e : SseEvent) :
    ({ s with sub :=
      { s.sub with replay_bootstrap_tail := s.sub.replay_bootstrap_tail ++ [e] } } : Stream).Open (due ++ [e]) := by
  obtain ⟨waiting, hQueue, hSplit⟩ := h.split
  refine ⟨h.subscribed, h.notClosed, ⟨waiting, hQueue, ?_⟩, h.handover.withTail hPending _⟩
  rw [← hSplit, List.append_assoc _ _ [e]]
  rfl

/-- An event enters the live queue after the hand-over. -/
theorem Stream.Open.appendQueue {due : List SseEvent} (h : s.Open due)
    (hPending : s.sub.replay_bootstrap_pending = false) (hReading : s.stage ≠ .returned) (e : SseEvent) :
    ({ s with sub := { s.sub with queue := s.sub.queue ++ [.event e] } } : Stream).Open (due ++ [e]) := by
  obtain ⟨waiting, hQueue, hSplit⟩ := h.split
  obtain ⟨hTail, hHandover⟩ := h.handover.withQueue hPending hReading (s.sub.queue ++ [.event e])
  rw [hTail, List.append_nil] at hSplit
  refine ⟨h.subscribed, h.notClosed, ⟨waiting ++ [e], ?_, ?_⟩, hHandover⟩
  · change s.sub.queue ++ [.event e] = _
    rw [hQueue, List.map_append, List.map_singleton]
  · change s.yielded ++ s.stage.staged ++ (waiting ++ [e]) ++ s.sub.replay_bootstrap_tail = _
    rw [hTail, List.append_nil, ← hSplit, List.append_assoc _ waiting]

/-- Publishing keeps a subscription in the run's list sound. -/
theorem Stream.Sound.deliver (h : s.Sound run_id history) (hSeq : e.seq = history.length + 1) :
    (SseBroadcast.deliver e s).Sound run_id (history ++ [⟨e, false⟩]) := by
  have hDue := h.due_published hSeq
  have hOrdered := h.toOrdered.extend ⟨e, false⟩
  unfold SseBroadcast.deliver
  by_cases hClosed : s.sub.closed = true
  · rw [if_pos hClosed]
    refine h.extend _ fun _ hOpen => ?_
    rw [hOpen] at hClosed
    cases hClosed
  rw [if_neg hClosed]
  by_cases hOther : e.type ≠ RUN_STATUS ∧ s.sub.equivalent ≠ e.equivalent
  · rw [if_pos hOther]
    refine h.extend _ fun _ _ => ?_
    have hUnwanted : wanted s.sub.equivalent e = false := by
      simp [wanted, hOther.1, Ne.symm hOther.2]
    rw [hDue, hUnwanted, if_neg (by simp), List.append_nil]
  rw [if_neg hOther]
  have hWanted : wanted s.sub.equivalent e = true := by
    simp only [wanted, decide_eq_true_eq]
    by_contra hNone
    exact hOther ⟨fun hType => hNone (Or.inl hType), fun hEq => hNone (Or.inr hEq.symm)⟩
  rw [if_pos hWanted] at hDue
  have hNotClosed : s.sub.closed = false := by simpa using hClosed
  by_cases hReturned : s.stage = .returned
  · -- A generator that has returned reads neither its queue nor its tail.
    split
    · split
      · exact hOrdered.close hNotClosed _
      · exact ⟨⟨h.cursor, h.since_lt, hOrdered.status_le, h.noSnapshot, hOrdered.sent⟩, Or.inl hReturned⟩
    · split
      · exact hOrdered.close hNotClosed _
      · exact ⟨⟨h.cursor, h.since_lt, hOrdered.status_le, h.noSnapshot, hOrdered.sent⟩, Or.inl hReturned⟩
  have hOpen : s.Open (s.due run_id history) := by
    rcases h.reading with hReading | hOpen | hOver
    · exact absurd hReading hReturned
    · exact hOpen
    · exact absurd hOver.closed hClosed
  split
  · rename_i hPending
    split
    · exact hOrdered.close hNotClosed _
    · refine ⟨⟨h.cursor, h.since_lt, hOrdered.status_le, h.noSnapshot, hOrdered.sent⟩, Or.inr (Or.inl ?_)⟩
      exact hDue ▸ hOpen.appendTail hPending e
  · rename_i hPending
    split
    · exact hOrdered.close hNotClosed _
    · refine ⟨⟨h.cursor, h.since_lt, hOrdered.status_le, h.noSnapshot, hOrdered.sent⟩, Or.inr (Or.inl ?_)⟩
      exact hDue ▸ hOpen.appendQueue (by simpa using hPending) hReturned e

theorem Stream.Ordered.yielded_isInitial (h : s.Ordered run_id history) :
    s.yielded <+: s.due run_id history := (List.prefix_append _ _).trans h.sent

/-- A generator may stop at any point, whatever is left in its queue. -/
theorem Stream.Ordered.stop (h : s.Ordered run_id history) (subscribed : Bool) (queue : List QueueItem) :
    ({ s with sub := { s.sub with queue }, subscribed, stage := .returned } : Stream).Sound run_id history := by
  refine ⟨⟨h.cursor, h.since_lt, h.status_le, h.noSnapshot, ?_⟩, Or.inl rfl⟩
  change s.yielded ++ [] <+: _
  rw [List.append_nil]
  exact h.yielded_isInitial

/-- The generator moves on without touching its subscription: it may send the
first of the events it holds. -/
theorem Stream.Sound.advance (h : s.Sound run_id history) (hReading : s.stage ≠ .returned)
    {stage : Stage} {frames : List Frame}
    (hMoved : frames.filterMap Frame.payload? ++ stage.staged = s.yielded ++ s.stage.staged)
    (hNoSnapshot : ∀ state, Frame.init state ∉ frames)
    (hHandover : s.stage.Handover s.status_seq s.sub → stage.Handover s.status_seq s.sub) :
    ({ s with stage, frames } : Stream).Sound run_id history := by
  refine ⟨⟨h.cursor, h.since_lt, h.status_le, hNoSnapshot, hMoved ▸ h.sent⟩, ?_⟩
  rcases h.reading with hReturned | hOpen | hOver
  · exact absurd hReturned hReading
  · obtain ⟨waiting, hQueue, hSplit⟩ := hOpen.split
    refine Or.inr (Or.inl ⟨hOpen.subscribed, hOpen.notClosed, ⟨waiting, hQueue, ?_⟩, hHandover hOpen.handover⟩)
    rw [← hMoved] at hSplit
    exact hSplit
  · exact Or.inr (Or.inr ⟨hOver.closed, hOver.marked⟩)

/-- Sending an event adds no snapshot of the generator's own. -/
theorem Stream.Ordered.noSnapshot_send (h : s.Ordered run_id history) (e : SseEvent) :
    ∀ state, Frame.init state ∉ s.frames ++ [.event e] := by
  intro state hMem
  rcases List.mem_append.mp hMem with hMem | hMem
  · exact h.noSnapshot state hMem
  · cases List.mem_singleton.mp hMem

theorem Stream.yielded_send (s : Stream) (e : SseEvent) :
    (s.frames ++ [Frame.event e]).filterMap Frame.payload? = s.yielded ++ [e] := by
  rw [List.filterMap_append]
  rfl

/-- A generator that ends after a terminal status stops instead of moving on. -/
theorem Stream.Sound.afterLive (s : Stream) (next : Stage)
    (h : ({ s with stage := next } : Stream).Sound run_id history) (e : SseEvent) :
    ({ s with stage := SseBroadcast.afterLive e next } : Stream).Sound run_id history := by
  unfold SseBroadcast.afterLive
  split
  · exact h.toOrdered.stop s.subscribed s.sub.queue
  · exact h

theorem Stream.Sound.afterFinish (s : Stream) (tail : List SseEvent)
    (h : ({ s with stage := .flushing tail } : Stream).Sound run_id history) (state : String) :
    ({ s with stage := SseBroadcast.afterFinish state tail } : Stream).Sound run_id history := by
  unfold SseBroadcast.afterFinish
  split
  · exact h.toOrdered.stop s.subscribed s.sub.queue
  · exact h

/-- Draining keeps the order, and ends with the status of the subscription. -/
theorem Stream.Sound.drain (h : s.Sound run_id history) {prefetched : List SseEvent}
    (hStage : s.stage = .draining prefetched) : (SseBroadcast.drain prefetched s).Sound run_id history := by
  unfold SseBroadcast.drain
  cases hQueue : s.sub.queue with
  | nil => exact h
  | cons item queue =>
      dsimp only
      split
      · exact h.toOrdered.stop s.subscribed queue
      rename_i hType
      cases item with
      | closed reason => exact absurd rfl hType
      | event payload =>
          rcases h.reading with hReturned | hOpen | hOver
          · rw [hStage] at hReturned
            cases hReturned
          · obtain ⟨waiting, hWaiting, hSplit⟩ := hOpen.split
            have hHandover := hOpen.handover
            rw [hStage] at hHandover hSplit
            obtain ⟨hPending, replay, status, hShape, hStatus, hReplay⟩ := hHandover
            -- The queue is the rest of the replay and then the status.
            obtain rfl : waiting = replay ++ [status] := by
              rw [hWaiting] at hShape
              exact List.map_injective_iff.mpr (fun a b hEq => by cases hEq; rfl) hShape
            rw [hQueue] at hShape
            cases replay with
            | nil =>
                simp only [List.nil_append, List.map_cons, List.map_nil, List.cons.injEq,
                  QueueItem.event.injEq] at hShape
                obtain ⟨rfl, rfl⟩ := hShape
                dsimp only
                rw [if_pos hStatus]
                refine ⟨⟨h.cursor, h.since_lt, h.status_le, h.noSnapshot, ?_⟩,
                  Or.inr (Or.inl ⟨hOpen.subscribed, hOpen.notClosed, ⟨[], rfl, ?_⟩, hPending, rfl⟩)⟩
                · change s.yielded ++ (prefetched ++ [payload]) <+: s.due run_id history
                  rw [← hSplit, ← List.append_assoc]
                  exact List.prefix_append _ _
                · change s.yielded ++ (prefetched ++ [payload]) ++ [] ++ s.sub.replay_bootstrap_tail =
                    s.due run_id history
                  rw [← hSplit, List.append_nil, ← List.append_assoc]
                  rfl
            | cons first rest =>
                simp only [List.cons_append, List.map_cons, List.cons.injEq, QueueItem.event.injEq] at hShape
                obtain ⟨rfl, rfl⟩ := hShape
                dsimp only
                rw [if_neg (hReplay payload List.mem_cons_self)]
                refine ⟨⟨h.cursor, h.since_lt, h.status_le, h.noSnapshot, ?_⟩,
                  Or.inr (Or.inl ⟨hOpen.subscribed, hOpen.notClosed, ⟨rest ++ [status], rfl, ?_⟩, hPending,
                    rest, status, rfl, hStatus, fun e he => hReplay e (List.mem_cons_of_mem _ he)⟩)⟩
                · change s.yielded ++ (prefetched ++ [payload]) <+: s.due run_id history
                  rw [← hSplit]
                  simp [Stage.staged]
                · change s.yielded ++ (prefetched ++ [payload]) ++ (rest ++ [status]) ++
                    s.sub.replay_bootstrap_tail = s.due run_id history
                  rw [← hSplit]
                  simp [Stage.staged]
          · obtain ⟨reason, hMarked⟩ := hOver.marked
            rw [hQueue] at hMarked
            cases hMarked

/-- The live loop sends the events of its queue in order. -/
theorem Stream.Sound.receive (h : s.Sound run_id history) (hStage : s.stage = .live) :
    (SseBroadcast.receive s).Sound run_id history := by
  unfold SseBroadcast.receive
  cases hQueue : s.sub.queue with
  | nil => exact h
  | cons item queue =>
      dsimp only
      split
      · exact h.toOrdered.stop s.subscribed queue
      rename_i hType
      cases item with
      | closed reason => exact absurd rfl hType
      | event payload =>
          rcases h.reading with hReturned | hOpen | hOver
          · rw [hStage] at hReturned
            cases hReturned
          · obtain ⟨waiting, hWaiting, hSplit⟩ := hOpen.split
            have hHandover := hOpen.handover
            rw [hStage] at hHandover hSplit
            rw [hQueue] at hWaiting
            cases waiting with
            | nil => cases hWaiting
            | cons first rest =>
                simp only [List.map_cons, List.cons.injEq, QueueItem.event.injEq] at hWaiting
                obtain ⟨rfl, rfl⟩ := hWaiting
                refine Stream.Sound.afterLive { s with
                  sub := { s.sub with queue := rest.map .event }, frames := s.frames ++ [.event payload] }
                  .live ⟨⟨h.cursor, h.since_lt, h.status_le, h.noSnapshot_send payload, ?_⟩,
                    Or.inr (Or.inl ⟨hOpen.subscribed, hOpen.notClosed, ⟨rest, rfl, ?_⟩, hHandover⟩)⟩ payload
                · change (s.frames ++ [Frame.event payload]).filterMap Frame.payload? ++ [] <+: s.due run_id history
                  rw [Stream.yielded_send, ← hSplit]
                  simp [Stage.staged]
                · change (s.frames ++ [Frame.event payload]).filterMap Frame.payload? ++ [] ++ rest ++
                    s.sub.replay_bootstrap_tail = s.due run_id history
                  rw [Stream.yielded_send, ← hSplit]
                  simp [Stage.staged]
          · obtain ⟨reason, hMarked⟩ := hOver.marked
            rw [hQueue] at hMarked
            cases hMarked

/-- The hand-over: everything in the bootstrap tail goes to the generator, and
later events go to the queue. -/
theorem Stream.Sound.finish (h : s.Sound run_id history) {state : String}
    (hStage : s.stage = .finishingReplay state) (hNotClosed : s.sub.closed = false) :
    ({ s with
        sub := { s.sub with replay_bootstrap_tail := [], replay_bootstrap_pending := false }
        stage := SseBroadcast.afterFinish state s.sub.replay_bootstrap_tail } : Stream).Sound run_id history := by
  rcases h.reading with hReturned | hOpen | hOver
  · rw [hStage] at hReturned
    cases hReturned
  · obtain ⟨waiting, hQueue, hSplit⟩ := hOpen.split
    have hHandover := hOpen.handover
    rw [hStage] at hHandover hSplit
    obtain rfl : waiting = [] := by
      rw [hHandover.2] at hQueue
      exact List.map_eq_nil_iff.mp hQueue.symm
    simp only [Stage.staged, List.append_nil] at hSplit
    refine Stream.Sound.afterFinish { s with
      sub := { s.sub with replay_bootstrap_tail := [], replay_bootstrap_pending := false } }
      s.sub.replay_bootstrap_tail ⟨⟨h.cursor, h.since_lt, h.status_le, h.noSnapshot, ?_⟩,
        Or.inr (Or.inl ⟨hOpen.subscribed, hOpen.notClosed, ⟨[], hQueue, ?_⟩, rfl, rfl⟩)⟩ state
    · exact hSplit ▸ List.prefix_rfl
    · simp only [List.append_nil]
      exact hSplit
  · rw [hOver.closed] at hNotClosed
    cases hNotClosed

/-- Every step of the generator keeps its subscription sound. -/
theorem Stream.Sound.consume (h : s.Sound run_id history) :
    (SseBroadcast.consume s).Sound run_id history := by
  unfold SseBroadcast.consume
  cases hStage : s.stage with
  | draining prefetched => exact h.drain hStage
  | sendingPrefix rest status =>
      cases rest with
      | cons payload rest =>
          refine h.advance (by simp [hStage]) ?_ (h.noSnapshot_send payload) (fun hHandover => ?_)
          · rw [Stream.yielded_send, hStage]
            simp [Stage.staged]
          · rw [hStage] at hHandover
            exact hHandover
      | nil =>
          refine h.advance (by simp [hStage]) ?_ (h.noSnapshot_send status) (fun hHandover => ?_)
          · rw [Stream.yielded_send, hStage]
            simp [Stage.staged]
          · rw [hStage] at hHandover
            exact hHandover
  | checkingPending state =>
      dsimp only
      split
      · refine h.advance (by simp [hStage]) ?_ h.noSnapshot (fun hHandover => ?_)
        · rw [hStage]
          rfl
        · rw [hStage] at hHandover
          exact hHandover
      · rename_i hPending
        refine Stream.Sound.afterFinish s [] ?_ state
        refine h.advance (by simp [hStage]) ?_ h.noSnapshot (fun hHandover => ?_)
        · rw [hStage]
          rfl
        · rw [hStage] at hHandover
          exact absurd hHandover.1 hPending
  | finishingReplay state =>
      dsimp only
      unfold finishReplayBootstrap
      by_cases hGone : s.sub.closed = true ∨ ¬s.subscribed = true
      · rw [if_pos hGone]
        exact h.toOrdered.stop s.subscribed s.sub.queue
      · rw [if_neg hGone]
        refine h.finish hStage ?_
        simpa using fun hClosed => hGone (Or.inl hClosed)
  | flushing bootstrap_tail =>
      cases bootstrap_tail with
      | cons payload rest =>
          refine Stream.Sound.afterLive { s with frames := s.frames ++ [.event payload] }
            (.flushing rest) ?_ payload
          refine h.advance (by simp [hStage]) ?_ (h.noSnapshot_send payload) (fun hHandover => ?_)
          · rw [Stream.yielded_send, hStage]
            simp [Stage.staged]
          · rw [hStage] at hHandover
            exact hHandover
      | nil =>
          refine h.advance (by simp [hStage]) ?_ h.noSnapshot (fun hHandover => ?_)
          · rw [hStage]
            rfl
          · rw [hStage] at hHandover
            exact hHandover
  | live => exact h.receive hStage
  | returned => exact h

/-- A generator that still looks for its status never waits on an empty queue. -/
theorem Stream.Sound.queue_ne_nil (h : s.Sound run_id history) {prefetched : List SseEvent}
    (hStage : s.stage = .draining prefetched) : s.sub.queue ≠ [] := by
  rcases h.reading with hReturned | hOpen | hOver
  · rw [hStage] at hReturned
    cases hReturned
  · have hHandover := hOpen.handover
    rw [hStage] at hHandover
    obtain ⟨-, replay, status, hQueue, -⟩ := hHandover
    simp [hQueue]
  · obtain ⟨reason, hMarked⟩ := hOver.marked
    simp [hMarked]

theorem Stream.Sound.timeout (h : s.Sound run_id history) (state : String) :
    (SseBroadcast.timeout state s).Sound run_id history := by
  unfold SseBroadcast.timeout
  split
  · rename_i prefetched hStage hQueue
    exact absurd hQueue (h.queue_ne_nil hStage)
  · rename_i hStage hQueue
    refine @Stream.Sound.advance _ _ _ h (by simp [hStage]) s.stage _ ?_ ?_ id
    · rw [List.filterMap_append]
      exact congrArg (· ++ _) (List.append_nil _)
    · intro other hMem
      rcases List.mem_append.mp hMem with hMem | hMem
      · exact h.noSnapshot other hMem
      · cases List.mem_singleton.mp hMem
  · exact h

theorem Stream.Sound.unsubscribe (h : s.Sound run_id history) :
    (SseBroadcast.unsubscribe s).Sound run_id history := h.toOrdered.stop false s.sub.queue

/-- What holds of a run's broadcaster at any time. -/
structure Run.Sound (r : Run) : Prop where
  seq : r.event_seq = r.history.length
  numbered : Consecutive (·.event.seq) 1 r.history
  buffer : ∃ k, r.event_buffer.map (·.payload) = (r.history.map (·.event)).drop k
  bufferEquivalent : ∀ entry ∈ r.event_buffer, entry.event_equivalent =
    if entry.payload.type = RUN_STATUS then "" else entry.payload.equivalent
  statuses : ∀ em ∈ r.history, em.bootstrap = true → em.event.type = RUN_STATUS
  streams : ∀ s ∈ r.streams, s.Sound r.run_id r.history

/-- Pruning drops entries from the front. -/
theorem pruneEventBuffer_suffix (config : Config) (now : ℚ) (buffer : List BufferEntry) :
    ∃ k, pruneEventBuffer config now buffer = buffer.drop k := by
  have hFresh : ∀ keep : BufferEntry → Bool, ∃ k, buffer.dropWhile keep = buffer.drop k := by
    intro keep
    obtain ⟨old, hOld⟩ := List.dropWhile_suffix (l := buffer) keep
    have hDrop := congrArg (List.drop old.length) hOld
    rw [List.drop_left] at hDrop
    exact ⟨old.length, hDrop⟩
  unfold pruneEventBuffer
  dsimp only
  split
  · exact ⟨_, rfl⟩
  · obtain ⟨k, hk⟩ := hFresh fun entry => entry.ts < now - (max 0 config.event_buffer_ttl_sec : Int)
    rw [hk, List.drop_drop]
    exact ⟨_, rfl⟩

variable {config : Config} {r : Run}

/-- Pruning keeps the buffer a suffix of the history. -/
theorem Run.Sound.prune (h : r.Sound) (now : ℚ) :
    ({ r with event_buffer := pruneEventBuffer config now r.event_buffer } : Run).Sound := by
  obtain ⟨k, hk⟩ := pruneEventBuffer_suffix config now r.event_buffer
  obtain ⟨old, hOld⟩ := h.buffer
  refine ⟨h.seq, h.numbered, ⟨old + k, ?_⟩, ?_, h.statuses, h.streams⟩
  · change (pruneEventBuffer config now r.event_buffer).map (·.payload) = _
    rw [hk, List.map_drop, hOld, List.drop_drop]
  · intro entry hEntry
    exact h.bufferEquivalent entry (List.mem_of_mem_drop (hk ▸ hEntry))

/-- An allocated event enters the history and the buffer; the subscriptions are
changed by whoever allocated it. -/
theorem Run.Sound.allocate (h : r.Sound) (now : ℚ) (em : Emission) (hSeq : em.event.seq = r.event_seq + 1)
    (hStatus : em.bootstrap = true → em.event.type = RUN_STATUS) {streams : List Stream}
    (hStreams : ∀ s ∈ streams, s.Sound r.run_id (r.history ++ [em])) :
    ({ r with
        event_seq := r.event_seq + 1
        history := r.history ++ [em]
        event_buffer := appendToEventBuffer config now em.event r.event_buffer
        streams } : Run).Sound := by
  have hLength : (r.history ++ [em]).length = r.event_seq + 1 := by
    rw [List.length_append, List.length_singleton, h.seq]
  obtain ⟨old, hOld⟩ := h.buffer
  obtain ⟨k, hk⟩ := pruneEventBuffer_suffix config now (r.event_buffer ++ [bufferEntry now em.event])
  refine ⟨hLength.symm, ?_, ?_, ?_, ?_, hStreams⟩
  · refine h.numbered.append_singleton ?_
    rw [hSeq, h.seq, Nat.add_comm]
  · -- The buffer may be empty before: then only the new event is in it.
    have hAppended : (r.event_buffer ++ [bufferEntry now em.event]).map (·.payload) =
        ((r.history ++ [em]).map (·.event)).drop (min old r.history.length) := by
      rw [List.map_append, hOld, List.map_append, List.drop_append_of_le_length (by simp)]
      congr 1
      rcases Nat.le_total old r.history.length with hLe | hLe
      · rw [Nat.min_eq_left hLe]
      · rw [Nat.min_eq_right hLe, List.drop_of_length_le (by simpa using hLe), List.drop_of_length_le (by simp)]
    refine ⟨min old r.history.length + k, ?_⟩
    change (pruneEventBuffer config now _).map (·.payload) = _
    rw [hk, List.map_drop, hAppended, List.drop_drop]
  · intro entry hEntry
    change entry ∈ pruneEventBuffer config now (r.event_buffer ++ [bufferEntry now em.event]) at hEntry
    rw [hk] at hEntry
    rcases List.mem_append.mp (List.mem_of_mem_drop hEntry) with hOldEntry | hNew
    · exact h.bufferEquivalent entry hOldEntry
    · rw [List.mem_singleton.mp hNew]
      rfl
  · intro em' hMem
    rcases List.mem_append.mp hMem with hMem | hMem
    · exact h.statuses em' hMem
    · rw [List.mem_singleton.mp hMem]
      exact hStatus

/-- Publishing an event keeps the broadcaster sound. -/
theorem Run.Sound.publish (h : r.Sound) (now : ℚ) (type equivalent state : String) :
    (publishEvent config now type equivalent state r).Sound := by
  refine h.allocate now ⟨⟨r.event_seq + 1, type, equivalent, state⟩, false⟩ rfl (by simp) ?_
  intro s hs
  obtain ⟨old, hOld, rfl⟩ := List.mem_map.mp hs
  have hSound := h.streams old hOld
  split
  · exact hSound.deliver (by rw [h.seq])
  · rename_i hGone
    exact hSound.extend _ fun hIn => absurd hIn hGone

theorem Run.Sound.numberedEvents (h : r.Sound) : Consecutive (·.seq) 1 (r.history.map (·.event)) := by
  have hNumbered := h.numbered
  unfold Consecutive at *
  rw [List.map_map, List.length_map]
  exact hNumbered

/-- What the buffer no longer holds lies at or before every cursor that a replay accepts. -/
theorem Run.Sound.pruned_le (h : r.Sound) {k after_seq : Nat}
    (hBuffer : r.event_buffer.map (·.payload) = (r.history.map (·.event)).drop k)
    (hRetained : ¬(after_seq < r.event_seq ∧
      ∀ oldest ∈ r.event_buffer.head?, after_seq + 1 < oldest.payload.seq)) :
    ∀ e ∈ (r.history.map (·.event)).take k, e.seq ≤ after_seq := by
  intro e he
  by_cases hCurrent : after_seq < r.event_seq
  · -- The oldest retained event is next to the cursor or before it.
    have hOldest : ∃ oldest ∈ r.event_buffer.head?, oldest.payload.seq ≤ after_seq + 1 := by
      by_contra hNone
      exact hRetained ⟨hCurrent, fun oldest hMem => not_le.mp fun hLe => hNone ⟨oldest, hMem, hLe⟩⟩
    obtain ⟨oldest, hMem, hLe⟩ := hOldest
    have hKept : oldest.payload ∈ (r.history.map (·.event)).drop k := by
      rw [← hBuffer]
      exact List.mem_map_of_mem (List.mem_of_mem_head? hMem)
    have hIncreasing := h.numberedEvents.increasing
    unfold Increasing at hIncreasing
    rw [← List.take_append_drop k (r.history.map (·.event))] at hIncreasing
    have hLt : e.seq < oldest.payload.seq :=
      (List.pairwise_append.mp hIncreasing).2.2 e he oldest.payload hKept
    omega
  · have hBounds := (h.numberedEvents.bounds (List.mem_of_mem_take he)).2
    rw [List.length_map, ← h.seq] at hBounds
    omega

/-- A replay that was granted holds every event in the history after its cursor
that the subscription is for. -/
theorem Run.Sound.replayEvents (h : r.Sound) {equivalent after_event_id : String} {replay : List SseEvent}
    (hOk : SseBroadcast.replayEvents r equivalent after_event_id = .ok replay) :
    ∃ after_seq, eventSeqFromEventId r.run_id after_event_id = some after_seq ∧ after_seq ≤ r.event_seq ∧
      replay = (r.history.map (·.event)).filter fun e => after_seq < e.seq ∧ wanted equivalent e := by
  unfold SseBroadcast.replayEvents at hOk
  cases hCursor : eventSeqFromEventId r.run_id after_event_id with
  | none =>
      rw [hCursor] at hOk
      cases hOk
  | some after_seq =>
      rw [hCursor] at hOk
      dsimp only at hOk
      split at hOk
      · cases hOk
      rename_i hAhead
      split at hOk
      · cases hOk
      rename_i hRetained
      refine ⟨after_seq, rfl, not_lt.mp hAhead, ?_⟩
      cases hOk
      obtain ⟨k, hk⟩ := h.buffer
      have hPruned : ((r.history.map (·.event)).take k).filter
          (fun e => after_seq < e.seq ∧ wanted equivalent e) = [] := by
        rw [List.filter_eq_nil_iff]
        intro e he
        have hLe := h.pruned_le hk hRetained e he
        simp [not_lt.mpr hLe]
      rw [← List.take_append_drop k (r.history.map (·.event)), List.filter_append, hPruned,
        List.nil_append, ← hk, List.filter_map]
      congr 1
      refine List.filter_congr fun entry hEntry => ?_
      have hEquivalent := h.bufferEquivalent entry hEntry
      by_cases hType : entry.payload.type = RUN_STATUS
      · simp [wanted, hType]
      · rw [if_neg hType] at hEquivalent
        simp [wanted, hType, hEquivalent]

theorem Run.Sound.seq_le (h : r.Sound) {em : Emission} (hMem : em ∈ r.history) :
    em.event.seq ≤ r.event_seq := by
  have hBounds := (h.numbered.bounds hMem).2
  rw [← h.seq] at hBounds
  omega

/-- The replay of a new subscription: every event since its cursor that it is for. -/
theorem Run.Sound.bootstrapReplay (h : r.Sound) {equivalent : String} {after_event_id : Option String}
    {replay : List SseEvent} (hOk : SseBroadcast.bootstrapReplay config r equivalent after_event_id = .ok replay) :
    let since := (after_event_id.bind (eventSeqFromEventId r.run_id)).getD r.event_seq
    (∀ id ∈ after_event_id, (eventSeqFromEventId r.run_id id).isSome) ∧ since ≤ r.event_seq ∧
      replay = (r.history.map (·.event)).filter fun e => since < e.seq ∧ wanted equivalent e := by
  cases after_event_id with
  | none =>
      cases hOk
      refine ⟨by simp, le_rfl, (List.filter_eq_nil_iff.mpr ?_).symm⟩
      intro e he
      obtain ⟨em, hMem, rfl⟩ := List.mem_map.mp he
      simp [not_lt.mpr (h.seq_le hMem)]
  | some id =>
      obtain ⟨found, hFound, hRest⟩ := Outcomes.bind_eq_ok_iff.mp hOk
      split at hRest
      · cases hRest
      · cases hRest
        obtain ⟨after_seq, hCursor, hLe, hReplay⟩ := h.replayEvents hFound
        simp only [Option.bind_some, hCursor, Option.getD_some]
        refine ⟨fun other hOther => ?_, hLe, hReplay⟩
        rw [← Option.mem_some_iff.mp hOther, hCursor]
        rfl

/-- A new subscription is due its replay and then its own status. -/
theorem Run.Sound.newStream (h : r.Sound) {equivalent : String} (state : String)
    {after_event_id : Option String} {replay : List SseEvent}
    (hOk : SseBroadcast.bootstrapReplay config r equivalent after_event_id = .ok replay) :
    (SseBroadcast.newStream config equivalent after_event_id replay
      ⟨r.event_seq + 1, RUN_STATUS, "", state⟩).Sound r.run_id
      (r.history ++ [⟨⟨r.event_seq + 1, RUN_STATUS, "", state⟩, true⟩]) := by
  obtain ⟨hCursor, hSince, hReplay⟩ := h.bootstrapReplay hOk
  let status : SseEvent := ⟨r.event_seq + 1, RUN_STATUS, "", state⟩
  let s := SseBroadcast.newStream config equivalent after_event_id replay status
  have hSinceEq : s.since r.run_id =
      (after_event_id.bind (eventSeqFromEventId r.run_id)).getD r.event_seq := rfl
  have hEquivalent : s.sub.equivalent = equivalent := rfl
  have hStatusSeq : s.status_seq = status.seq := rfl
  have hOld : ∀ em ∈ r.history, s.isDue r.run_id em =
      decide (s.since r.run_id < em.event.seq ∧ wanted equivalent em.event = true) := by
    intro em hMem
    have hLe : em.event.seq ≤ s.status_seq := (h.seq_le hMem).trans (Nat.le_succ _)
    unfold Stream.isDue
    rw [hEquivalent]
    simp only [hLe, true_or, and_true]
  have hNew : s.isDue r.run_id ⟨status, true⟩ = true := by
    have hLt : s.since r.run_id < status.seq := hSinceEq ▸ Nat.lt_succ_of_le hSince
    unfold Stream.isDue
    rw [hStatusSeq]
    simp [hLt, wanted, status]
  have hDue : s.due r.run_id (r.history ++ [⟨status, true⟩]) = replay ++ [status] := by
    unfold Stream.due
    rw [List.filter_append, List.filter_congr hOld, List.map_append, hReplay, ← hSinceEq,
      List.filter_map, List.filter_singleton, hNew]
    rfl
  have hReplayOld : ∀ e ∈ replay, e.seq ≠ status.seq := by
    intro e he
    rw [hReplay] at he
    obtain ⟨em, hMem, rfl⟩ := List.mem_map.mp (List.mem_of_mem_filter he)
    exact (Nat.lt_succ_of_le (h.seq_le hMem)).ne
  refine ⟨⟨hCursor, Nat.lt_succ_of_le (hSinceEq ▸ hSince), ?_, fun _ => List.not_mem_nil, List.nil_prefix⟩,
    Or.inr (Or.inl ⟨rfl, rfl, ⟨replay ++ [status], rfl, ?_⟩, rfl, replay, status, rfl, rfl, hReplayOld⟩)⟩
  · rw [List.length_append, List.length_singleton, ← h.seq]
    exact le_rfl
  · change replay ++ [status] ++ [] = s.due r.run_id (r.history ++ [⟨status, true⟩])
    rw [hDue, List.append_nil]

/-- A subscription is refused, which changes no stream, or it is exposed with its cursor. -/
theorem subscribe_cases (config : Config) (others : Nat) (nowReplay nowStatus : ℚ) (equivalent : String)
    (after_event_id : Option String) (state : String) (r : Run) :
    let result := subscribe config others nowReplay nowStatus equivalent after_event_id state r
    (∃ cause, result.1 = .error cause ∧
      (result.2 = r ∨ result.2 = { r with event_buffer := pruneEventBuffer config nowReplay r.event_buffer })) ∨
    ∃ pruned replay, (pruned = r ∨ pruned =
        { r with event_buffer := pruneEventBuffer config nowReplay r.event_buffer }) ∧
      bootstrapReplay config pruned equivalent after_event_id = .ok replay ∧ result.1 = .ok () ∧
      result.2 =
        { pruned with
          event_seq := r.event_seq + 1
          history := r.history ++ [⟨⟨r.event_seq + 1, RUN_STATUS, "", state⟩, true⟩]
          event_buffer := appendToEventBuffer config nowStatus ⟨r.event_seq + 1, RUN_STATUS, "", state⟩
            pruned.event_buffer
          streams := r.streams ++ [newStream config equivalent after_event_id replay
            ⟨r.event_seq + 1, RUN_STATUS, "", state⟩] } := by
  unfold subscribe
  split
  · exact Or.inl ⟨_, rfl, Or.inl rfl⟩
  dsimp only
  cases after_event_id with
  | none => exact Or.inr ⟨r, [], Or.inl rfl, rfl, rfl, rfl⟩
  | some id =>
      cases hReplay : bootstrapReplay config
          { r with event_buffer := pruneEventBuffer config nowReplay r.event_buffer } equivalent (some id) with
      | error cause => exact Or.inl ⟨cause, rfl, Or.inr rfl⟩
      | ok replay => exact Or.inr ⟨_, replay, Or.inr rfl, hReplay, rfl, rfl⟩

/-- Subscribing keeps the broadcaster sound. -/
theorem Run.Sound.subscribe (h : r.Sound) (others : Nat) (nowReplay nowStatus : ℚ) (equivalent : String)
    (after_event_id : Option String) (state : String) :
    (SseBroadcast.subscribe config others nowReplay nowStatus equivalent after_event_id state r).2.Sound := by
  rcases subscribe_cases config others nowReplay nowStatus equivalent after_event_id state r with
    ⟨cause, -, hState | hState⟩ | ⟨pruned, replay, hPruned, hReplay, -, hState⟩
  · rw [hState]
    exact h
  · rw [hState]
    exact h.prune nowReplay
  · have hSound : pruned.Sound ∧ pruned.event_seq = r.event_seq ∧ pruned.history = r.history ∧
        pruned.streams = r.streams := by
      rcases hPruned with rfl | rfl
      · exact ⟨h, rfl, rfl, rfl⟩
      · exact ⟨h.prune nowReplay, rfl, rfl, rfl⟩
    obtain ⟨hSound, hSeq, hHistory, hStreams⟩ := hSound
    rw [hState, ← hSeq, ← hHistory, ← hStreams]
    refine hSound.allocate nowStatus ⟨⟨pruned.event_seq + 1, RUN_STATUS, "", state⟩, true⟩ rfl (fun _ => rfl) ?_
    intro s hs
    rcases List.mem_append.mp hs with hs | hs
    · have hOld := hSound.streams s hs
      exact hOld.extend _ fun _ _ => hOld.due_bootstrap (by rw [hSound.seq])
    · rw [List.mem_singleton.mp hs]
      exact hSound.newStream state hReplay

/-- A step of one generator keeps the broadcaster sound. -/
theorem Run.Sound.modifyStream (h : r.Sound) (index : Nat) {f : Stream → Stream}
    (hStep : ∀ s : Stream, s.Sound r.run_id r.history → (f s).Sound r.run_id r.history) :
    (r.modifyStream index f).Sound := by
  refine ⟨h.seq, h.numbered, h.buffer, h.bufferEquivalent, h.statuses, ?_⟩
  intro s hs
  obtain ⟨i, hi⟩ := List.mem_iff_getElem?.mp hs
  change (r.streams.modify index f)[i]? = some s at hi
  rw [List.getElem?_modify, Option.map_eq_map, Option.map_eq_some_iff] at hi
  obtain ⟨old, hOld, rfl⟩ := hi
  have hSound := h.streams old (List.mem_of_getElem? hOld)
  split
  · exact hStep old hSound
  · exact hSound

/-- Every step keeps the broadcaster sound. -/
theorem Run.Sound.step (h : r.Sound) (a : Action) : (SseBroadcast.step config r a).Sound := by
  cases a with
  | publish now type equivalent state => exact h.publish now type equivalent state
  | subscribe others nowReplay nowStatus equivalent after_event_id state =>
      exact h.subscribe others nowReplay nowStatus equivalent after_event_id state
  | prune now => exact h.prune now
  | consume index => exact h.modifyStream index fun _ hs => hs.consume
  | timeout index state => exact h.modifyStream index fun _ hs => hs.timeout state
  | unsubscribe index => exact h.modifyStream index fun _ hs => hs.unsubscribe

/-- Every reachable state of the broadcaster is sound. -/
theorem sound_of_run (config : Config) (run_id : String) (actions : List Action) :
    (actions.foldl (step config) (Run.start run_id)).Sound := by
  refine Transition.foldl_invariant actions _ ?_ fun r a h => h.step a
  exact ⟨rfl, rfl, ⟨0, rfl⟩, by simp [Run.start], by simp [Run.start], by simp [Run.start]⟩

/-- A published event that a subscription to the equivalent is for. -/
def Run.Published (r : Run) (equivalent : String) (e : SseEvent) : Prop :=
  ⟨e, false⟩ ∈ r.history ∧ wanted equivalent e = true

/-- The status that some subscription was bootstrapped with. -/
def Run.BootstrapStatus (r : Run) (e : SseEvent) : Prop :=
  ⟨e, true⟩ ∈ r.history ∧ e.type = RUN_STATUS

/-- The events a client saw, in strictly increasing order of their ids, all of
them after the cursor of its subscription, or from its own status on when it
gave none: every published event up to the last id seen that is a run status or
has the equivalent, and besides these only bootstrap statuses. -/
def Run.SeenGapFree (r : Run) (s : Stream) (seen : List SseEvent) : Prop :=
  GapFree (·.seq) (r.Published s.sub.equivalent) r.BootstrapStatus (s.since r.run_id) seen

/-- Event streams without gaps. -/
structure Run.GapFree (r : Run) : Prop where
  /-- The replay buffer is exactly the events `k+1`, …, `event_seq`. -/
  buffered : ∃ k, k + r.event_buffer.length = r.event_seq ∧
    r.event_buffer.map (·.payload) = (r.history.map (·.event)).drop k ∧
    Consecutive (·.seq) (k + 1) (r.event_buffer.map (·.payload))
  /-- A cursor is an event id, and its subscription reports what comes after it. -/
  cursor : ∀ s ∈ r.streams, ∀ id, s.after_event_id = some id →
    eventSeqFromEventId r.run_id id = some (s.since r.run_id)
  delivered : ∀ s ∈ r.streams, r.SeenGapFree s s.yielded
  /-- No client is sent a snapshot that has no place in the sequence. -/
  numberedOnly : ∀ s ∈ r.streams, ∀ state, Frame.init state ∉ s.frames
  /-- A client that reconnects with the last id it received misses and repeats nothing. -/
  resumed : ∀ s ∈ r.streams, ∀ next ∈ r.streams, next.sub.equivalent = s.sub.equivalent →
    ∀ seen last, seen ++ [last] <+: s.yielded →
      next.after_event_id = some (eventId r.run_id last.seq) →
      r.SeenGapFree s (seen ++ [last] ++ next.yielded)

/-- What a prefix of the events due to a subscription amounts to. -/
theorem Run.Sound.seenGapFree (h : r.Sound) (s : Stream) {seen : List SseEvent}
    (hSeen : seen <+: s.due r.run_id r.history) : r.SeenGapFree s seen := by
  refine GapFree.of_prefixed ?_ hSeen ?_ ?_ ?_
  · exact List.pairwise_map.mpr (h.numbered.increasing.filter _)
  · intro e he
    obtain ⟨em, hMem, rfl⟩ := List.mem_map.mp he
    exact (of_decide_eq_true (List.mem_filter.mp hMem).2).1
  · intro e hPublished hSince
    refine List.mem_map.mpr ⟨⟨e, false⟩, List.mem_filter.mpr ⟨hPublished.1, decide_eq_true ?_⟩, rfl⟩
    exact ⟨hSince, hPublished.2, Or.inr rfl⟩
  · intro e he
    obtain ⟨⟨e, bootstrap⟩, hMem, rfl⟩ := List.mem_map.mp he
    obtain ⟨hHistory, hDue⟩ := List.mem_filter.mp hMem
    cases bootstrap with
    | false => exact Or.inl ⟨hHistory, (of_decide_eq_true hDue).2.1⟩
    | true => exact Or.inr ⟨hHistory, h.statuses _ hHistory rfl⟩

/-- From the invariant of a run follows that its streams have no gaps. -/
theorem Run.Sound.gapFree (h : r.Sound) : r.GapFree := by
  have hCursor : ∀ s ∈ r.streams, ∀ id, s.after_event_id = some id →
      eventSeqFromEventId r.run_id id = some (s.since r.run_id) := by
    intro s hs id hId
    obtain ⟨after_seq, hSeq⟩ := Option.isSome_iff_exists.mp ((h.streams s hs).cursor id hId)
    rw [hSeq, Stream.since, hId, Option.bind_some, hSeq, Option.getD_some]
  have hDelivered : ∀ s ∈ r.streams, r.SeenGapFree s s.yielded := fun s hs =>
    h.seenGapFree s (h.streams s hs).yielded_isInitial
  refine ⟨?_, hCursor, hDelivered, fun s hs => (h.streams s hs).noSnapshot, ?_⟩
  · obtain ⟨k, hk⟩ := h.buffer
    have hLength : r.event_buffer.length = r.event_seq - k := by
      have hLengths := congrArg List.length hk
      rwa [List.length_map, List.length_drop, List.length_map, ← h.seq] at hLengths
    -- A cut beyond the end empties the buffer, as the cut at the end does.
    have hCut : (r.history.map (·.event)).drop k = (r.history.map (·.event)).drop (min k r.event_seq) := by
      rcases Nat.le_total k r.event_seq with hLe | hLe
      · rw [Nat.min_eq_left hLe]
      · rw [Nat.min_eq_right hLe, List.drop_of_length_le, List.drop_of_length_le]
        · rw [List.length_map, h.seq]
        · rw [List.length_map, ← h.seq]
          exact hLe
    refine ⟨min k r.event_seq, by omega, hk.trans hCut, ?_⟩
    rw [hk, hCut, Nat.add_comm]
    exact h.numberedEvents.drop _
  · intro s hs next hNext hEquivalent seen last hSeen hId
    have hSince : next.since r.run_id = last.seq := by
      have hFound := hCursor next hNext _ hId
      rw [eventSeqFromEventId_eventId] at hFound
      exact (Option.some.inj hFound).symm
    have hMore := hDelivered next hNext
    unfold Run.SeenGapFree at hMore
    rw [hEquivalent, hSince] at hMore
    exact GapFree.resume (h.seenGapFree s (hSeen.trans (h.streams s hs).yielded_isInitial)) hMore

/-- In every state that any schedule of publications, subscriptions, consumer
steps, timeouts, prunings and aborts reaches, the event streams are gap-free. -/
theorem streams_gap_free (config : Config) (run_id : String) (actions : List Action) :
    (actions.foldl (step config) (Run.start run_id)).GapFree :=
  (sound_of_run config run_id actions).gapFree

/-- A queue of one slot overflows after the hand-over; the client reconnects
with the last id it received and gets what it missed, then a new status. -/
example :
    let config : Config := ⟨10, 0, 1, 0, 0⟩
    let reader := List.replicate 5
    let actions : List Action :=
      [.subscribe 0 0 0 "UAH" none "running"] ++ reader (.consume 0) ++
        [.publish 1 "tx.updated" "UAH" "", .publish 1 "tx.updated" "HOUR" "",
          .publish 2 "clearing.done" "UAH" "", .consume 0, .unsubscribe 0] ++
        [.subscribe 0 3 3 "UAH" (some (eventId "r" 1)) "running"]
    let config' : Config := { config with sub_queue_max := 4 }
    let r := actions.foldl (step config) (Run.start "r")
    let r' := (.subscribe 0 3 3 "UAH" (some (eventId "r" 1)) "running" :: reader (.consume 1)).foldl (step config') r
    r.streams.map (fun s => s.yielded.map (·.seq)) = [[1]] ∧
      r'.streams.map (fun s => s.yielded.map (·.seq)) = [[1], [2, 4]] := by
  decide +kernel

end SseBroadcast

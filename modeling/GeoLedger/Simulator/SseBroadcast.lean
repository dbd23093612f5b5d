import Mathlib

/-! The event broadcaster of one simulator run, `sse_broadcast.py`, and the
consumer of one subscription, `_run_events_stream`. Every step is atomic under
the broadcaster's lock; clocks, schedules and client aborts are arbitrary. -/
namespace SseBroadcast

/-- The settings the broadcaster reads. -/
structure Config where
  event_buffer_max : Int
  event_buffer_ttl_sec : Int
  sub_queue_max : Int
  max_subs_total : Int
  max_subs_per_run : Int

/-- The type of the events that report the state of the run. -/
def RUN_STATUS : String := "run_status"

def SSE_SUBSCRIPTION_CLOSED_TYPE : String := "__subscription_closed__"

/-- The states of a run after which its streams end. -/
def terminal (state : String) : Bool := state = "stopped" ∨ state = "error"

/-- The payload of one event. Its id is the text of its sequence number. -/
structure SseEvent where
  seq : Nat
  type : String
  equivalent : String
  state : String
deriving DecidableEq, Repr

/-- `evt_<run_id>_`. -/
def eventPrefix (run_id : String) : List Char := "evt_".toList ++ run_id.toList ++ ['_']

/-- `evt_<run_id>_<seq:06d>`. -/
def eventId (run_id : String) (seq : Nat) : String :=
  String.ofList (eventPrefix run_id ++ (Nat.toDigits 10 seq).leftpad 6 '0')

/-- `event_seq_from_event_id`. A `Last-Event-ID` header is latin-1 text: of its
characters that `isdigit` takes, `int` raises on the superscripts, and the call
returns `None` for them as for any other character that is not an ASCII digit. -/
def eventSeqFromEventId (run_id event_id : String) : Option Nat :=
  if (eventPrefix run_id).isPrefixOf event_id.toList then
    let tail := event_id.toList.drop (eventPrefix run_id).length
    if tail ≠ [] ∧ tail.all Char.isDigit then some (Nat.ofDigitChars 10 tail 0) else none
  else none

/-- The id of an allocated event converts back to its sequence number. -/
theorem eventSeqFromEventId_eventId (run_id : String) (seq : Nat) :
    eventSeqFromEventId run_id (eventId run_id seq) = some seq := by
  have hPrefix : (eventPrefix run_id).isPrefixOf (eventId run_id seq).toList = true := by
    simp [eventId]
  have hNonempty : (Nat.toDigits 10 seq).leftpad 6 '0' ≠ [] := by
    simp [List.leftpad, Nat.toDigits_ne_nil]
  have hDigits : ((Nat.toDigits 10 seq).leftpad 6 '0').all Char.isDigit = true := by
    rw [List.all_eq_true]
    intro c hc
    rcases List.mem_append.mp hc with hc | hc
    · rw [List.eq_of_mem_replicate hc]
      rfl
    · exact Nat.isDigit_of_mem_toDigits (by decide) (by decide) hc
  have hValue : Nat.ofDigitChars 10 ((Nat.toDigits 10 seq).leftpad 6 '0') 0 = seq := by
    rw [List.leftpad, Nat.ofDigitChars_append, Nat.ofDigitChars_replicate_zero, Nat.mul_zero,
      Nat.ofDigitChars_toDigits (by decide) (by decide)]
  unfold eventSeqFromEventId
  rw [if_pos hPrefix]
  simp only [eventId, String.toList_ofList, List.drop_left, hValue]
  rw [if_pos ⟨hNonempty, hDigits⟩]

/-- An entry of the replay buffer. -/
structure BufferEntry where
  ts : ℚ
  event_equivalent : String
  payload : SseEvent

/-- What a queue holds: events, and the marker that a closed subscription gets. -/
inductive QueueItem where
  | event (payload : SseEvent)
  | closed (reason : String)
deriving DecidableEq, Repr

def QueueItem.type : QueueItem → String
  | .event payload => payload.type
  | .closed _ => SSE_SUBSCRIPTION_CLOSED_TYPE

/-- `_Subscription`, with the capacity of its queue. -/
structure Subscription where
  equivalent : String
  queue : List QueueItem
  maxsize : Nat
  replay_bootstrap_pending : Bool
  replay_bootstrap_tail : List SseEvent
  closed : Bool
  close_reason : Option String

/-- What the consumer sends to its client, keep-alive comments included. -/
inductive Frame where
  | event (payload : SseEvent)
  | init (state : String)
  | keepAlive

def Frame.payload? : Frame → Option SseEvent
  | .event payload => some payload
  | .init _ | .keepAlive => none

/-- Where the generator stands: it drains its queue up to its own status, sends
what it drained and then that status, finishes the replay, sends the tail it
got, and reads the queue until it returns. -/
inductive Stage where
  | draining (prefetched : List SseEvent)
  | sendingPrefix (rest : List SseEvent) (status : SseEvent)
  | checkingPending (state : String)
  | finishingReplay (state : String)
  | flushing (bootstrap_tail : List SseEvent)
  | live
  | returned

/-- A subscription with its consumer. `subscribed` says whether it is in the
run's list, and `frames` lists what its client was sent. -/
structure Stream where
  sub : Subscription
  subscribed : Bool
  after_event_id : Option String
  status_seq : Nat
  stage : Stage
  frames : List Frame

/-- The events a client was sent. -/
def Stream.yielded (s : Stream) : List SseEvent := s.frames.filterMap Frame.payload?

/-- An allocated event, and whether a subscription created it as its own status. -/
structure Emission where
  event : SseEvent
  bootstrap : Bool

/-- The broadcaster's part of a run. Every subscription ever made stays listed,
and `history` remembers every event that was allocated. -/
structure Run where
  run_id : String
  event_seq : Nat
  event_buffer : List BufferEntry
  streams : List Stream
  history : List Emission

/-- A run before its first event. -/
def Run.start (run_id : String) : Run := ⟨run_id, 0, [], [], []⟩

/-- How a subscription is refused. -/
inductive SubscribeError where
  | tooManyRequests
  | sseReplayUnavailable
deriving DecidableEq, Repr

variable (config : Config)

/-- `prune_event_buffer_locked`. -/
def pruneEventBuffer (now : ℚ) (buffer : List BufferEntry) : List BufferEntry :=
  let ttl := max 0 config.event_buffer_ttl_sec
  let fresh := if ttl = 0 then buffer else buffer.dropWhile fun entry => entry.ts < now - ttl
  fresh.drop (fresh.length - (max 1 config.event_buffer_max).toNat)

/-- The entry of an event; a run status belongs to no equivalent. -/
def bufferEntry (now : ℚ) (payload : SseEvent) : BufferEntry :=
  ⟨now, if payload.type = RUN_STATUS then "" else payload.equivalent, payload⟩

/-- `_append_to_event_buffer_locked`. -/
def appendToEventBuffer (now : ℚ) (payload : SseEvent) (buffer : List BufferEntry) :
    List BufferEntry :=
  pruneEventBuffer config now (buffer ++ [bufferEntry now payload])

/-- `_replay_events_locked` after its pruning. -/
def replayEvents (r : Run) (equivalent after_event_id : String) : Except SubscribeError (List SseEvent) :=
  match eventSeqFromEventId r.run_id after_event_id with
  | none => .error .sseReplayUnavailable
  | some after_seq =>
      if r.event_seq < after_seq then .error .sseReplayUnavailable
      else if after_seq < r.event_seq ∧
          ∀ oldest ∈ r.event_buffer.head?, after_seq + 1 < oldest.payload.seq then
        .error .sseReplayUnavailable
      else .ok ((r.event_buffer.filter fun entry => after_seq < entry.payload.seq ∧
        (entry.payload.type = RUN_STATUS ∨ entry.event_equivalent = equivalent)).map (·.payload))

/-- `_close_subscription_locked`. -/
def closeSubscription (reason : String) (s : Stream) : Stream :=
  if s.sub.closed then s
  else
    { s with
      subscribed := false
      sub :=
        { s.sub with
          closed := true
          close_reason := some reason
          replay_bootstrap_pending := false
          replay_bootstrap_tail := []
          queue := [.closed reason] } }

/-- The part of `_dispatch_locked` for one subscription. -/
def deliver (payload : SseEvent) (s : Stream) : Stream :=
  if s.sub.closed then s
  else if payload.type ≠ RUN_STATUS ∧ s.sub.equivalent ≠ payload.equivalent then s
  else if s.sub.replay_bootstrap_pending then
    if max 1 s.sub.maxsize ≤ s.sub.replay_bootstrap_tail.length then
      closeSubscription "replay_bootstrap_overflow" s
    else
      { s with sub :=
        { s.sub with replay_bootstrap_tail := s.sub.replay_bootstrap_tail ++ [payload] } }
  else if s.sub.maxsize ≤ s.sub.queue.length then
    closeSubscription "live_queue_overflow" s
  else { s with sub := { s.sub with queue := s.sub.queue ++ [.event payload] } }

/-- `_dispatch_locked`: the event enters the buffer and reaches every
subscription in the run's list. -/
def dispatch (now : ℚ) (payload : SseEvent) (r : Run) : Run :=
  { r with
    event_buffer := appendToEventBuffer config now payload r.event_buffer
    streams := r.streams.map fun s => if s.subscribed then deliver payload s else s }

def publishEvent (now : ℚ) (type equivalent state : String) (r : Run) : Run :=
  let next_seq := r.event_seq + 1
  let payload := ⟨next_seq, type, equivalent, state⟩
  dispatch config now payload
    { r with event_seq := next_seq, history := r.history ++ [⟨payload, false⟩] }

/-- `_count_total_subs_locked`, from this run's list and the number of subscriptions of other runs. -/
def countTotalSubs (others : Nat) (r : Run) : Nat :=
  others + r.streams.countP (·.subscribed)

/-- The capacity of a new queue. -/
def queueMax : Nat := (max 1 config.sub_queue_max).toNat

/-- The limits on concurrent connections. -/
def refusesConnection (others : Nat) (r : Run) : Bool :=
  (0 < config.max_subs_total ∧ config.max_subs_total ≤ countTotalSubs others r) ∨
    (0 < config.max_subs_per_run ∧ config.max_subs_per_run ≤ r.streams.countP (·.subscribed))

/-- The replay of a new subscription, which leaves one slot of its queue for the status. -/
def bootstrapReplay (r : Run) (equivalent : String) : Option String → Except SubscribeError (List SseEvent)
  | none => .ok []
  | some after_event_id => do
      let replay ← replayEvents r equivalent after_event_id
      if queueMax config < replay.length + 1 then .error .sseReplayUnavailable else .ok replay

/-- The subscription that is exposed, with its replay and its own status queued. -/
def newStream (equivalent : String) (after_event_id : Option String) (replay : List SseEvent)
    (status : SseEvent) : Stream where
  sub :=
    { equivalent
      queue := (replay ++ [status]).map .event
      maxsize := queueMax config
      replay_bootstrap_pending := true
      replay_bootstrap_tail := []
      closed := false
      close_reason := none }
  subscribed := true
  after_event_id
  status_seq := status.seq
  stage := .draining []
  frames := []

/-- `subscribe` with a status of the given run state as its bootstrap event.
The two clock readings are those of the replay and of the buffered status. -/
def subscribe (others : Nat) (nowReplay nowStatus : ℚ) (equivalent : String)
    (after_event_id : Option String) (state : String) (r : Run) : Except SubscribeError Unit × Run :=
  if refusesConnection config others r then (.error .tooManyRequests, r)
  else
    let pruned := match after_event_id with
      | none => r
      | some _ => { r with event_buffer := pruneEventBuffer config nowReplay r.event_buffer }
    match bootstrapReplay config pruned equivalent after_event_id with
    | .error e => (.error e, pruned)
    | .ok replay =>
        let status : SseEvent := ⟨r.event_seq + 1, RUN_STATUS, "", state⟩
        (.ok (),
          { pruned with
            event_seq := r.event_seq + 1
            history := r.history ++ [⟨status, true⟩]
            event_buffer := appendToEventBuffer config nowStatus status pruned.event_buffer
            streams := r.streams ++ [newStream config equivalent after_event_id replay status] })

/-- `finish_replay_bootstrap`: the tail, or nothing when the subscription is gone. -/
def finishReplayBootstrap (s : Stream) : Option (List SseEvent) × Stream :=
  if s.sub.closed ∨ ¬s.subscribed then (none, s)
  else
    (some s.sub.replay_bootstrap_tail,
      { s with sub :=
        { s.sub with replay_bootstrap_tail := [], replay_bootstrap_pending := false } })

/-- The generator after it got its tail: it returns when the status was terminal. -/
def afterFinish (state : String) (bootstrap_tail : List SseEvent) : Stage :=
  if terminal state then .returned else .flushing bootstrap_tail

/-- The generator after it sent a live event. -/
def afterLive (payload : SseEvent) (next : Stage) : Stage :=
  if payload.type = RUN_STATUS ∧ terminal payload.state then .returned else next

/-- The generator takes the next item of its queue while it looks for its status. -/
def drain (prefetched : List SseEvent) (s : Stream) : Stream :=
  match s.sub.queue with
  | [] => s
  | item :: queue =>
      let taken := { s with sub := { s.sub with queue } }
      if item.type = SSE_SUBSCRIPTION_CLOSED_TYPE then { taken with stage := .returned }
      else
        match item with
        | .closed _ => { taken with stage := .returned }
        | .event payload =>
            if payload.seq = s.status_seq then { taken with stage := .sendingPrefix prefetched payload }
            else { taken with stage := .draining (prefetched ++ [payload]) }

/-- The generator takes the next item of its queue and sends it. -/
def receive (s : Stream) : Stream :=
  match s.sub.queue with
  | [] => s
  | item :: queue =>
      let taken := { s with sub := { s.sub with queue } }
      if item.type = SSE_SUBSCRIPTION_CLOSED_TYPE then { taken with stage := .returned }
      else
        match item with
        | .closed _ => { taken with stage := .returned }
        | .event payload =>
            { taken with stage := afterLive payload .live, frames := s.frames ++ [.event payload] }

/-- One step of `_run_events_stream`. Without a queued item a reading generator waits. -/
def consume (s : Stream) : Stream :=
  match s.stage with
  | .draining prefetched => drain prefetched s
  | .sendingPrefix (payload :: rest) status =>
      { s with stage := .sendingPrefix rest status, frames := s.frames ++ [.event payload] }
  | .sendingPrefix [] status =>
      { s with stage := .checkingPending status.state, frames := s.frames ++ [.event status] }
  | .checkingPending state =>
      if s.sub.replay_bootstrap_pending then { s with stage := .finishingReplay state }
      else { s with stage := afterFinish state [] }
  | .finishingReplay state =>
      match finishReplayBootstrap s with
      | (none, s) => { s with stage := .returned }
      | (some bootstrap_tail, s) => { s with stage := afterFinish state bootstrap_tail }
  | .flushing (payload :: rest) =>
      { s with
        stage := afterLive payload (.flushing rest)
        frames := s.frames ++ [.event payload] }
  | .flushing [] => { s with stage := .live }
  | .live => receive s
  | .returned => s

/-- `asyncio.wait_for` gives up on an empty queue: while the generator looks for
its status it sends a snapshot of its own instead, later only a comment. -/
def timeout (state : String) (s : Stream) : Stream :=
  match s.stage, s.sub.queue with
  | .draining _, [] => { s with stage := .checkingPending state, frames := s.frames ++ [.init state] }
  | .live, [] => { s with frames := s.frames ++ [.keepAlive] }
  | _, _ => s

/-- `unsubscribe`, which the generator runs when it returns or is aborted. -/
def unsubscribe (s : Stream) : Stream := { s with subscribed := false, stage := .returned }

/-- What may happen to the broadcaster of a run. -/
inductive Action where
  | publish (now : ℚ) (type equivalent state : String)
  | subscribe (others : Nat) (nowReplay nowStatus : ℚ) (equivalent : String)
      (after_event_id : Option String) (state : String)
  | prune (now : ℚ)
  | consume (index : Nat)
  | timeout (index : Nat) (state : String)
  | unsubscribe (index : Nat)

/-- Change one of the streams. -/
def Run.modifyStream (index : Nat) (f : Stream → Stream) (r : Run) : Run :=
  { r with streams := r.streams.modify index f }

/-- One step of the broadcaster. -/
def step (r : Run) : Action → Run
  | .publish now type equivalent state => publishEvent config now type equivalent state r
  | .subscribe others nowReplay nowStatus equivalent after_event_id state =>
      (SseBroadcast.subscribe config others nowReplay nowStatus equivalent after_event_id state r).2
  | .prune now => { r with event_buffer := pruneEventBuffer config now r.event_buffer }
  | .consume index => r.modifyStream index SseBroadcast.consume
  | .timeout index state => r.modifyStream index (SseBroadcast.timeout state)
  | .unsubscribe index => r.modifyStream index SseBroadcast.unsubscribe

end SseBroadcast

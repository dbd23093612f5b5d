import Mathlib
import GeoLedger.Library.BoundedMemory
import GeoLedger.Library.Runs
import GeoLedger.Simulator.ReplayOwner

/-! What the replay owner of the client keeps over every sequence of frames,
connections, runs and resets, and when the cursor is only replaced by a later one. -/
namespace ReplayOwner
open BoundedMemory JsValues EventNormalizer SseBroadcast Transition

section Owner

variable {upper : String → String} {owner : Owner} {input : AdmitInput}

theorem enter_processedRunId (runId : String) : (owner.enter runId).processedRunId = some runId := by
  unfold Owner.enter
  split
  · rfl
  · next hSame => simpa using hSame

/-- The context of an event that is let in. -/
structure InContext (upper : String → String) (event : AcceptedEvent) (connectionRunId connectionEquivalent : String)
    (activeRunId : Option String) : Prop where
  active : activeRunId = some connectionRunId
  run : ∀ status, event.body = .runStatus status → status.runId = connectionRunId
  equivalent : ∀ equivalent, equivalent? event.body = some equivalent →
    trimUpper upper equivalent = trimUpper upper connectionEquivalent

/-- An event without a context diagnostic is in the context of the connection. -/
theorem inContext_of_none (hActive : input.activeRunId = some input.connectionRunId)
    (h : contextDiagnostic upper input = none) :
    InContext upper input.event input.connectionRunId input.connectionEquivalent input.activeRunId := by
  unfold contextDiagnostic at h
  refine ⟨hActive, fun status hBody => ?_, fun equivalent hEquivalent => ?_⟩
  · rw [hBody] at h
    simpa using h
  · cases hBody : input.event.body with
    | runStatus status =>
        rw [hBody] at hEquivalent
        cases hEquivalent
    | txUpdated event | txFailed event | clearingDone event | topologyChanged event =>
        rw [hBody] at h hEquivalent
        simp only [hEquivalent] at h
        simpa using h

/-- The owner after `admit` is the one that it found, or the one of the connection. -/
theorem admit_owner : ( owner.admit upper input).2 = owner ∨
    ( owner.admit upper input).2 = owner.enter input.connectionRunId := by
  unfold Owner.admit
  split
  · exact Or.inl rfl
  · split
    · exact Or.inl rfl
    · split
      · exact Or.inl rfl
      · dsimp only
        split <;> exact Or.inr rfl

/-- What an accepted event is. -/
theorem admit_accepted {cursor : String} {next : Owner} (h : owner.admit upper input = (.accepted cursor, next)) :
    InContext upper input.event input.connectionRunId input.connectionEquivalent input.activeRunId ∧
      next = owner.enter input.connectionRunId ∧ input.event.eventId ∉ next.processedEventIds ∧
      cursor = monotonicCursor input.currentCursor input.event.eventId input.connectionRunId := by
  unfold Owner.admit at h
  split at h
  · cases h
  · split at h
    · cases h
    · next hActive =>
      split at h
      · cases h
      · next hContext =>
        dsimp only at h
        split at h
        · cases h
        · next hNew =>
          cases h
          exact ⟨inContext_of_none (by simpa using hActive) hContext, rfl, hNew, rfl⟩

end Owner

section Memory

variable {ids history : List String} {maxIds pruneBatch : Nat}

/-- Without an empty key the pruning loop drops what is too much. -/
theorem prune_eq (targetSize : Nat) (hIds : "" ∉ ids) :
    prune targetSize ids = ids.drop (ids.length - targetSize) := by
  induction ids with
  | nil => rw [prune, List.drop_nil]
  | cons firstKey rest ih =>
      have hFirst : firstKey ≠ "" := fun hEmpty => hIds (hEmpty ▸ List.mem_cons_self ..)
      rw [prune]
      split
      · next hLarge =>
        rw [ih fun hMem => hIds (List.mem_cons_of_mem _ hMem)]
        have hLength : (firstKey :: rest).length - targetSize = rest.length - targetSize + 1 := by
          simp only [List.length_cons] at hLarge ⊢
          omega
        rw [hLength, List.drop_succ_cons]
      · next hSmall =>
        have hLength : (firstKey :: rest).length - targetSize = 0 := by
          by_contra hNot
          exact hSmall ⟨by omega, hFirst⟩
        rw [hLength, List.drop_zero]

/-- The keys after a new one was set and the oldest were pruned. -/
def keysAfter (maxIds pruneBatch : Nat) (ids : List String) (eventId : String) : List String :=
  if maxIds < (ids ++ [eventId]).length then prune (maxIds - pruneBatch) (ids ++ [eventId]) else ids ++ [eventId]

/-- Committing a new id for the remembered run appends it, and prunes. -/
theorem commit_eq {owner : Owner} {eventId runId : String} (hRun : owner.processedRunId = some runId)
    (hNew : eventId ∉ owner.processedEventIds) :
    owner.commit maxIds pruneBatch eventId runId =
      ⟨some runId, keysAfter maxIds pruneBatch owner.processedEventIds eventId⟩ := by
  have hEnter : owner.enter runId = owner := if_neg (not_not.mpr hRun)
  simp only [Owner.commit, hEnter, setKey, if_neg hNew, hRun, keysAfter]

/-- After a commit the ids are bounded, and still hold the last ones that were committed. -/
theorem keysAfter_spec (hRemembers : Remembers (maxIds - pruneBatch) history ids) (hIds : "" ∉ ids)
    {eventId : String} (hEvent : eventId ≠ "") :
    Remembers (maxIds - pruneBatch) (history ++ [eventId]) (keysAfter maxIds pruneBatch ids eventId) ∧
      (keysAfter maxIds pruneBatch ids eventId).length ≤ maxIds ∧
      "" ∉ keysAfter maxIds pruneBatch ids eventId := by
  have hNone : "" ∉ ids ++ [eventId] := by
    rw [List.mem_append, List.mem_singleton]
    rintro (hMem | hEq)
    · exact hIds hMem
    · exact hEvent hEq.symm
  have hNext := hRemembers.concat eventId
  unfold keysAfter
  split
  · next hLarge =>
    rw [prune_eq _ hNone]
    refine ⟨hNext.drop (by omega), ?_, fun hMem => hNone (List.mem_of_mem_drop hMem)⟩
    rw [List.length_drop]
    omega
  · next hSmall => exact ⟨hNext, not_lt.mp hSmall, hNone⟩

end Memory

theorem nonEmptyString_ne {raw : Record} {key value : String} (h : nonEmptyString raw key = some value) :
    value ≠ "" := by
  unfold nonEmptyString at h
  cases hText : asString raw key with
  | none =>
      rw [hText] at h
      cases h
  | some text =>
      rw [hText, Option.bind_eq_bind, Option.bind_some] at h
      split at h
      · cases h
      · next hNe =>
        cases h
        exact hNe

/-- An event that the normalizer lets through has an id. -/
theorem normalize_eventId_ne {value : Json} {event : AcceptedEvent}
    (h : (normalizeSimulatorEvent value).toOption = some event) : event.eventId ≠ "" := by
  unfold normalizeSimulatorEvent at h
  cases hRecord : value.record? with
  | none =>
      rw [hRecord] at h
      cases h
  | some raw =>
      simp only [hRecord, orMalformed, bind, Except.bind] at h
      cases hType : nonEmptyString raw "type" with
      | none =>
          rw [hType] at h
          cases h
      | some type =>
          cases hId : nonEmptyString raw "event_id" with
          | none =>
              rw [hType, hId] at h
              cases h
          | some eventId =>
              rw [hType, hId] at h
              have hNe := nonEmptyString_ne hId
              cases hTs : asString raw "ts" with
              | none =>
                  rw [hTs] at h
                  cases h
              | some ts =>
                  rw [hTs] at h
                  simp only [Option.bind_some] at h
                  by_cases hDate : isCanonicalIsoDateTime ts = true
                  · simp only [if_pos hDate, Option.pure_def] at h
                    cases hBody : normalizeBody type raw with
                    | error ignored =>
                        rw [hBody] at h
                        cases h
                    | ok body =>
                        rw [hBody] at h
                        cases h
                        exact hNe
                  · rw [if_neg hDate] at h
                    cases h

section Client

variable {upper : String → String} {maxIds pruneBatch : Nat} {client : Client}

/-- The ids that were committed since the owner went over to its run. -/
def Client.tenureIds (client : Client) : List String :=
  (client.log.filter fun e => e.tenure = client.tenure).map fun e => e.event.eventId

/-- The id is not among the last ones of the entries before it that have something in
common with it. -/
def NotAmongLast {Key : Type} [DecidableEq Key] (key : Accepted → Key) (last : Nat) (before : List Accepted)
    (e : Accepted) : Prop :=
  e.event.eventId ∉ ((before.filter fun old => key old = key e).map fun old => old.event.eventId).rtake last

/-- The invariant of every run: the owner remembers the last ids of its run. -/
structure Inv (upper : String → String) (maxIds pruneBatch : Nat) (client : Client) : Prop where
  bounded : client.owner.processedEventIds.length ≤ maxIds
  named : "" ∉ client.owner.processedEventIds
  remembers : Remembers (maxIds - pruneBatch) client.tenureIds client.owner.processedEventIds
  tenures : ∀ e ∈ client.log, e.tenure ≤ client.tenure
  current : ∀ e ∈ client.log, e.tenure = client.tenure → client.owner.processedRunId = some e.frame.runId
  runs : ∀ e ∈ client.log, ∀ old ∈ client.log, e.tenure = old.tenure → e.frame.runId = old.frame.runId
  context : ∀ e ∈ client.log, InContext upper e.event e.frame.runId e.frame.equivalent e.activeRunId ∧
    trimUpper upper e.effectiveEq = trimUpper upper e.frame.equivalent
  once : EachAfter (NotAmongLast Accepted.tenure (maxIds - pruneBatch)) client.log
  resume : ∀ id, client.lastEventId = some id → ∃ e ∈ client.log.getLast?, e.after = id

/-- The invariant holds before the first frame. -/
theorem inv_initial : Inv upper maxIds pruneBatch {} where
  bounded := Nat.zero_le _
  named := List.not_mem_nil
  remembers := remembers_nil
  tenures := fun _ h => absurd h List.not_mem_nil
  current := fun _ h => absurd h List.not_mem_nil
  runs := fun _ h => absurd h List.not_mem_nil
  context := fun _ h => absurd h List.not_mem_nil
  once := eachAfter_nil
  resume := nofun

/-- The owner goes over to the run of a connection. -/
theorem inv_setOwner_enter (hInv : Inv upper maxIds pruneBatch client) (runId : String) :
    Inv upper maxIds pruneBatch (client.setOwner (client.owner.enter runId)) := by
  by_cases hSame : client.owner.processedRunId = some runId
  · have hEnter : client.owner.enter runId = client.owner := if_neg (not_not.mpr hSame)
    have hClient : client.setOwner client.owner = client := by
      unfold Client.setOwner
      rw [if_pos rfl]
    rw [hEnter, hClient]
    exact hInv
  · have hEnter : client.owner.enter runId = ⟨some runId, []⟩ := if_pos hSame
    rw [hEnter, Client.setOwner, if_neg (Ne.symm hSame)]
    have hOld : ∀ e ∈ client.log, e.tenure ≠ client.tenure + 1 := fun e he hEq => by
      have := hInv.tenures e he
      omega
    refine ⟨Nat.zero_le _, nofun, ?_, fun e he => (hInv.tenures e he).trans (Nat.le_succ _), ?_, hInv.runs,
      hInv.context, hInv.once, hInv.resume⟩
    · have hNone : client.log.filter (fun e => e.tenure = client.tenure + 1) = [] :=
        List.filter_eq_nil_iff.mpr fun e he => by simpa using hOld e he
      rw [Client.tenureIds, hNone]
      exact remembers_nil
    · intro e he hTenure
      exact absurd hTenure (hOld e he)

/-- `admit` leaves the owner as it was, or goes over to the run of the connection. -/
theorem inv_setOwner_admit (hInv : Inv upper maxIds pruneBatch client) (input : AdmitInput) :
    Inv upper maxIds pruneBatch (client.setOwner ( client.owner.admit upper input).2) := by
  rcases @admit_owner upper client.owner input with hSame | hEnter
  · have hClient : client.setOwner client.owner = client := by
      unfold Client.setOwner
      rw [if_pos rfl]
    rw [hSame, hClient]
    exact hInv
  · rw [hEnter]
    exact inv_setOwner_enter hInv _

/-- An event that is read off a frame is of the frame's equivalent, and has an id. -/
theorem event?_eq {frame : Frame} {event : AcceptedEvent} (h : client.event? upper frame = some event) :
    trimUpper upper client.effectiveEq = trimUpper upper frame.equivalent ∧ event.eventId ≠ "" := by
  unfold Client.event? at h
  split at h
  · cases h
  · split at h
    · cases h
    · next hEq =>
      refine ⟨by simpa using hEq, ?_⟩
      split at h
      · cases h
      · cases h
      · next value hData => exact normalize_eventId_ne h

/-- A frame that is accepted, with the cursor it leaves. -/
structure Accepts (upper : String → String) (client : Client) (frame : Frame) (event : AcceptedEvent)
    (cursor : String) : Prop where
  received : client.event? upper frame = some event
  admitted : ∃ owner, client.admitFrame upper frame event = (.accepted cursor, owner)

/-- The state after an accepted frame. -/
def Client.accept (maxIds pruneBatch : Nat) (client : Client) (frame : Frame) (event : AcceptedEvent)
    (cursor : String) : Client :=
  let entered := client.setOwner (client.owner.enter frame.runId)
  { entered with
    owner := (client.owner.enter frame.runId).commit maxIds pruneBatch event.eventId frame.runId
    lastEventId := some cursor
    log := client.log ++
      [⟨frame, event, client.runId, client.effectiveEq, entered.tenure, client.lastEventId, cursor⟩] }

/-- What a frame does: it is accepted, or changes nothing but the run of the owner. -/
theorem handle_cases (client : Client) (frame : Frame) :
    (∃ event cursor, Accepts upper client frame event cursor ∧
      client.handleSseMessage upper maxIds pruneBatch frame = client.accept maxIds pruneBatch frame event cursor) ∨
    client.handleSseMessage upper maxIds pruneBatch frame = client ∨
    ∃ input, client.handleSseMessage upper maxIds pruneBatch frame =
      client.setOwner ( client.owner.admit upper input).2 := by
  unfold Client.handleSseMessage
  cases hEvent : client.event? upper frame with
  | none => exact Or.inr (Or.inl rfl)
  | some event =>
      dsimp only
      cases hAdmit : client.admitFrame upper frame event with
      | mk admission owner =>
          have hOwner : (client.admitFrame upper frame event).2 = owner := by rw [hAdmit]
          cases admission with
          | rejected kind diagnostic => exact Or.inr (Or.inr ⟨_, congrArg client.setOwner hOwner.symm⟩)
          | duplicate cursor => exact Or.inr (Or.inr ⟨_, congrArg client.setOwner hOwner.symm⟩)
          | accepted cursor =>
              refine Or.inl ⟨event, cursor, ⟨hEvent, owner, hAdmit⟩, ?_⟩
              obtain rfl := (admit_accepted hAdmit).2.1
              rfl

/-- A frame that is accepted is committed, and the cursor goes on. -/
theorem Accepts.handle {frame : Frame} {event : AcceptedEvent} {cursor : String}
    (h : Accepts upper client frame event cursor) :
    client.handleSseMessage upper maxIds pruneBatch frame = client.accept maxIds pruneBatch frame event cursor := by
  obtain ⟨owner, hAdmit⟩ := h.admitted
  obtain rfl := (admit_accepted hAdmit).2.1
  unfold Client.handleSseMessage
  rw [h.received]
  dsimp only
  rw [hAdmit]
  rfl

/-- An accepted event is in context and new, and its cursor is the monotonic one. -/
theorem Accepts.spec {frame : Frame} {event : AcceptedEvent} {cursor : String}
    (h : Accepts upper client frame event cursor) :
    InContext upper event frame.runId frame.equivalent client.runId ∧
      event.eventId ∉ (client.owner.enter frame.runId).processedEventIds ∧
      cursor = monotonicCursor client.lastEventId event.eventId frame.runId := by
  obtain ⟨owner, hAdmit⟩ := h.admitted
  obtain ⟨hContext, rfl, hNew, hCursor⟩ := admit_accepted hAdmit
  exact ⟨hContext, hNew, hCursor⟩

/-- Accepting a frame keeps the invariant. -/
theorem inv_accept (hInv : Inv upper maxIds pruneBatch client) {frame : Frame} {event : AcceptedEvent}
    {cursor : String} (hAccepts : Accepts upper client frame event cursor) :
    Inv upper maxIds pruneBatch (client.accept maxIds pruneBatch frame event cursor) := by
  obtain ⟨hContext, hNew, -⟩ := hAccepts.spec
  obtain ⟨hEq, hNamed⟩ := event?_eq hAccepts.received
  have hEntered := inv_setOwner_enter hInv frame.runId
  set entered := client.setOwner (client.owner.enter frame.runId) with hSet
  have hRun : entered.owner.processedRunId = some frame.runId := enter_processedRunId frame.runId
  set e : Accepted := ⟨frame, event, client.runId, client.effectiveEq, entered.tenure, client.lastEventId, cursor⟩
    with he
  have hOwner : (client.accept maxIds pruneBatch frame event cursor).owner =
      ⟨some frame.runId, keysAfter maxIds pruneBatch entered.owner.processedEventIds event.eventId⟩ :=
    commit_eq hRun hNew
  have hLog : (client.accept maxIds pruneBatch frame event cursor).log = client.log ++ [e] := rfl
  have hIds : (client.accept maxIds pruneBatch frame event cursor).tenureIds =
      entered.tenureIds ++ [event.eventId] := by
    show ((client.log ++ [e]).filter fun old => old.tenure = entered.tenure).map (fun old => old.event.eventId) = _
    rw [List.filter_append, List.filter_cons_of_pos (by simp [he]), List.map_append]
    rfl
  obtain ⟨hRemembers, hBounded, hNone⟩ := keysAfter_spec hEntered.remembers hEntered.named hNamed
  refine ⟨?_, ?_, ?_, ?_, ?_, ?_, ?_, ?_, ?_⟩
  · rw [hOwner]
    exact hBounded
  · rw [hOwner]
    exact hNone
  · rw [hOwner, hIds]
    exact hRemembers
  · intro old hOld
    rcases List.mem_append.mp (hLog ▸ hOld) with hOld | hLast
    · exact hEntered.tenures old hOld
    · rw [List.mem_singleton.mp hLast]
      exact le_rfl
  · intro old hOld hTenure
    rw [hOwner]
    rcases List.mem_append.mp (hLog ▸ hOld) with hOld | hLast
    · rw [← hEntered.current old hOld hTenure, hRun]
    · rw [List.mem_singleton.mp hLast]
  · have hSame : ∀ old ∈ client.log, old.tenure = entered.tenure → old.frame.runId = frame.runId := by
      intro old hOld hTenure
      exact Option.some.inj ((hEntered.current old hOld hTenure).symm.trans hRun)
    intro a ha b hb hTenure
    rcases List.mem_append.mp (hLog ▸ ha) with ha | ha <;> rcases List.mem_append.mp (hLog ▸ hb) with hb | hb
    · exact hEntered.runs a ha b hb hTenure
    · rw [List.mem_singleton.mp hb] at hTenure ⊢
      exact hSame a ha hTenure
    · rw [List.mem_singleton.mp ha] at hTenure ⊢
      exact (hSame b hb hTenure.symm).symm
    · rw [List.mem_singleton.mp ha, List.mem_singleton.mp hb]
  · intro old hOld
    rcases List.mem_append.mp (hLog ▸ hOld) with hOld | hLast
    · exact hInv.context old hOld
    · rw [List.mem_singleton.mp hLast]
      exact ⟨hContext, hEq⟩
  · rw [hLog]
    refine hInv.once.concat fun hMem => ?_
    exact hNew (hEntered.remembers.mem_of_mem_rtake hMem)
  · rintro id ⟨⟩
    rw [hLog, List.getLast?_concat]
    exact ⟨e, rfl, rfl⟩

/-- Every action keeps the invariant. -/
theorem step_inv (hInv : Inv upper maxIds pruneBatch client) (a : Action) :
    Inv upper maxIds pruneBatch (step upper maxIds pruneBatch client a) := by
  cases a with
  | frame frame =>
      rw [step]
      rcases @handle_cases upper maxIds pruneBatch client frame with
        ⟨event, cursor, hAccepts, hNext⟩ | hNext | ⟨input, hNext⟩
      · rw [hNext]
        exact inv_accept hInv hAccepts
      · rw [hNext]
        exact hInv
      · rw [hNext]
        exact inv_setOwner_admit hInv input
  | bootstrap frame =>
      rw [step, Client.replayBootstrapFrame]
      split
      · exact hInv
      · exact hInv
      · split
        · exact inv_setOwner_admit hInv _
        · exact hInv
  | setRun runId =>
      exact ⟨hInv.bounded, hInv.named, hInv.remembers, hInv.tenures, hInv.current, hInv.runs, hInv.context, hInv.once,
        hInv.resume⟩
  | clearCursor =>
      exact ⟨hInv.bounded, hInv.named, hInv.remembers, hInv.tenures, hInv.current, hInv.runs, hInv.context, hInv.once,
        nofun⟩
  | resetStaleRun =>
      refine ⟨Nat.zero_le _, List.not_mem_nil, remembers_nil, ?_, ?_, ?_, ?_, eachAfter_nil, nofun⟩
      all_goals exact fun _ h => absurd h List.not_mem_nil
  | select equivalent =>
      exact ⟨hInv.bounded, hInv.named, hInv.remembers, hInv.tenures, hInv.current, hInv.runs, hInv.context, hInv.once,
        hInv.resume⟩

/-- The cursor is replaced by itself or by a producer id with a larger number, where
ids are read as the server reads them. -/
def Replaces (runId : String) (before : Option String) (after : String) : Prop :=
  ∀ id n, before = some id → eventSeqFromEventId runId id = some n →
    after = id ∨ ∃ m, n < m ∧ eventSeqFromEventId runId after = some m

/-- While the cursor is a producer id, the event has one too, and not the number of
the cursor in another spelling. -/
def Keeps (runId : String) (before : Option String) (eventId : String) : Prop :=
  ∀ id n, before = some id → eventSeqFromEventId runId id = some n →
    ∃ m, eventSeqFromEventId runId eventId = some m ∧ (m = n → eventId = id)

/-- A producer cursor is kept exactly against smaller producer ids. -/
theorem monotonicCursor_eq {id eventId runId : String} {n : Nat} (hCursor : eventSeqFromEventId runId id = some n) :
    monotonicCursor (some id) eventId runId =
      if ∃ m ∈ eventSeqFromEventId runId eventId, m < n then id else eventId := by
  simp only [monotonicCursor, producerSequence_eq, Option.bind_some, hCursor]
  cases hEvent : eventSeqFromEventId runId eventId with
  | none => simp
  | some m => simp

/-- `monotonicCursor` is monotonic exactly on these events. -/
theorem replaces_iff_keeps {runId eventId : String} {before : Option String} :
    Replaces runId before (monotonicCursor before eventId runId) ↔ Keeps runId before eventId := by
  constructor
  · rintro hReplaces id n rfl hCursor
    have hAfter := hReplaces id n rfl hCursor
    rw [monotonicCursor_eq hCursor] at hAfter
    split at hAfter
    · next hLower =>
      obtain ⟨m, hEvent, hLt⟩ := hLower
      exact ⟨m, hEvent, fun hEq => absurd hEq hLt.ne⟩
    · rcases hAfter with rfl | ⟨m, hLt, hEvent⟩
      · exact ⟨n, hCursor, fun _ => rfl⟩
      · exact ⟨m, hEvent, fun hEq => absurd hEq hLt.ne'⟩
  · rintro hKeeps id n rfl hCursor
    obtain ⟨m, hEvent, hSame⟩ := hKeeps id n rfl hCursor
    rw [monotonicCursor_eq hCursor]
    rcases lt_trichotomy m n with hLt | hEq | hGt
    · rw [if_pos ⟨m, hEvent, hLt⟩]
      exact Or.inl rfl
    · left
      split
      · rfl
      · exact hSame hEq
    · rw [if_neg]
      · exact Or.inr ⟨m, hGt, hEvent⟩
      · rintro ⟨other, hOther, hLt⟩
        obtain rfl : m = other := Option.some.inj (hEvent.symm.trans hOther)
        exact absurd hLt hGt.not_gt

/-- The condition on a step: an accepted frame keeps a producer cursor, and the owner
has not gone over to another run since it accepted one of this run. -/
def Orderly (upper : String → String) (client : Client) : Action → Prop
  | .frame frame => ∀ event cursor, Accepts upper client frame event cursor →
      Keeps frame.runId client.lastEventId event.eventId ∧
        ∀ e ∈ client.log, e.frame.runId = frame.runId →
          e.tenure = client.tenure ∧ client.owner.processedRunId = some frame.runId
  | _ => True

/-- What orderly steps keep besides the invariant of every run. -/
structure Settled (client : Client) : Prop where
  tenures : ∀ e ∈ client.log, ∀ old ∈ client.log, e.frame.runId = old.frame.runId → e.tenure = old.tenure
  replaces : ∀ e ∈ client.log, Replaces e.frame.runId e.before e.after

/-- Accepting an orderly frame keeps the client settled. -/
theorem settled_accept (h : Settled client) {frame : Frame} {event : AcceptedEvent} {cursor : String}
    (hAccepts : Accepts upper client frame event cursor) (hOrderly : Orderly upper client (.frame frame)) :
    Settled (client.accept maxIds pruneBatch frame event cursor) := by
  obtain ⟨hKeeps, hStays⟩ := hOrderly event cursor hAccepts
  set entered := client.setOwner (client.owner.enter frame.runId)
  set e : Accepted := ⟨frame, event, client.runId, client.effectiveEq, entered.tenure, client.lastEventId, cursor⟩
    with he
  have hLog : (client.accept maxIds pruneBatch frame event cursor).log = client.log ++ [e] := rfl
  have hSame : ∀ old ∈ client.log, old.frame.runId = frame.runId → old.tenure = entered.tenure := by
    intro old hOld hRun
    obtain ⟨hTenure, hProcessed⟩ := hStays old hOld hRun
    have hEnter : client.owner.enter frame.runId = client.owner := if_neg (not_not.mpr hProcessed)
    show old.tenure = (client.setOwner (client.owner.enter frame.runId)).tenure
    rw [hEnter, Client.setOwner, if_pos rfl, hTenure]
  refine ⟨fun a ha b hb hRun => ?_, fun a ha => ?_⟩
  · rcases List.mem_append.mp (hLog ▸ ha) with ha | ha <;> rcases List.mem_append.mp (hLog ▸ hb) with hb | hb
    · exact h.tenures a ha b hb hRun
    · rw [List.mem_singleton.mp hb] at hRun ⊢
      exact hSame a ha hRun
    · rw [List.mem_singleton.mp ha] at hRun ⊢
      exact (hSame b hb hRun.symm).symm
    · rw [List.mem_singleton.mp ha, List.mem_singleton.mp hb]
  · rcases List.mem_append.mp (hLog ▸ ha) with ha | ha
    · exact h.replaces a ha
    · rw [List.mem_singleton.mp ha]
      show Replaces frame.runId client.lastEventId cursor
      rw [hAccepts.spec.2.2]
      exact replaces_iff_keeps.mpr hKeeps

/-- Every orderly action keeps the client settled. -/
theorem step_settled (h : Settled client) {a : Action} (hOrderly : Orderly upper client a) :
    Settled (step upper maxIds pruneBatch client a) := by
  cases a with
  | frame frame =>
      rw [step]
      rcases @handle_cases upper maxIds pruneBatch client frame with
        ⟨event, cursor, hAccepts, hNext⟩ | hNext | ⟨input, hNext⟩
      · rw [hNext]
        exact settled_accept h hAccepts hOrderly
      · rw [hNext]
        exact h
      · rw [hNext]
        exact ⟨h.tenures, h.replaces⟩
  | bootstrap frame =>
      rw [step, Client.replayBootstrapFrame]
      split
      · exact h
      · exact h
      · split
        · exact ⟨h.tenures, h.replaces⟩
        · exact h
  | setRun runId => exact ⟨h.tenures, h.replaces⟩
  | clearCursor => exact ⟨h.tenures, h.replaces⟩
  | resetStaleRun => exact ⟨fun _ h => absurd h List.not_mem_nil, fun _ h => absurd h List.not_mem_nil⟩
  | select equivalent => exact ⟨h.tenures, h.replaces⟩

/-- What the replay admission keeps. An accepted event is of the active run and of the
selected equivalent, and its id was not among the last ids of its run; the cursor is
the one of the last accepted event, and a producer id is only replaced by a later one. -/
structure ReplaySound (upper : String → String) (maxIds pruneBatch : Nat) (client : Client) : Prop where
  bounded : client.owner.processedEventIds.length ≤ maxIds
  once : EachAfter (NotAmongLast (fun e => e.frame.runId) (maxIds - pruneBatch)) client.log
  context : ∀ e ∈ client.log, InContext upper e.event e.frame.runId e.frame.equivalent e.activeRunId ∧
    trimUpper upper e.effectiveEq = trimUpper upper e.frame.equivalent
  replaces : ∀ e ∈ client.log, Replaces e.frame.runId e.before e.after
  resume : ∀ id, client.lastEventId = some id → ∃ e ∈ client.log.getLast?, e.after = id

/-- A settled client with the invariant admits frames soundly. -/
theorem replaySound_of (hInv : Inv upper maxIds pruneBatch client) (hSettled : Settled client) :
    ReplaySound upper maxIds pruneBatch client where
  bounded := hInv.bounded
  once := by
    refine hInv.once.mono fun before e hPrefix hTenure => ?_
    have hLog : ∀ old ∈ before ++ [e], old ∈ client.log := fun old hOld => hPrefix.subset hOld
    have hEntry := hLog e (List.mem_append_right _ (List.mem_singleton_self _))
    have hSame : before.filter (fun old => old.frame.runId = e.frame.runId) =
        before.filter (fun old => old.tenure = e.tenure) := by
      refine List.filter_congr fun old hOld => ?_
      have hOldLog := hLog old (List.mem_append_left _ hOld)
      have hIff : old.frame.runId = e.frame.runId ↔ old.tenure = e.tenure :=
        ⟨hSettled.tenures old hOldLog e hEntry, hInv.runs old hOldLog e hEntry⟩
      exact decide_eq_decide.mpr hIff
    unfold NotAmongLast
    rw [hSame]
    exact hTenure
  context := hInv.context
  replaces := hSettled.replaces
  resume := hInv.resume

/-- In every run at all the memory is bounded, nothing out of context is accepted, and
no id is accepted again that is among the last ones since the owner went over to its run. -/
theorem replay_memory {trace : List Action}
    (run : Run (step upper maxIds pruneBatch) (fun _ _ => True) {} trace client) :
    Inv upper maxIds pruneBatch client :=
  run.invariant inv_initial fun _ a h _ => step_inv h a

/-- In a run whose steps are orderly the replay admission is sound. -/
theorem replay_admission {trace : List Action}
    (run : Run (step upper maxIds pruneBatch) (Orderly upper) {} trace client) :
    ReplaySound upper maxIds pruneBatch client := by
  have hSettled : Settled ({} : Client) :=
    ⟨fun _ h => absurd h List.not_mem_nil, fun _ h => absurd h List.not_mem_nil⟩
  have hInv := run.invariant (P := fun client => Inv upper maxIds pruneBatch client ∧ Settled client)
    ⟨inv_initial, hSettled⟩ fun s a h hOrderly => ⟨step_inv h.1 a, step_settled h.2 hOrderly⟩
  exact replaySound_of hInv.1 hInv.2

/-- An accepted frame that does not keep the cursor replaces it by an id that is not
a later one. -/
theorem not_replaySound_of_frame {frame : Frame} {event : AcceptedEvent} {cursor : String}
    (hAccepts : Accepts upper client frame event cursor)
    (hNot : ¬Keeps frame.runId client.lastEventId event.eventId) :
    ¬ReplaySound upper maxIds pruneBatch (step upper maxIds pruneBatch client (.frame frame)) := by
  rw [step, hAccepts.handle]
  intro hSound
  have hReplaces := hSound.replaces _ (List.mem_append_right _ (List.mem_singleton_self _))
  rw [show cursor = _ from hAccepts.spec.2.2] at hReplaces
  exact hNot (replaces_iff_keeps.mp hReplaces)

end Client

/-- `toUpperCase` on ASCII letters. -/
def asciiUpper (text : String) : String := String.ofList (text.toList.map Char.toUpper)

/-- A frame with the status of run `r`. -/
def statusFrame (eventId : String) : Frame where
  aborted := false
  runId := "r"
  equivalent := "UAH"
  id := some eventId
  data := .parsed (.dict [("event_id", .text eventId), ("ts", .text "2026-01-01T00:00:00Z"),
    ("type", .text "run_status"), ("run_id", .text "r"), ("scenario_id", .text "s"), ("state", .text "running")])

/-- A client of run `r` that has seen frames. -/
def statusRun (eventIds : List String) : List Action :=
  .setRun (some "r") :: .select "UAH" :: eventIds.map fun id => .frame (statusFrame id)

/-- Two statuses with producer ids, in order. -/
theorem replay_admission_status :
    ReplaySound asciiUpper 5000 500
      ((statusRun ["evt_r_000001", "evt_r_000002"]).foldl (step asciiUpper 5000 500) {}) := by
  have selected : Run (step asciiUpper 5000 500) (Orderly asciiUpper) {} [.setRun (some "r"), .select "UAH"] _ :=
    (Run.nil.snoc (a := Action.setRun (some "r")) (by trivial)).snoc (a := Action.select "UAH") (by trivial)
  have first := selected.snoc (a := Action.frame (statusFrame "evt_r_000001")) (by
    rintro event cursor -
    exact ⟨nofun, fun _ h => absurd h List.not_mem_nil⟩)
  have second := first.snoc (a := Action.frame (statusFrame "evt_r_000002")) (by
    rintro event cursor hAccepts
    have hIds : (Client.event? asciiUpper ((statusRun ["evt_r_000001"]).foldl (step asciiUpper 5000 500) {})
        (statusFrame "evt_r_000002")).map AcceptedEvent.eventId = some "evt_r_000002" := by decide +kernel
    have hReceived : (Client.event? asciiUpper ((statusRun ["evt_r_000001"]).foldl (step asciiUpper 5000 500) {})
        (statusFrame "evt_r_000002")) = some event := hAccepts.received
    rw [hReceived, Option.map_some] at hIds
    refine ⟨fun id n hCursor hNumber => ⟨2, ?_, ?_⟩, ?_⟩
    · rw [Option.some.inj hIds]
      decide +kernel
    · rintro rfl
      have hId : ((statusRun ["evt_r_000001"]).foldl (step asciiUpper 5000 500) {}).lastEventId =
          some "evt_r_000001" := by decide +kernel
      obtain rfl : "evt_r_000001" = id := Option.some.inj (hId.symm.trans hCursor)
      exact absurd hNumber (by decide +kernel)
    · show ∀ e ∈ ((statusRun ["evt_r_000001"]).foldl (step asciiUpper 5000 500) {}).log, _
      decide +kernel)
  exact replay_admission second

/-- A frame of the run whose id is no producer id is accepted like any other, and the
cursor follows it. The id is one of the form that `_run_events_stream` gives a bootstrap
status; a server that works sends it before any other frame, but the client does not
ask for that. -/
theorem bootstrap_status_takes_cursor :
    ¬∀ (upper : String → String) (maxIds pruneBatch : Nat) (trace : List Action) (client : Client),
      Run (step upper maxIds pruneBatch) (fun _ _ => True) {} trace client →
        ReplaySound upper maxIds pruneBatch client := by
  intro h
  have hSound := h asciiUpper 5000 500 (statusRun ["evt_r_000001", "evt_init_0123456789ab"]) _ (Run.of_foldl _ _ _)
  have hCursors : (((statusRun ["evt_r_000001", "evt_init_0123456789ab"]).foldl (step asciiUpper 5000 500)
      {}).log.map fun e => (e.frame.runId, e.before, e.after)) =
      [("r", none, "evt_r_000001"), ("r", some "evt_r_000001", "evt_init_0123456789ab")] := by
    decide +kernel
  obtain ⟨e, he, hEntry⟩ := List.mem_map.mp (hCursors ▸ List.mem_cons_of_mem _ (List.mem_singleton_self _))
  obtain ⟨hRun, hBefore, hAfter⟩ := Prod.mk.inj hEntry |>.imp id Prod.mk.inj
  rcases hSound.replaces e he "evt_r_000001" 1 hBefore (by rw [hRun]; decide +kernel) with hSame | ⟨m, -, hNumber⟩
  · rw [hAfter] at hSame
    exact absurd hSame (by decide)
  · rw [hRun, hAfter] at hNumber
    have hNone : eventSeqFromEventId "r" "evt_init_0123456789ab" = none := by decide +kernel
    rw [hNone] at hNumber
    cases hNumber

end ReplayOwner

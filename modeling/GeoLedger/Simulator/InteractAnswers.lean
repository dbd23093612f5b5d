import Mathlib
import GeoLedger.Library.Runs
import GeoLedger.Simulator.InteractDataCache

/-! The answers that the interact cache shows: each of its three kinds of requests keeps
a register of the latest answers, over every order of calls, changes and answers. -/
namespace InteractDataCache
open LatestAnswers

variable {P T : Type}

section Frames

namespace Cache

variable (c : Cache P T)

/-- What the register of participants rests on. -/
def participantsPart : ℕ × Option (List P) × String :=
  (c.participantsFetchEpoch, c.fetchedParticipants, c.fetchedParticipantsRunId)

def trustlinesPart : ℕ × Option (List T) × String × String × Bool :=
  (c.trustlinesFetchEpoch, c.fetchedTrustlines, c.fetchedTrustlinesRunId, c.fetchedTrustlinesEq, c.trustlinesLoading)

def targetsPart : ℕ × Dict PaymentTargetsKey ℕ × Dict PaymentTargetsKey (Finset String) × Dict PaymentTargetsKey Bool :=
  (c.paymentTargetsRequestSerial, c.paymentTargetsFetchEpochByKey, c.paymentTargetsByKey,
    c.paymentTargetsLoadingByKey)

def contextPart : String × String := (c.runId, c.equivalent)

theorem refreshParticipants_frame (force : Bool) (now : ℤ) :
    (c.refreshParticipants force now).1.trustlinesPart = c.trustlinesPart ∧
      (c.refreshParticipants force now).1.targetsPart = c.targetsPart ∧
      (c.refreshParticipants force now).1.contextPart = c.contextPart := by
  unfold refreshParticipants
  split
  · exact ⟨rfl, rfl, rfl⟩
  · split <;> exact ⟨rfl, rfl, rfl⟩

theorem refreshTrustlines_frame (force : Bool) (now : ℤ) :
    (c.refreshTrustlines force now).1.participantsPart = c.participantsPart ∧
      (c.refreshTrustlines force now).1.targetsPart = c.targetsPart ∧
      (c.refreshTrustlines force now).1.contextPart = c.contextPart := by
  unfold refreshTrustlines
  split
  · exact ⟨rfl, rfl, rfl⟩
  · split <;> exact ⟨rfl, rfl, rfl⟩

theorem refreshPaymentTargets_frame (fromPid : String) (maxHops : ℚ) (force : Bool) (now : ℤ) :
    (c.refreshPaymentTargets fromPid maxHops force now).1.participantsPart = c.participantsPart ∧
      (c.refreshPaymentTargets fromPid maxHops force now).1.trustlinesPart = c.trustlinesPart ∧
      (c.refreshPaymentTargets fromPid maxHops force now).1.contextPart = c.contextPart := by
  unfold refreshPaymentTargets
  split
  · exact ⟨rfl, rfl, rfl⟩
  · dsimp only
    split <;> exact ⟨rfl, rfl, rfl⟩

theorem answerParticipants_frame (r : ParticipantsRequest) (answer : Except Thrown (List P)) :
    (c.answerParticipants r answer).trustlinesPart = c.trustlinesPart ∧
      (c.answerParticipants r answer).targetsPart = c.targetsPart ∧
      (c.answerParticipants r answer).contextPart = c.contextPart := by
  unfold answerParticipants
  split
  · exact ⟨rfl, rfl, rfl⟩
  · split
    · exact ⟨rfl, rfl, rfl⟩
    · split <;> exact ⟨rfl, rfl, rfl⟩

theorem answerTrustlines_frame (r : TrustlinesRequest) (answer : Except Thrown (List T)) :
    (c.answerTrustlines r answer).participantsPart = c.participantsPart ∧
      (c.answerTrustlines r answer).targetsPart = c.targetsPart ∧
      (c.answerTrustlines r answer).contextPart = c.contextPart := by
  unfold answerTrustlines
  split
  · exact ⟨rfl, rfl, rfl⟩
  · split <;> exact ⟨rfl, rfl, rfl⟩

theorem answerTargets_frame (r : TargetsRequest) (answer : Except Thrown (List String)) :
    (c.answerTargets r answer).participantsPart = c.participantsPart ∧
      (c.answerTargets r answer).trustlinesPart = c.trustlinesPart ∧
      (c.answerTargets r answer).contextPart = c.contextPart := by
  unfold answerTargets
  split <;> exact ⟨rfl, rfl, rfl⟩

end Cache

end Frames

section Participants

variable {c c' : Cache P T} {ch : Channel ParticipantsRequest (List P)} {run : String}

/-- The register of participants: the epoch picks its latest request, which is about the run. -/
structure ParticipantsInv (run : String) (c : Cache P T) (ch : Channel ParticipantsRequest (List P)) : Prop where
  tracks : Tracks (·.epoch) (some c.participantsFetchEpoch) c.participantsFetchEpoch ch.inFlight ch.log
  context : ∀ r, (register ch.log).latest = some r → r.runId = run
  fetched : c.fetchedParticipants = (register ch.log).shown.map Prod.snd
  shown : ∀ r a, (register ch.log).shown = some (r, a) → c.fetchedParticipantsRunId = run ∧ r.runId = run

/-- The invariant of the participants speaks of their part of the cache only. -/
theorem ParticipantsInv.frame (h : ParticipantsInv run c ch) (hPart : c'.participantsPart = c.participantsPart) :
    ParticipantsInv run c' ch := by
  obtain ⟨hEpoch, hRest⟩ := Prod.mk.inj hPart
  obtain ⟨hFetched, hRunId⟩ := Prod.mk.inj hRest
  constructor
  · rw [hEpoch]
    exact h.tracks
  · exact h.context
  · exact hFetched.trans h.fetched
  · rw [hRunId]
    exact h.shown

/-- A reset cache and an empty channel satisfy the invariant for any run. -/
theorem ParticipantsInv.reset (h : ParticipantsInv run c ch) (run' : String) :
    ParticipantsInv run' c.resetParticipants ch.clear where
  tracks := by
    refine h.tracks.cleared (Nat.le_succ _) fun r hr hEq => ?_
    have hBounded : r.epoch ≤ c.participantsFetchEpoch := h.tracks.bounded r hr
    have hNext : c.participantsFetchEpoch + 1 = r.epoch := Option.some.inj hEq
    omega
  context r hr := by
    rw [Channel.clear, register_snoc] at hr
    cases hr
  fetched := by
    rw [Channel.clear, register_snoc]
    rfl
  shown r a hr := by
    rw [Channel.clear, register_snoc] at hr
    cases hr

/-- A refresh of the participants, forced or not, keeps their invariant. -/
theorem ParticipantsInv.refresh (h : ParticipantsInv c.run c ch) (force : Bool) (now : ℤ) :
    ParticipantsInv c.run (c.refreshParticipants force now).1 (ch.send (c.refreshParticipants force now).2) := by
  unfold Cache.refreshParticipants
  split
  · exact h
  split
  · exact h
  · constructor
    · exact h.tracks.sent (r := ⟨c.participantsFetchEpoch + 1, c.run, now⟩) (Nat.lt_succ_self _)
    · intro r hr
      dsimp only [Channel.send] at hr
      rw [register_snoc] at hr
      cases hr
      rfl
    · dsimp only [Channel.send]
      rw [register_snoc]
      exact h.fetched
    · intro r a hr
      dsimp only [Channel.send] at hr
      rw [register_snoc] at hr
      exact h.shown r a hr

/-- A request that is not the latest one stores nothing. -/
theorem ParticipantsInv.answer_stale (h : ParticipantsInv run c ch) {r : ParticipantsRequest} (hr : r ∈ ch.inFlight)
    (hStale : (register ch.log).latest ≠ some r) (answer : Except Thrown (List P)) :
    c.answerParticipants r answer = c := by
  unfold Cache.answerParticipants
  cases answer with
  | error message => rfl
  | ok items => exact if_pos (Or.inl fun hEpoch => hStale ((h.tracks.owned r hr).mp (congrArg some hEpoch)))

/-- An answer to a participants request, of whatever age, keeps their invariant. -/
theorem ParticipantsInv.answer (h : ParticipantsInv c.run c ch) {r : ParticipantsRequest} (hr : r ∈ ch.inFlight)
    (answer : Except Thrown (List P)) :
    ParticipantsInv c.run (c.answerParticipants r answer) (ch.answer (·.epoch) r (publishedParticipants answer)) := by
  have hTracks := h.tracks.answered hr (publishedParticipants answer)
  have hOwned := h.tracks.owned r hr
  have hLatest : (register (ch.answer (·.epoch) r (publishedParticipants answer)).log).latest =
      (register ch.log).latest := by
    rw [Channel.answer, register_snoc, Register.next]
    split <;> rfl
  by_cases hOwn : (register ch.log).latest = some r
  · have hEpoch : c.participantsFetchEpoch = r.epoch := Option.some.inj (hOwned.mpr hOwn)
    have hRun := h.context r hOwn
    have hShown : (register (ch.answer (·.epoch) r (publishedParticipants answer)).log).shown =
        ((publishedParticipants answer).map fun value => (r, value)).or (register ch.log).shown := by
      rw [Channel.answer, register_snoc, Register.next, if_pos hOwn]
    have hKept (hNone : publishedParticipants answer = none) :
        ParticipantsInv c.run c (ch.answer (·.epoch) r (publishedParticipants answer)) := by
      rw [hNone] at hShown
      refine ⟨hTracks, fun q hq => h.context q (hLatest ▸ hq), ?_, fun q a hq => ?_⟩
      · rw [hNone, hShown]
        exact h.fetched
      · rw [hNone, hShown] at hq
        exact h.shown q a hq
    unfold Cache.answerParticipants
    cases answer with
    | error message => exact hKept rfl
    | ok items =>
        dsimp only
        rw [if_neg (by rw [hEpoch, hRun]; simp)]
        by_cases hItems : items.length > 0
        · rw [if_pos hItems]
          have hPublished : publishedParticipants (.ok items) = some items := if_pos hItems
          rw [hPublished] at hShown
          refine ⟨hTracks, fun q hq => h.context q (hLatest ▸ hq), ?_, fun q a hq => ?_⟩
          · rw [hPublished, hShown]
            rfl
          · rw [hPublished, hShown] at hq
            cases hq
            exact ⟨hRun, hRun⟩
        · rw [if_neg hItems]
          exact hKept (if_neg hItems)
  · have hSame := h.answer_stale hr hOwn answer
    have hShown : (register (ch.answer (·.epoch) r (publishedParticipants answer)).log).shown =
        (register ch.log).shown := by
      rw [Channel.answer, register_snoc, Register.next, if_neg hOwn]
    rw [hSame]
    refine ⟨hTracks, fun q hq => h.context q (hLatest ▸ hq), ?_, fun q a hq => ?_⟩
    · rw [hShown]
      exact h.fetched
    · rw [hShown] at hq
      exact h.shown q a hq

end Participants

section Trustlines

variable {c c' : Cache P T} {ch : Channel TrustlinesRequest (List T)} {run eq : String}

/-- The register of trust lines, with its loading flag. -/
structure TrustlinesInv (run eq : String) (c : Cache P T) (ch : Channel TrustlinesRequest (List T)) : Prop where
  tracks : Tracks (·.epoch) (some c.trustlinesFetchEpoch) c.trustlinesFetchEpoch ch.inFlight ch.log
  context : ∀ r, (register ch.log).latest = some r → r.runId = run ∧ r.eq = eq
  fetched : c.fetchedTrustlines = (register ch.log).shown.map Prod.snd
  shown : ∀ r a, (register ch.log).shown = some (r, a) →
    (c.fetchedTrustlinesRunId = run ∧ c.fetchedTrustlinesEq = eq) ∧ r.runId = run ∧ r.eq = eq
  loading : c.trustlinesLoading = (register ch.log).waiting

/-- The invariant of the trust lines speaks of their part of the cache only. -/
theorem TrustlinesInv.frame (h : TrustlinesInv run eq c ch) (hPart : c'.trustlinesPart = c.trustlinesPart) :
    TrustlinesInv run eq c' ch := by
  obtain ⟨hEpoch, hRest⟩ := Prod.mk.inj hPart
  obtain ⟨hFetched, hRest⟩ := Prod.mk.inj hRest
  obtain ⟨hRunId, hRest⟩ := Prod.mk.inj hRest
  obtain ⟨hEq, hLoading⟩ := Prod.mk.inj hRest
  constructor
  · rw [hEpoch]
    exact h.tracks
  · exact h.context
  · exact hFetched.trans h.fetched
  · rw [hRunId, hEq]
    exact h.shown
  · exact hLoading.trans h.loading

/-- A reset cache and an empty channel satisfy the invariant for any run and equivalent. -/
theorem TrustlinesInv.reset (h : TrustlinesInv run eq c ch) (run' eq' : String) :
    TrustlinesInv run' eq' c.resetTrustlines ch.clear where
  tracks := by
    refine h.tracks.cleared (Nat.le_succ _) fun r hr hEq => ?_
    have hBounded : r.epoch ≤ c.trustlinesFetchEpoch := h.tracks.bounded r hr
    have hNext : c.trustlinesFetchEpoch + 1 = r.epoch := Option.some.inj hEq
    omega
  context r hr := by
    rw [Channel.clear, register_snoc] at hr
    cases hr
  fetched := by
    rw [Channel.clear, register_snoc]
    rfl
  shown r a hr := by
    rw [Channel.clear, register_snoc] at hr
    cases hr
  loading := by
    rw [Channel.clear, register_snoc]
    rfl

/-- A refresh of the trust lines, forced or not, keeps their invariant. -/
theorem TrustlinesInv.refresh (h : TrustlinesInv c.run c.eq c ch) (force : Bool) (now : ℤ) :
    TrustlinesInv c.run c.eq (c.refreshTrustlines force now).1 (ch.send (c.refreshTrustlines force now).2) := by
  unfold Cache.refreshTrustlines
  split
  · exact h
  split
  · exact h
  · constructor
    · exact h.tracks.sent (r := ⟨c.trustlinesFetchEpoch + 1, c.run, c.eq, now⟩) (Nat.lt_succ_self _)
    · intro r hr
      dsimp only [Channel.send] at hr
      rw [register_snoc] at hr
      cases hr
      exact ⟨rfl, rfl⟩
    · dsimp only [Channel.send]
      rw [register_snoc]
      exact h.fetched
    · intro r a hr
      dsimp only [Channel.send] at hr
      rw [register_snoc] at hr
      exact h.shown r a hr
    · dsimp only [Channel.send]
      rw [register_snoc]
      rfl

/-- An answer to a request that is not the latest is dropped. -/
theorem TrustlinesInv.answer_stale (h : TrustlinesInv run eq c ch) {r : TrustlinesRequest} (hr : r ∈ ch.inFlight)
    (hStale : (register ch.log).latest ≠ some r) (answer : Except Thrown (List T)) :
    c.answerTrustlines r answer = c :=
  if_pos (Or.inl fun hEpoch => hStale ((h.tracks.owned r hr).mp (congrArg some hEpoch)))

/-- An answer to a trust lines request, of whatever age, keeps their invariant. -/
theorem TrustlinesInv.answer (h : TrustlinesInv c.run c.eq c ch) {r : TrustlinesRequest} (hr : r ∈ ch.inFlight)
    (answer : Except Thrown (List T)) :
    TrustlinesInv c.run c.eq (c.answerTrustlines r answer)
      (ch.answer (·.epoch) r (publishedTrustlines answer)) := by
  have hTracks := h.tracks.answered hr (publishedTrustlines answer)
  have hOwned := h.tracks.owned r hr
  have hLatest : (register (ch.answer (·.epoch) r (publishedTrustlines answer)).log).latest =
      (register ch.log).latest := by
    rw [Channel.answer, register_snoc, Register.next]
    split <;> rfl
  have hContext : ∀ q, (register (ch.answer (·.epoch) r (publishedTrustlines answer)).log).latest = some q →
      q.runId = c.run ∧ q.eq = c.eq := fun q hq => h.context q (hLatest ▸ hq)
  by_cases hOwn : (register ch.log).latest = some r
  · have hEpoch : c.trustlinesFetchEpoch = r.epoch := Option.some.inj (hOwned.mpr hOwn)
    obtain ⟨hRun, hEq⟩ := h.context r hOwn
    have hNext : register (ch.answer (·.epoch) r (publishedTrustlines answer)).log =
        { register ch.log with
          waiting := false
          shown := ((publishedTrustlines answer).map fun value => (r, value)).or (register ch.log).shown } := by
      rw [Channel.answer, register_snoc, Register.next, if_pos hOwn]
    unfold Cache.answerTrustlines
    rw [if_neg (by rw [hEpoch, hRun, hEq]; simp)]
    cases answer with
    | error message =>
        refine ⟨hTracks, hContext, ?_, fun q a hq => ?_, ?_⟩
        · rw [hNext]
          exact h.fetched
        · rw [hNext] at hq
          exact h.shown q a hq
        · rw [hNext]
    | ok items =>
        refine ⟨hTracks, hContext, ?_, fun q a hq => ?_, ?_⟩
        · rw [hNext]
          rfl
        · rw [hNext] at hq
          cases hq
          exact ⟨⟨hRun, hEq⟩, hRun, hEq⟩
        · rw [hNext]
  · have hSame := h.answer_stale hr hOwn answer
    have hNext : register (ch.answer (·.epoch) r (publishedTrustlines answer)).log = register ch.log := by
      rw [Channel.answer, register_snoc, Register.next, if_neg hOwn]
    rw [hSame]
    refine ⟨hTracks, hContext, ?_, fun q a hq => ?_, ?_⟩
    · rw [hNext]
      exact h.fetched
    · rw [hNext] at hq
      exact h.shown q a hq
    · rw [hNext]
      exact h.loading

end Trustlines

section Targets

/-- The entry clears everything, or is about the key. -/
def about (key : PaymentTargetsKey) : Entry TargetsRequest (Finset String) → Bool
  | .cleared => true
  | .sent r => r.key = key
  | .answered r _ => r.key = key

/-- What happened to one key. -/
def keyLog (key : PaymentTargetsKey) (log : List (Entry TargetsRequest (Finset String))) :
    List (Entry TargetsRequest (Finset String)) := log.filter (about key)

/-- An entry about a key is the last one of the key's log. -/
theorem keyLog_snoc {key : PaymentTargetsKey} {entry : Entry TargetsRequest (Finset String)}
    (h : about key entry = true) (log : List (Entry TargetsRequest (Finset String))) :
    keyLog key (log ++ [entry]) = keyLog key log ++ [entry] := by
  rw [keyLog, List.filter_append, List.filter_cons_of_pos h, List.filter_nil]
  rfl

/-- An entry about another key does not show in a key's log. -/
theorem keyLog_snoc_other {key : PaymentTargetsKey} {entry : Entry TargetsRequest (Finset String)}
    (h : ¬about key entry = true) (log : List (Entry TargetsRequest (Finset String))) :
    keyLog key (log ++ [entry]) = keyLog key log := by
  rw [keyLog, List.filter_append, List.filter_cons_of_neg h, List.filter_nil, List.append_nil]
  rfl

variable {c c' : Cache P T} {ch : Channel TargetsRequest (Finset String)}

/-- The register of one key. -/
structure KeyInv (key : PaymentTargetsKey) (c : Cache P T) (ch : Channel TargetsRequest (Finset String)) : Prop where
  tracks : Tracks (·.epoch) (c.paymentTargetsFetchEpochByKey.get? key) c.paymentTargetsRequestSerial
    (ch.inFlight.filter (·.key = key)) (keyLog key ch.log)
  stored : c.paymentTargetsByKey.get? key = (register (keyLog key ch.log)).shown.map Prod.snd
  loading : c.paymentTargetsLoadingByKey.getD key false = (register (keyLog key ch.log)).waiting

/-- The registers of all keys, whose requests share their numbers. -/
structure TargetsInv (c : Cache P T) (ch : Channel TargetsRequest (Finset String)) : Prop where
  unique : (ch.inFlight.map TargetsRequest.epoch).Nodup
  bounded : ∀ r ∈ ch.inFlight, r.epoch ≤ c.paymentTargetsRequestSerial
  answers : ∀ r, Entry.answered r none ∉ ch.log
  keys : ∀ key, KeyInv key c ch

/-- The invariant of the payment targets speaks of their part of the cache only. -/
theorem TargetsInv.frame (h : TargetsInv c ch) (hPart : c'.targetsPart = c.targetsPart) : TargetsInv c' ch := by
  obtain ⟨hSerial, hRest⟩ := Prod.mk.inj hPart
  obtain ⟨hEpochs, hRest⟩ := Prod.mk.inj hRest
  obtain ⟨hStored, hLoading⟩ := Prod.mk.inj hRest
  refine ⟨h.unique, ?_, h.answers, fun key => ⟨?_, ?_, ?_⟩⟩
  · rw [hSerial]
    exact h.bounded
  · rw [hSerial, hEpochs]
    exact (h.keys key).tracks
  · rw [hStored]
    exact (h.keys key).stored
  · rw [hLoading]
    exact (h.keys key).loading

/-- Clearing all targets keeps their invariant. -/
theorem TargetsInv.clear (h : TargetsInv c ch) : TargetsInv c.clearTargets ch.clear where
  unique := h.unique
  bounded := h.bounded
  answers r hr := by
    rcases List.mem_append.mp hr with hOld | hLast
    · exact h.answers r hOld
    · cases List.mem_singleton.mp hLast
  keys key := by
    have hLog : keyLog key ch.clear.log = keyLog key ch.log ++ [.cleared] := keyLog_snoc rfl ch.log
    constructor
    · rw [hLog]
      exact (h.keys key).tracks.cleared (Nat.le_refl _) fun r _ => nofun
    · rw [hLog, register_snoc]
      rfl
    · rw [hLog, register_snoc]
      rfl

/-- A request with the next number takes its key over. -/
theorem TargetsInv.sent (h : TargetsInv c ch) {r : TargetsRequest} (hEpoch : r.epoch = c.paymentTargetsRequestSerial + 1) :
    TargetsInv
      { c with
        paymentTargetsLoadingByKey := c.paymentTargetsLoadingByKey.set r.key true
        paymentTargetsRequestSerial := r.epoch
        paymentTargetsFetchEpochByKey := c.paymentTargetsFetchEpochByKey.set r.key r.epoch }
      (ch.send (some r)) := by
  have hNew : c.paymentTargetsRequestSerial < r.epoch := by omega
  refine ⟨?_, ?_, ?_, fun key => ?_⟩
  · dsimp only [Channel.send]
    rw [List.map_append, List.map_singleton]
    refine List.nodup_append.mpr ⟨h.unique, List.nodup_singleton _, ?_⟩
    intro n hn m hm hEq
    obtain ⟨q, hq, rfl⟩ := List.mem_map.mp hn
    rw [List.mem_singleton.mp hm] at hEq
    have := h.bounded q hq
    omega
  · intro q hq
    rcases List.mem_append.mp hq with hOld | hLast
    · exact (h.bounded q hOld).trans hNew.le
    · rw [List.mem_singleton.mp hLast]
  · intro q hq
    rcases List.mem_append.mp hq with hOld | hLast
    · exact h.answers q hOld
    · cases List.mem_singleton.mp hLast
  · have hPrior := h.keys key
    dsimp only [Channel.send]
    by_cases hSame : r.key = key
    · subst hSame
      have hLog : keyLog r.key (ch.log ++ [.sent r]) = keyLog r.key ch.log ++ [.sent r] :=
        keyLog_snoc (by simp [about]) ch.log
      have hFlight : (ch.inFlight ++ [r]).filter (·.key = r.key) = ch.inFlight.filter (·.key = r.key) ++ [r] := by
        rw [List.filter_append, List.filter_cons_of_pos (by simp), List.filter_nil]
      constructor
      · rw [hLog, hFlight, Dict.get?_set, if_pos rfl]
        exact hPrior.tracks.sent hNew
      · rw [hLog, register_snoc]
        exact hPrior.stored
      · rw [hLog, register_snoc, Dict.getD, Dict.get?_set, if_pos rfl]
        rfl
    · have hLog : keyLog key (ch.log ++ [.sent r]) = keyLog key ch.log :=
        keyLog_snoc_other (by simpa [about] using hSame) ch.log
      have hFlight : (ch.inFlight ++ [r]).filter (·.key = key) = ch.inFlight.filter (·.key = key) := by
        rw [List.filter_append, List.filter_cons_of_neg (by simpa using hSame), List.filter_nil, List.append_nil]
      constructor
      · rw [hLog, hFlight, Dict.get?_set, if_neg (Ne.symm hSame)]
        exact ⟨hPrior.tracks.unique, fun q hq => (hPrior.tracks.bounded q hq).trans hNew.le,
          hPrior.tracks.owned, hPrior.tracks.waiting⟩
      · rw [hLog]
        exact hPrior.stored
      · rw [hLog, Dict.getD, Dict.get?_set, if_neg (Ne.symm hSame)]
        exact hPrior.loading

/-- A refresh of the targets of one key keeps the invariant of all keys. -/
theorem TargetsInv.refresh (h : TargetsInv c ch) (fromPid : String) (maxHops : ℚ) (force : Bool) (now : ℤ) :
    TargetsInv (c.refreshPaymentTargets fromPid maxHops force now).1
      (ch.send (c.refreshPaymentTargets fromPid maxHops force now).2) := by
  unfold Cache.refreshPaymentTargets
  split
  · exact h
  dsimp only
  split
  · exact h
  · exact h.sent (r := ⟨c.paymentTargetsRequestSerial + 1, ⟨c.run, c.eq, normalizeId fromPid, maxHops⟩, now⟩) rfl

/-- Only the current request of a key stores its answer. -/
theorem Cache.answerTargets_stored (c : Cache P T) (r : TargetsRequest) (answer : Except Thrown (List String)) :
    (c.answerTargets r answer).paymentTargetsByKey =
        (if c.paymentTargetsFetchEpochByKey.get? r.key = some r.epoch then
          c.paymentTargetsByKey.set r.key (Cache.targetIds answer) else c.paymentTargetsByKey) ∧
      (c.answerTargets r answer).paymentTargetsLoadingByKey =
        if c.paymentTargetsFetchEpochByKey.get? r.key = some r.epoch then
          c.paymentTargetsLoadingByKey.pop r.key else c.paymentTargetsLoadingByKey := by
  unfold Cache.answerTargets
  by_cases hCurrent : c.paymentTargetsFetchEpochByKey.get? r.key = some r.epoch
  · rw [if_neg (not_not.mpr hCurrent), if_pos hCurrent, if_pos hCurrent]
    exact ⟨rfl, rfl⟩
  · rw [if_pos hCurrent, if_neg hCurrent, if_neg hCurrent]
    exact ⟨rfl, rfl⟩

/-- An answer to a request that is not the latest of its key is dropped. -/
theorem TargetsInv.answer_stale (h : TargetsInv c ch) {r : TargetsRequest} (hr : r ∈ ch.inFlight)
    (hStale : (register (keyLog r.key ch.log)).latest ≠ some r) (answer : Except Thrown (List String)) :
    c.answerTargets r answer = c := by
  have hMem : r ∈ ch.inFlight.filter (·.key = r.key) := List.mem_filter.mpr ⟨hr, decide_eq_true rfl⟩
  exact if_pos fun hCurrent => hStale (((h.keys r.key).tracks.owned r hMem).mp hCurrent)

/-- An answer to a targets request, of whatever age, keeps the invariant of all keys. -/
theorem TargetsInv.answer (h : TargetsInv c ch) {r : TargetsRequest} (hr : r ∈ ch.inFlight)
    (answer : Except Thrown (List String)) :
    TargetsInv (c.answerTargets r answer) (ch.answer (·.epoch) r (some (Cache.targetIds answer))) := by
  have hSerial : (c.answerTargets r answer).paymentTargetsRequestSerial = c.paymentTargetsRequestSerial := by
    unfold Cache.answerTargets
    split <;> rfl
  have hEpochs : (c.answerTargets r answer).paymentTargetsFetchEpochByKey = c.paymentTargetsFetchEpochByKey := by
    unfold Cache.answerTargets
    split <;> rfl
  refine ⟨h.unique.sublist (List.filter_sublist.map _), ?_, ?_, fun key => ?_⟩
  · intro q hq
    rw [hSerial]
    exact h.bounded q (List.mem_of_mem_filter hq)
  · intro q hq
    rcases List.mem_append.mp hq with hOld | hLast
    · exact h.answers q hOld
    · cases List.mem_singleton.mp hLast
  have hPrior := h.keys key
  obtain ⟨hStored, hLoading⟩ := c.answerTargets_stored r answer
  by_cases hSame : r.key = key
  · subst hSame
    have hMem : r ∈ ch.inFlight.filter (·.key = r.key) := List.mem_filter.mpr ⟨hr, decide_eq_true rfl⟩
    have hLog : keyLog r.key (ch.answer (·.epoch) r (some (Cache.targetIds answer))).log =
        keyLog r.key ch.log ++ [.answered r (some (Cache.targetIds answer))] :=
      keyLog_snoc (by simp [about]) ch.log
    have hFlight : (ch.answer (·.epoch) r (some (Cache.targetIds answer))).inFlight.filter (·.key = r.key) =
        (ch.inFlight.filter (·.key = r.key)).filter fun q => q.epoch ≠ r.epoch := by
      rw [Channel.answer, List.filter_filter, List.filter_filter]
      exact List.filter_congr fun q _ => Bool.and_comm _ _
    have hTracks := hPrior.tracks.answered hMem (some (Cache.targetIds answer))
    have hOwned := hPrior.tracks.owned r hMem
    by_cases hOwn : (register (keyLog r.key ch.log)).latest = some r
    · have hCurrent := hOwned.mpr hOwn
      have hNext : register (keyLog r.key ch.log ++ [.answered r (some (Cache.targetIds answer))]) =
          ⟨(register (keyLog r.key ch.log)).latest, false, some (r, Cache.targetIds answer)⟩ := by
        rw [register_snoc, Register.next, if_pos hOwn]
        rfl
      constructor
      · rw [hSerial, hEpochs, hLog, hFlight]
        exact hTracks
      · rw [hLog, hNext, hStored, if_pos hCurrent, Dict.get?_set, if_pos rfl]
        rfl
      · rw [hLog, hNext, hLoading, if_pos hCurrent, Dict.getD, Dict.get?_pop, if_pos rfl]
        rfl
    · have hStale := h.answer_stale hr hOwn answer
      have hNext : register (keyLog r.key ch.log ++ [.answered r (some (Cache.targetIds answer))]) =
          register (keyLog r.key ch.log) := by
        rw [register_snoc, Register.next, if_neg hOwn]
      rw [hStale]
      constructor
      · rw [hLog, hFlight]
        exact hTracks
      · rw [hLog, hNext]
        exact hPrior.stored
      · rw [hLog, hNext]
        exact hPrior.loading
  · have hLog : keyLog key (ch.answer (·.epoch) r (some (Cache.targetIds answer))).log = keyLog key ch.log :=
      keyLog_snoc_other (by simpa [about] using hSame) ch.log
    have hFlight : (ch.answer (·.epoch) r (some (Cache.targetIds answer))).inFlight.filter (·.key = key) =
        ch.inFlight.filter (·.key = key) := by
      rw [Channel.answer, List.filter_filter]
      refine List.filter_congr fun q hq => ?_
      rw [Bool.and_eq_left_iff_imp]
      intro hKey
      refine decide_eq_true fun hEpoch => hSame ?_
      rw [← List.inj_on_of_nodup_map h.unique hq hr hEpoch]
      exact of_decide_eq_true hKey
    constructor
    · rw [hSerial, hEpochs, hLog, hFlight]
      exact hPrior.tracks
    · rw [hLog, ← hPrior.stored, hStored]
      split
      · rw [Dict.get?_set, if_neg (Ne.symm hSame)]
      · rfl
    · rw [hLog, ← hPrior.loading, hLoading]
      split
      · rw [Dict.getD, Dict.getD, Dict.get?_pop, if_neg (Ne.symm hSame)]
      · rfl

end Targets

section Runs

variable {w : World P T}

/-- All registers, for the context of the cache. -/
structure Inv (w : World P T) : Prop where
  participants : ParticipantsInv w.cache.run w.cache w.participants
  trustlines : TrustlinesInv w.cache.run w.cache.eq w.cache w.trustlines
  targets : TargetsInv w.cache w.targets

/-- The run and the equivalent are read off the context. -/
theorem run_eq_of_context {c c' : Cache P T} (h : c'.contextPart = c.contextPart) : c'.run = c.run ∧ c'.eq = c.eq := by
  obtain ⟨hRun, hEq⟩ := Prod.mk.inj h
  exact ⟨congrArg normalizeId hRun, congrArg normalizeEq hEq⟩

/-- The invariant of the world is made of those of its three parts, for the run and the
equivalent of the cache. -/
theorem Inv.mk_parts {c : Cache P T} {participants : Channel ParticipantsRequest (List P)}
    {trustlines : Channel TrustlinesRequest (List T)} {targets : Channel TargetsRequest (Finset String)}
    {run eq : String} (hRun : c.run = run) (hEq : c.eq = eq) (hParticipants : ParticipantsInv run c participants)
    (hTrustlines : TrustlinesInv run eq c trustlines) (hTargets : TargetsInv c targets) :
    Inv ⟨c, participants, trustlines, targets⟩ := by
  subst hRun hEq
  exact ⟨hParticipants, hTrustlines, hTargets⟩

theorem Inv.refreshParticipants (h : Inv w) (force : Bool) (now : ℤ) : Inv (w.refreshParticipants force now) := by
  obtain ⟨hTrustlines, hTargets, hContext⟩ := w.cache.refreshParticipants_frame force now
  obtain ⟨hRun, hEq⟩ := run_eq_of_context hContext
  exact Inv.mk_parts hRun hEq (h.participants.refresh force now) (h.trustlines.frame hTrustlines)
    (h.targets.frame hTargets)

theorem Inv.refreshTrustlines (h : Inv w) (force : Bool) (now : ℤ) : Inv (w.refreshTrustlines force now) := by
  obtain ⟨hParticipants, hTargets, hContext⟩ := w.cache.refreshTrustlines_frame force now
  obtain ⟨hRun, hEq⟩ := run_eq_of_context hContext
  exact Inv.mk_parts hRun hEq (h.participants.frame hParticipants) (h.trustlines.refresh force now)
    (h.targets.frame hTargets)

theorem Inv.refreshPaymentTargets (h : Inv w) (fromPid : String) (maxHops : ℚ) (force : Bool) (now : ℤ) :
    Inv (w.refreshPaymentTargets fromPid maxHops force now) := by
  obtain ⟨hParticipants, hTrustlines, hContext⟩ := w.cache.refreshPaymentTargets_frame fromPid maxHops force now
  obtain ⟨hRun, hEq⟩ := run_eq_of_context hContext
  exact Inv.mk_parts hRun hEq (h.participants.frame hParticipants) (h.trustlines.frame hTrustlines)
    (h.targets.refresh fromPid maxHops force now)

theorem Inv.clearTargets (h : Inv w) : Inv w.clearTargets where
  participants := h.participants.frame rfl
  trustlines := h.trustlines.frame rfl
  targets := h.targets.clear

/-- The watcher of the run makes the register of participants anew, and leaves the others. -/
theorem watchRun_parts {run run' eq' : String} (hParticipants : ParticipantsInv run w.cache w.participants)
    (hTrustlines : TrustlinesInv run' eq' w.cache w.trustlines) (hTargets : TargetsInv w.cache w.targets) (now : ℤ) :
    ParticipantsInv w.cache.run (w.watchRun now).cache (w.watchRun now).participants ∧
      TrustlinesInv run' eq' (w.watchRun now).cache (w.watchRun now).trustlines ∧
      TargetsInv (w.watchRun now).cache (w.watchRun now).targets ∧
      (w.watchRun now).cache.contextPart = w.cache.contextPart := by
  obtain ⟨hTrustlinesPart, hTargetsPart, hContext⟩ := w.cache.resetParticipants.refreshParticipants_frame false now
  have hReset : ParticipantsInv w.cache.resetParticipants.run w.cache.resetParticipants w.participants.clear :=
    hParticipants.reset _
  have hTrustlines' : TrustlinesInv run' eq' w.cache.resetParticipants w.trustlines := hTrustlines.frame rfl
  have hTargets' : TargetsInv w.cache.resetParticipants w.targets := hTargets.frame rfl
  have hSameContext : w.cache.resetParticipants.contextPart = w.cache.contextPart := rfl
  have hRefreshed := hReset.refresh false now
  rw [(run_eq_of_context hSameContext).1] at hRefreshed
  unfold World.watchRun World.refreshParticipants
  dsimp only
  exact ⟨hRefreshed, hTrustlines'.frame hTrustlinesPart, hTargets'.frame hTargetsPart, hContext.trans hSameContext⟩

/-- The watcher of the run and the equivalent makes the register of trust lines anew. -/
theorem Inv.watchTrustlines {run eq : String} (hParticipants : ParticipantsInv w.cache.run w.cache w.participants)
    (hTrustlines : TrustlinesInv run eq w.cache w.trustlines) (hTargets : TargetsInv w.cache w.targets) (now : ℤ) :
    Inv (w.watchTrustlines now) := by
  have hContext : w.cache.resetTrustlines.contextPart = w.cache.contextPart := rfl
  obtain ⟨hRun, hEq⟩ := run_eq_of_context hContext
  have hReset : Inv ⟨w.cache.resetTrustlines, w.participants, w.trustlines.clear, w.targets⟩ :=
    Inv.mk_parts hRun hEq (hParticipants.frame rfl) (hTrustlines.reset _ _) (hTargets.frame rfl)
  unfold World.watchTrustlines
  exact hReset.refreshTrustlines false now

/-- A change of the refs, with the watchers that it wakes. -/
theorem Inv.setContext (h : Inv w) (runId equivalent : String) (now : ℤ) :
    Inv (w.setContext runId equivalent now) := by
  obtain ⟨w', hw'⟩ : ∃ w' : World P T,
      w' = { w with cache := { w.cache with runId := runId, equivalent := equivalent } } := ⟨_, rfl⟩
  have hParticipants : ParticipantsInv w.cache.run w'.cache w'.participants := by
    rw [hw']
    exact h.participants.frame rfl
  have hTrustlines : TrustlinesInv w.cache.run w.cache.eq w'.cache w'.trustlines := by
    rw [hw']
    exact h.trustlines.frame rfl
  have hTargets : TargetsInv w'.cache w'.targets := by
    rw [hw']
    exact h.targets.frame rfl
  unfold World.setContext
  rw [← hw']
  dsimp only
  by_cases hRun : w'.cache.run = w.cache.run
  · rw [if_neg (not_not.mpr hRun)]
    by_cases hEq : w'.cache.eq = w.cache.eq
    · have hSame : ¬(w'.cache.run ≠ w.cache.run ∨ w'.cache.eq ≠ w.cache.eq) := by simp [hRun, hEq]
      rw [if_neg hSame, if_neg hSame]
      exact Inv.mk_parts hRun hEq hParticipants hTrustlines hTargets
    · have hChanged : w'.cache.run ≠ w.cache.run ∨ w'.cache.eq ≠ w.cache.eq := Or.inr hEq
      rw [if_pos hChanged, if_pos hChanged]
      have hCleared : ParticipantsInv w'.clearTargets.cache.run w'.clearTargets.cache w'.clearTargets.participants := by
        rw [show w'.clearTargets.cache.run = w.cache.run from hRun]
        exact hParticipants.frame rfl
      exact Inv.watchTrustlines hCleared (hTrustlines.frame rfl) hTargets.clear now
  · have hChanged : w'.cache.run ≠ w.cache.run ∨ w'.cache.eq ≠ w.cache.eq := Or.inl hRun
    rw [if_pos hChanged, if_pos hChanged, if_pos hRun]
    obtain ⟨hWatched, hTrustlines', hTargets', hContext⟩ := @watchRun_parts _ _ w'.clearTargets w.cache.run _ _
      (hParticipants.frame rfl) (hTrustlines.frame rfl) hTargets.clear now
    rw [← (run_eq_of_context hContext).1] at hWatched
    exact Inv.watchTrustlines hWatched hTrustlines' hTargets' now

/-- A new snapshot keeps the invariant, whichever parts of the cache it resets. -/
theorem Inv.setSnapshot (h : Inv w) (generatedAt : String) : Inv (w.setSnapshot generatedAt) := by
  have hSet : Inv { w with cache := { w.cache with generatedAt := generatedAt } } :=
    ⟨h.participants.frame rfl, h.trustlines.frame rfl, h.targets.frame rfl⟩
  unfold World.setSnapshot
  dsimp only
  split
  · exact hSet.clearTargets
  · exact hSet

/-- The invariant holds when the composable is set up. -/
theorem Inv.start (runId equivalent generatedAt : String) (now : ℤ) :
    Inv (World.start runId equivalent generatedAt now : World P T) := by
  obtain ⟨w, hw⟩ : ∃ w : World P T,
      w = { cache := { runId := runId, equivalent := equivalent, generatedAt := generatedAt } } := ⟨_, rfl⟩
  have hParticipants : ParticipantsInv w.cache.run w.cache w.participants := by
    rw [hw]
    exact ⟨Tracks.start _ _, nofun, rfl, nofun⟩
  have hTrustlines : TrustlinesInv w.cache.run w.cache.eq w.cache w.trustlines := by
    rw [hw]
    exact ⟨Tracks.start _ _, nofun, rfl, nofun, rfl⟩
  have hTargets : TargetsInv w.cache w.targets := by
    rw [hw]
    exact ⟨List.nodup_nil, nofun, nofun, fun key => ⟨Tracks.start _ _, rfl, rfl⟩⟩
  obtain ⟨hWatched, hTrustlines', hTargets', hContext⟩ := @watchRun_parts _ _ w.clearTargets w.cache.run _ _
    (hParticipants.frame rfl) (hTrustlines.frame rfl) hTargets.clear now
  rw [← (run_eq_of_context hContext).1] at hWatched
  have hStart : World.start runId equivalent generatedAt now = (w.clearTargets.watchRun now).watchTrustlines now := by
    rw [hw]
    rfl
  rw [hStart]
  exact Inv.watchTrustlines hWatched hTrustlines' hTargets' now

/-- Every event keeps the invariant. -/
theorem Inv.step (h : Inv w) (event : Event P T) : Inv (w.step event) := by
  cases event with
  | refreshParticipants force now => exact h.refreshParticipants force now
  | refreshTrustlines force now => exact h.refreshTrustlines force now
  | refreshPaymentTargets fromPid maxHops force now => exact h.refreshPaymentTargets fromPid maxHops force now
  | context runId equivalent now => exact h.setContext runId equivalent now
  | snapshot generatedAt => exact h.setSnapshot generatedAt
  | answerParticipants epoch answer =>
      unfold World.step
      dsimp only
      split
      · exact h
      · next r hFind =>
        obtain ⟨hTrustlines, hTargets, hContext⟩ := w.cache.answerParticipants_frame r answer
        obtain ⟨hRun, hEq⟩ := run_eq_of_context hContext
        exact Inv.mk_parts hRun hEq (h.participants.answer (List.mem_of_find?_eq_some hFind) answer)
          (h.trustlines.frame hTrustlines) (h.targets.frame hTargets)
  | answerTrustlines epoch answer =>
      unfold World.step
      dsimp only
      split
      · exact h
      · next r hFind =>
        obtain ⟨hParticipants, hTargets, hContext⟩ := w.cache.answerTrustlines_frame r answer
        obtain ⟨hRun, hEq⟩ := run_eq_of_context hContext
        exact Inv.mk_parts hRun hEq (h.participants.frame hParticipants)
          (h.trustlines.answer (List.mem_of_find?_eq_some hFind) answer) (h.targets.frame hTargets)
  | answerTargets epoch answer =>
      unfold World.step
      dsimp only
      split
      · exact h
      · next r hFind =>
        obtain ⟨hParticipants, hTrustlines, hContext⟩ := w.cache.answerTargets_frame r answer
        obtain ⟨hRun, hEq⟩ := run_eq_of_context hContext
        exact Inv.mk_parts hRun hEq (h.participants.frame hParticipants) (h.trustlines.frame hTrustlines)
          (h.targets.answer (List.mem_of_find?_eq_some hFind) answer)

/-- The world after a run. -/
def World.after (runId equivalent generatedAt : String) (now : ℤ) (events : List (Event P T)) : World P T :=
  events.foldl World.step (World.start runId equivalent generatedAt now)

/-- The invariant holds after any sequence of events, by induction on it. -/
theorem inv_after (runId equivalent generatedAt : String) (now : ℤ) (events : List (Event P T)) :
    Inv (World.after runId equivalent generatedAt now events) := by
  induction events using List.reverseRecOn with
  | nil => exact Inv.start runId equivalent generatedAt now
  | append_singleton events event ih =>
      rw [World.after, List.foldl_append]
      exact ih.step event

end Runs

section Fresh

/-- The key names the request of its log. -/
theorem key_of_lastSent {key : PaymentTargetsKey} {log : List (Entry TargetsRequest (Finset String))}
    {r : TargetsRequest} (h : LastSent (keyLog key log) r) : r.key = key := by
  obtain ⟨before, between, hLog, -⟩ := h
  have hMem : Entry.sent r ∈ keyLog key log := by
    rw [hLog]
    exact List.mem_append_right _ List.mem_cons_self
  have hAbout : about key (.sent r) = true := (List.mem_filter.mp hMem).2
  exact of_decide_eq_true hAbout

/-- What the cache shows, and the flags that tell that it waits. -/
structure Fresh (w : World P T) : Prop where
  participants : ∀ items, w.cache.shownParticipants = some items →
    ∃ r, Published w.participants.log r items ∧ r.runId = w.cache.run
  trustlines : ∀ items, w.cache.shownTrustlines = some items →
    ∃ r, Published w.trustlines.log r items ∧ r.runId = w.cache.run ∧ r.eq = w.cache.eq
  targets : ∀ key ids, w.cache.paymentTargetsByKey.get? key = some ids →
    ∃ r, Published (keyLog key w.targets.log) r ids
  answered : ∀ key r, LastSent (keyLog key w.targets.log) r → r ∉ w.targets.inFlight →
    ∃ ids, Published (keyLog key w.targets.log) r ids ∧ w.cache.paymentTargetsByKey.get? key = some ids
  participantsSuperseded : ∀ r ∈ w.participants.inFlight, ¬LastSent w.participants.log r →
    ∀ answer, w.cache.answerParticipants r answer = w.cache
  trustlinesSuperseded : ∀ r ∈ w.trustlines.inFlight, ¬LastSent w.trustlines.log r →
    ∀ answer, w.cache.answerTrustlines r answer = w.cache
  targetsSuperseded : ∀ r ∈ w.targets.inFlight, ¬LastSent (keyLog r.key w.targets.log) r →
    ∀ answer, w.cache.answerTargets r answer = w.cache
  trustlinesLoading : w.cache.trustlinesLoading = true ↔ ∃ r ∈ w.trustlines.inFlight, LastSent w.trustlines.log r
  targetsLoading : ∀ key, w.cache.paymentTargetsLoadingByKey.getD key false = true ↔
    ∃ r ∈ w.targets.inFlight, LastSent (keyLog key w.targets.log) r

variable {w : World P T}

/-- The participants that are shown were published for a request of the current run. -/
theorem Inv.shownParticipants (h : Inv w) {items : List P} (hShown : w.cache.shownParticipants = some items) :
    ∃ r, Published w.participants.log r items ∧ r.runId = w.cache.run := by
  rw [Cache.shownParticipants] at hShown
  split at hShown
  · rw [h.participants.fetched] at hShown
    obtain ⟨⟨r, _⟩, hRegister, rfl⟩ := Option.map_eq_some_iff.mp hShown
    exact ⟨r, published_of_shown hRegister, (h.participants.shown r _ hRegister).2⟩
  · cases hShown

/-- The trust lines that are shown were published for a request of the current run and
equivalent. -/
theorem Inv.shownTrustlines (h : Inv w) {items : List T} (hShown : w.cache.shownTrustlines = some items) :
    ∃ r, Published w.trustlines.log r items ∧ r.runId = w.cache.run ∧ r.eq = w.cache.eq := by
  rw [Cache.shownTrustlines] at hShown
  split at hShown
  · rw [h.trustlines.fetched] at hShown
    obtain ⟨⟨r, _⟩, hRegister, rfl⟩ := Option.map_eq_some_iff.mp hShown
    exact ⟨r, published_of_shown hRegister, (h.trustlines.shown r _ hRegister).2⟩
  · cases hShown

/-- The targets stored under a key were published for a request of that key. -/
theorem Inv.storedTargets (h : Inv w) {key : PaymentTargetsKey} {ids : Finset String}
    (hStored : w.cache.paymentTargetsByKey.get? key = some ids) : ∃ r, Published (keyLog key w.targets.log) r ids := by
  rw [(h.targets.keys key).stored] at hStored
  obtain ⟨⟨r, _⟩, hRegister, rfl⟩ := Option.map_eq_some_iff.mp hStored
  exact ⟨r, published_of_shown hRegister⟩

/-- A key waits iff its last request is in flight. -/
theorem Inv.targetsWaiting (h : Inv w) (key : PaymentTargetsKey) :
    (register (keyLog key w.targets.log)).waiting = true ↔
      ∃ r ∈ w.targets.inFlight, LastSent (keyLog key w.targets.log) r := by
  rw [(h.targets.keys key).tracks.waiting_iff]
  constructor
  · rintro ⟨r, hr, hLast⟩
    exact ⟨r, List.mem_of_mem_filter hr, hLast⟩
  · rintro ⟨r, hr, hLast⟩
    exact ⟨r, List.mem_filter.mpr ⟨hr, decide_eq_true (key_of_lastSent hLast)⟩, hLast⟩

/-- Once the last request of a key is answered, its answer is what is stored under the key. -/
theorem Inv.answeredTargets (h : Inv w) {key : PaymentTargetsKey} {r : TargetsRequest}
    (hLast : LastSent (keyLog key w.targets.log) r) (hAnswered : r ∉ w.targets.inFlight) :
    ∃ ids, Published (keyLog key w.targets.log) r ids ∧ w.cache.paymentTargetsByKey.get? key = some ids := by
  have hLatest := latest_iff.mpr hLast
  have hWaiting : (register (keyLog key w.targets.log)).waiting = false := by
    refine Bool.eq_false_iff.mpr fun hWaits => hAnswered ?_
    obtain ⟨q, hq, hOther⟩ := (h.targetsWaiting key).mp hWaits
    obtain rfl : q = r := Option.some.inj ((latest_iff.mpr hOther).symm.trans hLatest)
    exact hq
  have hAnswers : ∀ q, Entry.answered q none ∉ keyLog key w.targets.log :=
    fun q hq => h.targets.answers q (List.mem_of_mem_filter hq)
  obtain ⟨ids, hShown⟩ := shown_of_settled hAnswers hLatest hWaiting
  refine ⟨ids, published_of_shown hShown, ?_⟩
  rw [(h.targets.keys key).stored, hShown]
  rfl

/-- The answers shown by the interact cache, over every order of calls, changes and answers. -/
theorem interact_answers_fresh (runId equivalent generatedAt : String) (now : ℤ) (events : List (Event P T)) :
    Fresh (World.after runId equivalent generatedAt now events) := by
  have hInv := inv_after runId equivalent generatedAt now events
  refine ⟨fun _ => hInv.shownParticipants, fun _ => hInv.shownTrustlines, fun _ _ => hInv.storedTargets,
    fun _ _ => hInv.answeredTargets, ?_, ?_, ?_, ?_, ?_⟩
  · exact fun r hr hLast => hInv.participants.answer_stale hr fun hLatest => hLast (latest_iff.mp hLatest)
  · exact fun r hr hLast => hInv.trustlines.answer_stale hr fun hLatest => hLast (latest_iff.mp hLatest)
  · exact fun r hr hLast => hInv.targets.answer_stale hr fun hLatest => hLast (latest_iff.mp hLatest)
  · rw [hInv.trustlines.loading]
    exact hInv.trustlines.tracks.waiting_iff
  · intro key
    rw [(hInv.targets.keys key).loading]
    exact hInv.targetsWaiting key

/-- While a request for fresh targets is in flight, the targets of the request before it stay stored. -/
theorem stored_targets_kept :
    ¬∀ (runId equivalent generatedAt : String) (now : ℤ) (events : List (Event String String)) key ids r,
      (World.after runId equivalent generatedAt now events).cache.paymentTargetsByKey.get? key = some ids →
      LastSent (keyLog key (World.after runId equivalent generatedAt now events).targets.log) r →
      Published (keyLog key (World.after runId equivalent generatedAt now events).targets.log) r ids := by
  intro hClaim
  have hLog : keyLog ⟨"run", "UAH", "alice", 6⟩
      (World.after "run" "UAH" "" 0
        ([.refreshPaymentTargets "alice" 6 true 0, .answerTargets 1 (.ok ["bob"]),
          .refreshPaymentTargets "alice" 6 true 1] : List (Event String String))).targets.log =
      [.cleared, .sent ⟨1, ⟨"run", "UAH", "alice", 6⟩, 0⟩,
        .answered ⟨1, ⟨"run", "UAH", "alice", 6⟩, 0⟩ (some {"bob"})] ++
      .sent ⟨2, ⟨"run", "UAH", "alice", 6⟩, 1⟩ :: [] := by
    decide +kernel
  obtain ⟨before, between, after, hPublished, -⟩ := hClaim "run" "UAH" "" 0
    [.refreshPaymentTargets "alice" 6 true 0, .answerTargets 1 (.ok ["bob"]), .refreshPaymentTargets "alice" 6 true 1]
    ⟨"run", "UAH", "alice", 6⟩ {"bob"} ⟨2, ⟨"run", "UAH", "alice", 6⟩, 1⟩ (by decide +kernel) ⟨_, _, hLog, nofun⟩
  have hMem : Entry.answered ⟨2, ⟨"run", "UAH", "alice", 6⟩, 1⟩ (some {"bob"}) ∈ before ++
      .sent ⟨2, ⟨"run", "UAH", "alice", 6⟩, 1⟩ ::
        (between ++ .answered ⟨2, ⟨"run", "UAH", "alice", 6⟩, 1⟩ (some {"bob"}) :: after) := by simp
  rw [← hPublished, hLog] at hMem
  revert hMem
  decide +kernel

end Fresh

end InteractDataCache

import Mathlib
import GeoLedger.Simulator.InteractMode

/-! One operation at a time: the operation in flight owns the busy flag until it is settled,
and its epoch is the current one exactly while `cancel` was not called. -/
namespace InteractMode
open InteractFsm

section Ownership

/-- No operation is in flight. -/
structure Free (w : World) : Prop where
  operations : w.operations = []
  busy : w.busy = false
  owner : w.busyOwnerEpoch = none
  cancelling : w.cancelling = false

/-- Where an operation waits for its request. -/
def Place.during (p : Place) (action : Action) : Place :=
  if action = .clearing then { p with phase := .clearingPreview } else p

/-- The operation is the only one in flight. -/
structure Owned (w : World) (o : Operation) : Prop where
  operations : w.operations = [o]
  busy : w.busy = true
  owner : w.busyOwnerEpoch = some o.epoch
  current : o.cancelled = false ↔ o.epoch = w.epoch
  bound : o.epoch ≤ w.epoch
  place : o.cancelled = false → o.stage = .request → w.place = o.startedAt.during o.action

def Inv (w : World) : Prop := Free w ∨ ∃ o, Owned w o

variable {w w' : World} {o : Operation}

/-- Settling the operation in flight frees the mode, whatever else was written before. -/
theorem Owned.release (h : Owned w o) (hOperations : w'.operations = w.operations)
    (hOwner : w'.busyOwnerEpoch = w.busyOwnerEpoch) : Free (w'.release o.epoch) := by
  have hOwn : w'.busyOwnerEpoch = some o.epoch := hOwner.trans h.owner
  constructor
  · unfold World.release
    dsimp only
    rw [hOperations, h.operations, List.filter_cons_of_neg (by simp), List.filter_nil]
  · exact if_pos hOwn
  · exact if_pos hOwn
  · exact if_pos hOwn

/-- An operation that was cancelled has lost the epoch. -/
theorem Owned.stale (h : Owned w o) (hCancelled : o.cancelled = true) : w.epoch ≠ o.epoch :=
  fun hEpoch => absurd (hCancelled.symm.trans (h.current.mpr hEpoch.symm)) nofun

/-- A new operation starts while none is in flight. -/
theorem Free.acquire (h : Free w) (action : Action) (fromPid toPid : Option String)
    (state : InteractState ClearingResponse)
    (hPlace : (⟨state.phase, state.fromPid, state.toPid⟩ : Place) = w.place.during action) :
    Owned { w.acquire action fromPid toPid with state := state }
      ⟨action, fromPid, toPid, w.epoch + 1, .request, w.place, false⟩ where
  operations := by
    change w.operations ++ _ = _
    rw [h.operations, List.nil_append]
  busy := rfl
  owner := rfl
  current := iff_of_true rfl rfl
  bound := Nat.le_refl _
  place _ _ := hPlace

/-- A call that starts no operation keeps the invariant. -/
theorem Inv.call (h : Inv w) (c : Call ClearingResponse) : Inv (w.call c) := by
  rcases h with hFree | ⟨o, hOwned⟩
  · rw [World.call, if_neg (by rw [hFree.busy]; exact nofun)]
    exact Or.inl ⟨hFree.operations, hFree.busy, hFree.owner, hFree.cancelling⟩
  · rw [World.call, if_pos hOwned.busy]
    exact Or.inr ⟨o, hOwned⟩

/-- Starting a flow keeps the invariant. -/
theorem Inv.startFlow (h : Inv w) (c : Call ClearingResponse) : Inv (w.startFlow c) := by
  have hCall := h.call c
  rw [World.call] at hCall
  rw [World.startFlow]
  split
  · exact h
  · next hBusy =>
    rw [if_neg hBusy] at hCall
    split
    · exact h
    · exact hCall

theorem Owned.clearError (h : Owned w o) : Owned { w with state := w.state.clearError } o :=
  ⟨h.operations, h.busy, h.owner, h.current, h.bound, h.place⟩

theorem Free.clearError (h : Free w) : Free { w with state := w.state.clearError } :=
  ⟨h.operations, h.busy, h.owner, h.cancelling⟩

/-- The operations on two endpoints, when none is in flight: the request is sent, or the operation is refused. -/
theorem Free.confirm (h : Free w) {action : Action} (hAction : action ≠ .clearing) :
    (Free (w.confirm action) ∨ ∃ o, Owned (w.confirm action) o) ∧ (w.confirm action).place = w.place := by
  have hBusy : ¬w.busy = true := by
    rw [h.busy]
    exact nofun
  have hOwned := h.clearError.acquire action w.state.fromPid w.state.toPid w.state.clearError
    (if_neg hAction).symm
  unfold World.confirm
  dsimp only
  rw [if_neg hBusy]
  split
  · refine ⟨Or.inl ?_, ?_⟩
    · unfold World.reject
      rw [if_pos rfl]
      exact hOwned.release rfl rfl
    · unfold World.reject
      rw [if_pos rfl]
      rfl
  · exact ⟨Or.inr ⟨_, hOwned⟩, rfl⟩

/-- Confirming an action other than a clearing keeps the invariant: at most one operation
has the epoch. -/
theorem Inv.confirm (h : Inv w) {action : Action} (hAction : action ≠ .clearing) : Inv (w.confirm action) := by
  rcases h with hFree | ⟨o, hOwned⟩
  · exact (hFree.confirm hAction).1
  · unfold World.confirm
    dsimp only
    rw [if_pos hOwned.busy]
    exact Or.inr ⟨o, hOwned.clearError⟩

/-- Confirming a clearing keeps the invariant. -/
theorem Inv.confirmClearing (h : Inv w) : Inv w.confirmClearing := by
  unfold World.confirmClearing
  dsimp only
  rcases h with hFree | ⟨o, hOwned⟩
  · rw [if_neg (by rw [hFree.busy]; exact nofun)]
    exact Or.inr ⟨_, hFree.clearError.acquire .clearing none none _ rfl⟩
  · rw [if_pos hOwned.busy]
    exact Or.inr ⟨o, hOwned.clearError⟩

/-- A cancellation keeps the invariant, whether an operation is at work or not. -/
theorem Inv.cancel (h : Inv w) : Inv w.cancel := by
  rcases h with hFree | ⟨o, hOwned⟩
  · refine Or.inl ⟨?_, hFree.busy, hFree.owner, ?_⟩
    · unfold World.cancel
      dsimp only
      rw [hFree.operations, List.map_nil]
    · unfold World.cancel
      dsimp only
      rw [if_neg (by rw [hFree.busy]; exact nofun)]
      exact hFree.cancelling
  · refine Or.inr ⟨{ o with cancelled := true }, ?_, hOwned.busy, hOwned.owner, ?_, ?_, nofun⟩
    · unfold World.cancel
      dsimp only
      rw [hOwned.operations]
      rfl
    · have hBound := hOwned.bound
      refine iff_of_false nofun fun hEpoch => ?_
      have hEpoch : o.epoch = w.epoch + 1 := hEpoch
      omega
    · exact hOwned.bound.trans (Nat.le_succ _)

/-- The failure of the operation of the epoch sets the mode free. -/
theorem Owned.reject (h : Owned w o) (message : String) : Free (w.reject o.epoch message) := by
  unfold World.reject
  split
  · exact h.release rfl rfl
  · exact h.release rfl rfl

/-- The success of the operation of the epoch sets the mode free. -/
theorem Owned.succeed (h : Owned w o) (equivalent : String) (now : Now) : Free (w.succeed o equivalent now) := by
  unfold World.succeed
  split
  · exact h.release rfl rfl
  · exact h.release rfl rfl

/-- An operation that goes on to a pause stays the one in flight. -/
theorem Owned.pause (h : Owned w o) (hOperations : w'.operations = w.operations)
    (hOwner : w'.busyOwnerEpoch = w.busyOwnerEpoch) (hBusy : w'.busy = w.busy) (hEpoch : w'.epoch = w.epoch)
    {stage : Stage} (hStage : stage ≠ .request) : Owned (w'.pause o.epoch stage) { o with stage := stage } where
  operations := by
    unfold World.pause
    dsimp only
    rw [hOperations, h.operations, List.map_singleton, if_pos rfl]
  busy := hBusy.trans h.busy
  owner := hOwner.trans h.owner
  current := by
    change o.cancelled = false ↔ o.epoch = w'.epoch
    rw [hEpoch]
    exact h.current
  bound := by
    change o.epoch ≤ w'.epoch
    rw [hEpoch]
    exact h.bound
  place _ hRequest := absurd hRequest hStage

/-- The success of a clearing keeps the invariant, whether or not it was cancelled
meanwhile. -/
theorem Owned.succeedClearing (h : Owned w o) (response : ClearingResponse) (equivalent : String) (now : Now) :
    Inv (w.succeedClearing o response equivalent now) := by
  unfold World.succeedClearing
  split
  · exact Or.inl (h.release rfl rfl)
  · have hStage : Stage.previewPaint response ≠ .request := nofun
    refine Or.inr ⟨_, h.pause ?_ ?_ ?_ ?_ hStage⟩ <;> rfl

/-- An operation that goes on after its pause keeps the invariant. -/
theorem Owned.resume (h : Owned w o) : Inv (w.resume o) := by
  unfold World.resume
  split
  · exact Or.inl (h.release rfl rfl)
  · cases hStage : o.stage with
    | request => exact Or.inr ⟨o, h⟩
    | previewPaint response =>
        have hNext : Stage.previewDwell response ≠ .request := nofun
        refine Or.inr ⟨_, h.pause ?_ ?_ ?_ ?_ hNext⟩ <;> rfl
    | previewDwell response =>
        have hNext : Stage.runningPaint response ≠ .request := nofun
        refine Or.inr ⟨_, h.pause ?_ ?_ ?_ ?_ hNext⟩ <;> rfl
    | runningPaint response =>
        have hNext : Stage.runningDwell response ≠ .request := nofun
        refine Or.inr ⟨_, h.pause ?_ ?_ ?_ ?_ hNext⟩ <;> rfl
    | runningDwell response => exact Or.inl (h.release rfl rfl)

/-- An operation in flight is the one that owns the busy flag. -/
theorem Inv.owned (h : Inv w) (hMem : o ∈ w.operations) : Owned w o := by
  rcases h with hFree | ⟨q, hOwned⟩
  · rw [hFree.operations] at hMem
    cases hMem
  · rw [hOwned.operations] at hMem
    rw [List.mem_singleton.mp hMem]
    exact hOwned

/-- The operation that is requesting is among those at work. -/
theorem mem_of_requesting {epoch : ℕ} (h : w.requesting epoch = some o) : o ∈ w.operations :=
  List.mem_of_find?_eq_some h

/-- Every event keeps the invariant. -/
theorem Inv.step (h : Inv w) (event : Event) : Inv (w.step event) := by
  cases event with
  | startPaymentFlow => exact h.startFlow _
  | startPaymentFlowWithFrom fromPid => exact h.startFlow _
  | startTrustlineFlow => exact h.startFlow _
  | startTrustlineFlowWithFrom fromPid => exact h.startFlow _
  | startClearingFlow => exact h.startFlow _
  | selectNode nodeId answers => exact h.call _
  | selectEdge edgeKey anchor => exact h.call _
  | selectTrustline fromPid toPid => exact h.call _
  | setPaymentFromPid pid => exact h.call _
  | setPaymentToPid pid => exact h.call _
  | setTrustlineFromPid pid answers => exact h.call _
  | setTrustlineToPid pid answers => exact h.call _
  | confirmPayment amount => exact h.confirm nofun
  | confirmTrustlineCreate limit => exact h.confirm nofun
  | confirmTrustlineUpdate newLimit => exact h.confirm nofun
  | confirmTrustlineClose => exact h.confirm nofun
  | confirmClearing => exact h.confirmClearing
  | cancel => exact h.cancel
  | succeed epoch equivalent now =>
      unfold World.step
      dsimp only
      split
      · exact h
      · next o hFind =>
        obtain ⟨hFound, -⟩ := Option.filter_eq_some_iff.mp hFind
        exact Or.inl ((h.owned (mem_of_requesting hFound)).succeed equivalent now)
  | succeedClearing epoch response equivalent now =>
      unfold World.step
      dsimp only
      split
      · exact h
      · next o hFind =>
        obtain ⟨hFound, -⟩ := Option.filter_eq_some_iff.mp hFind
        exact (h.owned (mem_of_requesting hFound)).succeedClearing response equivalent now
  | fail epoch message =>
      unfold World.step
      dsimp only
      split
      · exact h
      · next o hFind => exact Or.inl ((h.owned (mem_of_requesting hFind)).reject message)
  | resume epoch =>
      unfold World.step
      dsimp only
      split
      · exact h
      · next o hFind => exact (h.owned (List.mem_of_find?_eq_some hFind)).resume

end Ownership

section Outcomes

namespace World

/-- The world after a run. -/
def after (events : List Event) : World := events.foldl World.step {}

/-- What an operation writes: the state machine, the history and the success message. -/
def shown (w : World) : InteractState ClearingResponse × List HistoryEntry × Option String :=
  (w.state, w.history, w.successMessage)

end World

/-- The invariant holds after any sequence of events. -/
theorem inv_after (events : List Event) : Inv (World.after events) := by
  induction events using List.reverseRecOn with
  | nil => exact Or.inl ⟨rfl, rfl, rfl, rfl⟩
  | append_singleton events event ih =>
      rw [World.after, List.foldl_append]
      exact ih.step event

/-- The event goes on with the operation of the epoch, or settles it. -/
def GoesOn (epoch : ℕ) : Event → Prop
  | .succeed e _ _ | .succeedClearing e _ _ _ | .fail e _ | .resume e => e = epoch
  | _ => False

/-- The call of an operation on two endpoints. -/
def Confirms : Event → Prop
  | .confirmPayment _ | .confirmTrustlineCreate _ | .confirmTrustlineUpdate _ | .confirmTrustlineClose => True
  | _ => False

/-- One step of the interact mode is as its users expect. -/
structure Holds (w : World) (event : Event) : Prop where
  single : (w.step event).operations.length ≤ 1
  busy : (w.step event).busy = true ↔ (w.step event).operations ≠ []
  cancelling : (w.step event).cancelling = true → (w.step event).busy = true
  cancelled : ∀ o ∈ w.operations, o.cancelled = true → GoesOn o.epoch event → (w.step event).shown = w.shown
  refused : Confirms event → w.busy = false → (w.step event).busy = false → (w.step event).place = w.place
  failed : ∀ o ∈ w.operations, ∀ message, event = .fail o.epoch message → o.stage = .request →
    o.cancelled = false → (w.step event).place = o.startedAt

/-- The request of a clearing fails, which was not started in its preview and was not cancelled. -/
def Strands (w : World) (event : Event) : Prop :=
  ∃ o ∈ w.operations, ∃ message, event = .fail o.epoch message ∧ o.stage = .request ∧ o.cancelled = false ∧
    o.action = .clearing ∧ o.startedAt.phase ≠ .clearingPreview

variable {w : World} {o : Operation}

/-- At most one operation is at work. -/
theorem Inv.single (h : Inv w) : w.operations.length ≤ 1 := by
  rcases h with hFree | ⟨o, hOwned⟩
  · rw [hFree.operations]
    exact Nat.zero_le _
  · rw [hOwned.operations]
    exact Nat.le_refl _

/-- The mode is busy exactly while an operation is at work. -/
theorem Inv.busy (h : Inv w) : w.busy = true ↔ w.operations ≠ [] := by
  rcases h with hFree | ⟨o, hOwned⟩
  · rw [hFree.operations, hFree.busy]
    exact iff_of_false nofun (fun hNe => hNe rfl)
  · rw [hOwned.operations, hOwned.busy]
    exact iff_of_true rfl nofun

/-- A mode that is being cancelled is busy. -/
theorem Inv.cancelling (h : Inv w) (hCancelling : w.cancelling = true) : w.busy = true := by
  rcases h with hFree | ⟨o, hOwned⟩
  · exact absurd (hFree.cancelling.symm.trans hCancelling) nofun
  · exact hOwned.busy

/-- A cancelled operation only settles. -/
theorem Owned.cancelled (h : Owned w o) (hCancelled : o.cancelled = true) {event : Event}
    (hEvent : GoesOn o.epoch event) : (w.step event).shown = w.shown := by
  have hStale := h.stale hCancelled
  have hFound : ∀ q ∈ w.operations, q = o := fun q hq => by
    rw [h.operations] at hq
    exact List.mem_singleton.mp hq
  cases event with
  | succeed epoch equivalent now =>
      unfold World.step
      dsimp only
      split
      · rfl
      · next q hFind =>
        obtain rfl := hFound q (mem_of_requesting (Option.filter_eq_some_iff.mp hFind).1)
        rw [World.succeed, if_pos hStale]
        rfl
  | succeedClearing epoch response equivalent now =>
      unfold World.step
      dsimp only
      split
      · rfl
      · next q hFind =>
        obtain rfl := hFound q (mem_of_requesting (Option.filter_eq_some_iff.mp hFind).1)
        rw [World.succeedClearing, if_pos hStale]
        rfl
  | fail epoch message =>
      unfold World.step
      dsimp only
      split
      · rfl
      · next q hFind =>
        obtain rfl := hFound q (mem_of_requesting hFind)
        rw [World.reject, if_neg hStale]
        rfl
  | resume epoch =>
      unfold World.step
      dsimp only
      split
      · rfl
      · next q hFind =>
        obtain rfl := hFound q (List.mem_of_find?_eq_some hFind)
        rw [World.resume, if_pos hStale]
        rfl
  | _ => exact hEvent.elim

/-- An operation that is refused leaves the phase and the endpoints. -/
theorem Inv.refused (h : Inv w) {event : Event} (hEvent : Confirms event) (hBusy : w.busy = false) :
    (w.step event).place = w.place := by
  have hFree : Free w := h.resolve_right fun ⟨o, hOwned⟩ => absurd (hBusy.symm.trans hOwned.busy) nofun
  cases event with
  | confirmPayment amount => exact (hFree.confirm (nofun : Action.payment amount ≠ .clearing)).2
  | confirmTrustlineCreate limit => exact (hFree.confirm (nofun : Action.trustlineCreate limit ≠ .clearing)).2
  | confirmTrustlineUpdate newLimit => exact (hFree.confirm (nofun : Action.trustlineUpdate newLimit ≠ .clearing)).2
  | confirmTrustlineClose => exact (hFree.confirm (nofun : Action.trustlineClose ≠ .clearing)).2
  | _ => exact hEvent.elim

/-- A failure leaves the phase and the endpoints of the request. -/
theorem Owned.failed (h : Owned w o) (hStage : o.stage = .request) (hLive : o.cancelled = false) (message : String) :
    (w.step (.fail o.epoch message)).place = o.startedAt.during o.action := by
  have hFind : w.requesting o.epoch = some o := by
    rw [World.requesting, h.operations]
    exact List.find?_cons_of_pos (by simp [hStage])
  unfold World.step
  dsimp only
  rw [hFind]
  dsimp only
  rw [World.reject, if_pos (h.current.mp hLive).symm, ← h.place hLive hStage]
  rfl

/-- An operation leaves the place as it is, unless it is a clearing that leaves its preview. -/
theorem during_eq_iff (p : Place) (action : Action) :
    p.during action = p ↔ ¬(action = .clearing ∧ p.phase ≠ .clearingPreview) := by
  unfold Place.during
  split
  · next hClearing =>
    constructor
    · rintro hSame ⟨-, hPhase⟩
      exact hPhase (congrArg Place.phase hSame).symm
    · intro hNot
      have hPhase : p.phase = .clearingPreview := Decidable.byContradiction fun hNe => hNot ⟨hClearing, hNe⟩
      rw [← hPhase]
  · next hOther => exact iff_of_true rfl fun hBoth => hOther hBoth.1

/-- A step is as expected exactly when it is not such a failure of a clearing. -/
theorem Inv.holds_iff (h : Inv w) (event : Event) : Holds w event ↔ ¬Strands w event := by
  have hNext := h.step event
  constructor
  · rintro hHolds ⟨o, hMem, message, rfl, hStage, hLive, hClearing, hPhase⟩
    have hPlace := hHolds.failed o hMem message rfl hStage hLive
    rw [(h.owned hMem).failed hStage hLive message] at hPlace
    exact (during_eq_iff o.startedAt o.action).mp hPlace ⟨hClearing, hPhase⟩
  · intro hStrands
    refine ⟨hNext.single, hNext.busy, hNext.cancelling, ?_, fun hEvent hBusy _ => h.refused hEvent hBusy, ?_⟩
    · exact fun o hMem hCancelled hEvent => (h.owned hMem).cancelled hCancelled hEvent
    · rintro o hMem message rfl hStage hLive
      rw [(h.owned hMem).failed hStage hLive message, during_eq_iff]
      exact fun hBoth => hStrands ⟨o, hMem, message, rfl, hStage, hLive, hBoth⟩

/-- Every step of a run is as expected exactly when none of them is the failure of a clearing
that was started outside its preview. -/
theorem interact_operations (events : List Event) :
    (∀ before event, before ++ [event] <+: events → Holds (World.after before) event) ↔
      ∀ before event, before ++ [event] <+: events → ¬Strands (World.after before) event := by
  constructor
  · exact fun h before event hPrefix => ((inv_after before).holds_iff event).mp (h before event hPrefix)
  · exact fun h before event hPrefix => ((inv_after before).holds_iff event).mpr (h before event hPrefix)

/-- The request of a clearing fails, and its phase stays in the preview. -/
theorem clearing_stranded :
    ¬∀ events : List Event, ∀ before event, before ++ [event] <+: events → Holds (World.after before) event := by
  intro h
  have hHolds := h [.startClearingFlow, .confirmClearing, .fail 1 "boom"] [.startClearingFlow, .confirmClearing]
    (.fail 1 "boom") (List.prefix_refl _)
  have hPlace := hHolds.failed ⟨.clearing, none, none, 1, .request, ⟨.confirmClearing, none, none⟩, false⟩
    (by decide +kernel) "boom" rfl rfl rfl
  revert hPlace
  decide +kernel

end Outcomes

end InteractMode

import Mathlib
import GeoLedger.Library.Runs
import GeoLedger.Library.WriteBehind
import GeoLedger.Simulator.InteractFsm

/-! When the endpoints of the interact mode match its phase: exactly as long as no call
gives both ends to one participant, or takes the sender of a trust line away. -/
namespace InteractFsm
open Transition

variable {Clearing : Type*} {s : InteractState Clearing}

/-- Both endpoints are picked, and they are two participants. -/
def EndsDistinct (s : InteractState Clearing) : Prop := ∃ a b, s.fromPid = some a ∧ s.toPid = some b ∧ a ≠ b

/-- The endpoints match the phase. -/
def Fits (s : InteractState Clearing) : Prop :=
  match s.phase with
  | .idle | .pickingPaymentFrom | .pickingTrustlineFrom => s.toPid = none
  | .pickingPaymentTo | .pickingTrustlineTo => s.fromPid ≠ none ∧ s.toPid = none
  | .confirmPayment | .confirmTrustlineCreate => EndsDistinct s
  | .editingTrustline =>
      ∃ a b, s.fromPid = some a ∧ s.toPid = some b ∧ a ≠ b ∧ s.selectedEdgeKey = some (keyEdge a b)
  | .confirmClearing | .clearingPreview | .clearingRunning => True

/-- A picked endpoint is not blank. -/
structure Named (s : InteractState Clearing) : Prop where
  source : s.fromPid ≠ some ""
  target : s.toPid ≠ some ""

/-- The calls of the property: an edge key or a trust line has two distinct ends. -/
def Admissible : Call Clearing → Prop
  | .selectEdge edgeKey _ => ∀ a b, parseEdgeKey edgeKey = some (a, b) → a ≠ b
  | .selectTrustline fromPid toPid =>
      cleanPid (some fromPid) ≠ none ∧ cleanPid (some toPid) ≠ none ∧ cleanPid (some fromPid) ≠ cleanPid (some toPid)
  | _ => True

/-- The call picks one participant for both ends, or no sender for a trust line whose
receiver is picked. -/
def Clashes (s : InteractState Clearing) : Call Clearing → Prop
  | .selectNode nodeId _ =>
      (s.phase = .pickingPaymentTo ∨ s.phase = .pickingTrustlineTo) ∧ jsTrim nodeId ≠ "" ∧
        s.fromPid = some (jsTrim nodeId)
  | .setPaymentFromPid pid => s.phase = .confirmPayment ∧ cleanPid pid ≠ none ∧ cleanPid pid = s.toPid
  | .setPaymentToPid pid =>
      (s.phase = .pickingPaymentTo ∨ s.phase = .confirmPayment) ∧ cleanPid pid ≠ none ∧ cleanPid pid = s.fromPid
  | .setTrustlineFromPid pid _ =>
      (s.phase = .editingTrustline ∨ s.phase = .confirmTrustlineCreate) ∧
        (cleanPid pid = none ∨ cleanPid pid = s.toPid)
  | .setTrustlineToPid pid _ =>
      (s.phase = .pickingTrustlineTo ∨ s.phase = .editingTrustline ∨ s.phase = .confirmTrustlineCreate) ∧
        cleanPid pid ≠ none ∧ cleanPid pid = s.fromPid
  | _ => False

theorem cleanPid_ne (pid : Option String) : cleanPid pid ≠ some "" := by
  intro h
  obtain ⟨-, hNe⟩ := Option.filter_eq_some_iff.mp h
  simp at hNe

theorem parseEdgeKey_ne {edgeKey a b : String} (h : parseEdgeKey edgeKey = some (a, b)) : a ≠ "" ∧ b ≠ "" := by
  unfold parseEdgeKey at h
  dsimp only at h
  split at h
  · cases h
  · next hParts =>
    cases h
    rw [not_or, not_or] at hParts
    constructor
    · intro hEmpty
      exact hParts.2.1 (by simpa using congrArg String.toList hEmpty)
    · intro hEmpty
      exact hParts.2.2 (by simpa using congrArg String.toList hEmpty)

/-- Two distinct endpoints fit the phase that is computed for them. -/
theorem fits_trustlinePhase (answers : Answers) {a b : String} (ha : s.fromPid = some a) (hb : s.toPid = some b)
    (hNe : a ≠ b) : Fits (s.trustlinePhase answers a b) := by
  unfold InteractState.trustlinePhase
  split
  · exact ⟨a, b, ha, hb, hNe, rfl⟩
  · exact ⟨a, b, ha, hb, hNe⟩

theorem trustlinePhase_ends (answers : Answers) (a b : String) :
    (s.trustlinePhase answers a b).fromPid = s.fromPid ∧ (s.trustlinePhase answers a b).toPid = s.toPid := by
  unfold InteractState.trustlinePhase
  split <;> exact ⟨rfl, rfl⟩

theorem recompute_ends (answers : Answers) :
    (s.recomputeTrustlinePhase answers).fromPid = s.fromPid ∧
      (s.recomputeTrustlinePhase answers).toPid = s.toPid := by
  unfold InteractState.recomputeTrustlinePhase
  split
  · split
    · exact ⟨rfl, rfl⟩
    · exact trustlinePhase_ends answers _ _
  · exact ⟨rfl, rfl⟩

theorem named_recompute (answers : Answers) (h : Named s) : Named (s.recomputeTrustlinePhase answers) := by
  obtain ⟨hSource, hTarget⟩ := recompute_ends (s := s) answers
  constructor
  · rw [hSource]
    exact h.source
  · rw [hTarget]
    exact h.target

/-- The phase is computed for named and distinct endpoints only. -/
theorem fits_recompute (answers : Answers) (hNamed : Named s) {a b : String} (ha : s.fromPid = some a)
    (hb : s.toPid = some b) (hNe : a ≠ b) : Fits (s.recomputeTrustlinePhase answers) := by
  have hBlank : ¬(a = "" ∨ b = "" ∨ a = b) := by
    rintro (rfl | rfl | hEq)
    · exact hNamed.source ha
    · exact hNamed.target hb
    · exact hNe hEq
  rw [InteractState.recomputeTrustlinePhase, ha, hb]
  dsimp only
  rw [if_neg hBlank]
  exact fits_trustlinePhase answers ha hb hNe

/-- Otherwise nothing is computed. -/
theorem recompute_eq (answers : Answers) (h : ¬EndsDistinct s) : s.recomputeTrustlinePhase answers = s := by
  unfold InteractState.recomputeTrustlinePhase
  split
  · next a b ha hb =>
    have hEq : a = b := by
      by_contra hNe
      exact h ⟨a, b, ha, hb, hNe⟩
    rw [if_pos (Or.inr (Or.inr hEq))]
  · rfl

theorem endsDistinct_iff : EndsDistinct s ↔ s.fromPid ≠ none ∧ s.toPid ≠ none ∧ s.fromPid ≠ s.toPid := by
  constructor
  · intro h
    obtain ⟨a, b, ha, hb, hNe⟩ := h
    rw [ha, hb]
    exact ⟨nofun, nofun, fun hEq => hNe (Option.some.inj hEq)⟩
  · rintro ⟨hSource, hTarget, hNe⟩
    obtain ⟨a, ha⟩ := Option.ne_none_iff_exists'.mp hSource
    obtain ⟨b, hb⟩ := Option.ne_none_iff_exists'.mp hTarget
    exact ⟨a, b, ha, hb, fun hEq => hNe (by rw [ha, hb, hEq])⟩

/-- A trust line whose ends are set fits its phase exactly when they are two participants;
the phase before counts on a receiver. -/
theorem fits_recompute_iff (answers : Answers) (hNamed : Named s)
    (hPhase : ¬EndsDistinct s → ¬Fits s) : Fits (s.recomputeTrustlinePhase answers) ↔ EndsDistinct s := by
  by_cases h : EndsDistinct s
  · obtain ⟨a, b, ha, hb, hNe⟩ := h
    exact iff_of_true (fits_recompute answers hNamed ha hb hNe) ⟨a, b, ha, hb, hNe⟩
  · rw [recompute_eq answers h]
    exact iff_of_false (hPhase h) h

/-- No call leaves a blank endpoint. -/
theorem step_named (hNamed : Named s) (call : Call Clearing) : Named (s.step call) := by
  have hTrim : ∀ text, jsTrim text ≠ "" → some (jsTrim text) ≠ some "" := fun text h hEq => h (Option.some.inj hEq)
  cases call with
  | clearError | enterClearingPreview | setLastClearing response | enterClearingRunning =>
      exact ⟨hNamed.source, hNamed.target⟩
  | resetToIdle | startPaymentFlow | startTrustlineFlow | startClearingFlow => exact ⟨nofun, nofun⟩
  | startPaymentFlowWithFrom fromPid =>
      rw [InteractState.step, InteractState.startPaymentFlowWithFrom]
      split
      · exact ⟨nofun, nofun⟩
      · next h => exact ⟨hTrim _ h, nofun⟩
  | startTrustlineFlowWithFrom fromPid =>
      rw [InteractState.step, InteractState.startTrustlineFlowWithFrom]
      split
      · exact ⟨nofun, nofun⟩
      · next h => exact ⟨hTrim _ h, nofun⟩
  | selectNode nodeId answers =>
      rw [InteractState.step, InteractState.selectNode]
      dsimp only
      split
      · exact hNamed
      · next h =>
        have hId := hTrim _ h
        split
        · exact ⟨hId, nofun⟩
        · exact ⟨hNamed.source, hId⟩
        · split
          · exact ⟨hNamed.source, hId⟩
          · exact ⟨hNamed.source, nofun⟩
        · exact ⟨hId, nofun⟩
        · exact named_recompute answers ⟨hNamed.source, hId⟩
        · split
          · exact named_recompute answers ⟨hNamed.source, hId⟩
          · exact ⟨hNamed.source, nofun⟩
        · split
          · exact named_recompute answers ⟨hNamed.source, hId⟩
          · exact ⟨hNamed.source, nofun⟩
        · exact hNamed
  | selectEdge edgeKey anchor =>
      rw [InteractState.step, InteractState.selectEdge]
      split
      · exact hNamed
      · next a b hParse =>
        obtain ⟨ha, hb⟩ := parseEdgeKey_ne hParse
        exact ⟨fun h => ha (Option.some.inj h), fun h => hb (Option.some.inj h)⟩
  | selectTrustline fromPid toPid =>
      rw [InteractState.step, InteractState.selectTrustline]
      have hSource := cleanPid_ne (some fromPid)
      have hTarget := cleanPid_ne (some toPid)
      split
      · next a b ha hb => exact ⟨ha ▸ hSource, hb ▸ hTarget⟩
      · exact ⟨hSource, hTarget⟩
  | setPaymentFromPid pid =>
      rw [InteractState.step, InteractState.setPaymentFromPid]
      dsimp only
      have hPid := cleanPid_ne pid
      split
      · exact ⟨hPid, nofun⟩
      · exact ⟨hPid, nofun⟩
      · split
        · exact ⟨hPid, nofun⟩
        · exact ⟨hPid, hNamed.target⟩
      · exact ⟨hNamed.source, hNamed.target⟩
  | setPaymentToPid pid =>
      rw [InteractState.step, InteractState.setPaymentToPid]
      dsimp only
      split
      · exact ⟨hNamed.source, cleanPid_ne pid⟩
      · exact ⟨hNamed.source, cleanPid_ne pid⟩
      · exact ⟨hNamed.source, hNamed.target⟩
  | setTrustlineFromPid pid answers =>
      rw [InteractState.step, InteractState.setTrustlineFromPid]
      dsimp only
      have hPid := cleanPid_ne pid
      split
      · exact ⟨hPid, nofun⟩
      · exact ⟨hPid, nofun⟩
      · exact named_recompute answers ⟨hPid, hNamed.target⟩
      · exact named_recompute answers ⟨hPid, hNamed.target⟩
      · exact ⟨hNamed.source, hNamed.target⟩
  | setTrustlineToPid pid answers =>
      rw [InteractState.step, InteractState.setTrustlineToPid]
      dsimp only
      have hPid := cleanPid_ne pid
      split
      · split
        · exact ⟨hNamed.source, hPid⟩
        · exact named_recompute answers ⟨hNamed.source, hPid⟩
      · split
        · exact ⟨hNamed.source, hPid⟩
        · exact named_recompute answers ⟨hNamed.source, hPid⟩
      · split
        · exact ⟨hNamed.source, hPid⟩
        · exact named_recompute answers ⟨hNamed.source, hPid⟩
      · exact ⟨hNamed.source, hNamed.target⟩

/-- A phase with two endpoints fits when they are two participants. -/
theorem fits_endsDistinct (hFits : Fits s) (hPhase : s.phase = .editingTrustline ∨ s.phase = .confirmTrustlineCreate) :
    EndsDistinct s := by
  unfold Fits at hFits
  rcases hPhase with hPhase | hPhase
  · rw [hPhase] at hFits
    obtain ⟨a, b, ha, hb, hNe, -⟩ := hFits
    exact ⟨a, b, ha, hb, hNe⟩
  · rw [hPhase] at hFits
    exact hFits

/-- A picking phase of trust lines fits no picked receiver. -/
theorem not_fits_picking (hPhase : s.phase = .pickingTrustlineTo) (hTarget : s.toPid ≠ none) : ¬Fits s := by
  intro hFits
  unfold Fits at hFits
  rw [hPhase] at hFits
  exact hTarget hFits.2

/-- The endpoints after one call fit the phase exactly when the call does not clash. -/
theorem selectNode_fits_iff (hFits : Fits s) (hNamed : Named s) (nodeId : String) (answers : Answers) :
    Fits (s.selectNode nodeId answers) ↔ ¬Clashes s (.selectNode nodeId answers) := by
  unfold InteractState.selectNode
  dsimp only
  by_cases hId : jsTrim nodeId = ""
  · rw [if_pos hId]
    exact iff_of_true hFits fun h => h.2.1 hId
  rw [if_neg hId]
  have hSome : some (jsTrim nodeId) ≠ some "" := fun h => hId (Option.some.inj h)
  have hFits' := hFits
  unfold Fits at hFits'
  unfold Clashes
  cases hPhase : s.phase with
  | idle | confirmClearing | clearingPreview | clearingRunning =>
      exact iff_of_true hFits (by rintro ⟨h | h, -⟩ <;> cases h)
  | pickingPaymentFrom | pickingTrustlineFrom =>
      exact iff_of_true ⟨nofun, rfl⟩ (by rintro ⟨h | h, -⟩ <;> cases h)
  | pickingPaymentTo =>
      rw [hPhase] at hFits'
      refine endsDistinct_iff.trans ⟨fun h hClash => h.2.2 hClash.2.2, fun h => ⟨hFits'.1, nofun, ?_⟩⟩
      exact fun hEq => h ⟨Or.inl rfl, hId, hEq⟩
  | pickingTrustlineTo =>
      rw [hPhase] at hFits'
      refine (fits_recompute_iff (s := { s.clearError with toPid := some (jsTrim nodeId) }) answers
        ⟨hNamed.source, hSome⟩ fun _ => not_fits_picking hPhase nofun).trans ?_
      refine endsDistinct_iff.trans ⟨fun h hClash => h.2.2 hClash.2.2, fun h => ⟨hFits'.1, nofun, ?_⟩⟩
      exact fun hEq => h ⟨Or.inr rfl, hId, hEq⟩
  | confirmPayment =>
      rw [hPhase] at hFits'
      refine iff_of_true ?_ (by rintro ⟨h | h, -⟩ <;> cases h)
      obtain ⟨hSource, -, -⟩ := endsDistinct_iff.mp hFits'
      dsimp only
      split
      · next hNe =>
        unfold Fits
        dsimp only [InteractState.clearError]
        rw [hPhase]
        exact endsDistinct_iff.mpr ⟨hSource, nofun, hNe.symm⟩
      · exact ⟨hSource, rfl⟩
  | editingTrustline | confirmTrustlineCreate =>
      refine iff_of_true ?_ (by rintro ⟨h | h, -⟩ <;> cases h)
      obtain ⟨hSource, -, -⟩ := endsDistinct_iff.mp (fits_endsDistinct hFits (by simp [hPhase]))
      dsimp only
      split
      · next hNe =>
        obtain ⟨a, ha⟩ := Option.ne_none_iff_exists'.mp hSource
        refine fits_recompute answers ⟨hNamed.source, hSome⟩ ha rfl fun hEq => hNe ?_
        rw [ha, hEq]
      · exact ⟨hSource, rfl⟩

/-- A choice of the sender keeps the endpoints fitting exactly when it does not clash with
the receiver. -/
theorem setPaymentFromPid_fits_iff (hFits : Fits s) (pid : Option String) :
    Fits (s.setPaymentFromPid pid) ↔ ¬Clashes s (.setPaymentFromPid pid) := by
  unfold InteractState.setPaymentFromPid
  dsimp only
  unfold Clashes
  have hFits' := hFits
  unfold Fits at hFits'
  cases hPhase : s.phase with
  | pickingPaymentFrom | pickingPaymentTo =>
      refine iff_of_true ?_ (by rintro ⟨h, -⟩; cases h)
      dsimp only
      cases hPid : cleanPid pid with
      | none => rfl
      | some v => exact ⟨nofun, rfl⟩
  | confirmPayment =>
      rw [hPhase] at hFits'
      obtain ⟨-, hTarget, -⟩ := endsDistinct_iff.mp hFits'
      dsimp only
      by_cases hPid : cleanPid pid = none
      · rw [if_pos hPid]
        exact iff_of_true rfl fun h => h.2.1 hPid
      · rw [if_neg hPid]
        unfold Fits
        dsimp only [InteractState.clearError]
        rw [hPhase]
        refine endsDistinct_iff.trans ⟨fun h hClash => h.2.2 hClash.2.2, fun h => ⟨hPid, hTarget, ?_⟩⟩
        exact fun hEq => h ⟨rfl, hPid, hEq⟩
  | idle | pickingTrustlineFrom | pickingTrustlineTo | confirmTrustlineCreate | editingTrustline | confirmClearing
  | clearingPreview | clearingRunning =>
      exact iff_of_true hFits (by rintro ⟨h, -⟩; cases h)

/-- A choice of the receiver keeps the endpoints fitting exactly when it does not clash with
the sender. -/
theorem setPaymentToPid_fits_iff (hFits : Fits s) (pid : Option String) :
    Fits (s.setPaymentToPid pid) ↔ ¬Clashes s (.setPaymentToPid pid) := by
  unfold InteractState.setPaymentToPid
  dsimp only
  unfold Clashes
  have hFits' := hFits
  unfold Fits at hFits'
  have hPicked (hSource : s.fromPid ≠ none) (hPhase : s.phase = .pickingPaymentTo ∨ s.phase = .confirmPayment) :
      Fits { s.clearError with
        toPid := cleanPid pid, phase := if cleanPid pid = none then .pickingPaymentTo else .confirmPayment } ↔
        ¬((s.phase = .pickingPaymentTo ∨ s.phase = .confirmPayment) ∧ cleanPid pid ≠ none ∧
          cleanPid pid = s.fromPid) := by
    by_cases hPid : cleanPid pid = none
    · rw [if_pos hPid]
      exact iff_of_true ⟨hSource, hPid⟩ fun h => h.2.1 hPid
    · rw [if_neg hPid]
      refine endsDistinct_iff.trans ⟨fun h hClash => h.2.2 hClash.2.2.symm, fun h => ⟨hSource, hPid, ?_⟩⟩
      exact fun hEq => h ⟨hPhase, hPid, hEq.symm⟩
  cases hPhase : s.phase with
  | pickingPaymentTo =>
      rw [hPhase] at hFits' hPicked
      exact hPicked hFits'.1 (Or.inl rfl)
  | confirmPayment =>
      rw [hPhase] at hFits' hPicked
      exact hPicked (endsDistinct_iff.mp hFits').1 (Or.inr rfl)
  | idle | pickingPaymentFrom | pickingTrustlineFrom | pickingTrustlineTo | confirmTrustlineCreate
  | editingTrustline | confirmClearing | clearingPreview | clearingRunning =>
      exact iff_of_true hFits (by rintro ⟨h | h, -⟩ <;> cases h)

/-- A choice of the creditor keeps the endpoints fitting exactly when it does not clash with
the debtor. -/
theorem setTrustlineFromPid_fits_iff (hFits : Fits s) (hNamed : Named s) (pid : Option String) (answers : Answers) :
    Fits (s.setTrustlineFromPid pid answers) ↔ ¬Clashes s (.setTrustlineFromPid pid answers) := by
  unfold InteractState.setTrustlineFromPid
  dsimp only
  unfold Clashes
  cases hPhase : s.phase with
  | pickingTrustlineFrom | pickingTrustlineTo =>
      refine iff_of_true ?_ (by rintro ⟨h | h, -⟩ <;> cases h)
      dsimp only
      cases hPid : cleanPid pid with
      | none => rfl
      | some v => exact ⟨nofun, rfl⟩
  | editingTrustline | confirmTrustlineCreate =>
      obtain ⟨-, hTarget, -⟩ := endsDistinct_iff.mp (fits_endsDistinct hFits (by simp [hPhase]))
      refine (fits_recompute_iff (s := { s.clearError with fromPid := cleanPid pid }) answers
        ⟨cleanPid_ne pid, hNamed.target⟩ fun h hFit =>
          h (fits_endsDistinct hFit (by simp [InteractState.clearError, hPhase]))).trans ?_
      refine endsDistinct_iff.trans ⟨fun h hClash => ?_, fun h => ?_⟩
      · exact hClash.2.elim h.1 h.2.2
      · rw [not_and, not_or] at h
        obtain ⟨hPid, hNe⟩ := h (by simp)
        exact ⟨hPid, hTarget, hNe⟩
  | idle | pickingPaymentFrom | pickingPaymentTo | confirmPayment | confirmClearing | clearingPreview
  | clearingRunning =>
      exact iff_of_true hFits (by rintro ⟨h | h, -⟩ <;> cases h)

/-- A choice of the debtor keeps the endpoints fitting exactly when it does not clash with
the creditor. -/
theorem setTrustlineToPid_fits_iff (hFits : Fits s) (hNamed : Named s) (pid : Option String) (answers : Answers) :
    Fits (s.setTrustlineToPid pid answers) ↔ ¬Clashes s (.setTrustlineToPid pid answers) := by
  unfold InteractState.setTrustlineToPid
  dsimp only
  unfold Clashes
  have hFits' := hFits
  unfold Fits at hFits'
  cases hPhase : s.phase with
  | pickingTrustlineTo =>
      rw [hPhase] at hFits'
      dsimp only
      by_cases hPid : cleanPid pid = none
      · rw [if_pos hPid]
        refine iff_of_true ?_ fun h => h.2.1 hPid
        unfold Fits
        dsimp only [InteractState.clearError]
        rw [hPhase]
        exact ⟨hFits'.1, hPid⟩
      · rw [if_neg hPid]
        refine (fits_recompute_iff (s := { s.clearError with toPid := cleanPid pid }) answers
          ⟨hNamed.source, cleanPid_ne pid⟩ fun _ => not_fits_picking hPhase hPid).trans ?_
        refine endsDistinct_iff.trans ⟨fun h hClash => h.2.2 hClash.2.2.symm, fun h => ⟨hFits'.1, hPid, ?_⟩⟩
        exact fun hEq => h ⟨Or.inl rfl, hPid, hEq.symm⟩
  | editingTrustline | confirmTrustlineCreate =>
      obtain ⟨hSource, -, -⟩ := endsDistinct_iff.mp (fits_endsDistinct hFits (by simp [hPhase]))
      dsimp only
      by_cases hPid : cleanPid pid = none
      · rw [if_pos hPid]
        exact iff_of_true ⟨hSource, hPid⟩ fun h => h.2.1 hPid
      · rw [if_neg hPid]
        refine (fits_recompute_iff (s := { s.clearError with toPid := cleanPid pid }) answers
          ⟨hNamed.source, cleanPid_ne pid⟩ fun h hFit =>
            h (fits_endsDistinct hFit (by simp [InteractState.clearError, hPhase]))).trans ?_
        refine endsDistinct_iff.trans ⟨fun h hClash => h.2.2 hClash.2.2.symm, fun h => ⟨hSource, hPid, ?_⟩⟩
        exact fun hEq => h ⟨by simp, hPid, hEq.symm⟩
  | idle | pickingPaymentFrom | pickingPaymentTo | confirmPayment | pickingTrustlineFrom | confirmClearing
  | clearingPreview | clearingRunning =>
      exact iff_of_true hFits (by rintro ⟨h | h | h, -⟩ <;> cases h)

/-- After one call the endpoints fit the phase exactly when the call does not clash. -/
theorem step_fits_iff (hFits : Fits s) (hNamed : Named s) {call : Call Clearing} (hAdmissible : Admissible call) :
    Fits (s.step call) ↔ ¬Clashes s call := by
  cases call with
  | clearError | setLastClearing response => exact iff_of_true hFits fun h => h
  | resetToIdle | startPaymentFlow | startTrustlineFlow => exact iff_of_true rfl fun h => h
  | startClearingFlow | enterClearingPreview | enterClearingRunning => exact iff_of_true trivial fun h => h
  | startPaymentFlowWithFrom fromPid =>
      refine iff_of_true ?_ fun h => h
      rw [InteractState.step, InteractState.startPaymentFlowWithFrom]
      split
      · rfl
      · exact ⟨nofun, rfl⟩
  | startTrustlineFlowWithFrom fromPid =>
      refine iff_of_true ?_ fun h => h
      rw [InteractState.step, InteractState.startTrustlineFlowWithFrom]
      split
      · rfl
      · exact ⟨nofun, rfl⟩
  | selectNode nodeId answers => exact selectNode_fits_iff hFits hNamed nodeId answers
  | selectEdge edgeKey anchor =>
      refine iff_of_true ?_ fun h => h
      rw [InteractState.step, InteractState.selectEdge]
      split
      · exact hFits
      · next a b hParse => exact ⟨a, b, rfl, rfl, hAdmissible a b hParse, rfl⟩
  | selectTrustline fromPid toPid =>
      refine iff_of_true ?_ fun h => h
      obtain ⟨hSource, hTarget, hNe⟩ := hAdmissible
      rw [InteractState.step, InteractState.selectTrustline]
      split
      · next a b ha hb =>
        rw [ha, hb] at hNe
        exact ⟨a, b, rfl, rfl, fun hEq => hNe (congrArg some hEq), rfl⟩
      · next hNone =>
        obtain ⟨a, ha⟩ := Option.ne_none_iff_exists'.mp hSource
        obtain ⟨b, hb⟩ := Option.ne_none_iff_exists'.mp hTarget
        exact absurd hb (hNone a b ha)
  | setPaymentFromPid pid => exact setPaymentFromPid_fits_iff hFits pid
  | setPaymentToPid pid => exact setPaymentToPid_fits_iff hFits pid
  | setTrustlineFromPid pid answers => exact setTrustlineFromPid_fits_iff hFits hNamed pid answers
  | setTrustlineToPid pid answers => exact setTrustlineToPid_fits_iff hFits hNamed pid answers

theorem run_named {before : List (Call Clearing)} (hNamed : Named s) : Named (before.foldl InteractState.step s) := by
  induction before generalizing s with
  | nil => exact hNamed
  | cons call rest ih => exact ih (step_named hNamed call)

/-- The endpoints fit along a run without a clash. -/
theorem run_fits {before : List (Call Clearing)} {start finish : InteractState Clearing}
    (hAdmissible : ∀ call ∈ before, Admissible call) (hFits : Fits start) (hNamed : Named start)
    (run : Run InteractState.step (fun s call => ¬Clashes s call) start before finish) : Fits finish := by
  induction run with
  | nil => exact hFits
  | snoc prior hClash ih =>
      have hPrior := ih (fun call hCall => hAdmissible call (List.mem_append_left _ hCall))
      rw [WriteBehind.finish_eq prior] at hPrior hClash ⊢
      exact (step_fits_iff hPrior (run_named hNamed)
        (hAdmissible _ (List.mem_append_right _ (List.mem_singleton_self _)))).mpr hClash

/-- The endpoints fit the phase in every state of a sequence of calls exactly when no call
of it clashes. -/
theorem endpoints_fit {calls : List (Call Clearing)} (hAdmissible : ∀ call ∈ calls, Admissible call) :
    (∀ before, before <+: calls → Fits (before.foldl InteractState.step {})) ↔
      Run InteractState.step (fun s call => ¬Clashes s call) {} calls (calls.foldl InteractState.step {}) := by
  have hStart : Fits ({} : InteractState Clearing) := rfl
  have hNamed : Named ({} : InteractState Clearing) := ⟨nofun, nofun⟩
  refine Iff.trans ⟨fun h before _ hPrefix => h before hPrefix, fun h before hPrefix => ?_⟩
    (WriteBehind.prefixes_iff calls (fun trace call hPrefix run => ?_) fun trace call hPrefix run hClash hFits => ?_)
  · rcases eq_or_ne before [] with rfl | hNe
    · exact hStart
    · exact h before hNe hPrefix
  · exact run_fits (fun other hOther => hAdmissible other (hPrefix.subset hOther)) hStart hNamed run
  · have hPrior : Fits (trace.foldl InteractState.step {}) :=
      run_fits (fun other hOther => hAdmissible other (hPrefix.subset (List.mem_append_left _ hOther)))
        hStart hNamed run
    rw [List.foldl_append, List.foldl_cons, List.foldl_nil] at hFits
    refine hClash ((step_fits_iff hPrior (run_named hNamed) ?_).mp hFits)
    exact hAdmissible call (hPrefix.subset (List.mem_append_right _ (List.mem_singleton_self _)))

/-- Some answers of the snapshot and of the trust lines. -/
def oneLine : Answers where
  snapshot := some [⟨"alice", "bob", none⟩]
  findActiveTrustline _ _ := false

/-- A trust line of the canvas is picked, and its receiver is changed from the list. -/
theorem endpoints_fit_changed :
    (∀ call ∈ ([.startTrustlineFlow, .selectNode "alice" oneLine, .selectNode "bob" oneLine,
        .setTrustlineToPid (some "carol") oneLine] : List (Call Unit)), Admissible call) ∧
      ∀ before, before <+: ([.startTrustlineFlow, .selectNode "alice" oneLine, .selectNode "bob" oneLine,
        .setTrustlineToPid (some "carol") oneLine] : List (Call Unit)) →
          Fits (before.foldl InteractState.step {}) := by
  have hAdmissible : ∀ call ∈ ([.startTrustlineFlow, .selectNode "alice" oneLine, .selectNode "bob" oneLine,
      .setTrustlineToPid (some "carol") oneLine] : List (Call Unit)), Admissible call := by
    simp [Admissible]
  have hFirst : ¬Clashes ({} : InteractState Unit) .startTrustlineFlow := fun h => h
  have hSender : ¬Clashes (([.startTrustlineFlow] : List (Call Unit)).foldl InteractState.step {})
      (.selectNode "alice" oneLine) := by
    rintro ⟨h | h, -⟩ <;> exact absurd h (by decide +kernel)
  have hReceiver : ¬Clashes (([.startTrustlineFlow, .selectNode "alice" oneLine] : List (Call Unit)).foldl
      InteractState.step {}) (.selectNode "bob" oneLine) := fun h => absurd h.2.2 (by decide +kernel)
  have hOther : ¬Clashes (([.startTrustlineFlow, .selectNode "alice" oneLine, .selectNode "bob" oneLine] :
      List (Call Unit)).foldl InteractState.step {}) (.setTrustlineToPid (some "carol") oneLine) :=
    fun h => absurd h.2.2 (by decide +kernel)
  exact ⟨hAdmissible, (endpoints_fit hAdmissible).mpr
    (.snoc (.snoc (.snoc (.snoc .nil hFirst) hSender) hReceiver) hOther)⟩

/-- The sender of a payment is picked once more, as its receiver. -/
theorem sender_picked_twice :
    ¬∀ calls : List (Call Unit), (∀ call ∈ calls, Admissible call) →
      ∀ before, before <+: calls → Fits (before.foldl InteractState.step {}) := by
  intro h
  have hFits := h [.startPaymentFlowWithFrom "alice", .selectNode "alice" oneLine] (by simp [Admissible]) _
    (List.prefix_refl _)
  have hState : (([.startPaymentFlowWithFrom "alice", .selectNode "alice" oneLine] : List (Call Unit)).foldl
      InteractState.step {}).phase = .confirmPayment := by decide +kernel
  unfold Fits at hFits
  rw [hState] at hFits
  obtain ⟨-, -, hNe⟩ := endsDistinct_iff.mp hFits
  exact hNe (by decide +kernel)

end InteractFsm

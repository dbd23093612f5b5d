import Mathlib

/-! The storage of the last computed tick: the throttled writes at the end of a
tick, the mark that stands for them, and the flush when a run stops. A tick that
is computed again under an index already used (after a restart) is a tick of its
own. The outcomes of the writers and of the commits are arbitrary. -/
namespace TickStorage

/-- The settings of `RealTickPersistence`. -/
structure Settings where
  metricsEveryN : ℤ
  bottlenecksEveryN : ℤ
  dbEnabled : Bool

/-- `_real_last_tick_storage_payload`. `serial` tells computed ticks apart;
`bottlenecks` are the equivalents of the tick that have bottleneck rows. -/
structure TickPayload where
  serial : Nat
  tickIndex : Nat
  bottlenecks : List String
deriving DecidableEq

/-- The storage fields of a run, and its rows that are durable. -/
structure RunStorage where
  computed : Nat
  payload : Option TickPayload
  flushedTick : ℤ
  metricRows : List TickPayload
  bottleneckRows : List (TickPayload × String)

/-- The storage of a new run. -/
def RunStorage.initial : RunStorage := ⟨0, none, -1, [], []⟩

/-- A tick that reaches its tail: what it computed, whether each writer reports
success, and whether the transaction of the tick becomes durable. -/
structure TickTail where
  tickIndex : Nat
  bottlenecks : List String
  metricsOk : Bool
  bottlenecksOk : String → Bool
  committed : Bool

/-- What the writers report while a run is flushed; each commits for itself. -/
structure FlushWriters where
  metricsOk : Bool
  bottlenecksOk : String → Bool

/-- Every writer succeeds. -/
def FlushWriters.Working (w : FlushWriters) : Prop := w.metricsOk = true ∧ ∀ eq, w.bottlenecksOk eq = true

section Source

variable (settings : Settings)

/-- A write is due at a tick. -/
def due (everyN : ℤ) (tickIndex : Nat) : Bool := everyN ≤ 1 ∨ (tickIndex : ℤ) % everyN = 0

/-- No writer that is called reports a failure. A writer without a database, or
without rows, reports success. -/
def wroteEverything (t : TickTail) : Bool :=
  (!due settings.metricsEveryN t.tickIndex || !settings.dbEnabled || t.metricsOk) &&
    (!due settings.bottlenecksEveryN t.tickIndex || !settings.dbEnabled || t.bottlenecks.all t.bottlenecksOk)

/-- The tick is marked as flushed. -/
def marks (t : TickTail) : Bool :=
  (due settings.metricsEveryN t.tickIndex || due settings.bottlenecksEveryN t.tickIndex) &&
    wroteEverything settings t

/-- The metric rows that a tick stages in its transaction. -/
def stagedMetrics (p : TickPayload) (t : TickTail) : List TickPayload :=
  if due settings.metricsEveryN t.tickIndex && settings.dbEnabled && t.metricsOk then [p] else []

/-- The bottleneck rows that a tick stages in its transaction. -/
def stagedBottlenecks (p : TickPayload) (t : TickTail) : List (TickPayload × String) :=
  if due settings.bottlenecksEveryN t.tickIndex && settings.dbEnabled then
    (t.bottlenecks.filter t.bottlenecksOk).map fun eq => (p, eq)
  else []

/-- `persist_tick_tail`: the mark is set before the commit. -/
def persistTickTail (t : TickTail) (s : RunStorage) : RunStorage :=
  let p : TickPayload := ⟨s.computed, t.tickIndex, t.bottlenecks⟩
  { computed := s.computed + 1
    payload := some p
    flushedTick := if marks settings t then t.tickIndex else s.flushedTick
    metricRows := (if t.committed then stagedMetrics settings p t else []) ++ s.metricRows
    bottleneckRows := (if t.committed then stagedBottlenecks settings p t else []) ++ s.bottleneckRows }

/-- `int(x or default)`. -/
def intOr (x default : ℤ) : ℤ := if x = 0 then default else x

/-- `flush_pending_storage` of a real run. -/
def flushPendingStorage (w : FlushWriters) (s : RunStorage) : RunStorage :=
  if settings.dbEnabled = false then s
  else match s.payload with
    | none => s
    | some p =>
        let lastTick := intOr p.tickIndex (-1)
        if lastTick < 0 then s
        else if lastTick ≤ intOr s.flushedTick (-1) then s
        else
          { s with
            metricRows := (if w.metricsOk then [p] else []) ++ s.metricRows
            bottleneckRows := ((p.bottlenecks.filter w.bottlenecksOk).map fun eq => (p, eq)) ++ s.bottleneckRows
            flushedTick := if w.metricsOk && p.bottlenecks.all w.bottlenecksOk then lastTick else s.flushedTick }

inductive Step where
  | tail (t : TickTail)
  | flush (w : FlushWriters)

def step (s : RunStorage) : Step → RunStorage
  | .tail t => persistTickTail settings t s
  | .flush w => flushPendingStorage settings w s

end Source

section Properties

variable (settings : Settings)

/-- All rows of a tick are durable. -/
def Durable (p : TickPayload) (s : RunStorage) : Prop :=
  p ∈ s.metricRows ∧ ∀ eq ∈ p.bottlenecks, (p, eq) ∈ s.bottleneckRows

/-- A mark at the last computed tick or later tells the truth about its rows. -/
def MarkTrue (s : RunStorage) : Prop := ∀ p, s.payload = some p → p.tickIndex ≤ s.flushedTick → Durable p s

/-- The rows of the last computed tick, if there is one, are durable. -/
def LastDurable (s : RunStorage) : Prop := ∀ p, s.payload = some p → Durable p s

/-- After the step the mark is true, and a flush by working writers has made the
last computed tick durable. -/
def Good (s : RunStorage) : Step → Prop
  | .tail t => MarkTrue (persistTickTail settings t s)
  | .flush w => MarkTrue (flushPendingStorage settings w s) ∧
      (w.Working → LastDurable (flushPendingStorage settings w s))

/-- No step of the run loses a tick. -/
def KeepsTicks : RunStorage → List Step → Prop
  | _, [] => True
  | s, x :: rest => Good settings s x ∧ KeepsTicks (step settings s x) rest

/-- A tick whose due writes all succeed has both writes due and a commit that
succeeds; any other tick has an index past the mark. A flush by working writers
finds an index other than zero, or the rows already durable. -/
def Harmless (s : RunStorage) : Step → Prop
  | .tail t =>
      if marks settings t then
        settings.dbEnabled = true ∧ t.committed = true ∧ due settings.metricsEveryN t.tickIndex = true ∧
          (due settings.bottlenecksEveryN t.tickIndex = true ∨ t.bottlenecks = [])
      else s.flushedTick < t.tickIndex
  | .flush w => w.Working → ∀ p, s.payload = some p →
      (settings.dbEnabled = true ∧ p.tickIndex ≠ 0) ∨ Durable p s

/-- Every step of the run is harmless in the state it meets. -/
def HarmlessRun : RunStorage → List Step → Prop
  | _, [] => True
  | s, x :: rest => Harmless settings s x ∧ HarmlessRun (step settings s x) rest

end Properties

section Steps

variable {settings : Settings} {s : RunStorage}

/-- Every payload that is stored was computed before. -/
structure Numbered (s : RunStorage) : Prop where
  metrics : ∀ p ∈ s.metricRows, p.serial < s.computed
  bottlenecks : ∀ row ∈ s.bottleneckRows, row.1.serial < s.computed
  payload : ∀ p, s.payload = some p → p.serial < s.computed

theorem numbered_initial : Numbered .initial := by
  constructor <;> simp [RunStorage.initial]

theorem eq_of_mem_stagedMetrics {p q : TickPayload} {t : TickTail} (h : q ∈ stagedMetrics settings p t) : q = p := by
  unfold stagedMetrics at h
  split at h
  · exact List.mem_singleton.mp h
  · cases h

theorem eq_of_mem_stagedBottlenecks {p : TickPayload} {row : TickPayload × String} {t : TickTail}
    (h : row ∈ stagedBottlenecks settings p t) : row.1 = p := by
  unfold stagedBottlenecks at h
  split at h
  · obtain ⟨eq, _, rfl⟩ := List.mem_map.mp h
    rfl
  · cases h

theorem Numbered.tail (h : Numbered s) (t : TickTail) : Numbered (persistTickTail settings t s) := by
  refine ⟨fun p hp => ?_, fun row hRow => ?_, fun p hp => ?_⟩
  · rcases List.mem_append.mp hp with hNew | hOld
    · split at hNew
      · rw [eq_of_mem_stagedMetrics hNew]
        exact Nat.lt_succ_self _
      · cases hNew
    · exact Nat.lt_succ_of_lt (h.metrics p hOld)
  · rcases List.mem_append.mp hRow with hNew | hOld
    · split at hNew
      · rw [eq_of_mem_stagedBottlenecks hNew]
        exact Nat.lt_succ_self _
      · cases hNew
    · exact Nat.lt_succ_of_lt (h.bottlenecks row hOld)
  · cases hp
    exact Nat.lt_succ_self _

/-- What a flush that writes leaves. -/
def written (w : FlushWriters) (p : TickPayload) (s : RunStorage) : RunStorage :=
  { s with
    metricRows := (if w.metricsOk then [p] else []) ++ s.metricRows
    bottleneckRows := ((p.bottlenecks.filter w.bottlenecksOk).map fun eq => (p, eq)) ++ s.bottleneckRows
    flushedTick := if w.metricsOk && p.bottlenecks.all w.bottlenecksOk then p.tickIndex else s.flushedTick }

/-- A flush does nothing, or writes the last computed tick. -/
theorem flushPendingStorage_cases (settings : Settings) (w : FlushWriters) (s : RunStorage) :
    (flushPendingStorage settings w s = s ∧ ∀ p, s.payload = some p →
      settings.dbEnabled = false ∨ p.tickIndex = 0 ∨ (p.tickIndex : ℤ) ≤ s.flushedTick) ∨
    ∃ p, s.payload = some p ∧ settings.dbEnabled = true ∧ p.tickIndex ≠ 0 ∧
      flushPendingStorage settings w s = written w p s := by
  unfold flushPendingStorage
  cases hEnabled : settings.dbEnabled with
  | false => exact .inl ⟨rfl, fun _ _ => .inl rfl⟩
  | true =>
      cases hPayload : s.payload with
      | none => exact .inl ⟨rfl, fun _ h => by cases h⟩
      | some p =>
          simp only [Bool.true_eq_false, if_false]
          by_cases hZero : p.tickIndex = 0
          · refine .inl ⟨by simp [intOr, hZero], fun q hq => ?_⟩
            cases hq
            exact .inr (.inl hZero)
          · have hLast : intOr p.tickIndex (-1) = p.tickIndex := if_neg (by simpa using hZero)
            rw [hLast, if_neg (by omega)]
            by_cases hFlushed : (p.tickIndex : ℤ) ≤ intOr s.flushedTick (-1)
            · rw [if_pos hFlushed]
              refine .inl ⟨rfl, fun q hq => ?_⟩
              cases hq
              refine .inr (.inr ?_)
              unfold intOr at hFlushed
              split at hFlushed <;> omega
            · rw [if_neg hFlushed]
              exact .inr ⟨p, rfl, trivial, hZero, by rw [written, hPayload]⟩

theorem durable_written {w : FlushWriters} {p q : TickPayload} (h : Durable q s) : Durable q (written w p s) :=
  ⟨List.mem_append_right _ h.1, fun eq hEq => List.mem_append_right _ (h.2 eq hEq)⟩

/-- A flush in which every writer succeeds makes the tick durable. -/
theorem durable_written_self {w : FlushWriters} {p : TickPayload} (hMetrics : w.metricsOk = true)
    (hBottlenecks : p.bottlenecks.all w.bottlenecksOk = true) : Durable p (written w p s) := by
  refine ⟨List.mem_append_left _ (by simp [hMetrics]), fun eq hEq => List.mem_append_left _ ?_⟩
  exact List.mem_map_of_mem (List.mem_filter.mpr ⟨hEq, List.all_eq_true.mp hBottlenecks eq hEq⟩)

theorem Numbered.flush (h : Numbered s) (w : FlushWriters) : Numbered (flushPendingStorage settings w s) := by
  rcases flushPendingStorage_cases settings w s with ⟨hSame, _⟩ | ⟨p, hPayload, _, _, hWritten⟩
  · rwa [hSame]
  · rw [hWritten]
    have hSerial := h.payload p hPayload
    refine ⟨fun q hq => ?_, fun row hRow => ?_, h.payload⟩
    · rcases List.mem_append.mp hq with hNew | hOld
      · split at hNew
        · rwa [List.mem_singleton.mp hNew]
        · cases hNew
      · exact h.metrics q hOld
    · rcases List.mem_append.mp hRow with hNew | hOld
      · obtain ⟨eq, _, rfl⟩ := List.mem_map.mp hNew
        exact hSerial
      · exact h.bottlenecks row hOld

theorem Numbered.step (h : Numbered s) (x : Step) : Numbered (step settings s x) := by
  cases x with
  | tail t => exact h.tail t
  | flush w => exact h.flush w

/-- The rows of a new tick are durable when its transaction is, and both writes
were due and succeeded. -/
theorem durable_tail_iff (h : Numbered s) (t : TickTail) :
    Durable ⟨s.computed, t.tickIndex, t.bottlenecks⟩ (persistTickTail settings t s) ↔
      t.committed = true ∧ settings.dbEnabled = true ∧
        (due settings.metricsEveryN t.tickIndex = true ∧ t.metricsOk = true) ∧
        ∀ eq ∈ t.bottlenecks, due settings.bottlenecksEveryN t.tickIndex = true ∧ t.bottlenecksOk eq = true := by
  have hMetrics : ∀ p ∈ s.metricRows, p ≠ ⟨s.computed, t.tickIndex, t.bottlenecks⟩ := by
    rintro p hp rfl
    exact (h.metrics _ hp).false
  have hBottlenecks : ∀ row ∈ s.bottleneckRows, row.1 ≠ ⟨s.computed, t.tickIndex, t.bottlenecks⟩ := by
    rintro row hRow hEq
    have hLess := h.bottlenecks row hRow
    rw [hEq] at hLess
    exact hLess.false
  constructor
  · rintro ⟨hMetricRow, hRows⟩
    rcases List.mem_append.mp hMetricRow with hNew | hOld
    · split at hNew
      · next hCommitted =>
          unfold stagedMetrics at hNew
          split at hNew
          · next hStaged =>
              simp only [Bool.and_eq_true] at hStaged
              obtain ⟨⟨hDue, hEnabled⟩, hOk⟩ := hStaged
              refine ⟨hCommitted, hEnabled, ⟨hDue, hOk⟩, fun eq hEq => ?_⟩
              rcases List.mem_append.mp (hRows eq hEq) with hRow | hRow
              · rw [if_pos hCommitted] at hRow
                unfold stagedBottlenecks at hRow
                split at hRow
                · next hWritten =>
                    simp only [Bool.and_eq_true] at hWritten
                    obtain ⟨other, hOther, hPair⟩ := List.mem_map.mp hRow
                    cases hPair
                    exact ⟨hWritten.1, (List.mem_filter.mp hOther).2⟩
                · cases hRow
              · exact absurd rfl (hBottlenecks _ hRow)
          · cases hNew
      · cases hNew
    · exact absurd rfl (hMetrics _ hOld)
  · rintro ⟨hCommitted, hEnabled, ⟨hDue, hOk⟩, hRows⟩
    refine ⟨List.mem_append_left _ ?_, fun eq hEq => List.mem_append_left _ ?_⟩
    · simp [hCommitted, stagedMetrics, hDue, hEnabled, hOk]
    · obtain ⟨hDueBottlenecks, hOkEq⟩ := hRows eq hEq
      rw [if_pos hCommitted, stagedBottlenecks, if_pos (by simp [hDueBottlenecks, hEnabled])]
      exact List.mem_map_of_mem (List.mem_filter.mpr ⟨hEq, hOkEq⟩)

/-- A tick is marked whenever its rows can be durable. -/
theorem marks_of_written {t : TickTail} (hDue : due settings.metricsEveryN t.tickIndex = true)
    (hOk : t.metricsOk = true)
    (hRows : ∀ eq ∈ t.bottlenecks, due settings.bottlenecksEveryN t.tickIndex = true ∧ t.bottlenecksOk eq = true) :
    marks settings t = true := by
  have hAll : t.bottlenecks.all t.bottlenecksOk = true := List.all_eq_true.mpr fun eq hEq => (hRows eq hEq).2
  simp [marks, wroteEverything, hDue, hOk, hAll]

/-- The tail of a tick is harmless exactly when it leaves a true mark. -/
theorem good_tail_iff (h : Numbered s) (t : TickTail) : Good settings s (.tail t) ↔ Harmless settings s (.tail t) := by
  have hPayload : (persistTickTail settings t s).payload = some ⟨s.computed, t.tickIndex, t.bottlenecks⟩ := rfl
  have hGood : Good settings s (.tail t) ↔
      ((t.tickIndex : ℤ) ≤ (persistTickTail settings t s).flushedTick →
        Durable ⟨s.computed, t.tickIndex, t.bottlenecks⟩ (persistTickTail settings t s)) := by
    rw [Good, MarkTrue, hPayload]
    simp
  rw [hGood, durable_tail_iff h, Harmless, persistTickTail]
  by_cases hMarks : marks settings t = true
  · simp only [if_pos hMarks, le_refl, forall_const]
    constructor
    · rintro ⟨hCommitted, hEnabled, ⟨hDue, _⟩, hRows⟩
      refine ⟨hEnabled, hCommitted, hDue, ?_⟩
      cases hBottlenecks : t.bottlenecks with
      | nil => exact .inr rfl
      | cons eq rest => exact .inl (hRows eq (by rw [hBottlenecks]; exact List.mem_cons_self)).1
    · rintro ⟨hEnabled, hCommitted, hDue, hBottlenecks⟩
      simp only [marks, wroteEverything, Bool.and_eq_true, Bool.or_eq_true, Bool.not_eq_true', hDue, hEnabled,
        Bool.true_eq_false, false_or, List.all_eq_true] at hMarks
      obtain ⟨_, hOk, hRows⟩ := hMarks
      refine ⟨hCommitted, hEnabled, ⟨hDue, hOk⟩, fun eq hEq => ?_⟩
      rcases hBottlenecks with hDueBottlenecks | hNone
      · rcases hRows with (hNot | hNot) | hAll
        · rw [hDueBottlenecks] at hNot
          cases hNot
        · cases hNot
        · exact ⟨hDueBottlenecks, hAll eq hEq⟩
      · rw [hNone] at hEq
        cases hEq
  · simp only [if_neg hMarks]
    constructor
    · intro hDurable
      by_contra hLate
      obtain ⟨_, _, ⟨hDue, hOk⟩, hRows⟩ := hDurable (not_lt.mp hLate)
      exact hMarks (marks_of_written hDue hOk hRows)
    · intro hLate hEarly
      exact absurd hEarly (not_le.mpr hLate)

/-- From a true mark, a flush is harmless exactly when it leaves a true mark and,
by working writers, the last computed tick durable. -/
theorem good_flush_iff (hMark : MarkTrue s) (w : FlushWriters) :
    Good settings s (.flush w) ↔ Harmless settings s (.flush w) := by
  rcases flushPendingStorage_cases settings w s with ⟨hSame, hIdle⟩ | ⟨p, hPayload, hEnabled, hZero, hWritten⟩
  · rw [Good, hSame, Harmless]
    constructor
    · rintro ⟨_, hLast⟩ hWorking p hp
      exact .inr (hLast hWorking p hp)
    · intro hHarmless
      refine ⟨hMark, fun hWorking p hp => ?_⟩
      rcases hHarmless hWorking p hp with ⟨hEnabled, hZero⟩ | hDurable
      · rcases hIdle p hp with hDisabled | hFirst | hFlushed
        · rw [hEnabled] at hDisabled
          cases hDisabled
        · exact absurd hFirst hZero
        · exact hMark p hp hFlushed
      · exact hDurable
  · rw [Good, hWritten, Harmless]
    refine iff_of_true ⟨fun q hq hFlushed => ?_, fun hWorking q hq => ?_⟩ fun _ q hq => ?_
    · obtain rfl : p = q := Option.some.inj (hPayload.symm.trans hq)
      by_cases hAll : (w.metricsOk && p.bottlenecks.all w.bottlenecksOk) = true
      · rw [Bool.and_eq_true] at hAll
        exact durable_written_self hAll.1 hAll.2
      · rw [written, if_neg hAll] at hFlushed
        exact durable_written (hMark p hPayload hFlushed)
    · obtain rfl : p = q := Option.some.inj (hPayload.symm.trans hq)
      exact durable_written_self hWorking.1 (List.all_eq_true.mpr fun eq _ => hWorking.2 eq)
    · obtain rfl : p = q := Option.some.inj (hPayload.symm.trans hq)
      exact .inl ⟨hEnabled, hZero⟩

theorem Good.markTrue {x : Step} (h : Good settings s x) : MarkTrue (step settings s x) := by
  cases x with
  | tail t => exact h
  | flush w => exact h.1

end Steps

/-- A run loses no tick exactly when all its steps are harmless. -/
theorem keepsTicks_iff (settings : Settings) (steps : List Step) :
    KeepsTicks settings .initial steps ↔ HarmlessRun settings .initial steps := by
  have hRun : ∀ s, Numbered s → MarkTrue s → (KeepsTicks settings s steps ↔ HarmlessRun settings s steps) := by
    induction steps with
    | nil => exact fun _ _ _ => Iff.rfl
    | cons x rest ih =>
        intro s hNumbered hMark
        have hStep : Good settings s x ↔ Harmless settings s x := by
          cases x with
          | tail t => exact good_tail_iff hNumbered t
          | flush w => exact good_flush_iff hMark w
        rw [KeepsTicks, HarmlessRun, ← hStep]
        exact and_congr_right fun hGood => ih _ (hNumbered.step x) hGood.markTrue
  exact hRun .initial numbered_initial (fun p hp => by cases hp)

/-- Bottlenecks are written every tick, metrics every fifth: tick 7 is marked by
its bottlenecks alone, and the flush at the stop leaves its metrics out. -/
theorem stopped_run_loses_tick : ¬ ∀ (settings : Settings) (steps : List Step), KeepsTicks settings .initial steps := by
  intro h
  have hFirst := (h ⟨5, 1, true⟩ [.tail ⟨7, ["HOUR"], true, fun _ => true, true⟩]).1
  have hRows := (hFirst ⟨0, 7, ["HOUR"]⟩ rfl (by decide)).1
  revert hRows
  decide

end TickStorage

import Mathlib
import GeoLedger.Simulator.RunLifecycle

/-! The contract of the run lifecycle: limits, failures that change nothing,
reactivation through `restart` only, and live heartbeats. A sequence of
operations keeps it if and only if each operation is harmless where it happens. -/
namespace RunLifecycle

variable {limits : Limits} {s : System} {op : Op}

/-- What every operation leaves of a record. -/
structure Kept (now : Nat) (r r' : Run) : Prop where
  runId : r'.runId = r.runId
  ownerId : r'.ownerId = r.ownerId
  startedAt : r'.startedAt = r.startedAt ∨ r'.startedAt = now
  notIdle : r.state ≠ .idle → r'.state ≠ .idle

theorem kept_pause (now : Nat) (r : Run) : Kept now r r.pause := by
  unfold Run.pause
  split <;> exact ⟨rfl, rfl, Or.inl rfl, by simp_all⟩

theorem kept_resume (now : Nat) (r : Run) : Kept now r r.resume := by
  unfold Run.resume
  split <;> exact ⟨rfl, rfl, Or.inl rfl, by simp_all⟩

theorem kept_stop (now : Nat) (source reason client : Option String) (r : Run) :
    Kept now r (r.stop now source reason client) :=
  ⟨rfl, rfl, Or.inl rfl, by simp [Run.stop]⟩

theorem kept_restart (now : Nat) (r : Run) : Kept now r (r.restart now) :=
  ⟨rfl, rfl, Or.inr rfl, by simp [Run.restart]⟩

theorem kept_fail (now : Nat) (code message : String) (ownTask : Bool) (r : Run) :
    Kept now r (r.fail now code message ownTask) := by
  unfold Run.fail
  split <;> exact ⟨rfl, rfl, Or.inl rfl, by simp⟩

theorem kept_wake (now tickMsBase : Nat) (work : Progress → Progress) (r : Run) :
    Kept now r (r.wake tickMsBase work) := by
  unfold Run.wake
  split
  · split <;> exact ⟨rfl, rfl, Or.inl rfl, by simp⟩
  · exact ⟨rfl, rfl, Or.inl rfl, id⟩

/-- A rewrite that brings no run back and ends no heartbeat that is needed. -/
structure Quiet (r r' : Run) : Prop where
  isActive : r'.isActive → r.isActive
  isDriven : r'.isDriven → r.isDriven ∧ r'.heartbeat = r.heartbeat

theorem quiet_refl (r : Run) : Quiet r r := ⟨id, fun h => ⟨h, rfl⟩⟩

/-- A rewrite to a state that is not active is quiet. -/
theorem quiet_of_terminal {r r' : Run} (h : r'.isTerminal) : Quiet r r' := by
  simp only [Run.isTerminal, decide_eq_true_eq] at h
  constructor
  · intro hActive
    rcases h with h | h <;> simp [Run.isActive, h] at hActive
  · intro hDriven
    rcases h with h | h <;> simp [Run.isDriven, h] at hDriven

theorem quiet_pause {r : Run} (hIdle : r.state ≠ .idle) : Quiet r r.pause := by
  unfold Run.pause
  split
  · exact quiet_refl r
  · next hState =>
      refine ⟨fun _ => by simp [Run.isActive, hState], fun _ => ⟨by simp [Run.isDriven, hState], rfl⟩⟩
  · exact quiet_refl r
  · exact quiet_refl r
  · exact quiet_refl r
  · next hState => exact absurd hState hIdle

theorem quiet_resume {r : Run} (hIdle : r.state ≠ .idle) (hError : r.state ≠ .error) : Quiet r r.resume := by
  unfold Run.resume
  split
  · exact quiet_refl r
  · next hState =>
      refine ⟨fun _ => by simp [Run.isActive, hState], fun _ => ⟨by simp [Run.isDriven, hState], rfl⟩⟩
  · exact quiet_refl r
  · exact quiet_refl r
  · next hRunning hPaused hStopping hStopped =>
      cases hState : r.state <;> simp_all

theorem quiet_stop (now : Nat) (source reason client : Option String) (r : Run) :
    Quiet r (r.stop now source reason client) :=
  quiet_of_terminal (by simp [Run.isTerminal, Run.stop])

theorem quiet_fail (now : Nat) (code message : String) (ownTask : Bool) (r : Run) :
    Quiet r (r.fail now code message ownTask) := by
  unfold Run.fail
  split
  · exact quiet_refl r
  · exact quiet_refl r
  · exact quiet_refl r
  · exact quiet_of_terminal (by simp [Run.isTerminal])

theorem quiet_wake (tickMsBase : Nat) (work : Progress → Progress) (r : Run) :
    Quiet r (r.wake tickMsBase work) := by
  unfold Run.wake
  split
  · split
    · next hState => exact quiet_of_terminal (by simp [Run.isTerminal, hState])
    · next hState => exact ⟨fun h => by simp [Run.isActive, hState], fun h => by simp [Run.isDriven, hState] at h⟩
    · next hState => exact quiet_of_terminal (by simp [Run.isTerminal, hState])
    · exact ⟨id, fun h => ⟨h, rfl⟩⟩
    · exact quiet_refl r
  · exact quiet_refl r

/-- The run that an operation rewrites, and how; `create_run` rewrites none. -/
def Op.rewrite (limits : Limits) (now : Nat) : Op → Option (Nat × (Run → Run))
  | .createRun _ _ _ => none
  | .pause runId => some (runId, Run.pause)
  | .resume runId => some (runId, Run.resume)
  | .stop runId source reason client => some (runId, Run.stop now source reason client)
  | .restart runId => some (runId, Run.restart now)
  | .failRun runId code message ownTask => some (runId, Run.fail now code message ownTask)
  | .heartbeat runId work => some (runId, Run.wake limits.tickMsBase work)

/-- An operation that rewrites one run keeps its id and its owner, dates its start not at
all or now, and does not make it idle again. -/
theorem kept_rewrite {now runId : Nat} {f : Run → Run} (h : op.rewrite limits now = some (runId, f)) (r : Run) :
    Kept now r (f r) := by
  cases op <;> simp only [Op.rewrite, Option.some.injEq, Prod.mk.injEq, reduceCtorEq] at h
  case pause => exact h.2 ▸ kept_pause now r
  case resume => exact h.2 ▸ kept_resume now r
  case stop => exact h.2 ▸ kept_stop now _ _ _ r
  case restart => exact h.2 ▸ kept_restart now r
  case failRun => exact h.2 ▸ kept_fail now _ _ _ r
  case heartbeat => exact h.2 ▸ kept_wake now _ _ r

/-- An update of a run that is not there changes nothing. -/
theorem update_of_find?_eq_none {runId : Nat} {f : Run → Run} {runs : List Run}
    (h : runs.find? (·.runId = runId) = none) : Rows.update Run.runId runId f runs = runs := by
  rw [Rows.update, List.map_congr_left (g := id), List.map_id]
  intro r hr
  have hNe := List.find?_eq_none.mp h r hr
  exact if_neg (by simpa using hNe)

/-- A call on one run rewrites that run and no other. -/
theorem onRun_runs (runId : Nat) (f : Run → Run) (s : System) :
    (onRun runId f s).after.runs = Rows.update Run.runId runId f s.runs := by
  unfold onRun
  split
  · next hNone => exact (update_of_find?_eq_none hNone).symm
  · rfl

/-- A stop rewrites the run it names and no other. -/
theorem stop_runs (runId : Nat) (source reason client : Option String) (s : System) :
    (stop runId source reason client s).after.runs =
      Rows.update Run.runId runId (Run.stop s.now source reason client) s.runs := by
  unfold stop
  split
  · next hNone => exact (update_of_find?_eq_none hNone).symm
  · simp only [clearActiveRunId]
    split <;> rfl

/-- A restart rewrites the run it names and no other. -/
theorem restart_runs (runId : Nat) (s : System) :
    (restart runId s).after.runs = Rows.update Run.runId runId (Run.restart s.now) s.runs := by
  unfold restart
  split
  · next hNone => exact (update_of_find?_eq_none hNone).symm
  · dsimp only
    split
    · rfl
    · split <;> rfl

/-- What an operation on a record does to the table of runs; an unknown run
leaves it as it is. -/
theorem runs_step {runId : Nat} {f : Run → Run} (h : op.rewrite limits s.now = some (runId, f)) :
    (step limits s op).runs = Rows.update Run.runId runId f s.runs := by
  cases op <;> simp only [Op.rewrite, Option.some.injEq, Prod.mk.injEq, reduceCtorEq] at h <;>
    obtain ⟨rfl, rfl⟩ := h
  case stop => exact stop_runs _ _ _ _ s
  case restart => exact restart_runs _ s
  all_goals exact onRun_runs _ _ s

/-- An operation that rewrites a run draws no new run id. -/
theorem nextRunId_step {runId : Nat} {f : Run → Run} (h : op.rewrite limits s.now = some (runId, f)) :
    (step limits s op).nextRunId = s.nextRunId := by
  cases op <;> simp only [Op.rewrite, Option.some.injEq, Prod.mk.injEq, reduceCtorEq] at h
  case stop =>
      simp only [step, perform, stop, clearActiveRunId]
      repeat' split
      all_goals rfl
  case restart =>
      simp only [step, perform, restart]
      repeat' split
      all_goals rfl
  all_goals
      simp only [step, perform, onRun]
      split <;> rfl

theorem now_step (limits : Limits) (s : System) (op : Op) : (step limits s op).now = s.now + 1 := rfl

/-- The book-keeping of the table of runs. -/
structure Sound (s : System) : Prop where
  unique : (s.runs.map Run.runId).Nodup
  fresh : ∀ r ∈ s.runs, r.runId < s.nextRunId
  started : ∀ r ∈ s.runs, r.startedAt < s.now
  notIdle : ∀ r ∈ s.runs, r.state ≠ .idle

theorem sound_initial : Sound System.initial :=
  ⟨List.nodup_nil, by simp [System.initial], by simp [System.initial], by simp [System.initial]⟩

/-- An operation that rewrites one run keeps the run table sound. -/
theorem sound_rewrite {runId : Nat} {f : Run → Run} (hSound : Sound s)
    (h : op.rewrite limits s.now = some (runId, f)) : Sound (step limits s op) := by
  have hKept := kept_rewrite h
  have hMem : ∀ r' ∈ (step limits s op).runs, ∃ r ∈ s.runs, r' = f r ∨ r' = r := by
    intro r' hr'
    rw [runs_step h, Rows.mem_update_iff] at hr'
    rcases hr' with ⟨r, hr, -, rfl⟩ | ⟨hr', -⟩
    · exact ⟨r, hr, Or.inl rfl⟩
    · exact ⟨r', hr', Or.inr rfl⟩
  constructor
  · rw [runs_step h]
    exact Rows.nodup_map_update Run.runId (fun r => (hKept r).runId) hSound.unique
  · intro r' hr'
    rw [nextRunId_step h]
    obtain ⟨r, hr, rfl | rfl⟩ := hMem r' hr'
    · rw [(hKept r).runId]
      exact hSound.fresh r hr
    · exact hSound.fresh r' hr
  · intro r' hr'
    rw [now_step]
    obtain ⟨r, hr, rfl | rfl⟩ := hMem r' hr'
    · have hStarted := hSound.started r hr
      rcases (hKept r).startedAt with hSame | hNow <;> omega
    · exact Nat.lt_succ_of_lt (hSound.started r' hr)
  · intro r' hr'
    obtain ⟨r, hr, rfl | rfl⟩ := hMem r' hr'
    · exact (hKept r).notIdle (hSound.notIdle r hr)
    · exact hSound.notIdle r' hr

theorem clearStaleMapping_runs (limits : Limits) (ownerId : String) (s : System) :
    (clearStaleMapping limits ownerId s).runs = s.runs := by
  unfold clearStaleMapping
  split <;> rfl

theorem clearStaleMapping_nextRunId (limits : Limits) (ownerId : String) (s : System) :
    (clearStaleMapping limits ownerId s).nextRunId = s.nextRunId := by
  unfold clearStaleMapping
  split <;> rfl

theorem clearStaleMapping_now (limits : Limits) (ownerId : String) (s : System) :
    (clearStaleMapping limits ownerId s).now = s.now := by
  unfold clearStaleMapping
  split <;> rfl

/-- A run that is let in had room. -/
theorem room_of_no_failure {ownerId : String} (hOwner : ownerLimitFailure limits s ownerId = none)
    (hGlobal : globalLimitFailure limits s = none) : Room limits s ownerId := by
  constructor
  · intro hSet
    by_contra hFull
    rw [globalLimitFailure, if_pos ⟨hSet, not_lt.mp hFull⟩] at hGlobal
    exact absurd hGlobal (by simp)
  · intro hName hSet
    by_contra hFull
    rw [ownerLimitFailure, if_pos ⟨hName, hSet, not_lt.mp hFull⟩] at hOwner
    exact absurd hOwner (by simp)

/-- `create_run` leaves the table of runs, or adds the new run to it where there
is room and prunes. -/
theorem createRun_cases (limits : Limits) (scenarioExists : Bool) (ownerId : String) (artifacts : Bool)
    (s : System) :
    ((createRun limits scenarioExists ownerId artifacts s).after.runs = s.runs ∧
        (createRun limits scenarioExists ownerId artifacts s).after.nextRunId = s.nextRunId) ∨
      ((createRun limits scenarioExists ownerId artifacts s).failure = none ∧ Room limits s ownerId ∧
        (createRun limits scenarioExists ownerId artifacts s).after.nextRunId = s.nextRunId + 1 ∧
        ∃ keep : Run → Bool, (createRun limits scenarioExists ownerId artifacts s).after.runs =
          (s.runs ++ [Run.created s.nextRunId s.now ownerId artifacts]).filter keep) := by
  unfold createRun
  split
  · exact Or.inl ⟨rfl, rfl⟩
  · dsimp only
    split
    · exact Or.inl ⟨clearStaleMapping_runs limits ownerId s, clearStaleMapping_nextRunId limits ownerId s⟩
    · next hNoFailure =>
        obtain ⟨hOwner, hGlobal⟩ := Option.or_eq_none_iff.mp hNoFailure
        have hRoom := room_of_no_failure hOwner hGlobal
        simp only [Room, countActiveRuns, countActiveRunsForOwner, clearStaleMapping_runs] at hRoom
        refine Or.inr ⟨rfl, hRoom, ?_, fun r => r.runId ∉
          (prunedRuns limits (register ownerId artifacts (clearStaleMapping limits ownerId s))).map Run.runId, ?_⟩
        · simp only [pruneRunRecords, register, clearStaleMapping_nextRunId]
        · simp only [pruneRunRecords, register, clearStaleMapping_runs, clearStaleMapping_nextRunId,
            clearStaleMapping_now]

/-- After a creation every run is an old one or the new one, whatever is pruned. -/
theorem mem_runs_created {keep : Run → Bool} {new r' : Run} (h : r' ∈ (s.runs ++ [new]).filter keep) :
    r' ∈ s.runs ∨ r' = new := by
  have hMem := List.mem_of_mem_filter h
  rwa [List.mem_append, List.mem_singleton] at hMem

/-- Creating a run keeps the run table sound: its id is fresh, and pruning only takes rows
away. -/
theorem sound_createRun {scenarioExists : Bool} {ownerId : String} {artifacts : Bool} (hSound : Sound s) :
    Sound (step limits s (.createRun scenarioExists ownerId artifacts)) := by
  rcases createRun_cases limits scenarioExists ownerId artifacts s with
    ⟨hRuns, hNext⟩ | ⟨-, -, hNext, keep, hRuns⟩
  · refine ⟨?_, ?_, ?_, ?_⟩ <;> simp only [step, perform, hRuns, hNext]
    · exact hSound.unique
    · exact hSound.fresh
    · exact fun r hr => Nat.lt_succ_of_lt (hSound.started r hr)
    · exact hSound.notIdle
  · refine ⟨?_, ?_, ?_, ?_⟩ <;> simp only [step, perform, hRuns, hNext]
    · refine List.Nodup.sublist (List.Sublist.map _ List.filter_sublist) ?_
      exact Rows.nodup_map_append Run.runId _ hSound.unique fun r hr => (hSound.fresh r hr).ne
    · intro r hr
      rcases mem_runs_created hr with hOld | rfl
      · exact Nat.lt_succ_of_lt (hSound.fresh r hOld)
      · exact Nat.lt_succ_self _
    · intro r hr
      rcases mem_runs_created hr with hOld | rfl
      · exact Nat.lt_succ_of_lt (hSound.started r hOld)
      · exact Nat.lt_succ_self _
    · intro r hr
      rcases mem_runs_created hr with hOld | rfl
      · exact hSound.notIdle r hOld
      · simp [Run.created]

/-- Every operation keeps the run table sound. -/
theorem sound_step (limits : Limits) (op : Op) (hSound : Sound s) : Sound (step limits s op) := by
  cases op with
  | createRun scenarioExists ownerId artifacts => exact sound_createRun hSound
  | pause runId => exact sound_rewrite hSound rfl
  | resume runId => exact sound_rewrite hSound rfl
  | stop runId source reason client => exact sound_rewrite hSound rfl
  | restart runId => exact sound_rewrite hSound rfl
  | failRun runId code message ownTask => exact sound_rewrite hSound rfl
  | heartbeat runId work => exact sound_rewrite hSound rfl

/-- The book-keeping, the limits and the heartbeats. -/
structure Inv (limits : Limits) (s : System) : Prop where
  sound : Sound s
  withinLimits : WithinLimits limits s
  heartbeatsLive : HeartbeatsLive s

theorem inv_initial (limits : Limits) : Inv limits System.initial := by
  refine ⟨sound_initial, ⟨fun h => ?_, fun _ _ h => ?_⟩, by simp [HeartbeatsLive, System.initial]⟩
  · simpa [countActiveRuns, System.initial] using h.le
  · simpa [countActiveRunsForOwner, System.initial] using h.le

/-- An operation that is good in a state keeps the invariant there. -/
theorem Good.inv (hGood : Good limits s op) (hInv : Inv limits s) : Inv limits (step limits s op) :=
  ⟨sound_step limits op hInv.sound, hGood.withinLimits, hGood.heartbeatsLive⟩

theorem Run.not_isActive_of_isTerminal {r : Run} (h : r.isTerminal) : r.isActive = false := by
  simp only [Run.isTerminal, decide_eq_true_eq] at h
  rcases h with h | h <;> simp [Run.isActive, h]

/-- An operation that rewrites one record quietly keeps the contract. -/
theorem good_of_quiet {runId : Nat} {f : Run → Run} (hInv : Inv limits s)
    (hRewrite : op.rewrite limits s.now = some (runId, f))
    (hQuiet : ∀ r ∈ s.runs, r.runId = runId → Quiet r (f r))
    (hFailure : (perform limits s op).failure ≠ none → (step limits s op).runs = s.runs) :
    Good limits s op := by
  have hRuns := runs_step hRewrite
  have hKept := kept_rewrite hRewrite
  constructor
  · refine ⟨fun hSet => ?_, fun ownerId hName hSet => ?_⟩
    · refine le_trans ?_ (hInv.withinLimits.1 hSet)
      rw [countActiveRuns, hRuns]
      exact_mod_cast Rows.countP_update_le fun r hr hKey => (hQuiet r hr hKey).isActive
    · refine le_trans ?_ (hInv.withinLimits.2 ownerId hName hSet)
      rw [countActiveRunsForOwner, hRuns]
      refine Nat.cast_le.mpr (Rows.countP_update_le fun r hr hKey hNew => ?_)
      simp only [isActiveOf, decide_eq_true_eq, (hKept r).ownerId] at hNew ⊢
      exact ⟨hNew.1, (hQuiet r hr hKey).isActive hNew.2⟩
  · intro hFailed
    rw [hFailure hFailed]
  · intro r hr hTerminal r' hr' hSame hActive
    have hNot := Run.not_isActive_of_isTerminal hTerminal
    rw [hRuns, Rows.mem_update_iff] at hr'
    rcases hr' with ⟨old, hOld, hKey, rfl⟩ | ⟨hr', -⟩
    · have hEq : old = r := Rows.eq_of_column hInv.sound.unique hOld hr ((hKept old).runId.symm.trans hSame)
      have hWas := (hQuiet old hOld hKey).isActive hActive
      rw [hEq, hNot] at hWas
      exact absurd hWas (by simp)
    · have hEq : r' = r := Rows.eq_of_column hInv.sound.unique hr' hr hSame
      rw [hEq, hNot] at hActive
      exact absurd hActive (by simp)
  · intro r' hr' hDriven
    rw [hRuns, Rows.mem_update_iff] at hr'
    rcases hr' with ⟨old, hOld, hKey, rfl⟩ | ⟨hr', -⟩
    · obtain ⟨hWas, hSame⟩ := (hQuiet old hOld hKey).isDriven hDriven
      exact hSame.trans (hInv.heartbeatsLive old hOld hWas)
    · exact hInv.heartbeatsLive r' hr' hDriven

/-- A call that fails leaves the runs as they are. -/
theorem onRun_failure {runId : Nat} {f : Run → Run} (h : (onRun runId f s).failure ≠ none) :
    (onRun runId f s).after.runs = s.runs := by
  unfold onRun at h ⊢
  split at h
  · rfl
  · exact absurd rfl h

/-- A stop that fails leaves the runs as they are. -/
theorem stop_failure {runId : Nat} {source reason client : Option String}
    (h : (stop runId source reason client s).failure ≠ none) :
    (stop runId source reason client s).after.runs = s.runs := by
  unfold stop at h ⊢
  split at h
  · rfl
  · exact absurd rfl h

/-- `create_run` enforces the limits before it adds a run, and prunes stopped runs only. -/
theorem good_createRun (hInv : Inv limits s) (scenarioExists : Bool) (ownerId : String) (artifacts : Bool) :
    Good limits s (.createRun scenarioExists ownerId artifacts) := by
  rcases createRun_cases limits scenarioExists ownerId artifacts s with
    ⟨hRuns, -⟩ | ⟨hNone, hRoom, -, keep, hRuns⟩
  · have hSame : (step limits s (.createRun scenarioExists ownerId artifacts)).runs = s.runs := hRuns
    refine ⟨?_, fun _ => by rw [hSame], ?_, ?_⟩
    · simpa only [WithinLimits, countActiveRuns, countActiveRunsForOwner, hSame] using hInv.withinLimits
    · intro r hr hTerminal r' hr' hId hActive
      rw [hSame] at hr'
      rw [Rows.eq_of_column hInv.sound.unique hr' hr hId, Run.not_isActive_of_isTerminal hTerminal] at hActive
      exact absurd hActive (by simp)
    · intro r hr
      rw [hSame] at hr
      exact hInv.heartbeatsLive r hr
  · have hStep : (step limits s (.createRun scenarioExists ownerId artifacts)).runs =
        (s.runs ++ [Run.created s.nextRunId s.now ownerId artifacts]).filter keep := hRuns
    have hCount (p : Run → Bool) : (step limits s (.createRun scenarioExists ownerId artifacts)).runs.countP p ≤
        s.runs.countP p + (if p (Run.created s.nextRunId s.now ownerId artifacts) then 1 else 0) := by
      rw [hStep]
      refine le_trans (List.filter_sublist.countP_le) (le_of_eq ?_)
      rw [List.countP_append, List.countP_singleton]
    refine ⟨⟨fun hSet => ?_, fun owner hName hSet => ?_⟩, fun hFailed => absurd hNone hFailed, ?_, ?_⟩
    · have hBefore := hRoom.1 hSet
      have hAdded := hCount Run.isActive
      simp only [countActiveRuns] at hBefore ⊢
      split at hAdded <;> omega
    · have hBefore := hInv.withinLimits.2 owner hName hSet
      have hAdded := hCount (isActiveOf owner)
      simp only [countActiveRunsForOwner] at hBefore ⊢
      split at hAdded
      · next hNew =>
          have hOwner : ownerId = owner := (of_decide_eq_true hNew).1
          subst hOwner
          have hOwnerRoom := hRoom.2 hName hSet
          simp only [countActiveRunsForOwner] at hOwnerRoom
          omega
      · omega
    · intro r hr hTerminal r' hr' hId hActive
      rw [hStep] at hr'
      rcases mem_runs_created hr' with hOld | rfl
      · rw [Rows.eq_of_column hInv.sound.unique hOld hr hId, Run.not_isActive_of_isTerminal hTerminal] at hActive
        exact absurd hActive (by simp)
      · exact absurd hId.symm (hInv.sound.fresh r hr).ne
    · intro r' hr' hDriven
      rw [hStep] at hr'
      rcases mem_runs_created hr' with hOld | rfl
      · exact hInv.heartbeatsLive r' hOld hDriven
      · rfl

/-- A run of the table is found under its id. -/
theorem find?_runId (hSound : Sound s) {r : Run} (hr : r ∈ s.runs) :
    s.runs.find? (·.runId = r.runId) = some r :=
  (Rows.find?_eq_some_iff hSound.unique).mpr ⟨hr, rfl⟩

/-- `restart` raises when the mapping names another run. -/
theorem restart_failure (hSound : Sound s) {r : Run} (hr : r ∈ s.runs) :
    (restart r.runId s).failure = (otherActiveRun s r).map Failure.ownerOtherActiveExists := by
  unfold restart
  rw [find?_runId hSound hr]
  dsimp only
  cases otherActiveRun s r <;> rfl

theorem Run.isActive_restart (now : Nat) (r : Run) : (r.restart now).isActive = true := by
  simp [Run.isActive, Run.restart]

theorem isActiveOf_restart (now : Nat) (ownerId : String) (r : Run) :
    isActiveOf ownerId (r.restart now) = decide (r.ownerId = ownerId) := by
  simp [isActiveOf, Run.isActive_restart]
  rfl

/-- What `restart` adds to the count of active runs. -/
theorem countActiveRuns_restart (hSound : Sound s) {r : Run} (hr : r ∈ s.runs) :
    countActiveRuns (step limits s (.restart r.runId)) + (if r.isActive then 1 else 0) =
      countActiveRuns s + 1 := by
  have hStep : (step limits s (.restart r.runId)).runs =
      Rows.update Run.runId r.runId (Run.restart s.now) s.runs := restart_runs r.runId s
  rw [countActiveRuns, hStep, Rows.countP_update hSound.unique hr rfl, Run.isActive_restart]
  rfl

/-- What `restart` adds to the count of active runs of an owner. -/
theorem countActiveRunsForOwner_restart (hSound : Sound s) {r : Run} (hr : r ∈ s.runs) (ownerId : String) :
    countActiveRunsForOwner (step limits s (.restart r.runId)) ownerId +
        (if isActiveOf ownerId r then 1 else 0) =
      countActiveRunsForOwner s ownerId + (if r.ownerId = ownerId then 1 else 0) := by
  have hStep : (step limits s (.restart r.runId)).runs =
      Rows.update Run.runId r.runId (Run.restart s.now) s.runs := restart_runs r.runId s
  rw [countActiveRunsForOwner, hStep, Rows.countP_update hSound.unique hr rfl, isActiveOf_restart]
  simp only [decide_eq_true_eq]
  rfl

/-- A restart that keeps the contract is harmless. -/
theorem harmless_of_good_restart (hInv : Inv limits s) {runId : Nat} (hGood : Good limits s (.restart runId)) :
    Harmless limits s (.restart runId) := by
  rintro r hr rfl
  have hStep : (step limits s (.restart r.runId)).runs =
      Rows.update Run.runId r.runId (Run.restart s.now) s.runs := restart_runs r.runId s
  have hMem : r.restart s.now ∈ (step limits s (.restart r.runId)).runs := by
    rw [hStep, Rows.mem_update_iff]
    exact Or.inl ⟨r, hr, rfl, rfl⟩
  refine ⟨?_, ?_, ?_⟩
  · by_contra hOther
    have hFailed : (perform limits s (.restart r.runId)).failure ≠ none := by
      simp only [perform, restart_failure hInv.sound hr]
      simpa using hOther
    have hUnchanged := hGood.failureUnchanged hFailed
    rw [hStep, Rows.update, List.map_map] at hUnchanged
    have hObserved := List.map_inj_left.mp hUnchanged r hr
    simp only [Function.comp_apply, if_true, Run.observed, Run.restart, Prod.mk.injEq] at hObserved
    exact absurd hObserved.2.2.2.2.2.1.symm (hInv.sound.started r hr).ne
  · have hLive := hGood.heartbeatsLive (r.restart s.now) hMem (by simp [Run.isDriven, Run.restart])
    exact hLive
  · by_contra hBoth
    rw [not_or] at hBoth
    obtain ⟨hActive, hNoRoom⟩ := hBoth
    refine hNoRoom ⟨fun hSet => ?_, fun hName hSet => ?_⟩
    · have hAfter := hGood.withinLimits.1 hSet
      have hCount := @countActiveRuns_restart limits s hInv.sound r hr
      rw [if_neg hActive] at hCount
      omega
    · have hAfter := hGood.withinLimits.2 r.ownerId hName hSet
      have hCount := @countActiveRunsForOwner_restart limits s hInv.sound r hr r.ownerId
      rw [if_neg (by simp [isActiveOf, hActive]), if_pos rfl] at hCount
      omega

/-- A harmless restart keeps the contract. -/
theorem good_restart (hInv : Inv limits s) {runId : Nat} (hHarmless : Harmless limits s (.restart runId)) :
    Good limits s (.restart runId) := by
  have hStep : (step limits s (.restart runId)).runs =
      Rows.update Run.runId runId (Run.restart s.now) s.runs := restart_runs runId s
  by_cases hKnown : ∃ r ∈ s.runs, r.runId = runId
  · obtain ⟨r, hr, rfl⟩ := hKnown
    obtain ⟨hOther, hLive, hRoom⟩ := hHarmless r hr rfl
    have hMem {r' : Run} (hr' : r' ∈ (step limits s (.restart r.runId)).runs) :
        r' = r.restart s.now ∨ (r' ∈ s.runs ∧ r'.runId ≠ r.runId) := by
      rw [hStep, Rows.mem_update_iff] at hr'
      rcases hr' with ⟨old, hOld, hKey, rfl⟩ | hKeep
      · exact Or.inl (by rw [Rows.eq_of_column hInv.sound.unique hOld hr hKey])
      · exact Or.inr hKeep
    refine ⟨⟨fun hSet => ?_, fun owner hName hSet => ?_⟩, fun hFailed => ?_, ?_, ?_⟩
    · have hCount := @countActiveRuns_restart limits s hInv.sound r hr
      have hBefore := hInv.withinLimits.1 hSet
      rcases hRoom with hActive | hRoom
      · rw [if_pos hActive] at hCount
        omega
      · have hFree := hRoom.1 hSet
        split at hCount <;> omega
    · have hCount := @countActiveRunsForOwner_restart limits s hInv.sound r hr owner
      have hBefore := hInv.withinLimits.2 owner hName hSet
      by_cases hOwner : r.ownerId = owner
      · subst hOwner
        rw [if_pos rfl] at hCount
        rcases hRoom with hActive | hRoom
        · rw [if_pos (by simp [isActiveOf, hActive])] at hCount
          omega
        · have hFree := hRoom.2 hName hSet
          split at hCount <;> omega
      · rw [if_neg (by simp [isActiveOf, hOwner]), if_neg hOwner] at hCount
        omega
    · refine absurd ?_ hFailed
      simp only [perform, restart_failure hInv.sound hr, hOther, Option.map_none]
    · intro old hOld hTerminal r' hr' hId hActive
      rcases hMem hr' with rfl | ⟨hKeep, -⟩
      · have hSame : r.runId = old.runId := hId
        rw [hSame]
      · rw [Rows.eq_of_column hInv.sound.unique hKeep hOld hId, Run.not_isActive_of_isTerminal hTerminal] at hActive
        exact absurd hActive (by simp)
    · intro r' hr' hDriven
      rcases hMem hr' with rfl | ⟨hKeep, -⟩
      · exact hLive
      · exact hInv.heartbeatsLive r' hKeep hDriven
  · refine good_of_quiet (f := Run.restart s.now) hInv rfl (fun r hr hId => absurd ⟨r, hr, hId⟩ hKnown) fun _ => ?_
    have hNone : s.runs.find? (·.runId = runId) = none := by
      rw [List.find?_eq_none]
      intro r hr hId
      exact hKnown ⟨r, hr, of_decide_eq_true hId⟩
    rw [hStep, update_of_find?_eq_none hNone]

/-- Under the invariant, an operation keeps the contract exactly when it is harmless. -/
theorem good_iff_harmless (hInv : Inv limits s) (op : Op) : Good limits s op ↔ Harmless limits s op := by
  cases op with
  | createRun scenarioExists ownerId artifacts =>
      exact ⟨fun _ => trivial, fun _ => good_createRun hInv scenarioExists ownerId artifacts⟩
  | pause runId =>
      refine ⟨fun _ => trivial, fun _ => good_of_quiet hInv rfl (fun r hr _ => ?_) onRun_failure⟩
      exact quiet_pause (hInv.sound.notIdle r hr)
  | resume runId =>
      constructor
      · rintro hGood r hr rfl hError
        have hMem : r.resume ∈ (step limits s (.resume r.runId)).runs := by
          rw [runs_step (f := Run.resume) rfl, Rows.mem_update_iff]
          exact Or.inl ⟨r, hr, rfl, rfl⟩
        have hActive : r.resume.isActive := by simp [Run.resume, hError, Run.isActive]
        have hTerminal : r.isTerminal := by simp [Run.isTerminal, hError]
        have hOp := hGood.reactivated r hr hTerminal r.resume hMem (kept_resume s.now r).runId hActive
        exact absurd hOp (by simp)
      · intro hHarmless
        refine good_of_quiet hInv rfl (fun r hr hId => ?_) onRun_failure
        exact quiet_resume (hInv.sound.notIdle r hr) (hHarmless r hr hId)
  | stop runId source reason client =>
      refine ⟨fun _ => trivial, fun _ => good_of_quiet hInv rfl (fun r _ _ => ?_) stop_failure⟩
      exact quiet_stop s.now source reason client r
  | restart runId => exact ⟨harmless_of_good_restart hInv, good_restart hInv⟩
  | failRun runId code message ownTask =>
      refine ⟨fun _ => trivial, fun _ => good_of_quiet hInv rfl (fun r _ _ => ?_) onRun_failure⟩
      exact quiet_fail s.now code message ownTask r
  | heartbeat runId work =>
      refine ⟨fun _ => trivial, fun _ => good_of_quiet hInv rfl (fun r _ _ => ?_) onRun_failure⟩
      exact quiet_wake limits.tickMsBase work r

/-- From a state with the invariant a sequence of operations keeps the contract exactly when
each of its steps is harmless. -/
theorem keepsContract_iff (hInv : Inv limits s) (ops : List Op) :
    KeepsContract limits s ops ↔ EachHarmless limits s ops := by
  induction ops generalizing s with
  | nil => exact Iff.rfl
  | cons op rest ih =>
      constructor
      · rintro ⟨hGood, hRest⟩
        exact ⟨(good_iff_harmless hInv op).mp hGood, (ih (hGood.inv hInv)).mp hRest⟩
      · rintro ⟨hHarmless, hRest⟩
        have hGood := (good_iff_harmless hInv op).mpr hHarmless
        exact ⟨hGood, (ih (hGood.inv hInv)).mpr hRest⟩

/-- From the empty runtime, under any limits, a sequence of operations keeps the
contract of the lifecycle if and only if each of them is harmless where it
happens. -/
theorem lifecycle_contract_iff (limits : Limits) (ops : List Op) :
    KeepsContract limits System.initial ops ↔ EachHarmless limits System.initial ops :=
  keepsContract_iff (inv_initial limits) ops

/-- A run that is created, stopped and restarted is running without a heartbeat. -/
theorem restarted_run_without_heartbeat :
    ¬ KeepsContract ⟨1, 1, 0, 1000⟩ System.initial
      [.createRun true "admin" false, .stop 0 (some "api") none none, .restart 0] := by
  rintro ⟨-, -, hGood, -⟩
  have hLive := hGood.heartbeatsLive
  unfold HeartbeatsLive at hLive
  revert hLive
  decide +kernel

end RunLifecycle

import Mathlib
import GeoLedger.LedgerSafety
import GeoLedger.Simulator.TrustDrift

/-! Trust decay and the debts. During a tick payments and clearings keep every
active line above its debt; the decay at its end does so exactly when what it
reads, the debts and limits of earlier moments, still covers the database. -/
namespace GeoLedger

variable {env : Env}

/-- Every active line covers the debt it carries. -/
def Covered (db : Db env) : Prop :=
  ∀ l ∈ db.trustLines.rows, l.status = .active →
    db.debts.owed l.toParticipantId l.fromParticipantId l.equivalentId ≤ l.limit

instance (db : Db env) : Decidable (Covered db) :=
  inferInstanceAs (Decidable (∀ l ∈ db.trustLines.rows, l.status = .active →
    db.debts.owed l.toParticipantId l.fromParticipantId l.equivalentId ≤ l.limit))

/-- No line has a larger limit than before. -/
def LimitsLowered (db db' : Db env) : Prop :=
  ∀ l ∈ db.trustLines.rows, ∀ l' ∈ db'.trustLines.rows, l'.id = l.id → l'.limit ≤ l.limit

section Writes

variable {tl tl' : TrustTable env}

/-- A line after a write of the limit of the active line of a key. -/
def relimit (c : AmountColumn) (key : Uuid × Uuid × Uuid) (limit : Amount) (l : TrustLine) : TrustLine :=
  if l.status = .active ∧ l.key = key then { l with limit := c.round limit } else l

theorem TrustTable.rows_setActiveLimit {key : Uuid × Uuid × Uuid} {limit : Amount}
    (h : tl.setActiveLimit key limit = .ok tl') : tl'.rows = tl.rows.map (relimit env.column key limit) := by
  unfold setActiveLimit at h
  split at h
  · next hNone =>
      cases h
      have hSame : ∀ l ∈ tl.rows, relimit env.column key limit l = l := by
        intro l hl
        refine if_neg fun hLine => ?_
        rw [active_eq_some_iff.mpr ⟨hl, hLine⟩] at hNone
        cases hNone
      rw [List.map_congr_left hSame, List.map_id']
  · next l hFound =>
      obtain ⟨hMem, hActive, hKey⟩ := active_eq_some_iff.mp hFound
      rw [rows_of_write h, Rows.update]
      refine List.map_congr_left fun r hr => ?_
      by_cases hId : r.id = l.id
      · obtain rfl := Rows.eq_of_column tl.id_unique hr hMem hId
        rw [if_pos rfl, relimit, if_pos ⟨hActive, hKey⟩]
      · have hOther : ¬(r.status = .active ∧ r.key = key) := by
          rintro ⟨hActive', hKey'⟩
          exact hId (congrArg _ (eq_of_live hr hMem (by simp [hActive']) (by simp [hActive])
            (hKey'.trans hKey.symm)))
        rw [if_neg hId, relimit, if_neg hOther]

theorem rows_decayEntries {cfg : TrustDriftConfig} {inputs : List DecayInput}
    (h : decayEntries cfg inputs tl = .ok tl') :
    tl'.rows = tl.rows.map fun l =>
      inputs.foldl (fun l input => relimit env.column input.key (decayedLimit cfg input) l) l := by
  induction inputs generalizing tl with
  | nil =>
      cases h
      exact (List.map_id' _).symm
  | cons input rest ih =>
      obtain ⟨next, hSet, hRest⟩ := Outcomes.bind_eq_ok_iff.mp h
      rw [ih hRest, TrustTable.rows_setActiveLimit hSet, List.map_map]
      rfl

/-- The entry that has the last word on a line. -/
def lastDecay (inputs : List DecayInput) (l : TrustLine) : Option DecayInput :=
  (inputs.filter (·.key = l.key)).getLast?

/-- After the decay an active line has the limit of the last entry that names it. -/
theorem foldl_relimit (c : AmountColumn) (cfg : TrustDriftConfig) (inputs : List DecayInput) (l : TrustLine) :
    inputs.foldl (fun l input => relimit c input.key (decayedLimit cfg input) l) l =
      if l.status = .active then
        ((lastDecay inputs l).map fun input => { l with limit := c.round (decayedLimit cfg input) }).getD l
      else l := by
  induction inputs using List.reverseRecOn with
  | nil => simp [lastDecay]
  | append_singleton inputs input ih =>
      rw [List.foldl_append, ih]
      by_cases hActive : l.status = .active
      · rw [if_pos hActive, if_pos hActive]
        have hSame : ∀ x : Option DecayInput, ∃ limit, (x.map fun input =>
            { l with limit := c.round (decayedLimit cfg input) }).getD l = { l with limit := limit } := by
          intro x
          cases x with
          | none => exact ⟨l.limit, rfl⟩
          | some input => exact ⟨_, rfl⟩
        obtain ⟨limit, hLimit⟩ := hSame (lastDecay inputs l)
        by_cases hKey : input.key = l.key
        · have hLast : lastDecay (inputs ++ [input]) l = some input := by simp [lastDecay, hKey]
          have hMatch : l.status = .active ∧ TrustLine.key { l with limit := limit } = input.key :=
            ⟨hActive, hKey.symm⟩
          rw [hLast, hLimit, List.foldl_cons, List.foldl_nil, relimit, if_pos hMatch]
          rfl
        · have hLast : lastDecay (inputs ++ [input]) l = lastDecay inputs l := by simp [lastDecay, hKey]
          have hOther : ¬(l.status = .active ∧ TrustLine.key { l with limit := limit } = input.key) :=
            fun h => hKey h.2.symm
          rw [hLast, hLimit, List.foldl_cons, List.foldl_nil, relimit, if_neg hOther]
      · rw [if_neg hActive, if_neg hActive, List.foldl_cons, List.foldl_nil, relimit,
          if_neg fun h => hActive h.1]

end Writes

section Decay

variable {run : RunRecord} {cfg : TrustDriftConfig} {tickIndex : ℤ} {debtSnapshot : DebtSnapshot}
  {scenario : Scenario} {db db' : Db env} {updates : List TrustDriftLimitUpdate}

/-- What decay reads of a line agrees with the database: the debt has not grown
past all three bounds of the new limit, and none of the three is above the limit. -/
structure DecayInput.Fits (cfg : TrustDriftConfig) (db : Db env) (l : TrustLine) (input : DecayInput) : Prop where
  debt : db.debts.owed l.toParticipantId l.fromParticipantId l.equivalentId ≤
      env.column.round (centsDown (input.current * cfg.decayMult)) ∨
    db.debts.owed l.toParticipantId l.fromParticipantId l.equivalentId ≤
      env.column.round (centsDown (input.original * cfg.minLimitRatio)) ∨
    db.debts.owed l.toParticipantId l.fromParticipantId l.equivalentId ≤
      env.column.round (centsUp input.debt)
  current : env.column.round (centsDown (input.current * cfg.decayMult)) ≤ l.limit
  original : env.column.round (centsDown (input.original * cfg.minLimitRatio)) ≤ l.limit
  snapshot : env.column.round (centsUp input.debt) ≤ l.limit

theorem round_decayedLimit (c : AmountColumn) (cfg : TrustDriftConfig) (input : DecayInput) :
    c.round (decayedLimit cfg input) =
      max (max (c.round (centsDown (input.current * cfg.decayMult)))
        (c.round (centsDown (input.original * cfg.minLimitRatio)))) (c.round (centsUp input.debt)) := by
  have hDown : Monotone centsDown := Grid.roundDown_mono cent_pos
  have hUp : centsDown (centsUp input.debt) = centsUp input.debt :=
    Grid.roundDown_of_mem cent_pos (Grid.roundUp_mem _ _)
  rw [decayedLimit, hDown.map_max, hDown.map_max, hUp, c.round_mono.map_max, c.round_mono.map_max]

/-- The new limit lies between the debt and the old limit exactly when the input fits. -/
theorem DecayInput.fits_iff (cfg : TrustDriftConfig) (db : Db env) (l : TrustLine) (input : DecayInput) :
    input.Fits cfg db l ↔
      db.debts.owed l.toParticipantId l.fromParticipantId l.equivalentId ≤
          env.column.round (decayedLimit cfg input) ∧
        env.column.round (decayedLimit cfg input) ≤ l.limit := by
  rw [round_decayedLimit, le_max_iff, le_max_iff, max_le_iff, max_le_iff, or_assoc]
  constructor
  · rintro ⟨hDebt, hCurrent, hOriginal, hSnapshot⟩
    exact ⟨hDebt, ⟨hCurrent, hOriginal⟩, hSnapshot⟩
  · rintro ⟨hDebt, ⟨hCurrent, hOriginal⟩, hSnapshot⟩
    exact ⟨hDebt, hCurrent, hOriginal, hSnapshot⟩

/-- Every line that the decay rewrites fits. -/
def DecayFits (run : RunRecord) (tickIndex : ℤ) (debtSnapshot : DebtSnapshot) (scenario : Scenario) (db : Db env) :
    Prop :=
  ∀ cfg, run.trustDriftConfig = some cfg → cfg.enabled = true →
    ∀ l ∈ db.trustLines.rows, l.status = .active → ∀ input,
      lastDecay (scenario.trustlines.filterMap
        (decayInput? run cfg env.directory tickIndex debtSnapshot scenario)) l = some input → input.Fits cfg db l

theorem applyTrustDecay_eq_ok (h : applyTrustDecay run tickIndex debtSnapshot scenario db = .ok (db', updates)) :
    (db' = db ∧ ∀ cfg, run.trustDriftConfig = some cfg → cfg.enabled = false) ∨
    ∃ cfg tl, run.trustDriftConfig = some cfg ∧ cfg.enabled = true ∧
      decayEntries cfg (scenario.trustlines.filterMap
        (decayInput? run cfg env.directory tickIndex debtSnapshot scenario)) db.trustLines = .ok tl ∧
      db' = { db with trustLines := tl } := by
  unfold applyTrustDecay at h
  split at h
  · next hNone =>
      cases h
      refine Or.inl ⟨rfl, fun cfg hCfg => ?_⟩
      rw [hNone] at hCfg
      cases hCfg
  · next cfg hCfg =>
      split at h
      · next hEnabled =>
          cases h
          refine Or.inl ⟨rfl, fun other hOther => ?_⟩
          rw [hCfg, Option.some.injEq] at hOther
          rw [← hOther]
          simpa using hEnabled
      · next hEnabled =>
          obtain ⟨tl, hDecay, hOk⟩ := Outcomes.bind_eq_ok_iff.mp h
          cases hOk
          exact Or.inr ⟨cfg, tl, hCfg, by simpa using hEnabled, hDecay, rfl⟩

/-- Decay keeps a covered database covered, and raises no limit, exactly when
every line that it rewrites fits. -/
theorem applyTrustDecay_safe_iff (hCovered : Covered db)
    (h : applyTrustDecay run tickIndex debtSnapshot scenario db = .ok (db', updates)) :
    (Covered db' ∧ LimitsLowered db db') ↔ DecayFits run tickIndex debtSnapshot scenario db := by
  rcases applyTrustDecay_eq_ok h with ⟨rfl, hOff⟩ | ⟨cfg, tl, hCfg, hEnabled, hDecay, rfl⟩
  · constructor
    · intro _ cfg hCfg hEnabled
      rw [hOff cfg hCfg] at hEnabled
      cases hEnabled
    · intro _
      refine ⟨hCovered, fun l hl l' hl' hId => ?_⟩
      rw [Rows.eq_of_column db'.trustLines.id_unique hl' hl hId]
  · have hRows : tl.rows = db.trustLines.rows.map fun l => _ := rows_decayEntries hDecay
    simp only [foldl_relimit] at hRows
    generalize hInputs : scenario.trustlines.filterMap
      (decayInput? run cfg env.directory tickIndex debtSnapshot scenario) = inputs at hRows hDecay
    constructor
    · rintro ⟨hAfter, hLowered⟩ other hOther _ l hl hActive input hLast
      obtain rfl : cfg = other := Option.some.inj (hCfg.symm.trans hOther)
      rw [hInputs] at hLast
      have hNew : { l with limit := env.column.round (decayedLimit cfg input) } ∈ tl.rows := by
        rw [hRows]
        exact List.mem_map.mpr ⟨l, hl, by rw [if_pos hActive, hLast]; rfl⟩
      exact (DecayInput.fits_iff cfg db l input).mpr ⟨hAfter _ hNew hActive, hLowered l hl _ hNew rfl⟩
    · intro hFits
      have hLine : ∀ l' ∈ tl.rows, ∃ l ∈ db.trustLines.rows, ∃ limit ≤ l.limit, l' = { l with limit := limit } ∧
          (l.status = .active →
            db.debts.owed l.toParticipantId l.fromParticipantId l.equivalentId ≤ limit) := by
        intro l' hl'
        rw [hRows] at hl'
        obtain ⟨l, hl, rfl⟩ := List.mem_map.mp hl'
        refine ⟨l, hl, ?_⟩
        by_cases hActive : l.status = .active
        · rw [if_pos hActive]
          cases hLast : lastDecay inputs l with
          | none => exact ⟨l.limit, le_rfl, rfl, hCovered l hl⟩
          | some input =>
              have hFit := (DecayInput.fits_iff cfg db l input).mp
                (hFits cfg hCfg hEnabled l hl hActive input (hInputs ▸ hLast))
              exact ⟨_, hFit.2, rfl, fun _ => hFit.1⟩
        · rw [if_neg hActive]
          exact ⟨l.limit, le_rfl, rfl, hCovered l hl⟩
      refine ⟨fun l' hl' hActive => ?_, fun l hl l' hl' hId => ?_⟩
      · obtain ⟨l, _, limit, _, rfl, hOwed⟩ := hLine l' hl'
        exact hOwed hActive
      · obtain ⟨old, hOld, limit, hLe, rfl, _⟩ := hLine l' hl'
        rw [← Rows.eq_of_column db.trustLines.id_unique hOld hl hId]
        exact hLe

end Decay

section Growth

variable {run : RunRecord} {cfg : TrustDriftConfig} {eqUpper : String} {tickIndex : ℤ}
  {clearedAmountPerEdge : Pid × Pid → Amount} {db : Db env}

/-- When growth rewrites the line of an edge, both bounds of its new limit cover
the debt. -/
def GrowthState.Fits (run : RunRecord) (cfg : TrustDriftConfig) (eqUpper : String) (debts : DebtTable env)
    (s : GrowthState env) (edge : Pid × Pid) : Prop :=
  ∀ hist key l, s.history.get? (historyKey edge.1 edge.2 eqUpper) = some hist →
    run.rowKey env.directory eqUpper edge.1 edge.2 = some key →
    s.trustLines.active key.1 key.2.1 key.2.2 = some l →
    grownLimit cfg (centsDown l.limit) (centsDown hist.originalLimit) ≠ centsDown l.limit →
    debts.owed l.toParticipantId l.fromParticipantId l.equivalentId ≤ env.column.round (centsDown
        (centsDown l.limit * Grid.roundHalfEven (1 / 10000000) (1 + cfg.growthRate))) ∧
      debts.owed l.toParticipantId l.fromParticipantId l.equivalentId ≤
        env.column.round (centsDown (centsDown hist.originalLimit * cfg.maxGrowth))

/-- Every edge fits in the state in which its turn comes. -/
def GrowthFits (run : RunRecord) (cfg : TrustDriftConfig) (eqUpper : String) (tickIndex : ℤ)
    (clearedAmountPerEdge : Pid × Pid → Amount) (debts : DebtTable env) :
    List (Pid × Pid) → GrowthState env → Prop
  | [], _ => True
  | edge :: rest, s =>
      s.Fits run cfg eqUpper debts edge ∧
        GrowthFits run cfg eqUpper tickIndex clearedAmountPerEdge debts rest
          (growEdge run cfg eqUpper tickIndex clearedAmountPerEdge edge s).1

theorem round_grownLimit (c : AmountColumn) (cfg : TrustDriftConfig) (current original : Amount) :
    c.round (grownLimit cfg current original) =
      min (c.round (centsDown (current * Grid.roundHalfEven (1 / 10000000) (1 + cfg.growthRate))))
        (c.round (centsDown (original * cfg.maxGrowth))) := by
  have hDown : Monotone centsDown := Grid.roundDown_mono cent_pos
  rw [grownLimit, hDown.map_min, c.round_mono.map_min]

/-- A write of a limit that covers the debt keeps the database covered. -/
theorem covered_setActiveLimit {tl tl' : TrustTable env} {key : Uuid × Uuid × Uuid} {limit : Amount}
    (hCovered : Covered { db with trustLines := tl }) (h : tl.setActiveLimit key limit = .ok tl')
    (hLimit : ∀ l, tl.active key.1 key.2.1 key.2.2 = some l →
      db.debts.owed l.toParticipantId l.fromParticipantId l.equivalentId ≤ env.column.round limit) :
    Covered { db with trustLines := tl' } := by
  intro l' hl' hActive'
  change l' ∈ tl'.rows at hl'
  rw [TrustTable.rows_setActiveLimit h] at hl'
  obtain ⟨l, hl, rfl⟩ := List.mem_map.mp hl'
  unfold relimit at hActive' ⊢
  split at hActive'
  · next hLine =>
      rw [if_pos hLine]
      exact hLimit l (TrustTable.active_eq_some_iff.mpr ⟨hl, hLine⟩)
  · next hLine =>
      rw [if_neg hLine]
      exact hCovered l hl hActive'

theorem covered_growEdge {edge : Pid × Pid} {s : GrowthState env}
    (hCovered : Covered { db with trustLines := s.trustLines }) (hFits : s.Fits run cfg eqUpper db.debts edge) :
    Covered { db with
      trustLines := (growEdge run cfg eqUpper tickIndex clearedAmountPerEdge edge s).1.trustLines } := by
  unfold growEdge
  split
  · exact hCovered
  · next hist hHist =>
      simp only
      split
      · exact hCovered
      · next key hKey =>
          split
          · exact hCovered
          · next l hLine =>
              split
              · exact hCovered
              · next hNew =>
                  obtain ⟨hGrown, hCap⟩ := hFits hist key l hHist hKey hLine hNew
                  split
                  · exact hCovered
                  · next trustLines hSet =>
                      refine covered_setActiveLimit hCovered hSet fun l' hLine' => ?_
                      obtain rfl : l = l' := Option.some.inj (hLine.symm.trans hLine')
                      rw [round_grownLimit]
                      exact le_min hGrown hCap

/-- The loop over the touched edges keeps the debts covered where each of its rounds fits. -/
theorem covered_growEdges {edges : List (Pid × Pid)} {s : GrowthState env}
    (hCovered : Covered { db with trustLines := s.trustLines })
    (hFits : GrowthFits run cfg eqUpper tickIndex clearedAmountPerEdge db.debts edges s) :
    Covered { db with
      trustLines := (growEdges run cfg eqUpper tickIndex clearedAmountPerEdge edges s).1.trustLines } := by
  induction edges generalizing s with
  | nil => exact hCovered
  | cons edge rest ih =>
      have hNext : Covered { db with
          trustLines := (growEdge run cfg eqUpper tickIndex clearedAmountPerEdge edge s).1.trustLines } :=
        covered_growEdge hCovered hFits.1
      have hRest := hFits.2
      unfold growEdges
      generalize growEdge run cfg eqUpper tickIndex clearedAmountPerEdge edge s = result at hNext hRest
      obtain ⟨next, error⟩ := result
      cases error with
      | some error => exact hNext
      | none => exact ih hNext hRest

end Growth

section Tick

/-- The run and the ledger during a tick. -/
structure TickState (env : Env) where
  ledger : Ledger env
  run : RunRecord

/-- The operations that open or change trust lines. -/
def LedgerOp.writesLines : LedgerOp → Bool
  | .createTrustLine _ _ | .updateTrustLine _ _ _ | .closeTrustLine _ _ _ => true
  | _ => false

/-- What happens between the debt snapshot of a tick and its decay: payments and
clearings, and the growth after a clearing. -/
inductive TickStep where
  | ledger (op : LedgerOp) (hOp : op.writesLines = false)
  | growth (touchedEdges : List (Pid × Pid)) (eqCode : String) (clearedAmountPerEdge : Pid × Pid → Amount)
      (commits : Bool)

/-- One step of the tick with the given index. -/
def TickState.step (floatText : Amount → Amount) (tickIndex : ℤ) (s : TickState env) : TickStep → TickState env
  | .ledger op _ => { s with ledger := s.ledger.step op }
  | .growth touchedEdges eqCode clearedAmountPerEdge commits =>
      let (run, db) := applyTrustGrowth floatText touchedEdges eqCode tickIndex clearedAmountPerEdge commits
        s.run s.ledger.db
      ⟨{ s.ledger with db := db }, run⟩

/-- Growth writes limits that cover the debts. -/
def TickState.Fits (tickIndex : ℤ) (s : TickState env) : TickStep → Prop
  | .ledger _ _ => True
  | .growth touchedEdges eqCode clearedAmountPerEdge _ =>
      ∀ cfg, s.run.trustDriftConfig = some cfg → cfg.enabled = true →
        GrowthFits s.run cfg (stripUpper eqCode) tickIndex clearedAmountPerEdge s.ledger.db.debts touchedEdges
          ⟨s.run.edgeClearingHistory, s.ledger.db.trustLines, []⟩

/-- The debt snapshot of a tick; empty when it cannot be loaded. -/
def TickState.debtSnapshot (s : TickState env) (equivalents : List String) (loads : Bool) : DebtSnapshot :=
  if loads then loadDebtSnapshotByPid (s.run.realParticipants.getD []) equivalents s.ledger.db else Dict.empty

theorem Covered.congr {db db' : Db env} (h : Covered db) (hDebts : db'.debts = db.debts)
    (hLines : db'.trustLines = db.trustLines) : Covered db' := by
  unfold Covered
  rw [hDebts, hLines]
  exact h

/-- Payments and clearings keep the database covered. -/
theorem covered_change {now : Time} {op : LedgerOp} {db db' : Db env} (hOp : op.writesLines = false)
    (h : Covered db) (hChange : Change now db op db') : Covered db' := by
  cases hChange with
  | inserted => exact h.congr rfl rfl
  | prepared _ hPrepares => exact h.congr hPrepares.debts hPrepares.trustLines
  | preparedRoutes _ _ hPrepares => exact h.congr hPrepares.debts hPrepares.trustLines
  | committed _ hCommit =>
      intro l hl hActive
      rw [hCommit.trustLines] at hl
      rcases hCommit.checked_or_same l.toParticipantId l.fromParticipantId l.equivalentId with hChecked | hSame
      · exact hChecked.1.trans (TrustTable.limit_of_active hl hActive rfl).le
      · rw [hSame.1]
        exact h l hl hActive
  | aborted txId reason code details =>
      rw [abort_eq]
      exact h.congr rfl rfl
  | cleared hClears =>
      intro l hl hActive
      rw [(stageClearing_eq_ok hClears.staged).2.2.2.1] at hl
      exact (hClears.owed_le _ _ _).trans (h l hl hActive)
  | opened => cases hOp
  | updated => cases hOp
  | closed => cases hOp

/-- Every step of a tick that fits keeps the debts covered by their limits. -/
theorem covered_step {floatText : Amount → Amount} {tickIndex : ℤ} {s : TickState env} {step : TickStep}
    (h : Covered s.ledger.db) (hFits : s.Fits tickIndex step) :
    Covered (s.step floatText tickIndex step).ledger.db := by
  cases step with
  | ledger op hOp => exact applyOp_invariant h fun _ _ => covered_change hOp
  | growth touchedEdges eqCode clearedAmountPerEdge commits =>
      simp only [TickState.step, applyTrustGrowth]
      split
      · exact h
      · next cfg hCfg =>
          split
          · exact h
          · next hEnabled =>
              split
              · exact h
              · have hGrown := covered_growEdges (s := ⟨s.run.edgeClearingHistory, s.ledger.db.trustLines, []⟩)
                  h (hFits cfg hCfg (by simpa using hEnabled))
                split
                · exact h
                · exact hGrown

def pairConfig : TrustDriftConfig := ⟨true, 5 / 100, 98 / 100, 2, 3 / 10, 8 / 10⟩

/-- A scenario with one line, where B trusts A up to 100. -/
def pairRun : RunRecord where
  scenarioRaw := ⟨"UAH", "", [⟨"A", "active"⟩, ⟨"B", "active"⟩], [⟨"", "B", "A", some 100, ""⟩]⟩
  edgesByEquivalent := none
  realParticipants := some [(1, "A"), (2, "B")]
  trustDriftConfig := some pairConfig
  edgeClearingHistory := Dict.ofList [("B:A:UAH", ⟨100, 0, -1, 0⟩)]

/-- The start of a tick in which A owes B 80. -/
def pairTick : TickState (Env.sample .numeric208 true) where
  ledger := Ledger.empty.run ([openLine 2 "A" .uah 100] ++ payAlong "p1" 1 ["A", "B"] 80 .uah)
  run := pairRun

/-- A pays B during the tick. -/
def pairPayment (amount : Amount) : List TickStep :=
  [.ledger (.newPayment "p2" 1 "A" "B" amount "UAH" [⟨["A", "B"], amount⟩] none) rfl,
    .ledger (.prepare "p2" ["A", "B"] amount 1) rfl, .ledger (.commit "p2") rfl]

theorem pairTick_run (amount : Amount) :
    Transition.Run (TickState.step id 1) (TickState.Fits 1) pairTick (pairPayment amount)
      ((pairPayment amount).foldl (TickState.step id 1) pairTick) :=
  ((Transition.Run.nil.snoc trivial).snoc trivial).snoc trivial

/-- The database before the decay of that tick. -/
def pairPaid (amount : Amount) : Db (Env.sample .numeric208 true) :=
  ((pairPayment amount).foldl (TickState.step id 1) pairTick).ledger.db

/-- The decay of that tick. -/
def pairDecay (amount : Amount) : Except GeoError (Db (Env.sample .numeric208 true) × List TrustDriftLimitUpdate) :=
  applyTrustDecay pairRun 1 (pairTick.debtSnapshot ["UAH"] true) pairRun.scenarioRaw (pairPaid amount)

/-- What the decay reads of the line. -/
def pairInput : DecayInput := ⟨(2, 1, 1), "B", "A", "UAH", 100, 100, 80⟩

end Tick

end GeoLedger

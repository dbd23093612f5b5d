import Mathlib
import GeoLedger.Simulator.DecaySafety

/-! Trust growth and the limits it finds. The cap of a line is derived from the
limit the run remembers of it; a line whose limit has been raised since may stand
above that cap, and growth then lowers it. -/
namespace GeoLedger

variable {env : Env}

section Lines

/-- What growth reads of a touched edge: the row of its active line, its limit,
and the limit the run remembers. -/
structure LineGrowth where
  key : Uuid × Uuid × Uuid
  limit : Amount
  original : Amount
deriving DecidableEq, Repr

/-- The line of a touched edge, when the run has a history of it and it is active. -/
def RunRecord.growth? (run : RunRecord) (eqUpper : String) (tl : TrustTable env) (edge : Pid × Pid) :
    Option LineGrowth := do
  let hist ← run.edgeClearingHistory.get? (historyKey edge.1 edge.2 eqUpper)
  let key ← run.rowKey env.directory eqUpper edge.1 edge.2
  let l ← tl.active key.1 key.2.1 key.2.2
  return ⟨key, l.limit, hist.originalLimit⟩

namespace LineGrowth

variable (cfg : TrustDriftConfig) (g : LineGrowth)

/-- The limit in cents that growth starts from. -/
def current : Amount := centsDown g.limit

def newLimit : Amount := grownLimit cfg g.current (centsDown g.original)

/-- The present limit, in cents, is above what growth may reach. -/
def AboveCap : Prop := centsDown g.original * cfg.maxGrowth < g.current

/-- Growth writes a limit that the column does not store. -/
def Unstorable (c : AmountColumn) : Prop :=
  g.newLimit cfg ≠ g.current ∧ (c.fits (c.round (g.newLimit cfg)) = false ∨ c.round (g.newLimit cfg) < 0)

instance : Decidable (g.AboveCap cfg) :=
  inferInstanceAs (Decidable (centsDown g.original * cfg.maxGrowth < g.current))

instance (c : AmountColumn) : Decidable (g.Unstorable cfg c) :=
  inferInstanceAs (Decidable (g.newLimit cfg ≠ g.current ∧
    (c.fits (c.round (g.newLimit cfg)) = false ∨ c.round (g.newLimit cfg) < 0)))

/-- The write of a line that growth changes. -/
def write? : Option ((Uuid × Uuid × Uuid) × Amount) :=
  if g.newLimit cfg = g.current then none else some (g.key, g.newLimit cfg)

end LineGrowth

/-- An edge is ready to grow exactly where it has a clearing history, a row key and an
active line; the line gives the limit and the history the original one. -/
theorem RunRecord.growth?_eq_some_iff {run : RunRecord} {eqUpper : String} {tl : TrustTable env}
    {edge : Pid × Pid} {g : LineGrowth} :
    run.growth? eqUpper tl edge = some g ↔
      ∃ hist l, run.edgeClearingHistory.get? (historyKey edge.1 edge.2 eqUpper) = some hist ∧
        run.rowKey env.directory eqUpper edge.1 edge.2 = some g.key ∧
        tl.active g.key.1 g.key.2.1 g.key.2.2 = some l ∧ g.limit = l.limit ∧ g.original = hist.originalLimit := by
  simp only [growth?, Option.bind_eq_bind, Option.bind_eq_some_iff, Option.pure_def, Option.some.injEq]
  constructor
  · rintro ⟨hist, hHist, key, hKey, l, hLine, rfl⟩
    exact ⟨hist, l, hHist, hKey, hLine, rfl, rfl⟩
  · rintro ⟨hist, l, hHist, hKey, hLine, hLimit, hOriginal⟩
    refine ⟨hist, hHist, g.key, hKey, l, hLine, ?_⟩
    rw [← hLimit, ← hOriginal]

end Lines

section Arithmetic

/-- Rounding down to cents does not raise a nonnegative amount. -/
theorem centsDown_nonneg_le {x : Amount} (h : 0 ≤ x) : centsDown x ≤ x := by
  rw [centsDown, Grid.roundDown, if_pos h]
  have hFloor := Int.floor_le (x / cent)
  calc (⌊x / cent⌋ : Amount) * cent ≤ x / cent * cent := mul_le_mul_of_nonneg_right hFloor cent_pos.le
    _ = x := div_mul_cancel₀ x cent_pos.ne'

/-- Rounding down to cents takes off less than a cent. -/
theorem lt_centsDown_add_cent {x : Amount} (h : 0 ≤ x) : x < centsDown x + cent := by
  rw [centsDown, Grid.roundDown, if_pos h]
  have hFloor := Int.lt_floor_add_one (x / cent)
  calc x = x / cent * cent := (div_mul_cancel₀ x cent_pos.ne').symm
    _ < (⌊x / cent⌋ + 1) * cent := mul_lt_mul_of_pos_right hFloor cent_pos
    _ = _ := by ring

theorem centsDown_nonneg {x : Amount} (h : 0 ≤ x) : 0 ≤ centsDown x := by
  have hMono : centsDown 0 ≤ centsDown x := Grid.roundDown_mono cent_pos h
  rwa [show centsDown 0 = 0 from Grid.roundDown_of_mem cent_pos (AddSubgroup.zero_mem _)] at hMono

theorem centsDown_centsDown (x : Amount) : centsDown (centsDown x) = centsDown x :=
  Grid.roundDown_of_mem cent_pos (Grid.roundDown_mem _ _)

/-- An amount with a cent in it is positive. -/
theorem pos_of_centsDown_pos {x : Amount} (h : 0 < centsDown x) : 0 < x := by
  by_contra hNonpos
  have hMono : centsDown x ≤ centsDown 0 := Grid.roundDown_mono cent_pos (not_lt.mp hNonpos)
  rw [show centsDown 0 = 0 from Grid.roundDown_of_mem cent_pos (AddSubgroup.zero_mem _)] at hMono
  exact absurd h (not_lt.mpr hMono)

/-- A negative amount of cents is at most a negative cent. -/
theorem centsDown_le_neg_cent {x : Amount} (h : centsDown x < 0) : centsDown x ≤ -cent := by
  have hMem : -centsDown x ∈ Grid.multiples cent := AddSubgroup.neg_mem _ (Grid.roundDown_mem _ _)
  have := Grid.le_of_mem_multiples cent_pos hMem (neg_pos.mpr h)
  linarith

/-- Amounts of cents that differ are a cent apart. -/
theorem cent_le_sub {x y : Amount} (h : centsDown x < centsDown y) : centsDown x + cent ≤ centsDown y := by
  have hMem : centsDown y - centsDown x ∈ Grid.multiples cent :=
    AddSubgroup.sub_mem _ (Grid.roundDown_mem _ _) (Grid.roundDown_mem _ _)
  have := Grid.le_of_mem_multiples cent_pos hMem (sub_pos.mpr h)
  linarith

/-- The multiplier of a rate that is not negative is at least one. -/
theorem one_le_rateMult {rate : Amount} (h : 0 ≤ rate) : 1 ≤ Grid.roundHalfEven (1 / 10000000) (1 + rate) := by
  have hFloor : (10000000 : ℤ) ≤ ⌊(1 + rate) / (1 / 10000000)⌋ := by
    rw [Int.le_floor]
    push_cast
    rw [div_div_eq_mul_div, div_one]
    linarith
  have hCast : (10000000 : Amount) ≤ (⌊(1 + rate) / (1 / 10000000)⌋ : ℤ) := by exact_mod_cast hFloor
  simp only [Grid.roundHalfEven]
  split <;> linarith

namespace LineGrowth

variable {cfg : TrustDriftConfig} {g : LineGrowth}

theorem centsDown_newLimit : centsDown (g.newLimit cfg) = g.newLimit cfg := centsDown_centsDown _

/-- The new limit does not exceed the cap, which is rounded down to cents like it. -/
theorem newLimit_le_cap : g.newLimit cfg ≤ centsDown (centsDown g.original * cfg.maxGrowth) :=
  Grid.roundDown_mono cent_pos (min_le_right _ _)

/-- Within its cap a line is not lowered. -/
theorem current_le_newLimit (hRate : 0 ≤ cfg.growthRate) (hLimit : 0 ≤ g.limit) (hCap : ¬g.AboveCap cfg) :
    g.current ≤ g.newLimit cfg := by
  have hCurrent : 0 ≤ g.current := centsDown_nonneg hLimit
  have hGrown : g.current ≤ g.current * Grid.roundHalfEven (1 / 10000000) (1 + cfg.growthRate) :=
    le_mul_of_one_le_right hCurrent (one_le_rateMult hRate)
  calc g.current = centsDown g.current := (centsDown_centsDown _).symm
    _ ≤ g.newLimit cfg := Grid.roundDown_mono cent_pos (le_min hGrown (not_lt.mp hCap))

/-- A changed limit within the cap is above the limit itself, not only above its cents. -/
theorem limit_le_newLimit (hRate : 0 ≤ cfg.growthRate) (hLimit : 0 ≤ g.limit) (hCap : ¬g.AboveCap cfg)
    (hNew : g.newLimit cfg ≠ g.current) : g.limit ≤ g.newLimit cfg := by
  have hLess : g.current < g.newLimit cfg := lt_of_le_of_ne (current_le_newLimit hRate hLimit hCap) hNew.symm
  rw [← centsDown_newLimit] at hLess ⊢
  exact (lt_centsDown_add_cent hLimit).le.trans (cent_le_sub hLess)

/-- Above its cap a line is lowered. -/
theorem newLimit_lt_of_aboveCap (hGrowth : 1 ≤ cfg.maxGrowth) (hLimit : 0 ≤ g.limit) (hCap : g.AboveCap cfg) :
    g.newLimit cfg < g.current ∧ g.current ≤ g.limit := by
  refine ⟨?_, centsDown_nonneg_le hLimit⟩
  have hCurrent : 0 ≤ g.current := centsDown_nonneg hLimit
  refine newLimit_le_cap.trans_lt ?_
  rcases le_or_gt 0 (centsDown g.original) with hSign | hSign
  · exact (centsDown_nonneg_le (mul_nonneg hSign (zero_le_one.trans hGrowth))).trans_lt hCap
  · have hNegative : centsDown g.original * cfg.maxGrowth ≤ -cent := by
      have hOriginal := centsDown_le_neg_cent hSign
      nlinarith [cent_pos]
    have hMono : centsDown (centsDown g.original * cfg.maxGrowth) ≤ centsDown (-cent) :=
      Grid.roundDown_mono cent_pos hNegative
    rw [show centsDown (-cent) = -cent from
      Grid.roundDown_of_mem cent_pos (Grid.mem_multiples_iff.mpr ⟨-1, by push_cast; ring⟩)] at hMono
    linarith [cent_pos]

/-- A new limit that is positive is at most the multiple of the original one. -/
theorem newLimit_le_original (hGrowth : 1 ≤ cfg.maxGrowth) (hPos : 0 < g.newLimit cfg) :
    g.newLimit cfg ≤ g.original * cfg.maxGrowth := by
  have hFactor : 0 ≤ cfg.maxGrowth := zero_le_one.trans hGrowth
  have hCap := pos_of_centsDown_pos (hPos.trans_le newLimit_le_cap)
  have hOriginal := pos_of_centsDown_pos (pos_of_mul_pos_left hCap hFactor)
  calc g.newLimit cfg ≤ centsDown (centsDown g.original * cfg.maxGrowth) := newLimit_le_cap
    _ ≤ centsDown g.original * cfg.maxGrowth := centsDown_nonneg_le hCap.le
    _ ≤ g.original * cfg.maxGrowth :=
        mul_le_mul_of_nonneg_right (centsDown_nonneg_le hOriginal.le) hFactor

end LineGrowth

end Arithmetic

section Writes

variable {tl tl' : TrustTable env} {key : Uuid × Uuid × Uuid} {limit : Amount}

/-- A write of an active line fails exactly when the column does not store the limit. -/
theorem TrustTable.setActiveLimit_cases {l : TrustLine} (hLine : tl.active key.1 key.2.1 key.2.2 = some l)
    (limit : Amount) :
    ((env.column.fits (env.column.round limit) = false ∨ env.column.round limit < 0) ∧
        ∃ error, tl.setActiveLimit key limit = .error error) ∨
      (¬(env.column.fits (env.column.round limit) = false ∨ env.column.round limit < 0) ∧
        ∃ tl', tl.setActiveLimit key limit = .ok tl') := by
  simp only [setActiveLimit, hLine, write]
  by_cases hFits : env.column.fits (env.column.round limit) = false
  · rw [dif_pos hFits]
    exact .inl ⟨.inl hFits, _, rfl⟩
  · rw [dif_neg hFits]
    by_cases hNegative : env.column.round limit < 0
    · rw [dif_pos hNegative]
      exact .inl ⟨.inr hNegative, _, rfl⟩
    · rw [dif_neg hNegative]
      exact .inr ⟨fun h => h.elim hFits hNegative, _, rfl⟩

/-- The active line of another key stays as it is. -/
theorem TrustTable.active_setActiveLimit_of_ne {other : Uuid × Uuid × Uuid} (hNe : other ≠ key)
    (h : tl.setActiveLimit key limit = .ok tl') :
    tl'.active other.1 other.2.1 other.2.2 = tl.active other.1 other.2.1 other.2.2 := by
  refine Option.ext fun l => ?_
  rw [active_eq_some_iff, active_eq_some_iff, rows_setActiveLimit h, List.mem_map]
  constructor
  · rintro ⟨⟨old, hOld, rfl⟩, hActive, hKey⟩
    unfold relimit at hActive hKey ⊢
    split at hKey
    · next hLine => exact absurd (hKey.symm.trans hLine.2) hNe
    · next hLine =>
        rw [if_neg hLine] at hActive ⊢
        exact ⟨hOld, hActive, hKey⟩
  · rintro ⟨hMem, hActive, hKey⟩
    exact ⟨⟨l, hMem, if_neg fun hLine => hNe (hKey.symm.trans hLine.2)⟩, hActive, hKey⟩

/-- What a list of writes makes of a line. -/
def rewrite (c : AmountColumn) (writes : List ((Uuid × Uuid × Uuid) × Amount)) (l : TrustLine) : TrustLine :=
  writes.foldl (fun l w => relimit c w.1 w.2 l) l

variable {c : AmountColumn} {writes : List ((Uuid × Uuid × Uuid) × Amount)} {l : TrustLine}

/-- Only the writes of an active line's own key change it. -/
theorem rewrite_of_notMem (h : l.status = .active → l.key ∉ writes.map Prod.fst) : rewrite c writes l = l := by
  induction writes with
  | nil => rfl
  | cons w rest ih =>
      have hOther : ¬(l.status = .active ∧ l.key = w.1) := fun hLine =>
        h hLine.1 (by rw [hLine.2]; exact List.mem_cons_self)
      rw [rewrite, List.foldl_cons, relimit, if_neg hOther]
      exact ih fun hActive hIn => h hActive (List.mem_cons_of_mem _ hIn)

/-- One write for each key gives an active line its limit. -/
theorem rewrite_of_mem (hDistinct : (writes.map Prod.fst).Nodup) (hActive : l.status = .active)
    (hIn : (l.key, limit) ∈ writes) : rewrite c writes l = { l with limit := c.round limit } := by
  induction writes with
  | nil => cases hIn
  | cons w rest ih =>
      rw [List.map_cons, List.nodup_cons] at hDistinct
      rw [rewrite, List.foldl_cons]
      rcases List.mem_cons.mp hIn with rfl | hLater
      · rw [relimit, if_pos ⟨hActive, rfl⟩]
        exact rewrite_of_notMem fun _ => hDistinct.1
      · have hOther : ¬(l.status = .active ∧ l.key = w.1) := by
          rintro ⟨_, hKey⟩
          exact hDistinct.1 (hKey ▸ List.mem_map_of_mem (f := Prod.fst) hLater)
        rw [relimit, if_neg hOther]
        exact ih hDistinct.2 hLater

end Writes

section Loop

variable {run : RunRecord} {cfg : TrustDriftConfig} {eqUpper : String} {tickIndex : ℤ}
  {clearedAmountPerEdge : Pid × Pid → Amount}

/-- What growth reads of an edge in the middle of the loop. -/
def GrowthState.growth? (run : RunRecord) (eqUpper : String) (s : GrowthState env) (edge : Pid × Pid) :
    Option LineGrowth :=
  { run with edgeClearingHistory := s.history }.growth? eqUpper s.trustLines edge

variable (run cfg eqUpper tickIndex clearedAmountPerEdge) in
/-- One edge: it is left alone, or its write fails, or its line is written. -/
theorem growEdge_cases (edge : Pid × Pid) (s : GrowthState env) :
    ((s.growth? run eqUpper edge).bind (·.write? cfg) = none ∧
        (growEdge run cfg eqUpper tickIndex clearedAmountPerEdge edge s).2 = none ∧
        (growEdge run cfg eqUpper tickIndex clearedAmountPerEdge edge s).1.trustLines = s.trustLines ∧
        (growEdge run cfg eqUpper tickIndex clearedAmountPerEdge edge s).1.updates = s.updates) ∨
      ∃ g, s.growth? run eqUpper edge = some g ∧ g.newLimit cfg ≠ g.current ∧
        ((∃ error, s.trustLines.setActiveLimit g.key (g.newLimit cfg) = .error error ∧
            (growEdge run cfg eqUpper tickIndex clearedAmountPerEdge edge s).2 = some error) ∨
          ∃ tl', s.trustLines.setActiveLimit g.key (g.newLimit cfg) = .ok tl' ∧
            (growEdge run cfg eqUpper tickIndex clearedAmountPerEdge edge s).2 = none ∧
            (growEdge run cfg eqUpper tickIndex clearedAmountPerEdge edge s).1.trustLines = tl' ∧
            ∃ u, (growEdge run cfg eqUpper tickIndex clearedAmountPerEdge edge s).1.updates = s.updates ++ [u]) := by
  unfold growEdge GrowthState.growth? RunRecord.growth?
  cases hHist : s.history.get? (historyKey edge.1 edge.2 eqUpper) with
  | none => exact .inl ⟨by simp, rfl, rfl, rfl⟩
  | some hist =>
      have hRow : RunRecord.rowKey { run with edgeClearingHistory := s.history } env.directory eqUpper edge.1
          edge.2 = run.rowKey env.directory eqUpper edge.1 edge.2 := rfl
      cases hKey : run.rowKey env.directory eqUpper edge.1 edge.2 with
      | none => exact .inl ⟨by simp [hRow, hKey], rfl, rfl, rfl⟩
      | some key =>
          cases hLine : s.trustLines.active key.1 key.2.1 key.2.2 with
          | none => exact .inl ⟨by simp [hRow, hKey, hLine], by simp [hLine], by simp [hLine], by simp [hLine]⟩
          | some l =>
              by_cases hNew : (LineGrowth.mk key l.limit hist.originalLimit).newLimit cfg =
                  (LineGrowth.mk key l.limit hist.originalLimit).current
              · have hSame : grownLimit cfg (centsDown l.limit) (centsDown hist.originalLimit) =
                    centsDown l.limit := hNew
                refine .inl ⟨?_, by simp [hLine, hSame], by simp [hLine, hSame], by simp [hLine, hSame]⟩
                simp [hRow, hKey, hLine, LineGrowth.write?, hNew]
              · have hOther : grownLimit cfg (centsDown l.limit) (centsDown hist.originalLimit) ≠
                    centsDown l.limit := hNew
                refine .inr ⟨⟨key, l.limit, hist.originalLimit⟩, by simp [hRow, hKey, hLine], hNew, ?_⟩
                cases hSet : s.trustLines.setActiveLimit key
                    (grownLimit cfg (centsDown l.limit) (centsDown hist.originalLimit)) with
                | error error => exact .inl ⟨error, hSet, by simp [hLine, hOther, hSet]⟩
                | ok tl' =>
                    exact .inr ⟨tl', hSet, by simp [hLine, hOther, hSet], by simp [hLine, hOther, hSet],
                      by simp [hLine, hOther, hSet]⟩

variable (run cfg eqUpper tickIndex clearedAmountPerEdge) in
/-- The loop never touches the limits that the run remembers. -/
theorem growEdge_originals (edge : Pid × Pid) (s : GrowthState env) (k : String) :
    ((growEdge run cfg eqUpper tickIndex clearedAmountPerEdge edge s).1.history.get? k).map
        EdgeClearingHistory.originalLimit = (s.history.get? k).map EdgeClearingHistory.originalLimit := by
  have hHistory : (growEdge run cfg eqUpper tickIndex clearedAmountPerEdge edge s).1.history = s.history ∨
      ∃ hist, s.history.get? (historyKey edge.1 edge.2 eqUpper) = some hist ∧
        (growEdge run cfg eqUpper tickIndex clearedAmountPerEdge edge s).1.history =
          s.history.set (historyKey edge.1 edge.2 eqUpper) (hist.cleared tickIndex (clearedAmountPerEdge edge)) := by
    unfold growEdge
    cases hHist : s.history.get? (historyKey edge.1 edge.2 eqUpper) with
    | none => exact .inl rfl
    | some hist =>
        refine .inr ⟨hist, rfl, ?_⟩
        simp only
        split
        · rfl
        · split
          · rfl
          · split
            · rfl
            · split <;> rfl
  rcases hHistory with hSame | ⟨hist, hHist, hSet⟩
  · rw [hSame]
  · rw [hSet, Dict.get?_set]
    split
    · next hKey =>
        rw [hKey, hHist]
        rfl
    · rfl

/-- What grows depends on the original limits and on the lines only. -/
theorem growth?_congr {s s' : GrowthState env} {edge : Pid × Pid}
    (hOriginals : ∀ k, (s'.history.get? k).map EdgeClearingHistory.originalLimit =
      (s.history.get? k).map EdgeClearingHistory.originalLimit)
    (hLine : ∀ key, run.rowKey env.directory eqUpper edge.1 edge.2 = some key →
      s'.trustLines.active key.1 key.2.1 key.2.2 = s.trustLines.active key.1 key.2.1 key.2.2) :
    s'.growth? run eqUpper edge = s.growth? run eqUpper edge := by
  have hHistory := hOriginals (historyKey edge.1 edge.2 eqUpper)
  unfold GrowthState.growth? RunRecord.growth?
  have hRow : ∀ history, RunRecord.rowKey { run with edgeClearingHistory := history } env.directory eqUpper edge.1
      edge.2 = run.rowKey env.directory eqUpper edge.1 edge.2 := fun _ => rfl
  simp only [hRow]
  cases hKey : run.rowKey env.directory eqUpper edge.1 edge.2 with
  | none => cases s'.history.get? _ <;> cases s.history.get? _ <;> rfl
  | some key =>
      rw [Option.bind_eq_bind, Option.bind_eq_bind]
      cases hOld : s.history.get? (historyKey edge.1 edge.2 eqUpper) with
      | none =>
          rw [hOld, Option.map_none, Option.map_eq_none_iff] at hHistory
          rw [hHistory]
          rfl
      | some hist =>
          rw [hOld, Option.map_some, Option.map_eq_some_iff] at hHistory
          obtain ⟨hist', hNew, hOriginal⟩ := hHistory
          simp [hNew, hLine key hKey, hOriginal]

/-- Different edges name different rows. -/
def DistinctRows (run : RunRecord) (directory : Directory) (eqUpper : String) (edges : List (Pid × Pid)) : Prop :=
  edges.Pairwise fun edge edge' => ∀ key, run.rowKey directory eqUpper edge.1 edge.2 = some key →
    run.rowKey directory eqUpper edge'.1 edge'.2 ≠ some key

/-- The writes of the loop. -/
def growthWrites (run : RunRecord) (cfg : TrustDriftConfig) (eqUpper : String) (s : GrowthState env)
    (edges : List (Pid × Pid)) : List ((Uuid × Uuid × Uuid) × Amount) :=
  edges.filterMap fun edge => (s.growth? run eqUpper edge).bind (·.write? cfg)

/-- After an edge that raises no error the loop goes on with the rest. -/
theorem growEdges_cons_of_none {edge : Pid × Pid} {rest : List (Pid × Pid)} {s : GrowthState env}
    (h : (growEdge run cfg eqUpper tickIndex clearedAmountPerEdge edge s).2 = none) :
    growEdges run cfg eqUpper tickIndex clearedAmountPerEdge (edge :: rest) s =
      growEdges run cfg eqUpper tickIndex clearedAmountPerEdge rest
        (growEdge run cfg eqUpper tickIndex clearedAmountPerEdge edge s).1 := by
  rw [growEdges]
  generalize growEdge run cfg eqUpper tickIndex clearedAmountPerEdge edge s = result at h ⊢
  obtain ⟨next, error⟩ := result
  cases h
  rfl

/-- The first edge that raises an error ends the loop. -/
theorem growEdges_cons_of_some {edge : Pid × Pid} {rest : List (Pid × Pid)} {s : GrowthState env}
    {error : GeoError} (h : (growEdge run cfg eqUpper tickIndex clearedAmountPerEdge edge s).2 = some error) :
    (growEdges run cfg eqUpper tickIndex clearedAmountPerEdge (edge :: rest) s).2 = some error := by
  rw [growEdges]
  generalize growEdge run cfg eqUpper tickIndex clearedAmountPerEdge edge s = result at h ⊢
  obtain ⟨next, error'⟩ := result
  cases h
  rfl

/-- The writes depend on what grows only. -/
theorem growthWrites_congr {s s' : GrowthState env} {edges : List (Pid × Pid)}
    (h : ∀ edge ∈ edges, s'.growth? run eqUpper edge = s.growth? run eqUpper edge) :
    growthWrites run cfg eqUpper s' edges = growthWrites run cfg eqUpper s edges :=
  List.filterMap_congr fun edge hEdge => by rw [h edge hEdge]

variable (run cfg eqUpper tickIndex clearedAmountPerEdge) in
/-- The loop makes the writes of all its edges, or fails at one that is not storable. -/
theorem growEdges_cases (edges : List (Pid × Pid)) (s : GrowthState env)
    (hRows : DistinctRows run env.directory eqUpper edges) :
    ((growEdges run cfg eqUpper tickIndex clearedAmountPerEdge edges s).2 = none ∧
        (∀ edge ∈ edges, ∀ g ∈ s.growth? run eqUpper edge, ¬g.Unstorable cfg env.column) ∧
        (growEdges run cfg eqUpper tickIndex clearedAmountPerEdge edges s).1.trustLines.rows =
          s.trustLines.rows.map (rewrite env.column (growthWrites run cfg eqUpper s edges)) ∧
        ∃ more, (growEdges run cfg eqUpper tickIndex clearedAmountPerEdge edges s).1.updates =
          s.updates ++ more ∧ (more = [] → growthWrites run cfg eqUpper s edges = [])) ∨
      ((growEdges run cfg eqUpper tickIndex clearedAmountPerEdge edges s).2.isSome ∧
        ∃ edge ∈ edges, ∃ g ∈ s.growth? run eqUpper edge, g.Unstorable cfg env.column) := by
  induction edges generalizing s with
  | nil => exact .inl ⟨rfl, by simp, (List.map_id' _).symm, [], (List.append_nil _).symm, fun _ => rfl⟩
  | cons edge rest ih =>
      obtain ⟨hFirst, hRest⟩ := List.pairwise_cons.mp hRows
      have hOriginals := growEdge_originals run cfg eqUpper tickIndex clearedAmountPerEdge edge s
      rcases growEdge_cases run cfg eqUpper tickIndex clearedAmountPerEdge edge s with
        ⟨hNoWrite, hNone, hLines, hUpdates⟩ | ⟨g, hGrowth, hNew, hOutcome⟩
      · rw [growEdges_cons_of_none hNone]
        generalize (growEdge run cfg eqUpper tickIndex clearedAmountPerEdge edge s).1 = next at *
        have hSame : ∀ edge', next.growth? run eqUpper edge' = s.growth? run eqUpper edge' := fun edge' =>
          growth?_congr hOriginals fun key _ => by rw [hLines]
        have hStored : ∀ g ∈ s.growth? run eqUpper edge, ¬g.Unstorable cfg env.column := by
          rintro g hg ⟨hNew, _⟩
          rw [Option.mem_def.mp hg, Option.bind_some, LineGrowth.write?, if_neg hNew] at hNoWrite
          cases hNoWrite
        have hWrites : growthWrites run cfg eqUpper next rest = growthWrites run cfg eqUpper s (edge :: rest) := by
          rw [growthWrites_congr fun edge' _ => hSame edge']
          exact (List.filterMap_cons_none (f := fun edge => (s.growth? run eqUpper edge).bind (·.write? cfg))
            hNoWrite).symm
        rw [← hLines, ← hUpdates, ← hWrites]
        rcases ih next hRest with ⟨hDone, hAll, hTable, hMore⟩ | ⟨hFailed, edge', hIn, hBad⟩
        · simp only [hSame] at hAll
          exact .inl ⟨hDone, List.forall_mem_cons.mpr ⟨hStored, hAll⟩, hTable, hMore⟩
        · simp only [hSame] at hBad
          exact .inr ⟨hFailed, edge', List.mem_cons_of_mem _ hIn, hBad⟩
      · obtain ⟨hist, l, _, hKey, hLine, _, _⟩ := RunRecord.growth?_eq_some_iff.mp hGrowth
        rcases hOutcome with ⟨error, hSet, hError⟩ | ⟨tl', hSet, hNone, hLines, u, hUpdates⟩
        · refine .inr ⟨by rw [growEdges_cons_of_some hError]; rfl, edge, List.mem_cons_self, g, hGrowth, hNew, ?_⟩
          rcases TrustTable.setActiveLimit_cases hLine (g.newLimit cfg) with ⟨hBad, _⟩ | ⟨_, tl', hOk⟩
          · exact hBad
          · rw [hSet] at hOk
            cases hOk
        · rw [growEdges_cons_of_none hNone]
          generalize (growEdge run cfg eqUpper tickIndex clearedAmountPerEdge edge s).1 = next at *
          have hSame : ∀ edge' ∈ rest, next.growth? run eqUpper edge' = s.growth? run eqUpper edge' := by
            refine fun edge' hIn => growth?_congr hOriginals fun key' hKey' => ?_
            rw [hLines]
            exact TrustTable.active_setActiveLimit_of_ne
              (fun hEq => hFirst edge' hIn g.key hKey (hKey'.trans (congrArg some hEq))) hSet
          have hStored : ∀ g' ∈ s.growth? run eqUpper edge, ¬g'.Unstorable cfg env.column := by
            rintro g' hg ⟨_, hBad⟩
            obtain rfl : g = g' := Option.some.inj (hGrowth.symm.trans hg)
            rcases TrustTable.setActiveLimit_cases hLine (g.newLimit cfg) with ⟨_, error, hError⟩ | ⟨hGood, _⟩
            · rw [hSet] at hError
              cases hError
            · exact hGood hBad
          have hWrites : growthWrites run cfg eqUpper s (edge :: rest) =
              (g.key, g.newLimit cfg) :: growthWrites run cfg eqUpper next rest := by
            rw [growthWrites_congr hSame]
            refine List.filterMap_cons_some (f := fun edge => (s.growth? run eqUpper edge).bind (·.write? cfg)) ?_
            rw [hGrowth, Option.bind_some, LineGrowth.write?, if_neg hNew]
          rcases ih next hRest with ⟨hDone, hAll, hTable, more, hMore, _⟩ | ⟨hFailed, edge', hIn, g', hg, hBad⟩
          · refine .inl ⟨hDone, List.forall_mem_cons.mpr ⟨hStored, fun edge' hIn => ?_⟩, ?_, u :: more, ?_, ?_⟩
            · rw [← hSame edge' hIn]
              exact hAll edge' hIn
            · rw [hTable, hLines, TrustTable.rows_setActiveLimit hSet, List.map_map, hWrites]
              rfl
            · rw [hMore, hUpdates, List.append_assoc, List.singleton_append]
            · intro hEmpty
              cases hEmpty
          · rw [hSame edge' hIn] at hg
            exact .inr ⟨hFailed, edge', List.mem_cons_of_mem _ hIn, g', hg, hBad⟩

end Loop

section Safety

variable {run : RunRecord} {cfg : TrustDriftConfig} {eqUpper : String}

/-- A line before and after growth: it only grows, never under its debt, only
along touched edges and at most to the multiple of the limit the run remembers. -/
structure LineGrows (run : RunRecord) (eqUpper : String) (touchedEdges : List (Pid × Pid)) (db : Db env)
    (l l' : TrustLine) : Prop where
  limit_only : l' = { l with limit := l'.limit }
  not_lowered : l.status = .active → l.limit ≤ l'.limit
  covers : db.debts.owed l.toParticipantId l.fromParticipantId l.equivalentId ≤ l.limit →
    db.debts.owed l.toParticipantId l.fromParticipantId l.equivalentId ≤ l'.limit
  touched : l'.limit ≠ l.limit → l.status = .active ∧
    ∃ edge ∈ touchedEdges, run.rowKey env.directory eqUpper edge.1 edge.2 = some l.key
  capped : l.limit < l'.limit → ∃ cfg, run.trustDriftConfig = some cfg ∧
    ∃ edge ∈ touchedEdges, run.rowKey env.directory eqUpper edge.1 edge.2 = some l.key ∧
      ∃ hist, run.edgeClearingHistory.get? (historyKey edge.1 edge.2 eqUpper) = some hist ∧
        l'.limit ≤ cfg.maxGrowth * hist.originalLimit

/-- The participants of the run are rows of the participants table. -/
def RunRecord.Registered (run : RunRecord) (directory : Directory) : Prop :=
  ∀ p ∈ run.realParticipants.getD [], ⟨p.1, p.2⟩ ∈ directory.participants

/-- Touched edges of registered participants name different rows. -/
theorem distinctRows_of_nodup {touchedEdges : List (Pid × Pid)} (hRun : run.Registered env.directory)
    (hEdges : touchedEdges.Nodup) : DistinctRows run env.directory eqUpper touchedEdges := by
  have hPid : ∀ {pid pid' : Pid} {id : Uuid}, run.pidToUuid.get? pid = some id →
      run.pidToUuid.get? pid' = some id → pid = pid' := by
    have hRow : ∀ {pid : Pid} {id : Uuid}, run.pidToUuid.get? pid = some id →
        ⟨id, pid⟩ ∈ env.directory.participants := by
      intro pid id hGet
      rcases Dict.mem_of_get?_foldl_set hGet with hIn | hEmpty
      · obtain ⟨p, hp, hEq⟩ := List.mem_map.mp hIn
        cases hEq
        exact hRun p hp
      · cases hEmpty
    intro pid pid' id hGet hGet'
    have hSame := Rows.eq_of_column env.directory.participant_id_unique (hRow hGet) (hRow hGet') rfl
    exact congrArg Participant.pid hSame
  refine hEdges.imp fun {edge edge'} hNe key hKey hKey' => hNe ?_
  simp only [RunRecord.rowKey, Option.bind_eq_bind, Option.bind_eq_some_iff, Option.pure_def,
    Option.some.injEq] at hKey hKey'
  obtain ⟨creditor, hCreditor, debtor, hDebtor, e, _, rfl⟩ := hKey
  obtain ⟨creditor', hCreditor', debtor', hDebtor', e', _, hSame⟩ := hKey'
  obtain ⟨rfl, rfl, _⟩ := by simpa using hSame
  exact Prod.ext (hPid hCreditor hCreditor') (hPid hDebtor hDebtor')

/-- The writes are those of the touched edges whose limit changes. -/
theorem mem_growthWrites {s : GrowthState env} {edges : List (Pid × Pid)} {key : Uuid × Uuid × Uuid}
    {limit : Amount} :
    (key, limit) ∈ growthWrites run cfg eqUpper s edges ↔
      ∃ edge ∈ edges, ∃ g ∈ s.growth? run eqUpper edge, g.newLimit cfg ≠ g.current ∧ g.key = key ∧
        g.newLimit cfg = limit := by
  simp only [growthWrites, List.mem_filterMap, Option.bind_eq_some_iff, Option.mem_def, LineGrowth.write?,
    Option.ite_none_left_eq_some, Option.some.injEq, Prod.mk.injEq]

/-- Edges of different rows write different rows. -/
theorem growthWrites_distinct {s : GrowthState env} {edges : List (Pid × Pid)}
    (hRows : DistinctRows run env.directory eqUpper edges) :
    ((growthWrites run cfg eqUpper s edges).map Prod.fst).Nodup := by
  rw [List.Nodup, List.pairwise_map]
  refine List.Pairwise.filterMap _ (fun edge edge' hApart w hw w' hw' hSame => ?_) hRows
  have hRow : ∀ {edge : Pid × Pid} {w}, (s.growth? run eqUpper edge).bind (·.write? cfg) = some w →
      run.rowKey env.directory eqUpper edge.1 edge.2 = some w.1 := by
    intro edge w hWrite
    obtain ⟨g, hGrowth, hg⟩ := Option.bind_eq_some_iff.mp hWrite
    obtain ⟨_, _, _, hKey, _⟩ := RunRecord.growth?_eq_some_iff.mp hGrowth
    rw [LineGrowth.write?, Option.ite_none_left_eq_some] at hg
    have hRow : g.key = w.1 := congrArg Prod.fst (Option.some.inj hg.2)
    rw [← hRow]
    exact hKey
  exact hApart w.1 (hRow hw) (hSame ▸ hRow hw')

variable {db : Db env} {touchedEdges : List (Pid × Pid)}

theorem LineGrows.refl (l : TrustLine) : LineGrows run eqUpper touchedEdges db l l where
  limit_only := rfl
  not_lowered _ := le_rfl
  covers h := h
  touched h := absurd rfl h
  capped h := absurd h (lt_irrefl _)

/-- The state in which the loop starts. -/
def GrowthState.start (run : RunRecord) (db : Db env) : GrowthState env :=
  ⟨run.edgeClearingHistory, db.trustLines, []⟩

/-- The line of a write, as growth found it. -/
theorem eq_of_growth {edge : Pid × Pid} {g : LineGrowth} {l : TrustLine}
    (hGrowth : run.growth? eqUpper db.trustLines edge = some g) (hl : l ∈ db.trustLines.rows)
    (hActive : l.status = .active) (hKey : g.key = l.key) :
    ∃ hist, run.edgeClearingHistory.get? (historyKey edge.1 edge.2 eqUpper) = some hist ∧
      run.rowKey env.directory eqUpper edge.1 edge.2 = some l.key ∧ g.limit = l.limit ∧
      g.original = hist.originalLimit := by
  obtain ⟨hist, line, hHist, hRow, hLine, hLimit, hOriginal⟩ := RunRecord.growth?_eq_some_iff.mp hGrowth
  have hSame : db.trustLines.active g.key.1 g.key.2.1 g.key.2.2 = some l :=
    TrustTable.active_eq_some_iff.mpr ⟨hl, hActive, hKey.symm⟩
  obtain rfl : line = l := Option.some.inj (hLine.symm.trans hSame)
  exact ⟨hist, hHist, hKey ▸ hRow, hLimit, hOriginal⟩

/-- Cents are stored as they are. -/
theorem round_newLimit (hCents : cent ∈ env.column.grid) (cfg : TrustDriftConfig) (g : LineGrowth) :
    env.column.round (g.newLimit cfg) = g.newLimit cfg := by
  refine env.column.round_of_mem _ ?_
  obtain ⟨n, hn⟩ := Grid.mem_multiples_iff.mp (Grid.roundDown_mem cent (min _ _))
  rw [LineGrowth.newLimit, grownLimit, centsDown, ← hn, ← zsmul_eq_mul]
  exact AddSubgroup.zsmul_mem _ hCents n

/-- With every touched line within its cap, the writes only grow lines. -/
theorem lineGrows_rewrite (hCents : cent ∈ env.column.grid) (hConfig : run.trustDriftConfig = some cfg)
    (hRate : 0 ≤ cfg.growthRate) (hGrowth : 1 ≤ cfg.maxGrowth)
    (hRows : DistinctRows run env.directory eqUpper touchedEdges)
    (hCaps : ∀ edge ∈ touchedEdges, ∀ g ∈ run.growth? eqUpper db.trustLines edge, ¬g.AboveCap cfg)
    {l : TrustLine} (hl : l ∈ db.trustLines.rows) :
    LineGrows run eqUpper touchedEdges db l
      (rewrite env.column (growthWrites run cfg eqUpper (.start run db) touchedEdges) l) := by
  by_cases hWritten : l.status = .active ∧
      l.key ∈ (growthWrites run cfg eqUpper (.start run db) touchedEdges).map Prod.fst
  swap
  · rw [rewrite_of_notMem fun hActive hIn => hWritten ⟨hActive, hIn⟩]
    exact .refl l
  obtain ⟨hActive, hIn⟩ := hWritten
  obtain ⟨⟨key, limit⟩, hWrite, rfl⟩ := List.mem_map.mp hIn
  rw [rewrite_of_mem (growthWrites_distinct hRows) hActive hWrite]
  obtain ⟨edge, hEdge, g, hFound, hNew, hKey, rfl⟩ := mem_growthWrites.mp hWrite
  obtain ⟨hist, hHist, hRow, hLimit, hOriginal⟩ := eq_of_growth hFound hl hActive hKey
  rw [round_newLimit hCents]
  have hNonneg : 0 ≤ g.limit := hLimit ▸ db.trustLines.limit_nonneg l hl
  have hGrows : l.limit ≤ g.newLimit cfg := by
    rw [← hLimit]
    exact LineGrowth.limit_le_newLimit hRate hNonneg (hCaps edge hEdge g hFound) hNew
  exact {
    limit_only := rfl
    not_lowered _ := hGrows
    covers hOwed := hOwed.trans hGrows
    touched _ := ⟨hActive, edge, hEdge, hRow⟩
    capped hRaised := by
      refine ⟨cfg, hConfig, edge, hEdge, hRow, hist, hHist, ?_⟩
      rw [← hOriginal, mul_comm]
      exact LineGrowth.newLimit_le_original hGrowth ((db.trustLines.limit_nonneg l hl).trans_lt hRaised) }

/-- Growth is carried out, and some touched line stands above its cap. -/
def GrowthUndercuts (run : RunRecord) (touchedEdges : List (Pid × Pid)) (eqCode : String) (commits : Bool)
    (db : Db env) : Prop :=
  ∃ cfg, run.trustDriftConfig = some cfg ∧ cfg.enabled = true ∧
    (env.directory.equivalentByCode (stripUpper eqCode)).isSome ∧ commits = true ∧
    (∀ edge ∈ touchedEdges, ∀ g ∈ run.growth? (stripUpper eqCode) db.trustLines edge,
      ¬g.Unstorable cfg env.column) ∧
    ∃ edge ∈ touchedEdges, ∃ g ∈ run.growth? (stripUpper eqCode) db.trustLines edge, g.AboveCap cfg

/-- What a call leaves of the lines: the writes of all its edges, or nothing. -/
theorem rows_applyTrustGrowth (floatText : Amount → Amount) (tickIndex : ℤ)
    (clearedAmountPerEdge : Pid × Pid → Amount) (commits : Bool) (eqCode : String)
    (hRows : DistinctRows run env.directory (stripUpper eqCode) touchedEdges) :
    (∃ cfg, run.trustDriftConfig = some cfg ∧ cfg.enabled = true ∧
        (env.directory.equivalentByCode (stripUpper eqCode)).isSome ∧ commits = true ∧
        (∀ edge ∈ touchedEdges, ∀ g ∈ run.growth? (stripUpper eqCode) db.trustLines edge,
          ¬g.Unstorable cfg env.column) ∧
        (applyTrustGrowth floatText touchedEdges eqCode tickIndex clearedAmountPerEdge commits run
            db).2.trustLines.rows = db.trustLines.rows.map (rewrite env.column
          (growthWrites run cfg (stripUpper eqCode) (.start run db) touchedEdges))) ∨
      (¬GrowthUndercuts run touchedEdges eqCode commits db ∧
        (applyTrustGrowth floatText touchedEdges eqCode tickIndex clearedAmountPerEdge commits run
          db).2.trustLines.rows = db.trustLines.rows) := by
  cases hConfig : run.trustDriftConfig with
  | none =>
      refine .inr ⟨?_, by simp [applyTrustGrowth, hConfig]⟩
      rintro ⟨cfg, hCfg, _⟩
      rw [hConfig] at hCfg
      cases hCfg
  | some cfg =>
      have hCfg : ∀ {cfg'}, run.trustDriftConfig = some cfg' → cfg' = cfg := fun h =>
        Option.some.inj (h.symm.trans hConfig)
      by_cases hEnabled : cfg.enabled = true
      swap
      · refine .inr ⟨?_, by simp [applyTrustGrowth, hConfig, hEnabled]⟩
        rintro ⟨cfg', hCfg', hOn, _⟩
        exact hEnabled (hCfg hCfg' ▸ hOn)
      cases hCode : env.directory.equivalentByCode (stripUpper eqCode) with
      | none =>
          refine .inr ⟨?_, by simp [applyTrustGrowth, hConfig, hEnabled, hCode]⟩
          rintro ⟨cfg', _, _, hKnown, _⟩
          rw [hCode] at hKnown
          cases hKnown
      | some equivalent =>
          have hCall : (applyTrustGrowth floatText touchedEdges eqCode tickIndex clearedAmountPerEdge commits run
              db).2.trustLines =
              let result := growEdges run cfg (stripUpper eqCode) tickIndex clearedAmountPerEdge touchedEdges
                (.start run db)
              if result.2.isSome ∨ result.1.updates = [] ∨ !commits then db.trustLines
              else result.1.trustLines := by
            simp only [applyTrustGrowth, hConfig, hEnabled, hCode, Bool.not_true, Bool.false_eq_true, if_false,
              GrowthState.start]
            split
            · next hKept => exact (if_pos hKept).symm
            · next hWritten => exact (if_neg hWritten).symm
          rw [hCall]
          simp only
          rcases growEdges_cases run cfg (stripUpper eqCode) tickIndex clearedAmountPerEdge touchedEdges
            (.start run db) hRows with
            ⟨hDone, hStored, hTable, more, hMore, hWrites⟩ | ⟨hFailed, edge, hEdge, g, hg, hBad⟩
          · cases commits with
            | false =>
                refine .inr ⟨?_, by simp⟩
                rintro ⟨_, _, _, _, hCommits, _⟩
                cases hCommits
            | true =>
                refine .inl ⟨cfg, rfl, hEnabled, rfl, rfl, hStored, ?_⟩
                by_cases hNothing : more = []
                · rw [if_pos (.inr (.inl (by rw [hMore, hNothing]; rfl))), hWrites hNothing]
                  exact (List.map_id' _).symm
                · rw [if_neg, hTable]
                  · rfl
                  · simp [hDone, hMore, hNothing]
          · refine .inr ⟨?_, by rw [if_pos (.inl hFailed)]⟩
            rintro ⟨cfg', hCfg', _, _, _, hAll, _⟩
            obtain rfl := hCfg hCfg'
            exact hAll edge hEdge g hg hBad

/-- The database of a run that remembers a limit of 100 for the line from B to A. -/
def pairDb (limit owed : Amount) : Db (Env.sample .numeric208 true) :=
  (Ledger.empty.run ([openLine 2 "A" .uah limit] ++ payAlong "p1" 1 ["A", "B"] owed .uah)).db

/-- Growth of that line in the first tick. -/
def pairGrowth (limit owed : Amount) : Db (Env.sample .numeric208 true) :=
  (applyTrustGrowth id [("B", "A")] "UAH" 1 (fun _ => 10) true pairRun (pairDb limit owed)).2

theorem cent_mem_numeric208 : cent ∈ AmountColumn.numeric208.grid :=
  Grid.mem_multiples_iff.mpr ⟨1000000, by norm_num [AmountColumn.storageQuantum, cent]⟩

theorem pairRun_registered : pairRun.Registered (Env.sample .numeric208 true).directory := by
  unfold RunRecord.Registered
  decide

end Safety

end GeoLedger

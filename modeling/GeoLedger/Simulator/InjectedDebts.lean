import Mathlib
import GeoLedger.Simulator.InjectSequence

/-! Injected debts and the invariants of the ledger. Each effect of an event that
commits inserts or freezes lines, and puts at most one debt; what a later effect
leaves of an earlier one decides whether the ledger is healthy after the event. -/
namespace GeoLedger
open Outcomes

variable {env : Env}

namespace InjectSession
open InjectState

variable {s : InjectSession env} {tl tl' : TrustTable env} {t t' : DebtTable env} {scenario : Scenario}
  {budget : Option Amount}

section Steps

/-- The debt that an effect puts. -/
def injectionOf (scenario : Scenario) (budget : Option Amount) (s : InjectSession env) : EventEffect → Option NewDebt
  | .injectDebt eff => if s.base.failed then none else s.injection scenario budget eff
  | .other _ => none
  | .unknown => none

/-- The flushed lines that an effect is to freeze. -/
def linesToFreeze (s : InjectSession env) : EventEffect → List Uuid
  | .other (.freezeParticipant participantId true) =>
      if strip participantId = "" ∨ s.base.flushed.participants.get? (strip participantId) = some .suspended then []
      else match s.base.flushed.participantByPid (strip participantId) with
        | none => []
        | some p => incidentLines s.base.flushed.db.trustLines p.id
  | _ => []

/-- Some lines are frozen, and lines with new keys are inserted. -/
structure LinesStep (ids : List Uuid) (tl tl' : TrustTable env) : Prop where
  rows : ∃ new, tl'.rows = tl.rows.map (TrustLine.freeze ids) ++ new

/-- A debt is put, or none. -/
def DebtsStep (injection : Option NewDebt) (t t' : DebtTable env) : Prop :=
  match injection with
  | none => t' = t
  | some new => Puts t new t'

theorem linesStep_refl (tl : TrustTable env) : LinesStep [] tl tl := by
  refine ⟨[], ?_⟩
  rw [List.append_nil]
  exact congrArg TrustTable.rows tl.freeze_nil.symm

/-- Inserting the added lines is a step of the trust lines that freezes none of them. -/
theorem linesStep_insertAdded {xs : List NewLine} (h : insertAdded xs tl = .ok tl') : LinesStep [] tl tl' := by
  obtain ⟨_, rows, hRows, _⟩ := insertAdded_rows h
  refine ⟨rows, ?_⟩
  rw [hRows]
  exact congrArg (· ++ rows) (congrArg TrustTable.rows tl.freeze_nil.symm)

/-- Lines that could be added leave a session that could be flushed without them. -/
theorem lines_of_append {base : InjectState env} {xs : List NewLine} (hAdds : s.base.Adds base xs)
    (h : base.lines = .ok tl') : ∃ tl, s.base.lines = .ok tl := by
  rw [InjectState.lines, hAdds.flushed, hAdds.added, hAdds.frozen, insertAdded_append] at h
  cases hAdded : insertAdded s.base.added s.base.flushed.db.trustLines with
  | error e =>
      rw [hAdded] at h
      cases h
  | ok u => exact ⟨u.freeze s.base.frozen, by rw [InjectState.lines, hAdded]; rfl⟩

/-- Where a session settles after lines were added, it settled before, and the added lines
were inserted in between. -/
theorem settles_of_adds {base : InjectState env} {xs : List NewLine} (hIssued : s.Issued) (hAdds : s.base.Adds base xs)
    (h : ({ s with base := base } : InjectSession env).Settles tl' t') :
    ∃ tl, s.Settles tl t' ∧ LinesStep [] tl tl' := by
  obtain ⟨tl, hLines⟩ := lines_of_append hAdds h.lines
  have hSettles : s.Settles tl t' := by
    refine ⟨hAdds.failed.symm.trans h.running, hLines, ?_, hIssued⟩
    have hDebts := h.debts
    rw [InjectSession.debts] at hDebts ⊢
    rwa [← hAdds.flushed]
  exact ⟨tl, hSettles, linesStep_insertAdded ((hSettles.lines_of_adds hAdds).symm.trans h.lines)⟩

/-- A debt that could be put leaves a session that could be flushed without it. -/
theorem settles_of_putDebt (hColumn : env.column = .numeric208) (hIssued : s.Issued) {new : NewDebt} (hPos : 0 < new.amount)
    (hCents : new.amount ∈ Grid.multiples cent)
    (hGranted : Granted s.base.flushed.db.trustLines s.base.flushed.db.debts new)
    (h : (s.putDebt new).Settles tl' t') : ∃ t, s.Settles tl' t ∧ Puts t new t' ∧
      t.owed new.key.1 new.key.2.1 new.key.2.2 = s.base.flushed.db.debts.owed new.key.1 new.key.2.1 new.key.2.2 := by
  have hSettles : ∃ t, s.Settles tl' t := by
    rcases putDebt_cases hColumn hPos hCents hGranted with ⟨_, hPut⟩ | ⟨d, u, _, hWrite, hPut⟩
    · rw [hPut] at h
      have hDebts := h.debts
      rw [InjectSession.debts, insertDebts_append] at hDebts
      obtain ⟨t, hInsert, _⟩ := bind_eq_ok_iff.mp hDebts
      exact ⟨t, h.running, h.lines, hInsert, hIssued⟩
    · rw [hPut] at h
      obtain ⟨t, hInsert⟩ := insertDebts_congr (DebtTable.keys_of_write hWrite).symm h.debts
      exact ⟨t, h.running, h.lines, hInsert, hIssued⟩
  obtain ⟨t, hSettles⟩ := hSettles
  have hGood : ¬(new.key ∈ s.addedDebts.map NewDebt.key ∨ new.key.1 = new.key.2.1) := fun hBad =>
    hSettles.putDebt_error hColumn hPos hCents hGranted hBad tl' t' h
  rw [not_or] at hGood
  obtain ⟨u, hPuts, hPut, _⟩ := hSettles.putDebt hColumn hPos hCents hGranted hGood.1 hGood.2
  obtain ⟨_, rfl⟩ := h.unique hPut
  refine ⟨t, hSettles, hPuts, ?_⟩
  cases hGet : s.base.flushed.db.debts.getDebt new.key.1 new.key.2.1 new.key.2.2 with
  | some d => rw [DebtTable.owed_of_getDebt hGet, DebtTable.owed_of_getDebt (hSettles.getDebt_of_some hGet)]
  | none =>
      have hNone : t.getDebt new.key.1 new.key.2.1 new.key.2.2 = none :=
        DebtTable.getDebt_eq_none_iff_keys.mpr fun hIn => (hSettles.mem_keys_iff.mp hIn).elim
          (DebtTable.getDebt_eq_none_iff_keys.mp hGet) hGood.1
      rw [DebtTable.owed, hNone, DebtTable.owed, hGet]

/-- The lines that an effect freezes are the incident lines of the participant it suspends. -/
theorem linesToFreeze_of_suspends {participantId : String} {p : Participant} (h : s.base.Suspends participantId p) :
    s.linesToFreeze (.other (.freezeParticipant participantId true)) =
      incidentLines s.base.flushed.db.trustLines p.id := by
  simp only [linesToFreeze, if_neg (not_or.mpr ⟨h.named, h.active⟩), h.found]

/-- An effect that suspends nobody freezes no lines. -/
theorem linesToFreeze_of_not_suspends {participantId : String} (h : ∀ p, ¬s.base.Suspends participantId p) :
    s.linesToFreeze (.other (.freezeParticipant participantId true)) = [] := by
  rw [linesToFreeze]
  split
  · rfl
  · next hNot =>
      rw [not_or] at hNot
      cases hFound : s.base.flushed.participantByPid (strip participantId) with
      | none => rfl
      | some p => exact absurd ⟨hNot.1, hFound, hNot.2⟩ (h p)

/-- A freeze of lines that could be flushed leaves a session that could be flushed without it. -/
theorem settles_of_freeze {participantId : String} {freezeTrustlines : Bool} (hIssued : s.Issued)
    (h : ({ s with base := s.base.freezeParticipant scenario participantId freezeTrustlines } :
      InjectSession env).Settles tl' t') :
    ∃ tl, s.Settles tl t' ∧
      LinesStep (s.linesToFreeze (.other (.freezeParticipant participantId freezeTrustlines))) tl tl' := by
  by_cases hSuspends : ∃ p, s.base.Suspends participantId p
  · obtain ⟨p, hp⟩ := hSuspends
    rw [freezeParticipant_of_suspends hp] at h
    cases freezeTrustlines with
    | false => exact ⟨tl', ⟨h.running, h.lines, h.debts, hIssued⟩, linesStep_refl tl'⟩
    | true =>
        rw [linesToFreeze_of_suspends hp]
        have hLines := h.lines
        rw [InjectState.lines] at hLines
        cases hAdded : insertAdded s.base.added s.base.flushed.db.trustLines with
        | error e =>
            simp only [hAdded] at hLines
            cases hLines
        | ok u =>
            have hSettles : s.Settles (u.freeze s.base.frozen) t' :=
              ⟨h.running, by rw [InjectState.lines, hAdded]; rfl, h.debts, hIssued⟩
            refine ⟨_, hSettles, [], ?_⟩
            have hIncident : ∀ id ∈ incidentLines s.base.flushed.db.trustLines p.id,
                id ∈ s.base.flushed.db.trustLines.rows.map (·.id) := by
              intro id hId
              obtain ⟨l, hl, hIdEq, _⟩ := mem_incidentLines_iff.mp hId
              exact List.mem_map.mpr ⟨l, hl, hIdEq⟩
            rw [(h.unique (hSettles.freezes rfl rfl rfl rfl hIncident)).1.symm, List.append_nil]
            rfl
  · have hNone := not_exists.mp hSuspends
    rw [freezeParticipant_of_not_suspends hNone] at h
    refine ⟨tl', h, ?_⟩
    cases freezeTrustlines with
    | false => exact linesStep_refl tl'
    | true =>
        rw [linesToFreeze_of_not_suspends hNone]
        exact linesStep_refl tl'

/-- Before a debt effect whose flush succeeds, a session settles in the same lines, and in debts
that the injection raises. -/
theorem settles_before_injectDebt (hColumn : env.column = .numeric208) (hIssued : s.Issued) {eff : DebtEffect}
    (h : (s.injectDebt scenario budget eff).Settles tl' t') :
    ∃ t, s.Settles tl' t ∧ DebtsStep (s.injection scenario budget eff) t t' ∧
      ∀ new, s.injection scenario budget eff = some new → t.owed new.key.1 new.key.2.1 new.key.2.2 =
        s.base.flushed.db.debts.owed new.key.1 new.key.2.1 new.key.2.2 := by
  have hQuiet : ¬s.Raises scenario budget eff := fun hRaises => not_settles_of_raises hRaises tl' t' h
  cases hNew : s.injection scenario budget eff with
  | none =>
      rw [injectDebt_of_none hQuiet hNew] at h
      exact ⟨t', h, rfl, fun _ hNone => absurd hNone.symm (Option.some_ne_none _)⟩
  | some new =>
      obtain ⟨hNamed, _, hGranted⟩ := injection_eq_some_iff.mp hNew
      obtain ⟨hPos, hCents, _⟩ := named_cents hNamed
      rw [injectDebt_of_some hColumn hNew] at h
      obtain ⟨t, hSettles, hPuts, hOwed⟩ := settles_of_putDebt hColumn hIssued hPos hCents hGranted
        ⟨h.running, h.lines, h.debts, h.issued⟩
      refine ⟨t, hSettles, hPuts, fun other hOther => ?_⟩
      cases hOther
      exact hOwed

/-- Before a participant is added by an effect whose flush succeeds, a session settles in the same
debts, and in the lines without those that the participant comes with. -/
theorem settles_before_addParticipant (hRunning : s.base.failed = false) (hIssued : s.Issued)
    {participant : Option NewParticipant} {itls : List InitialTrustline}
    (h : (s.applyOther scenario (.addParticipant participant itls)).Settles tl' t') :
    ∃ tl, s.Settles tl t' ∧ LinesStep [] tl tl' := by
  by_cases hRegisters : s.base.Registers (.addParticipant participant itls)
  · cases participant with
    | none => exact absurd hRegisters (fun hIn => hIn)
    | some data =>
        rcases flush_cases hRunning hIssued with hFailed | ⟨tl, t, hSettles⟩
        · simp only [applyOther, if_pos hRegisters, hFailed] at h
          have hSame : s.fail.base.apply scenario (.addParticipant (some data) itls) = s.fail.base := if_pos rfl
          rw [hSame] at h
          exact absurd h.running (by simp [fail])
        · obtain ⟨registered, hRegistered, hAdds, _⟩ := @registers_adds _ _ _ _ scenario _ _ hSettles hRegisters
          simp only [applyOther, if_pos hRegisters, hSettles.flush_eq] at h
          have hInsert := (hRegistered.lines_of_adds hAdds).symm.trans h.lines
          have hAfter := hRegistered.adds hAdds hInsert
          obtain ⟨_, rfl⟩ := hAfter.unique h
          exact ⟨tl, hSettles, linesStep_insertAdded hInsert⟩
  · by_cases hOverflows : s.base.Overflows (.addParticipant participant itls)
    · simp only [applyOther, if_neg hRegisters, apply_addParticipant hRunning,
        addParticipant_of_overflows hOverflows] at h
      exact absurd h.running.symm Bool.false_ne_true
    · simp only [applyOther, if_neg hRegisters, apply_addParticipant hRunning,
        addParticipant_of_not_registers hRegisters hOverflows] at h
      exact ⟨tl', h, linesStep_refl tl'⟩

/-- What an effect does to the tables of a session whose flush succeeds after it. -/
theorem settles_before (hColumn : env.column = .numeric208) (hIssued : s.Issued) {effect : EventEffect}
    (h : (s.apply scenario budget effect).Settles tl' t') :
    ∃ tl t, s.Settles tl t ∧ LinesStep (s.linesToFreeze effect) tl tl' ∧
      DebtsStep (s.injectionOf scenario budget effect) t t' ∧
      ∀ new, s.injectionOf scenario budget effect = some new → t.owed new.key.1 new.key.2.1 new.key.2.2 =
        s.base.flushed.db.debts.owed new.key.1 new.key.2.1 new.key.2.2 := by
  cases hRunning : s.base.failed with
  | true =>
      have hSame : s.apply scenario budget effect = s := if_pos hRunning
      rw [hSame] at h
      exact absurd (h.running.symm.trans hRunning) Bool.false_ne_true
  | false =>
      cases effect with
      | unknown =>
          have hSame : s.apply scenario budget .unknown = s := if_neg (by simp [hRunning])
          rw [hSame] at h
          exact ⟨tl', t', h, linesStep_refl tl', rfl, fun _ hNone => absurd hNone.symm (Option.some_ne_none _)⟩
      | injectDebt eff =>
          have hStep : s.apply scenario budget (.injectDebt eff) = s.injectDebt scenario budget eff :=
            if_neg (by simp [hRunning])
          have hInjection : s.injectionOf scenario budget (.injectDebt eff) = s.injection scenario budget eff :=
            if_neg (by simp [hRunning])
          rw [hStep] at h
          rw [hInjection]
          obtain ⟨t, hSettles, hDebts, hOwed⟩ := settles_before_injectDebt hColumn hIssued h
          exact ⟨tl', t, hSettles, linesStep_refl tl', hDebts, hOwed⟩
      | other eff =>
          have hStep : s.apply scenario budget (.other eff) = s.applyOther scenario eff := if_neg (by simp [hRunning])
          rw [hStep] at h
          have hLines : ∃ tl, s.Settles tl t' ∧ LinesStep (s.linesToFreeze (.other eff)) tl tl' := by
            cases eff with
            | createTrustline fromPid toPid equivalent limit =>
                have hNot : ¬s.base.Registers (.createTrustline fromPid toPid equivalent limit) := fun hIn => hIn
                simp only [applyOther, if_neg hNot, apply_createTrustline hRunning] at h
                exact settles_of_adds hIssued (createTrustline_adds _ _ _ _ _ _) h
            | freezeParticipant participantId freezeTrustlines =>
                have hNot : ¬s.base.Registers (.freezeParticipant participantId freezeTrustlines) := fun hIn => hIn
                simp only [applyOther, if_neg hNot, apply_freezeParticipant hRunning] at h
                exact settles_of_freeze hIssued h
            | addParticipant participant itls => exact settles_before_addParticipant hRunning hIssued h
          obtain ⟨tl, hSettles, hStep⟩ := hLines
          exact ⟨tl, t', hSettles, hStep, rfl, fun _ hNone => absurd hNone.symm (Option.some_ne_none _)⟩

end Steps

section Tables

/-- The sum of the debts that were put for a debtor, a creditor and an equivalent. -/
def injected (injections : List NewDebt) (a b e : Uuid) : Amount :=
  ((injections.filter (·.key = (a, b, e))).map (·.amount)).sum

/-- What is injected between two participants adds up along the list of injections. -/
theorem injected_append (xs ys : List NewDebt) (a b e : Uuid) :
    injected (xs ++ ys) a b e = injected xs a b e + injected ys a b e := by
  rw [injected, List.filter_append, List.map_append, List.sum_append]
  rfl

theorem injected_singleton (new : NewDebt) (a b e : Uuid) :
    injected [new] a b e = if new.key = (a, b, e) then new.amount else 0 := by
  unfold injected
  split
  · next h => simp [h]
  · next h => simp [h]

/-- The sum of all debts. -/
def totalDebt (t : DebtTable env) : Amount := (t.rows.map (·.amount)).sum

variable {new : NewDebt}

/-- An injection raises the debt of its own key, and leaves what is owed on every other one. -/
theorem Puts.owed (hColumn : env.column = .numeric208) (hCents : new.amount ∈ Grid.multiples cent) (h : Puts t new t')
    (a b e : Uuid) : t'.owed a b e = if new.key = (a, b, e) then raised t new else t.owed a b e := by
  rcases h with ⟨hNone, hInsert⟩ | ⟨d, hSome, hWrite⟩
  · rw [DebtTable.owed_insert hInsert, ← raised_of_none hNone, raised_round hColumn hCents]
  · obtain ⟨hMem, hKey⟩ := DebtTable.getDebt_eq_some_iff.mp hSome
    rw [DebtTable.owed_write hMem hWrite, raised_round hColumn hCents, hKey]

/-- The row of the pair before the debt is put. -/
theorem raised_cases (hColumn : env.column = .numeric208) (hPos : 0 < new.amount)
    (hCents : new.amount ∈ Grid.multiples cent) (hFits : env.column.fits (raised t new) = true) :
    (t.owed new.key.1 new.key.2.1 new.key.2.2 = 0 ∧ raised t new = new.amount) ∨
      ∃ d, t.getDebt new.key.1 new.key.2.1 new.key.2.2 = some d ∧
        t.owed new.key.1 new.key.2.1 new.key.2.2 = d.amount ∧ raised t new = centsDown (d.amount + new.amount) := by
  cases hGet : t.getDebt new.key.1 new.key.2.1 new.key.2.2 with
  | none => exact Or.inl ⟨by rw [DebtTable.owed, hGet]; rfl, raised_of_none hGet⟩
  | some d =>
      refine Or.inr ⟨d, rfl, DebtTable.owed_of_getDebt hGet, ?_⟩
      rw [raised_of_some hGet, decimalAdd_debt hColumn hPos hCents hGet hFits]

/-- Rounding down to cents, an injection raises a debt by its amount at most. -/
theorem raised_le (hColumn : env.column = .numeric208) (hPos : 0 < new.amount)
    (hCents : new.amount ∈ Grid.multiples cent) (hFits : env.column.fits (raised t new) = true) :
    raised t new ≤ t.owed new.key.1 new.key.2.1 new.key.2.2 + new.amount := by
  rcases raised_cases hColumn hPos hCents hFits with ⟨hOwed, hRaised⟩ | ⟨d, hSome, hOwed, hRaised⟩
  · rw [hOwed, hRaised, zero_add]
  · have hRow := (t.amount_positive d (DebtTable.getDebt_eq_some_iff.mp hSome).1).le
    rw [hOwed, hRaised]
    exact centsDown_nonneg_le (by linarith)

/-- An injection of whole cents raises the debt by something. -/
theorem lt_raised (hColumn : env.column = .numeric208) (hPos : 0 < new.amount)
    (hCents : new.amount ∈ Grid.multiples cent) (hFits : env.column.fits (raised t new) = true) :
    t.owed new.key.1 new.key.2.1 new.key.2.2 < raised t new := by
  rcases raised_cases hColumn hPos hCents hFits with ⟨hOwed, hRaised⟩ | ⟨d, hSome, hOwed, hRaised⟩
  · rw [hOwed, hRaised]
    exact hPos
  · rw [hOwed, hRaised]
    exact lt_centsDown_add (t.amount_positive d (DebtTable.getDebt_eq_some_iff.mp hSome).1).le hCents hPos

/-- The raised amount is exact when the sum is an amount of cents. -/
theorem raised_eq_iff (hColumn : env.column = .numeric208) (hPos : 0 < new.amount)
    (hCents : new.amount ∈ Grid.multiples cent) (hFits : env.column.fits (raised t new) = true) :
    raised t new = t.owed new.key.1 new.key.2.1 new.key.2.2 + new.amount ↔
      t.owed new.key.1 new.key.2.1 new.key.2.2 ∈ Grid.multiples cent := by
  rcases raised_cases hColumn hPos hCents hFits with ⟨hOwed, hRaised⟩ | ⟨d, _, hOwed, hRaised⟩
  · rw [hOwed, hRaised, zero_add]
    exact iff_of_true rfl (AddSubgroup.zero_mem _)
  · rw [hOwed, hRaised]
    constructor
    · intro hEq
      have hMem : d.amount + new.amount ∈ Grid.multiples cent := hEq ▸ Grid.roundDown_mem cent (d.amount + new.amount)
      simpa using AddSubgroup.sub_mem _ hMem hCents
    · intro hMem
      exact Grid.roundDown_of_mem cent_pos (AddSubgroup.add_mem _ hMem hCents)

/-- The total of all debts grows by what an injection raises its own debt by. -/
theorem Puts.total (hColumn : env.column = .numeric208) (hCents : new.amount ∈ Grid.multiples cent) (h : Puts t new t') :
    totalDebt t' = totalDebt t + (raised t new - t.owed new.key.1 new.key.2.1 new.key.2.2) := by
  rcases h with ⟨hNone, hInsert⟩ | ⟨d, hSome, hWrite⟩
  · have hOwed : t.owed new.key.1 new.key.2.1 new.key.2.2 = 0 := by
      rw [DebtTable.owed, hNone]
      rfl
    have hRound := raised_round hColumn hCents t
    rw [raised_of_none hNone] at hRound
    rw [totalDebt, (DebtTable.rows_of_insert hInsert).1, List.map_append, List.sum_append, hOwed, raised_of_none hNone]
    simp [hRound, totalDebt]
  · obtain ⟨hMem, _⟩ := DebtTable.getDebt_eq_some_iff.mp hSome
    have hSum := Rows.sum_update (f := fun d => { d with amount := env.column.round (raised t new) })
      (g := Debt.amount) t.id_unique hMem rfl
    rw [raised_round hColumn hCents] at hSum
    rw [totalDebt, totalDebt, (DebtTable.rows_of_write hWrite).1, raised_round hColumn hCents,
      DebtTable.owed_of_getDebt hSome]
    linarith

/-- The rows of a table keep their ids and their keys. -/
theorem Puts.kept (h : Puts t new t') {d : Debt} (hd : d ∈ t.rows) : ∃ d' ∈ t'.rows, d'.id = d.id ∧ d'.key = d.key := by
  rcases h with ⟨_, hInsert⟩ | ⟨other, _, hWrite⟩
  · rw [(DebtTable.rows_of_insert hInsert).1]
    exact ⟨d, List.mem_append_left _ hd, rfl, rfl⟩
  · rw [(DebtTable.rows_of_write hWrite).1]
    by_cases hId : d.id = other.id
    · exact ⟨_, Rows.mem_update_iff.mpr (Or.inl ⟨d, hd, hId, rfl⟩), rfl, rfl⟩
    · exact ⟨d, Rows.mem_update_iff.mpr (Or.inr ⟨hd, hId⟩), rfl, rfl⟩

/-- A live line that is frozen leaves its pair without a limit. -/
def FrozenAt (tl : TrustTable env) (key : Uuid × Uuid × Uuid) : Prop := ∃ l ∈ tl.rows, l.status = .frozen ∧ l.key = key

/-- A frozen line has no limit for new debts. -/
theorem FrozenAt.limit {a b e : Uuid} (h : FrozenAt tl (a, b, e)) : tl.limit a b e = 0 := by
  obtain ⟨l, hl, hFrozen, hKey⟩ := h
  refine TrustTable.limit_eq_zero fun other hOther hActive hOtherKey => ?_
  have hOne := (@TrustTable.live_eq_some_iff _ tl _ _ _ _).mpr ⟨hl, by simp [hFrozen], hKey⟩
  have hTwo := (@TrustTable.live_eq_some_iff _ tl _ _ _ _).mpr ⟨hOther, by simp [hActive], hOtherKey⟩
  have hSame : other = l := Option.some_injective _ (hTwo.symm.trans hOne)
  rw [hSame, hFrozen] at hActive
  cases hActive

/-- A line that is frozen stays so, whatever the effects do. -/
theorem LinesStep.frozenAt {ids : List Uuid} {key : Uuid × Uuid × Uuid} (h : LinesStep ids tl tl') (hAt : FrozenAt tl key) :
    FrozenAt tl' key := by
  obtain ⟨new, hRows⟩ := h.rows
  obtain ⟨l, hl, hFrozen, hKey⟩ := hAt
  have hSame : l.freeze ids = l := if_neg fun hIn => by
    rw [hFrozen] at hIn
    cases hIn.2
  refine ⟨l, ?_, hFrozen, hKey⟩
  rw [hRows]
  exact List.mem_append_left _ (List.mem_map.mpr ⟨l, hl, hSame⟩)

/-- An active line that is not frozen keeps its limit. -/
theorem LinesStep.limit {ids : List Uuid} (h : LinesStep ids tl tl') {l : TrustLine} {a b e : Uuid} (hl : l ∈ tl.rows)
    (hActive : l.status = .active) (hKey : l.key = (a, b, e)) (hKept : l.id ∉ ids) : tl'.limit a b e = l.limit := by
  obtain ⟨new, hRows⟩ := h.rows
  have hSame : l.freeze ids = l := if_neg fun hIn => hKept hIn.1
  refine TrustTable.limit_of_active (l := l) ?_ hActive hKey
  rw [hRows]
  exact List.mem_append_left _ (List.mem_map.mpr ⟨l, hl, hSame⟩)

end Tables

section Runs

/-- The debts that a list of effects puts. -/
def injections (scenario : Scenario) (budget : Option Amount) : InjectSession env → List EventEffect → List NewDebt
  | _, [] => []
  | s, effect :: rest =>
      (s.injectionOf scenario budget effect).toList ++ injections scenario budget (s.apply scenario budget effect) rest

/-- The injections of a list of effects are those of its first part, and of the rest from
the state that the first part leaves. -/
theorem injections_append (s : InjectSession env) (before after : List EventEffect) :
    injections scenario budget s (before ++ after) = injections scenario budget s before ++
      injections scenario budget (before.foldl (apply scenario budget) s) after := by
  induction before generalizing s with
  | nil => rfl
  | cons effect rest ih =>
      rw [List.cons_append, injections, injections, ih, List.append_assoc]
      rfl

/-- What an effect injects is a positive amount in whole cents, within the budget and
granted by the trust lines. -/
theorem injectionOf_eq_some {effect : EventEffect} {new : NewDebt}
    (h : s.injectionOf scenario budget effect = some new) : 0 < new.amount ∧ new.amount ∈ Grid.multiples cent ∧
      ¬s.OverBudget budget new.amount ∧ Granted s.base.flushed.db.trustLines s.base.flushed.db.debts new := by
  cases effect with
  | injectDebt eff =>
      rw [injectionOf] at h
      split at h
      · cases h
      · obtain ⟨hNamed, hBudget, hGranted⟩ := injection_eq_some_iff.mp h
        obtain ⟨hPos, hCents, _⟩ := named_cents hNamed
        exact ⟨hPos, hCents, hBudget, hGranted⟩
  | other eff => cases h
  | unknown => cases h

theorem totalApplied_flush (s : InjectSession env) : s.flush.totalApplied = s.totalApplied := by
  unfold flush
  split
  · rfl
  · split
    · rfl
    · rfl

theorem totalApplied_putDebt (s : InjectSession env) (new : NewDebt) :
    (s.putDebt new).totalApplied = s.totalApplied := by
  unfold putDebt
  split
  · rfl
  · split
    · rfl
    · rfl

/-- The total grows by the amount of the debt that the effect puts. -/
theorem totalApplied_apply (hColumn : env.column = .numeric208) (s : InjectSession env) (effect : EventEffect) :
    (s.apply scenario budget effect).totalApplied =
      match s.injectionOf scenario budget effect with
      | none => s.totalApplied
      | some new => decimalAdd s.totalApplied new.amount := by
  unfold apply
  cases hRunning : s.base.failed with
  | true =>
      have hNone : s.injectionOf scenario budget effect = none := by
        cases effect with
        | injectDebt eff => exact if_pos hRunning
        | other eff => rfl
        | unknown => rfl
      rw [if_pos rfl, hNone]
  | false =>
      rw [if_neg Bool.false_ne_true]
      cases effect with
      | unknown => rfl
      | other eff =>
          simp only [applyOther]
          split
          · exact totalApplied_flush s
          · rfl
      | injectDebt eff =>
          have hInjection : s.injectionOf scenario budget (.injectDebt eff) = s.injection scenario budget eff :=
            if_neg (by simp [hRunning])
          rw [hInjection]
          cases hNew : s.injection scenario budget eff with
          | none =>
              simp only [injectDebt, hNew]
              split
              · rfl
              · rfl
          | some new =>
              simp only [injectDebt_of_some hColumn hNew]
              exact congrArg (decimalAdd · new.amount) (totalApplied_putDebt s new)

/-- What the effects have put so far is an amount of cents, below the limit of the column for each effect. -/
structure TotalWithin (s : InjectSession env) (effects : ℕ) : Prop where
  cents : s.totalApplied ∈ Grid.multiples cent
  nonneg : 0 ≤ s.totalApplied
  le : s.totalApplied ≤ effects * 1000000000000

/-- Within the effects of an event no digit of the total is lost. -/
theorem totalApplied_eq (hColumn : env.column = .numeric208) {n : ℕ} (hTotal : s.TotalWithin n) (hShort : n ≤ 500)
    (effect : EventEffect) : (s.apply scenario budget effect).totalApplied =
      s.totalApplied + ((s.injectionOf scenario budget effect).map NewDebt.amount).getD 0 ∧
      (s.apply scenario budget effect).TotalWithin (n + 1) := by
  have hStep := @totalApplied_apply _ scenario budget hColumn s effect
  cases hNew : s.injectionOf scenario budget effect with
  | none =>
      rw [hNew] at hStep
      simp only at hStep
      refine ⟨hStep.trans (add_zero _).symm, ?_, ?_, ?_⟩
      · exact hStep ▸ hTotal.cents
      · exact hStep ▸ hTotal.nonneg
      · have := hTotal.le
        rw [hStep]
        push_cast
        linarith
  | some new =>
      rw [hNew] at hStep
      simp only at hStep
      obtain ⟨hPos, hCents, _, hGranted⟩ := injectionOf_eq_some hNew
      have hFits := hGranted.fits hPos
      have hAmount := (amount_le_raised hColumn hPos hCents hFits).trans_lt (lt_of_fits hColumn hFits)
      have hLe := hTotal.le
      have hNonneg := hTotal.nonneg
      have hCount : (n : ℚ) ≤ 500 := by exact_mod_cast hShort
      have hExact : decimalAdd s.totalApplied new.amount = s.totalApplied + new.amount := by
        refine decimalAdd_eq (e := -2) ⟨fun _ hNone => (by cases hNone), ?_, ?_⟩
        · rw [show ((decimalContext.base : ℚ) ^ (-2 : ℤ)) = cent by norm_num [decimalContext, cent]]
          exact AddSubgroup.add_mem _ hTotal.cents hCents
        · rw [abs_of_nonneg (by linarith)]
          refine lt_of_lt_of_le (b := 1000000000000000) (by linarith) ?_
          norm_num [decimalContext]
      rw [hExact] at hStep
      refine ⟨hStep, ?_, ?_, ?_⟩
      · exact hStep ▸ AddSubgroup.add_mem _ hTotal.cents hCents
      · rw [hStep]
        linarith
      · rw [hStep]
        push_cast
        linarith

/-- What the effects after a step leave of it. -/
structure Grows (tl : TrustTable env) (t : DebtTable env) (injections : List NewDebt) (tl' : TrustTable env)
    (t' : DebtTable env) : Prop where
  owed_le_owed : ∀ a b e, t.owed a b e ≤ t'.owed a b e
  owed_le : ∀ a b e, t'.owed a b e ≤ t.owed a b e + injected injections a b e
  frozen : ∀ key, FrozenAt tl key → FrozenAt tl' key

theorem Grows.refl (tl : TrustTable env) (t : DebtTable env) : Grows tl t [] tl t :=
  ⟨fun _ _ _ => le_rfl, fun _ _ _ => (add_zero _).ge, fun _ h => h⟩

theorem Grows.trans {tl'' : TrustTable env} {t'' : DebtTable env} {xs ys : List NewDebt} (h : Grows tl t xs tl' t')
    (h' : Grows tl' t' ys tl'' t'') : Grows tl t (xs ++ ys) tl'' t'' where
  owed_le_owed a b e := (h.owed_le_owed a b e).trans (h'.owed_le_owed a b e)
  owed_le a b e := by
    rw [injected_append]
    have := h.owed_le a b e
    have := h'.owed_le a b e
    linarith
  frozen key hAt := h'.frozen key (h.frozen key hAt)

/-- A step grows the debts by its injection, and freezes only lines that carry none. -/
theorem grows_step (hColumn : env.column = .numeric208) {effect : EventEffect}
    (hLines : LinesStep (s.linesToFreeze effect) tl tl')
    (hDebts : DebtsStep (s.injectionOf scenario budget effect) t t') :
    Grows tl t (s.injectionOf scenario budget effect).toList tl' t' := by
  cases hNew : s.injectionOf scenario budget effect with
  | none =>
      rw [hNew] at hDebts
      cases hDebts
      exact ⟨fun _ _ _ => le_rfl, fun _ _ _ => (add_zero _).ge, fun _ hAt => hLines.frozenAt hAt⟩
  | some new =>
      rw [hNew] at hDebts
      obtain ⟨hPos, hCents, _, _⟩ := injectionOf_eq_some hNew
      have hFits := Puts.fits hColumn hCents hDebts
      refine ⟨fun a b e => ?_, fun a b e => ?_, fun _ hAt => hLines.frozenAt hAt⟩
      · rw [Puts.owed hColumn hCents hDebts]
        split
        · next hKey =>
            have := lt_raised hColumn hPos hCents hFits
            rw [hKey] at this
            exact this.le
        · exact le_rfl
      · rw [Puts.owed hColumn hCents hDebts, Option.toList_some, injected_singleton]
        split
        · next hKey =>
            have := raised_le hColumn hPos hCents hFits
            rwa [hKey] at this
        · exact (add_zero _).ge

/-- What a list of effects leaves of the tables before it. -/
theorem run_grows (hColumn : env.column = .numeric208) (effects : List EventEffect) (hIssued : s.Issued)
    (h : (effects.foldl (apply scenario budget) s).Settles tl' t') :
    ∃ tl t, s.Settles tl t ∧ Grows tl t (injections scenario budget s effects) tl' t' := by
  induction effects generalizing s with
  | nil => exact ⟨tl', t', h, Grows.refl tl' t'⟩
  | cons effect rest ih =>
      obtain ⟨tl₁, t₁, hNext, hGrows⟩ := ih (apply_issued hIssued effect) h
      obtain ⟨tl, t, hSettles, hLines, hDebts, _⟩ := settles_before hColumn hIssued hNext
      exact ⟨tl, t, hSettles, (grows_step hColumn hLines hDebts).trans hGrows⟩

end Runs

section Invariants

/-- The session has a row of a debt, flushed or not. -/
def HasDebt (s : InjectSession env) (key : Uuid × Uuid × Uuid) : Prop :=
  key ∈ s.base.flushed.db.debts.rows.map Debt.key ∨ key ∈ s.addedDebts.map NewDebt.key

/-- The session has a debt of a key exactly when something is owed there after the flush. -/
theorem Settles.hasDebt_iff (h : s.Settles tl t) {a b e : Uuid} : s.HasDebt (a, b, e) ↔ 0 < t.owed a b e := by
  rw [HasDebt, ← h.mem_keys_iff]
  constructor
  · intro hIn
    obtain ⟨d, hd, hKey⟩ := List.mem_map.mp hIn
    rw [DebtTable.owed_of_mem hd hKey]
    exact t.amount_positive d hd
  · intro hPos
    by_contra hOut
    refine hPos.ne' (DebtTable.owed_eq_zero_iff.mpr fun d hd hKey => hOut (List.mem_map.mpr ⟨d, hd, hKey⟩))

/-- An effect that keeps the invariants: the debt that it puts has none against it,
raises an amount of cents, and is on a line that the event is not about to
freeze; the lines that it freezes have no debts. -/
structure Keeps (scenario : Scenario) (budget : Option Amount) (s : InjectSession env) (effect : EventEffect) : Prop where
  no_mutual : ∀ new, s.injectionOf scenario budget effect = some new →
    ¬s.HasDebt (new.key.2.1, new.key.1, new.key.2.2)
  in_cents : ∀ new, s.injectionOf scenario budget effect = some new →
    s.base.flushed.db.debts.owed new.key.1 new.key.2.1 new.key.2.2 ∈ Grid.multiples cent
  line_kept : ∀ new, s.injectionOf scenario budget effect = some new → ∀ l,
    s.base.flushed.db.trustLines.live new.line.1 new.line.2.1 new.line.2.2 = some l → l.id ∉ s.base.frozen
  no_debt : ∀ l ∈ s.base.flushed.db.trustLines.rows, l.id ∈ s.linesToFreeze effect →
    ¬s.HasDebt (l.toParticipantId, l.fromParticipantId, l.equivalentId)

/-- The invariants of a ledger. Its tables carry that amounts are positive and on
the grid of the column. -/
structure Healthy (tl : TrustTable env) (t : DebtTable env) : Prop where
  noMutualDebts : NoMutualDebts t
  withinLimits : WithinLimits tl t

/-- Every debt grew by the sum of the debts that were put for its pair, and all
rows are in place. -/
structure Accounted (t : DebtTable env) (injections : List NewDebt) (t' : DebtTable env) : Prop where
  owed : ∀ a b e, t'.owed a b e = t.owed a b e + injected injections a b e
  kept : ∀ d ∈ t.rows, ∃ d' ∈ t'.rows, d'.id = d.id ∧ d'.key = d.key

theorem Accounted.refl (t : DebtTable env) : Accounted t [] t :=
  ⟨fun _ _ _ => (add_zero _).symm, fun d hd => ⟨d, hd, rfl, rfl⟩⟩

/-- Accounts of two lists of injections, one after the other, are an account of both. -/
theorem Accounted.trans {t'' : DebtTable env} {xs ys : List NewDebt} (h : Accounted t xs t') (h' : Accounted t' ys t'') :
    Accounted t (xs ++ ys) t'' where
  owed a b e := by rw [injected_append, h'.owed, h.owed, add_assoc]
  kept d hd := by
    obtain ⟨d', hd', hId, hKey⟩ := h.kept d hd
    obtain ⟨d'', hd'', hId', hKey'⟩ := h'.kept d' hd'
    exact ⟨d'', hd'', hId'.trans hId, hKey'.trans hKey⟩

/-- The limit that a debt is granted on, unless the line is about to be frozen. -/
theorem Settles.limit_of_granted (h : s.Settles tl t) {new : NewDebt}
    (hGranted : Granted s.base.flushed.db.trustLines s.base.flushed.db.debts new)
    (hKept : ∀ l, s.base.flushed.db.trustLines.live new.line.1 new.line.2.1 new.line.2.2 = some l →
      l.id ∉ s.base.frozen) :
    raised s.base.flushed.db.debts new ≤ tl.limit new.line.1 new.line.2.1 new.line.2.2 := by
  obtain ⟨l, hLive, hActive, _, hRoom⟩ := hGranted
  obtain ⟨hl, _, hKey⟩ := TrustTable.live_eq_some_iff.mp hLive
  have hSame : l.freeze s.base.frozen = l := if_neg fun hIn => hKept l hLive hIn.1
  have hMem := h.mem_old hl
  rw [hSame] at hMem
  rwa [TrustTable.limit_of_active hMem hActive hKey]

/-- The lines that an effect freezes are active ones. -/
theorem mem_linesToFreeze {effect : EventEffect} {id : Uuid} (h : id ∈ s.linesToFreeze effect) :
    ∃ l ∈ s.base.flushed.db.trustLines.rows, l.id = id ∧ l.status = .active := by
  unfold linesToFreeze at h
  split at h
  · split at h
    · cases h
    · split at h
      · cases h
      · obtain ⟨l, hl, hId, hActive, _⟩ := mem_incidentLines_iff.mp h
        exact ⟨l, hl, hId, hActive⟩
  · cases h

/-- An effect that injects a debt freezes no lines. -/
theorem linesToFreeze_of_injection {effect : EventEffect} {new : NewDebt}
    (h : s.injectionOf scenario budget effect = some new) : s.linesToFreeze effect = [] := by
  cases effect with
  | injectDebt eff => rfl
  | other eff => cases h
  | unknown => rfl

/-- A limit that no debt loses. -/
theorem limit_step {effect : EventEffect} (h : s.Settles tl t) (hLines : LinesStep (s.linesToFreeze effect) tl tl')
    {a b e : Uuid} {x : Amount} (hPos : 0 < x) (hLimit : x ≤ tl.limit b a e)
    (hKept : ∀ l ∈ s.base.flushed.db.trustLines.rows, l.key = (b, a, e) → l.id ∉ s.linesToFreeze effect) :
    x ≤ tl'.limit b a e := by
  by_cases hActive : ∃ l ∈ tl.rows, l.status = .active ∧ l.key = (b, a, e)
  · obtain ⟨l, hl, hActive, hKey⟩ := hActive
    rw [TrustTable.limit_of_active hl hActive hKey] at hLimit
    have hOut : l.id ∉ s.linesToFreeze effect := by
      rcases h.line_cases hl with ⟨old, hOld, rfl⟩ | ⟨x, _, hInserted⟩
      · rw [TrustLine.freeze_id]
        rw [TrustLine.freeze_key] at hKey
        exact hKept old hOld hKey
      · intro hIn
        obtain ⟨old, hOld, hId, _⟩ := mem_linesToFreeze hIn
        obtain ⟨m, hm, hOldId⟩ := s.base.flushed.db.trustLines.issued old hOld
        obtain ⟨n, hn, _, hNewId⟩ := hInserted.fresh
        rw [hId, hNewId] at hOldId
        exact absurd (env.uuid4_injective hOldId) (by omega)
    rwa [hLines.limit hl hActive hKey hOut]
  · push Not at hActive
    rw [TrustTable.limit_eq_zero hActive] at hLimit
    exact absurd hPos (not_lt.mpr hLimit)

/-- A step that injects nothing and freezes no line with a debt keeps the debts healthy. -/
theorem healthy_lines {effect : EventEffect} (h : s.Settles tl t) (hLines : LinesStep (s.linesToFreeze effect) tl tl')
    (hKeeps : s.Keeps scenario budget effect) (hHealthy : Healthy tl t) : Healthy tl' t := by
  refine ⟨hHealthy.noMutualDebts, fun a b e => ?_⟩
  rcases (t.owed_nonneg a b e).eq_or_lt with hZero | hPos
  · rw [← hZero]
    exact tl'.zero_le_limit b a e
  · refine limit_step h hLines hPos (hHealthy.withinLimits a b e) fun l hl hKey hIn => ?_
    simp only [TrustLine.key, Prod.mk.injEq] at hKey
    refine hKeeps.no_debt l hl hIn ?_
    rw [hKey.1, hKey.2.1, hKey.2.2]
    exact h.hasDebt_iff.mpr hPos

/-- A debt that is put where nothing is owed the other way is one-way like all others. -/
theorem Puts.noMutualDebts (hColumn : env.column = .numeric208) (hCents : new.amount ∈ Grid.multiples cent)
    (hPuts : Puts t new t') (hAgainst : t.owed new.key.2.1 new.key.1 new.key.2.2 = 0) (hNone : NoMutualDebts t) :
    NoMutualDebts t' := by
  intro a b e
  by_cases hLoop : a = b
  · subst hLoop
    exact Or.inl (t'.owed_self a e)
  · rw [Puts.owed hColumn hCents hPuts a b e, Puts.owed hColumn hCents hPuts b a e]
    by_cases hForward : new.key = (a, b, e)
    · rw [hForward] at hAgainst
      rw [if_neg (show new.key ≠ (b, a, e) from fun hEq => hLoop (congrArg Prod.fst (hForward.symm.trans hEq)))]
      exact Or.inr hAgainst
    · rw [if_neg hForward]
      by_cases hBackward : new.key = (b, a, e)
      · rw [hBackward] at hAgainst
        exact Or.inl hAgainst
      · rw [if_neg hBackward]
        exact hNone a b e

/-- A step that keeps the invariants. -/
theorem healthy_step (hColumn : env.column = .numeric208) {effect : EventEffect} (h : s.Settles tl t)
    (hLines : LinesStep (s.linesToFreeze effect) tl tl') (hDebts : DebtsStep (s.injectionOf scenario budget effect) t t')
    (hOwed : ∀ new, s.injectionOf scenario budget effect = some new → t.owed new.key.1 new.key.2.1 new.key.2.2 =
      s.base.flushed.db.debts.owed new.key.1 new.key.2.1 new.key.2.2)
    (hKeeps : s.Keeps scenario budget effect) (hHealthy : Healthy tl t) :
    Healthy tl' t' ∧ Accounted t (s.injectionOf scenario budget effect).toList t' ∧
      totalDebt t' = totalDebt t + ((s.injectionOf scenario budget effect).map NewDebt.amount).getD 0 := by
  cases hNew : s.injectionOf scenario budget effect with
  | none =>
      rw [hNew] at hDebts
      cases hDebts
      exact ⟨healthy_lines h hLines hKeeps hHealthy, Accounted.refl t, (add_zero _).symm⟩
  | some new =>
      rw [hNew] at hDebts
      obtain ⟨hPos, hCents, _, hGranted⟩ := injectionOf_eq_some hNew
      have hSame := hOwed new hNew
      have hRow := hKeeps.in_cents new hNew
      rw [← hSame] at hRow
      have hFits := Puts.fits hColumn hCents hDebts
      have hRaised := (raised_eq_iff hColumn hPos hCents hFits).mpr hRow
      have hOwedAfter := Puts.owed hColumn hCents hDebts
      have hAgainst : t.owed new.key.2.1 new.key.1 new.key.2.2 = 0 := by
        have hNone := hKeeps.no_mutual new hNew
        rw [h.hasDebt_iff, not_lt] at hNone
        exact le_antisymm hNone (t.owed_nonneg _ _ _)
      rw [linesToFreeze_of_injection hNew] at hLines
      refine ⟨⟨Puts.noMutualDebts hColumn hCents hDebts hAgainst hHealthy.noMutualDebts, fun a b e => ?_⟩,
        ⟨fun a b e => ?_, fun d hd => Puts.kept hDebts hd⟩, ?_⟩
      · have hKept : ∀ {x : Amount} {b a e : Uuid}, 0 < x → x ≤ tl.limit b a e → x ≤ tl'.limit b a e := by
          intro x b a e hx hLimit
          refine @limit_step _ _ _ _ _ .unknown h hLines _ _ _ _ hx hLimit fun _ _ _ hIn => absurd hIn List.not_mem_nil
        rw [hOwedAfter a b e]
        split
        · next hKey =>
            have hRoom := h.limit_of_granted hGranted (hKeeps.line_kept new hNew)
            have hSameRaised : raised s.base.flushed.db.debts new = raised t new := by
              rw [hRaised, (raised_eq_iff hColumn hPos hCents (hGranted.fits hPos)).mpr (hKeeps.in_cents new hNew), hSame]
            have hPosRaised := hPos.trans_le (amount_le_raised hColumn hPos hCents hFits)
            rw [hSameRaised, NewDebt.line, hKey] at hRoom
            exact hKept hPosRaised hRoom
        · rcases (t.owed_nonneg a b e).eq_or_lt with hZero | hOwedPos
          · rw [← hZero]
            exact tl'.zero_le_limit b a e
          · exact hKept hOwedPos (hHealthy.withinLimits a b e)
      · rw [hOwedAfter a b e, Option.toList_some, injected_singleton]
        split
        · next hKey =>
            rw [hRaised]
            rw [hKey]
        · exact (add_zero _).symm
      · rw [Puts.total hColumn hCents hDebts, hRaised]
        simp

end Invariants

section Events

/-- What an event leaves of a ledger: a healthy one, with its debts accounted for. -/
structure EventKeeps (budget : Option Amount) (sim : SimDb env) (injections : List NewDebt)
    (after : InjectSession env) : Prop where
  healthy : Healthy after.base.flushed.db.trustLines after.base.flushed.db.debts
  accounted : Accounted sim.db.debts injections after.base.flushed.db.debts
  total : totalDebt after.base.flushed.db.debts = totalDebt sim.db.debts + after.totalApplied
  budget : ∀ m ∈ budget, after.totalApplied ≤ m

/-- After any list of effects all ids of the session have been issued. -/
theorem foldl_issued (sim : SimDb env) (pids : Dict Pid Uuid) (effects : List EventEffect) :
    (effects.foldl (apply scenario budget) (start sim pids)).Issued :=
  Transition.foldl_invariant effects (start sim pids) (fun _ hId => nomatch hId) fun _ effect h => apply_issued h effect

/-- The total of the effects of an event. -/
theorem foldl_totalWithin (hColumn : env.column = .numeric208) (sim : SimDb env) (pids : Dict Pid Uuid)
    {effects : List EventEffect} (hShort : effects.length ≤ 500) :
    (effects.foldl (apply scenario budget) (start sim pids)).TotalWithin effects.length := by
  induction effects using List.reverseRecOn with
  | nil => exact ⟨AddSubgroup.zero_mem _, le_rfl, by simp [start]⟩
  | append_singleton before effect ih =>
      rw [List.length_append, List.length_singleton] at hShort ⊢
      rw [List.foldl_append, List.foldl_cons, List.foldl_nil]
      exact (totalApplied_eq hColumn (ih (by omega)) (by omega) effect).2

/-- A run of effects that keep the invariants. -/
theorem healthy_run (hColumn : env.column = .numeric208) {sim : SimDb env} {pids : Dict Pid Uuid}
    (hHealthy : Healthy sim.db.trustLines sim.db.debts) {effects : List EventEffect} (hShort : effects.length ≤ 500)
    {finish : InjectSession env}
    (run : Transition.Run (apply scenario budget) (Keeps scenario budget) (start sim pids) effects finish)
    (h : finish.Settles tl t) :
    Healthy tl t ∧ Accounted sim.db.debts (injections scenario budget (start sim pids) effects) t ∧
      totalDebt t = totalDebt sim.db.debts + finish.totalApplied := by
  induction run generalizing tl t with
  | nil =>
      obtain ⟨rfl, rfl⟩ := (start_settles sim pids).unique h
      exact ⟨hHealthy, Accounted.refl _, (add_zero _).symm⟩
  | @snoc trace s effect prior last ih =>
      have hFinish := WriteBehind.finish_eq prior
      have hIssued : s.Issued := hFinish ▸ foldl_issued sim pids trace
      rw [List.length_append, List.length_singleton] at hShort
      have hWithin : s.TotalWithin trace.length := hFinish ▸ foldl_totalWithin hColumn sim pids (by omega)
      obtain ⟨tl₀, t₀, hSettles, hLines, hDebts, hOwed⟩ := settles_before hColumn hIssued h
      obtain ⟨hBefore, hAccounted, hTotal⟩ := ih (by omega) hSettles
      obtain ⟨hAfter, hStep, hStepTotal⟩ := healthy_step hColumn hSettles hLines hDebts hOwed last hBefore
      refine ⟨hAfter, ?_, ?_⟩
      · rw [injections_append, ← hFinish, injections, injections, List.append_nil]
        exact hAccounted.trans hStep
      · rw [hStepTotal, hTotal, (totalApplied_eq hColumn hWithin (by omega) effect).1, add_assoc]

/-- A budget that the metadata set is positive. -/
theorem maxTotalAmount_pos {metadata : ParsedDecimal} {m : Amount} (h : m ∈ maxTotalAmount metadata) : 0 < m := by
  cases metadata with
  | unreadable => cases h
  | notANumber => cases h
  | infinity negative => cases h
  | number x =>
      simp only [maxTotalAmount, Option.mem_def] at h
      split at h
      · next hPos =>
          cases h
          exact hPos
      · cases h

/-- The total stays within the budget. -/
theorem totalApplied_le (hColumn : env.column = .numeric208) (sim : SimDb env) (pids : Dict Pid Uuid) (metadata : ParsedDecimal) (effects : List EventEffect) :
    ∀ m ∈ maxTotalAmount metadata,
      (effects.foldl (apply scenario (maxTotalAmount metadata)) (start sim pids)).totalApplied ≤ m := by
  intro m hm
  refine Transition.foldl_invariant (P := fun s : InjectSession env => s.totalApplied ≤ m) effects (start sim pids) ?_ ?_
  · exact (maxTotalAmount_pos hm).le
  · intro s effect h
    rw [totalApplied_apply hColumn]
    cases hNew : s.injectionOf scenario (maxTotalAmount metadata) effect with
    | none => exact h
    | some new =>
        obtain ⟨_, _, hBudget, _⟩ := injectionOf_eq_some hNew
        exact not_lt.mp fun hOver => hBudget ⟨m, hm, hOver⟩

/-- A step that does not keep the invariants is seen in the tables after the event. -/
theorem keeps_of_healthy (hColumn : env.column = .numeric208) {t₀ : DebtTable env} {effect : EventEffect}
    {before after : List NewDebt} {tl₁ tl₂ : TrustTable env} {t₁ t₂ : DebtTable env} (h : s.Settles tl t)
    (hLines : LinesStep (s.linesToFreeze effect) tl tl₁) (hDebts : DebtsStep (s.injectionOf scenario budget effect) t t₁)
    (hOwed : ∀ new, s.injectionOf scenario budget effect = some new → t.owed new.key.1 new.key.2.1 new.key.2.2 =
      s.base.flushed.db.debts.owed new.key.1 new.key.2.1 new.key.2.2)
    (hBefore : ∀ a b e, t.owed a b e ≤ t₀.owed a b e + injected before a b e) (hAfter : Grows tl₁ t₁ after tl₂ t₂)
    (hHealthy : Healthy tl₂ t₂) (hAccounted : ∀ a b e, t₂.owed a b e = t₀.owed a b e + injected
      (before ++ (s.injectionOf scenario budget effect).toList ++ after) a b e) : s.Keeps scenario budget effect where
  no_mutual new hNew hAgainst := by
    have hStep := grows_step hColumn hLines hDebts
    rw [hNew] at hDebts
    obtain ⟨hPos, hCents, _, _⟩ := injectionOf_eq_some hNew
    have hForward : 0 < t₂.owed new.key.1 new.key.2.1 new.key.2.2 := by
      refine (hPos.trans_le ?_).trans_le (hAfter.owed_le_owed _ _ _)
      rw [Puts.owed hColumn hCents hDebts, if_pos rfl]
      exact amount_le_raised hColumn hPos hCents (Puts.fits hColumn hCents hDebts)
    have hBackward : 0 < t₂.owed new.key.2.1 new.key.1 new.key.2.2 :=
      ((h.hasDebt_iff.mp hAgainst).trans_le (hStep.owed_le_owed _ _ _)).trans_le (hAfter.owed_le_owed _ _ _)
    rcases hHealthy.noMutualDebts new.key.1 new.key.2.1 new.key.2.2 with hZero | hZero
    · exact hForward.ne' hZero
    · exact hBackward.ne' hZero
  in_cents new hNew := by
    rw [hNew] at hDebts hAccounted
    obtain ⟨hPos, hCents, _, _⟩ := injectionOf_eq_some hNew
    have hFits := Puts.fits hColumn hCents hDebts
    rw [← hOwed new hNew, ← raised_eq_iff hColumn hPos hCents hFits]
    refine le_antisymm (raised_le hColumn hPos hCents hFits) ?_
    have hFinal := hAfter.owed_le new.key.1 new.key.2.1 new.key.2.2
    have hPrior := hBefore new.key.1 new.key.2.1 new.key.2.2
    rw [Puts.owed hColumn hCents hDebts, if_pos rfl, hAccounted, injected_append, injected_append, Option.toList_some,
      injected_singleton, if_pos rfl] at hFinal
    linarith
  line_kept new hNew l hLive hFrozen := by
    rw [hNew] at hDebts
    obtain ⟨hPos, hCents, _, hGranted⟩ := injectionOf_eq_some hNew
    obtain ⟨l', hLive', hActive, _⟩ := hGranted
    cases hLive.symm.trans hLive'
    obtain ⟨hl, _, hKey⟩ := TrustTable.live_eq_some_iff.mp hLive
    have hAt : FrozenAt tl (new.key.2.1, new.key.1, new.key.2.2) :=
      ⟨_, h.mem_old hl, by rw [TrustLine.freeze, if_pos ⟨hFrozen, hActive⟩], (l.freeze_key _).trans hKey⟩
    have hLimit := (hAfter.frozen _ (hLines.frozenAt hAt)).limit
    have hWithin := hHealthy.withinLimits new.key.1 new.key.2.1 new.key.2.2
    have hOwedAfter := hAfter.owed_le_owed new.key.1 new.key.2.1 new.key.2.2
    rw [Puts.owed hColumn hCents hDebts, if_pos rfl] at hOwedAfter
    rw [hLimit] at hWithin
    have hRaised := amount_le_raised hColumn hPos hCents (Puts.fits hColumn hCents hDebts)
    linarith
  no_debt l hl hIn hDebt := by
    have hStep := grows_step hColumn hLines hDebts
    obtain ⟨other, hOther, hId, hActive⟩ := mem_linesToFreeze hIn
    cases Rows.eq_of_column s.base.flushed.db.trustLines.id_unique hOther hl hId
    have hAt : FrozenAt tl₁ l.key := by
      obtain ⟨rows, hRows⟩ := hLines.rows
      refine ⟨(l.freeze s.base.frozen).freeze (s.linesToFreeze effect), ?_, ?_, ?_⟩
      · rw [hRows]
        exact List.mem_append_left _ (List.mem_map_of_mem (h.mem_old hl))
      · rw [TrustLine.freeze_freeze, TrustLine.freeze, if_pos ⟨List.mem_append_right _ hIn, hActive⟩]
      · rw [TrustLine.freeze_key, TrustLine.freeze_key]
    have hLimit := (hAfter.frozen _ hAt).limit
    have hWithin := hHealthy.withinLimits l.toParticipantId l.fromParticipantId l.equivalentId
    rw [hLimit] at hWithin
    have hPos := ((h.hasDebt_iff.mp hDebt).trans_le (hStep.owed_le_owed _ _ _)).trans_le (hAfter.owed_le_owed _ _ _)
    exact absurd hPos (not_lt.mpr hWithin)

/-- An event that commits on a healthy ledger leaves a healthy one and accounts for
its debts exactly when each of its effects keeps the invariants. -/
theorem injected_debts_iff (hColumn : env.column = .numeric208) (scenario : Scenario) (metadata : ParsedDecimal)
    (pidToParticipantId : Dict Pid Uuid) (effects : List EventEffect) (sim : SimDb env) (after : InjectSession env)
    (hHealthy : Healthy sim.db.trustLines sim.db.debts)
    (hCommits : applyInjectEvent scenario metadata pidToParticipantId effects sim = some after) :
    EventKeeps (maxTotalAmount metadata) sim (injections scenario (maxTotalAmount metadata)
        (start sim pidToParticipantId) (effects.take 500)) after ↔
      Transition.Run (apply scenario (maxTotalAmount metadata)) (Keeps scenario (maxTotalAmount metadata))
        (start sim pidToParticipantId) (effects.take 500)
        ((effects.take 500).foldl (apply scenario (maxTotalAmount metadata)) (start sim pidToParticipantId)) := by
  have hFinal : ∃ tl t, ((effects.take 500).foldl (apply scenario (maxTotalAmount metadata))
      (start sim pidToParticipantId)).Settles tl t ∧ after = ((effects.take 500).foldl
        (apply scenario (maxTotalAmount metadata)) (start sim pidToParticipantId)).settle tl t := by
    rw [applyInjectEvent] at hCommits
    split at hCommits
    · cases hCommits
    · simp only at hCommits
      split at hCommits
      · cases hCommits
      · next hOk =>
          cases hCommits
          by_contra hNone
          refine hOk ((flush_failed_iff (foldl_issued sim pidToParticipantId _)).mpr fun tl t h => hNone ?_)
          exact ⟨tl, t, h, h.flush_eq⟩
  obtain ⟨tl, t, hSettles, rfl⟩ := hFinal
  generalize hTaken : effects.take 500 = taken at hSettles ⊢
  constructor
  · intro hKeeps
    have hRun : ∀ before, before <+: taken → Transition.Run (apply scenario (maxTotalAmount metadata))
        (Keeps scenario (maxTotalAmount metadata)) (start sim pidToParticipantId) before
        (before.foldl (apply scenario (maxTotalAmount metadata)) (start sim pidToParticipantId)) := by
      intro before hPrefix
      induction before using List.reverseRecOn with
      | nil => exact Transition.Run.nil
      | append_singleton before effect ih =>
          refine WriteBehind.run_append_iff.mpr ⟨ih ((List.prefix_append _ _).trans hPrefix), ?_⟩
          -- The effects after this one only let debts grow and lines stay frozen.
          obtain ⟨rest, rfl⟩ := hPrefix
          have hIssued : (before.foldl (apply scenario (maxTotalAmount metadata)) (start sim pidToParticipantId)).Issued :=
            foldl_issued sim pidToParticipantId before
          rw [List.foldl_append, List.foldl_append, List.foldl_cons, List.foldl_nil] at hSettles
          obtain ⟨tl₁, t₁, hNext, hAfter⟩ := run_grows hColumn rest (apply_issued hIssued effect) hSettles
          obtain ⟨tl₀, t₀, hHere, hLines, hDebts, hOwed⟩ := settles_before hColumn hIssued hNext
          obtain ⟨_, _, hStart, hBefore⟩ := run_grows hColumn before
            (start_settles sim pidToParticipantId).issued hHere
          obtain ⟨_, hSame⟩ := (start_settles sim pidToParticipantId).unique hStart
          refine keeps_of_healthy hColumn hHere hLines hDebts hOwed (hSame ▸ hBefore.owed_le) hAfter hKeeps.healthy ?_
          intro a b e
          have hOwedAfter := hKeeps.accounted.owed a b e
          rw [injections_append, injections_append, injections, injections, List.append_nil] at hOwedAfter
          simp only [List.foldl_append, List.foldl_cons, List.foldl_nil] at hOwedAfter
          exact hOwedAfter
    exact hRun taken (List.prefix_refl _)
  · intro run
    have hShort : taken.length ≤ 500 := hTaken ▸ List.length_take_le 500 effects
    obtain ⟨hAfter, hAccounted, hTotal⟩ := healthy_run hColumn hHealthy hShort run hSettles
    exact ⟨hAfter, hAccounted, hTotal, totalApplied_le hColumn sim pidToParticipantId metadata taken⟩

/-- The debts are healthy where no row has a counterpart and every row keeps the limit of
its line. -/
theorem healthy_of_rows (hMutual : ∀ d ∈ t.rows, t.owed d.creditorId d.debtorId d.equivalentId = 0)
    (hLimits : ∀ d ∈ t.rows, d.amount ≤ tl.limit d.creditorId d.debtorId d.equivalentId) : Healthy tl t where
  noMutualDebts a b e := by
    rcases t.owed_cases a b e with hZero | ⟨d, hd, hKey, _⟩
    · exact Or.inl hZero
    · simp only [Debt.key, Prod.mk.injEq] at hKey
      have hAgainst := hMutual d hd
      rw [hKey.1, hKey.2.1, hKey.2.2] at hAgainst
      exact Or.inr hAgainst
  withinLimits a b e := by
    rcases t.owed_cases a b e with hZero | ⟨d, hd, hKey, hOwed⟩
    · rw [hZero]
      exact tl.zero_le_limit b a e
    · simp only [Debt.key, Prod.mk.injEq] at hKey
      have hLimit := hLimits d hd
      rw [hKey.1, hKey.2.1, hKey.2.2] at hLimit
      rwa [hOwed]

/-- A and B, with lines of ten both ways; A owes one to B. -/
def owingPair : Scenario × Dict Pid Uuid × SimDb (Env.sample .numeric208 true) :=
  let lines (tl : TrustTable (Env.sample .numeric208 true)) (a b : Uuid) :=
    (tl.insert a b 1 10 defaultTlPolicy).toOption.getD tl
  let debts : DebtTable (Env.sample .numeric208 true) := (DebtTable.empty.insert 1 2 1 1).toOption.getD .empty
  (⟨"UAH", "", [⟨"A", "active"⟩, ⟨"B", "active"⟩], []⟩, Dict.ofList [("A", 1), ("B", 2)],
    ⟨{ Db.empty with trustLines := lines (lines .empty 1 2) 2 1, debts := debts },
      Dict.ofList [("A", .active), ("B", .active)]⟩)

/-- A debt of B to A. -/
def debtAgainst : List EventEffect := [.injectDebt ⟨"A", "", "B", "", "UAH", .number 2⟩]

/-- A debt of A to B. -/
def debtAlong : List EventEffect := [.injectDebt ⟨"B", "", "A", "", "UAH", .number 2⟩]

theorem owingPair_healthy : Healthy owingPair.2.2.db.trustLines owingPair.2.2.db.debts :=
  healthy_of_rows (by decide +kernel) (by decide +kernel)

/-- A debt of B to A is injected although A owes to B, and both rows stay. -/
theorem injected_mutual_debt : Healthy owingPair.2.2.db.trustLines owingPair.2.2.db.debts ∧
    ∃ after, applyInjectEvent owingPair.1 .unreadable owingPair.2.1 debtAgainst owingPair.2.2 = some after ∧
      ¬NoMutualDebts after.base.flushed.db.debts := by
  refine ⟨owingPair_healthy, ?_⟩
  have hOwed : (applyInjectEvent owingPair.1 .unreadable owingPair.2.1 debtAgainst owingPair.2.2).map (fun after =>
      (after.base.flushed.db.debts.owed 1 2 1, after.base.flushed.db.debts.owed 2 1 1)) = some (1, 2) := by
    decide +kernel
  obtain ⟨after, hAfter, hEq⟩ := Option.map_eq_some_iff.mp hOwed
  rw [Prod.mk.injEq] at hEq
  refine ⟨after, hAfter, fun hNone => ?_⟩
  rcases hNone 1 2 1 with hZero | hZero
  · rw [hEq.1] at hZero
    exact absurd hZero (by norm_num)
  · rw [hEq.2] at hZero
    exact absurd hZero (by norm_num)

/-- A debt of 1 into which 2 are injected is 3 after the event, which keeps the debts sound
exactly when each of its steps does. -/
theorem injected_debts_iff_along : ∃ after,
    applyInjectEvent owingPair.1 .unreadable owingPair.2.1 debtAlong owingPair.2.2 = some after ∧
      after.base.flushed.db.debts.owed 1 2 1 = 3 ∧
      (EventKeeps (maxTotalAmount .unreadable) owingPair.2.2 (injections owingPair.1 (maxTotalAmount .unreadable)
          (start owingPair.2.2 owingPair.2.1) (debtAlong.take 500)) after ↔
        Transition.Run (apply owingPair.1 (maxTotalAmount .unreadable)) (Keeps owingPair.1 (maxTotalAmount .unreadable))
          (start owingPair.2.2 owingPair.2.1) (debtAlong.take 500)
          ((debtAlong.take 500).foldl (apply owingPair.1 (maxTotalAmount .unreadable))
            (start owingPair.2.2 owingPair.2.1))) := by
  have hOwed : (applyInjectEvent owingPair.1 .unreadable owingPair.2.1 debtAlong owingPair.2.2).map (fun after =>
      after.base.flushed.db.debts.owed 1 2 1) = some 3 := by
    decide +kernel
  obtain ⟨after, hAfter, hEq⟩ := Option.map_eq_some_iff.mp hOwed
  exact ⟨after, hAfter, hEq, injected_debts_iff rfl owingPair.1 .unreadable owingPair.2.1 debtAlong owingPair.2.2 after
    owingPair_healthy hAfter⟩

end Events

end InjectSession

end GeoLedger

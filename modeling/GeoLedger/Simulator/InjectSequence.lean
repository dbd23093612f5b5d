import Mathlib
import GeoLedger.Library.WriteBehind
import GeoLedger.Simulator.InjectSteps

/-! An event and its effects one after another. An effect that is alone sees what
the previous ones left in the tables; in an event it sees what they have flushed.
Where nothing that waits for the flush matters to an effect, the two agree. -/
namespace GeoLedger
open Outcomes

variable {env : Env}

namespace InjectSession
open InjectState

variable {s : InjectSession env} {tl : TrustTable env} {t : DebtTable env} {scenario : Scenario}
  {budget : Option Amount}

/-- An effect as an event of its own. One that would be undone is skipped. -/
def alone (scenario : Scenario) (budget : Option Amount) (s : InjectSession env) (effect : EventEffect) :
    InjectSession env :=
  let after := (s.apply scenario budget effect).flush
  if after.base.failed then s else after

/-- The lines that an effect adds to the session. -/
def newLines (scenario : Scenario) (s : InjectSession env) : InjectEffect → List NewLine
  | .addParticipant (some data) itls =>
      match env.directory.participantByPid (strip data.id) with
      | none => []
      | some p => (s.flush.base.register p (participantStatus data.status)).initialLines scenario p.id
          (reachedEntries scenario itls)
  | .addParticipant none _ => []
  | .createTrustline fromPid toPid equivalent limit =>
      (s.base.notLive (s.base.namedLine scenario fromPid toPid equivalent limit)).toList
  | .freezeParticipant _ _ => []

/-- What waits for the flush does not matter to a debt. -/
structure DebtIndependent (s : InjectSession env) (new : NewDebt) : Prop where
  /-- The line of a debt that is granted is not about to be frozen. -/
  line_kept : ∀ l, s.base.flushed.db.trustLines.live new.line.1 new.line.2.1 new.line.2.2 = some l →
    Granted s.base.flushed.db.trustLines s.base.flushed.db.debts new → l.id ∉ s.base.frozen
  /-- No row of the pair is about to be inserted. -/
  debt_new : Granted s.base.flushed.db.trustLines s.base.flushed.db.debts new →
    new.key ∉ s.addedDebts.map NewDebt.key
  no_self_loop : Granted s.base.flushed.db.trustLines s.base.flushed.db.debts new → new.key.1 ≠ new.key.2.1
  /-- No line with room for the debt is about to be inserted. -/
  line_added : ∀ x ∈ s.base.added, x.key = new.line → new.key.1 ≠ new.key.2.1 → ∀ limit ∈ x.limit,
    0 < env.column.round limit → env.column.round limit < raised s.flush.base.flushed.db.debts new

/-- What waits for the flush does not matter to an effect, and its own flush succeeds. -/
def Independent (scenario : Scenario) (budget : Option Amount) (s : InjectSession env) : EventEffect → Prop
  | .unknown => True
  | .injectDebt eff => ¬s.Raises scenario budget eff ∧
      ∀ new, s.named scenario eff = some new → ¬s.OverBudget budget new.amount → s.DebtIndependent new
  | .other (.freezeParticipant participantId freezeTrustlines) => freezeTrustlines = true →
      ∀ p, s.base.Suspends participantId p → ∀ x ∈ s.base.added, x.key.1 ≠ p.id ∧ x.key.2.1 ≠ p.id
  | .other (.createTrustline fromPid toPid equivalent limit) =>
      ∀ x ∈ s.newLines scenario (.createTrustline fromPid toPid equivalent limit),
        x.key ∉ s.base.added.map NewLine.key ∧ x.Storable env
  | .other (.addParticipant participant itls) => ¬s.base.Overflows (.addParticipant participant itls) ∧
      (s.base.Registers (.addParticipant participant itls) →
        ((s.newLines scenario (.addParticipant participant itls)).map NewLine.key).Nodup ∧
          ∀ x ∈ s.newLines scenario (.addParticipant participant itls), x.Storable env)

section Agreement

theorem settle_settle (s : InjectSession env) (tl tl' : TrustTable env) (t t' : DebtTable env) :
    (s.settle tl t).settle tl' t' = s.settle tl' t' := rfl

theorem settle_account (s : InjectSession env) (eq : String) (creditorPid debtorPid : Pid) (amount : Amount)
    (tl : TrustTable env) (t : DebtTable env) : (s.account eq creditorPid debtorPid amount).settle tl t =
      (s.settle tl t).account eq creditorPid debtorPid amount := rfl

/-- A step of the session whose flush is a step of the settled session alone. -/
def Agrees (scenario : Scenario) (budget : Option Amount) (s : InjectSession env) (tl : TrustTable env)
    (t : DebtTable env) (effect : EventEffect) : Prop :=
  ∃ tl' t', (s.apply scenario budget effect).Settles tl' t' ∧
    (s.settle tl t).alone scenario budget effect = (s.apply scenario budget effect).settle tl' t'

/-- An effect that is applied alone and settles is the effect followed by its flush. -/
theorem alone_eq {effect : EventEffect} {tl' : TrustTable env} {t' : DebtTable env}
    (h : (s.apply scenario budget effect).Settles tl' t') :
    s.alone scenario budget effect = (s.apply scenario budget effect).settle tl' t' := by
  have hRunning : ((s.apply scenario budget effect).settle tl' t').base.failed = false := h.running
  rw [alone, h.flush_eq, hRunning, if_neg Bool.false_ne_true]

/-- A step that changes nothing, for the session and for the settled one. -/
theorem agrees_of_skip {effect : EventEffect} (h : s.Settles tl t) (hStep : s.apply scenario budget effect = s)
    (hSettled : (s.settle tl t).apply scenario budget effect = s.settle tl t) : s.Agrees scenario budget tl t effect := by
  refine ⟨tl, t, by rwa [hStep], ?_⟩
  have hStill : ((s.settle tl t).apply scenario budget effect).Settles tl t := by
    rw [hSettled]
    exact settles_settle h
  have hTwice : (s.settle tl t).settle tl t = s.settle tl t := rfl
  rw [alone_eq hStill, hSettled, hStep, hTwice]

/-- An effect of a running session is applied by its kind, and unknown ones are skipped. -/
theorem apply_running {effect : EventEffect} (h : s.Settles tl t) : s.apply scenario budget effect =
    match effect with
    | .injectDebt eff => s.injectDebt scenario budget eff
    | .other eff => s.applyOther scenario eff
    | .unknown => s := by
  have hGo : ¬s.base.failed = true := by
    rw [h.running]
    exact Bool.false_ne_true
  exact if_neg hGo

/-- An effect that does not register runs on the base. -/
theorem apply_other (scenario : Scenario) (budget : Option Amount) {eff : InjectEffect} (h : s.Settles tl t) (hNot : ¬s.base.Registers eff) :
    s.apply scenario budget (.other eff) = { s with base := s.base.apply scenario eff } := by
  rw [apply_running h]
  simp only [applyOther, if_neg hNot]

/-- An effect on the base that does to the settled session what it does to this one. -/
theorem agrees_of_base {eff : InjectEffect} {base settled : InjectState env} {tl' : TrustTable env}
    (h : s.Settles tl t) (hNot : ∀ base : InjectState env, ¬base.Registers eff)
    (hStep : s.base.apply scenario eff = base) (hSettled : (s.settle tl t).base.apply scenario eff = settled)
    (hBase : ({ s with base := base } : InjectSession env).Settles tl' t)
    (hAlone : ({ s.settle tl t with base := settled } : InjectSession env).Settles tl' t)
    (hSame : ({ s.settle tl t with base := settled } : InjectSession env).settle tl' t =
      ({ s with base := base } : InjectSession env).settle tl' t) :
    s.Agrees scenario budget tl t (.other eff) := by
  have hApply : s.apply scenario budget (.other eff) = { s with base := base } := by
    rw [apply_other scenario budget h (hNot _), hStep]
  have hApplySettled : (s.settle tl t).apply scenario budget (.other eff) = { s.settle tl t with base := settled } := by
    rw [apply_other scenario budget (settles_settle h) (hNot _), hSettled]
  refine ⟨tl', t, by rwa [hApply], ?_⟩
  rw [alone_eq (by rwa [hApplySettled]), hApplySettled, hApply, hSame]

/-- `create_trustline`. -/
theorem agrees_createTrustline {fromPid toPid equivalent : String} {limit : ParsedDecimal} (h : s.Settles tl t)
    (hIndependent : s.Independent scenario budget (.other (.createTrustline fromPid toPid equivalent limit))) :
    s.Agrees scenario budget tl t (.other (.createTrustline fromPid toPid equivalent limit)) := by
  have hNot : ∀ base : InjectState env, ¬base.Registers (.createTrustline fromPid toPid equivalent limit) :=
    fun _ hIn => hIn
  have hStep := @apply_createTrustline _ scenario _ h.running fromPid toPid equivalent limit
  have hSettled := @apply_createTrustline _ scenario _ (settles_settle h).running fromPid toPid equivalent limit
  obtain ⟨d, hOver⟩ := s.base.createTrustline_withTables scenario fromPid toPid equivalent limit
  cases hNamed : s.base.namedLine scenario fromPid toPid equivalent limit with
  | none =>
      rw [hNamed] at hOver
      exact agrees_of_base h hNot (hStep.trans (hOver s.base.tables)) (hSettled.trans (hOver ⟨tl, t, [], []⟩))
        ⟨h.running, h.lines, h.debts, h.issued⟩ ⟨h.running, s.base.lines_settle tl, rfl, (settles_settle h).issued⟩ rfl
  | some new =>
      rw [hNamed] at hOver
      obtain ⟨entry, hOver⟩ := hOver
      have hAdds := s.base.adds_putLine d new entry
      have hAddsSettled := (s.settle tl t).base.adds_putLine d new entry
      have hBase := hStep.trans (hOver s.base.tables)
      have hAlone := hSettled.trans (hOver ⟨tl, t, [], []⟩)
      by_cases hLive : new.key ∈ s.base.flushed.db.trustLines.liveKeys
      · have hLiveSettled : new.key ∈ tl.liveKeys := h.mem_liveKeys_iff.mpr (Or.inl hLive)
        refine agrees_of_base h hNot (hBase.trans (if_pos hLive)) (hAlone.trans (if_pos hLiveSettled))
          ⟨h.running, h.lines, h.debts, h.issued⟩ ⟨h.running, s.base.lines_settle tl, rfl, (settles_settle h).issued⟩ rfl
      · have hNew : s.base.notLive (some new) = some new := mem_notLive_iff.mpr ⟨rfl, hLive⟩
        obtain ⟨hPending, hFits⟩ := hIndependent new (by rw [newLines, hNamed, hNew]; exact List.mem_singleton.mpr rfl)
        have hLiveSettled : new.key ∉ tl.liveKeys := fun hIn => (h.mem_liveKeys_iff.mp hIn).elim hLive hPending
        have hPos : ∀ limit ∈ new.limit, 0 ≤ env.column.round limit := fun limit hLimit =>
          env.column.round_nonneg (s.base.namedLine_pos hNamed limit hLimit).le
        obtain ⟨tl', hInsert⟩ := (@insertAdded_eq_ok_iff _ [new] _).mpr
          ⟨List.nodup_singleton _, by simpa using ⟨hLiveSettled, hFits, hPos⟩⟩
        have hNewSettled : (s.settle tl t).base.notLive (some new) = some new :=
          mem_notLive_iff.mpr ⟨rfl, hLiveSettled⟩
        rw [hNew] at hAdds
        rw [hNewSettled] at hAddsSettled
        have hPut : (s.base.withPids d).putLine new entry = _ := if_neg hLive
        have hPutSettled : ((s.settle tl t).base.withPids d).putLine new entry = _ := if_neg hLiveSettled
        rw [hPut] at hAdds
        rw [hPutSettled] at hAddsSettled
        exact agrees_of_base h hNot (hBase.trans hPut) (hAlone.trans hPutSettled) (h.adds hAdds hInsert)
          ((settles_settle h).adds hAddsSettled hInsert) rfl

/-- The same lines are frozen before a flush and after it, when no added line is one of them. -/
theorem Settles.freeze_incidentLines (h : s.Settles tl t) {id : Uuid}
    (hAdded : ∀ x ∈ s.base.added, x.key.1 ≠ id ∧ x.key.2.1 ≠ id) :
    tl.freeze (incidentLines s.base.flushed.db.trustLines id) = tl.freeze (incidentLines tl id) := by
  refine TrustTable.freeze_congr fun l hl hActive => ?_
  rcases h.line_cases hl with ⟨old, hOld, rfl⟩ | ⟨x, hx, hInserted⟩
  · have hKeep : old.freeze s.base.frozen = old := TrustLine.freeze_eq_self hActive
    rw [hKeep] at hl hActive ⊢
    rw [mem_incidentLines_iff, mem_incidentLines_iff]
    constructor
    · rintro ⟨l, hMem, hId, _, hAt⟩
      rw [Rows.eq_of_column s.base.flushed.db.trustLines.id_unique hMem hOld hId] at hAt
      exact ⟨old, hl, rfl, hActive, hAt⟩
    · rintro ⟨l, hMem, hId, _, hAt⟩
      rw [Rows.eq_of_column tl.id_unique hMem hl hId] at hAt
      exact ⟨old, hOld, rfl, hActive, hAt⟩
  · refine iff_of_false ?_ ?_
    · intro hIn
      obtain ⟨old, hOld, hId, _, _⟩ := mem_incidentLines_iff.mp hIn
      obtain ⟨m, hm, hOldId⟩ := s.base.flushed.db.trustLines.issued old hOld
      obtain ⟨n, hn, _, hNewId⟩ := hInserted.fresh
      rw [hId, hNewId] at hOldId
      exact absurd (env.uuid4_injective hOldId) (by omega)
    · intro hIn
      obtain ⟨l', hMem, hId, _, hAt⟩ := mem_incidentLines_iff.mp hIn
      rw [Rows.eq_of_column tl.id_unique hMem hl hId] at hAt
      have hKey := hInserted.key
      obtain ⟨hFrom, hTo⟩ := hAdded x hx
      rw [← hKey] at hFrom hTo
      exact hAt.elim hFrom hTo

/-- `freeze_participant`. -/
theorem agrees_freezeParticipant {participantId : String} {freezeTrustlines : Bool} (h : s.Settles tl t)
    (hIndependent : s.Independent scenario budget (.other (.freezeParticipant participantId freezeTrustlines))) :
    s.Agrees scenario budget tl t (.other (.freezeParticipant participantId freezeTrustlines)) := by
  have hNot : ∀ base : InjectState env, ¬base.Registers (.freezeParticipant participantId freezeTrustlines) :=
    fun _ hIn => hIn
  have hStep := @apply_freezeParticipant _ scenario _ h.running participantId freezeTrustlines
  have hSettled := @apply_freezeParticipant _ scenario _ (settles_settle h).running participantId freezeTrustlines
  by_cases hSuspends : ∃ p, s.base.Suspends participantId p
  · obtain ⟨p, hp⟩ := hSuspends
    have hpSettled : (s.settle tl t).base.Suspends participantId p := ⟨hp.named, hp.found, hp.active⟩
    rw [freezeParticipant_of_suspends hp] at hStep
    rw [freezeParticipant_of_suspends hpSettled] at hSettled
    cases freezeTrustlines with
    | false =>
        exact agrees_of_base h hNot hStep hSettled ⟨h.running, h.lines, h.debts, h.issued⟩
          ⟨h.running, s.base.lines_settle tl, rfl, (settles_settle h).issued⟩ rfl
    | true =>
        have hFreeze := h.freeze_incidentLines (hIndependent rfl p hp)
        refine agrees_of_base h hNot hStep hSettled (h.freezes rfl rfl rfl rfl fun id hId => ?_) ?_ rfl
        · obtain ⟨l, hl, hIdEq, _⟩ := mem_incidentLines_iff.mp hId
          exact List.mem_map.mpr ⟨l, hl, hIdEq⟩
        · rw [hFreeze]
          exact (settles_settle h).freezes rfl rfl rfl rfl fun id hId => by
            obtain ⟨l, hl, hIdEq, _⟩ := mem_incidentLines_iff.mp hId
            exact List.mem_map.mpr ⟨l, hl, hIdEq⟩
  · have hNone := not_exists.mp hSuspends
    have hNoneSettled : ∀ p, ¬(s.settle tl t).base.Suspends participantId p :=
      fun p hp => hNone p ⟨hp.named, hp.found, hp.active⟩
    rw [freezeParticipant_of_not_suspends hNone] at hStep
    rw [freezeParticipant_of_not_suspends hNoneSettled] at hSettled
    exact agrees_of_base h hNot hStep hSettled h (settles_settle h) rfl

/-- A registration first flushes, so that the session and the settled one go on alike. -/
theorem apply_registers {eff : InjectEffect} (h : s.Settles tl t) (hRegisters : s.base.Registers eff) :
    s.apply scenario budget (.other eff) =
        { s.settle tl t with base := (s.settle tl t).base.apply scenario eff } ∧
      (s.settle tl t).apply scenario budget (.other eff) = s.apply scenario budget (.other eff) := by
  have hSettled : (s.settle tl t).base.Registers eff := hRegisters
  have hStep : ∀ s' : InjectSession env, s'.Settles tl t → s'.settle tl t = s.settle tl t → s'.base.Registers eff →
      s'.apply scenario budget (.other eff) =
        { s.settle tl t with base := (s.settle tl t).base.apply scenario eff } := by
    intro s' hSettles hEq hIn
    rw [apply_running hSettles]
    simp only [applyOther, if_pos hIn, hSettles.flush_eq, hEq]
  rw [hStep s h rfl hRegisters, hStep (s.settle tl t) (settles_settle h) rfl hSettled]
  exact ⟨rfl, rfl⟩

/-- A registration in a settled session adds the initial lines. -/
theorem registers_adds {data : NewParticipant} {itls : List InitialTrustline} (h : s.Settles tl t)
    (hRegisters : s.base.Registers (.addParticipant (some data) itls)) : ∃ registered : InjectState env,
    ({ s.settle tl t with base := registered } : InjectSession env).Settles tl t ∧
      registered.Adds ((s.settle tl t).base.apply scenario (.addParticipant (some data) itls))
        (s.newLines scenario (.addParticipant (some data) itls)) ∧
      ∀ x ∈ s.newLines scenario (.addParticipant (some data) itls),
        (∀ limit ∈ x.limit, 0 < limit) ∧ x.key ∉ tl.liveKeys := by
  have hBase : (s.settle tl t).base.flush = (s.settle tl t).base := by
    rw [InjectState.flush_eq _ (settles_settle h).running, (settles_settle h).lines]
    rfl
  obtain ⟨p, hp, hAdd⟩ := @addParticipant_of_registers _ (s.settle tl t).base scenario _ _ hRegisters
    hBase (settles_settle h).running
  have hLines : s.newLines scenario (.addParticipant (some data) itls) =
      ((s.settle tl t).base.register p (participantStatus data.status)).initialLines scenario p.id
        (reachedEntries scenario itls) := by
    simp only [newLines, hp, h.flush_eq]
  refine ⟨(s.settle tl t).base.register p (participantStatus data.status),
    ⟨h.running, s.base.lines_settle tl, rfl, (settles_settle h).issued⟩, ?_, fun x hx => ?_⟩
  · rw [apply_addParticipant (settles_settle h).running, hAdd, hLines]
    exact foldl_addInitialTrustline_adds _ scenario p.id p.pid _
  · rw [hLines] at hx
    exact mem_initialLines _ hx

/-- `add_participant`. -/
theorem agrees_addParticipant {participant : Option NewParticipant} {itls : List InitialTrustline} (h : s.Settles tl t)
    (hIndependent : s.Independent scenario budget (.other (.addParticipant participant itls))) :
    s.Agrees scenario budget tl t (.other (.addParticipant participant itls)) := by
  by_cases hRegisters : s.base.Registers (.addParticipant participant itls)
  · cases participant with
    | none => exact absurd hRegisters (fun hIn => hIn)
    | some data =>
        obtain ⟨registered, hSettles, hAdds, hNew⟩ := @registers_adds _ _ _ _ scenario _ _ h hRegisters
        obtain ⟨hStep, hSame⟩ := @apply_registers _ _ _ _ scenario budget _ h hRegisters
        obtain ⟨hNodup, hFits⟩ := hIndependent.2 hRegisters
        obtain ⟨tl', hInsert⟩ := insertAdded_eq_ok_iff.mpr ⟨hNodup, fun x hx =>
          ⟨(hNew x hx).2, hFits x hx, fun limit hLimit => env.column.round_nonneg ((hNew x hx).1 limit hLimit).le⟩⟩
        have hAfter := hSettles.adds hAdds hInsert
        refine ⟨tl', t, by rwa [hStep], ?_⟩
        rw [alone_eq (by rwa [hSame, hStep]), hSame]
  · have hStep : s.base.apply scenario (.addParticipant participant itls) = s.base := by
      rw [apply_addParticipant h.running, addParticipant_of_not_registers hRegisters hIndependent.1]
    have hNot : ¬(s.settle tl t).base.Registers (.addParticipant participant itls) := hRegisters
    have hSettled : (s.settle tl t).base.apply scenario (.addParticipant participant itls) = (s.settle tl t).base := by
      rw [apply_addParticipant (settles_settle h).running, addParticipant_of_not_registers hNot hIndependent.1]
    refine agrees_of_skip h ?_ ?_
    · rw [apply_other scenario budget h hRegisters, hStep]
    · rw [apply_other scenario budget (settles_settle h) hNot, hSettled]

/-- A debt effect that does not raise and injects nothing leaves the session as it is. -/
theorem injectDebt_of_none {eff : DebtEffect} (hQuiet : ¬s.Raises scenario budget eff)
    (h : s.injection scenario budget eff = none) : s.injectDebt scenario budget eff = s := by
  rw [injectDebt, if_neg hQuiet, h]

/-- An effect that injects a debt does not raise. -/
theorem not_raises_of_injection (hColumn : env.column = .numeric208) {eff : DebtEffect} {new : NewDebt}
    (h : s.injection scenario budget eff = some new) : ¬s.Raises scenario budget eff := by
  obtain ⟨hNamed, _, hGranted⟩ := injection_eq_some_iff.mp h
  obtain ⟨hPos, _, hReadable⟩ := named_cents hNamed
  rintro (⟨_, hNaN⟩ | ⟨other, hOther, _, hOver⟩)
  · exact hReadable hNaN
  · cases hNamed.symm.trans hOther
    exact hGranted.not_overruns hColumn hPos hOver

/-- A debt effect that injects a debt puts it and accounts for it. -/
theorem injectDebt_of_some (hColumn : env.column = .numeric208) {eff : DebtEffect} {new : NewDebt}
    (h : s.injection scenario budget eff = some new) :
    s.injectDebt scenario budget eff = (s.putDebt new).account (effectiveEquivalent scenario eff.equivalent)
      eff.creditorPid eff.debtorPid new.amount := by
  rw [injectDebt, if_neg (not_raises_of_injection hColumn h), h]

/-- An effect that raises does not settle. -/
theorem not_settles_of_raises {eff : DebtEffect} (h : s.Raises scenario budget eff) (u : TrustTable env)
    (w : DebtTable env) : ¬(s.injectDebt scenario budget eff).Settles u w := by
  rw [injectDebt, if_pos h]
  exact fun hSettles => absurd hSettles.running (by simp [fail])

/-- An effect that fails the flush is skipped when it is alone. -/
theorem alone_eq_self {effect : EventEffect} (hIssued : (s.apply scenario budget effect).Issued)
    (h : ∀ tl t, ¬(s.apply scenario budget effect).Settles tl t) : s.alone scenario budget effect = s := by
  rw [alone, (flush_failed_iff hIssued).mpr h, if_pos rfl]

/-- A debt effect that injects nothing leaves settled tables as they are when it is alone: where it
raises, as it can on a line that the flush inserted, its event is undone. -/
theorem alone_injectDebt_of_none (h : s.Settles tl t) {eff : DebtEffect}
    (hNone : (s.settle tl t).injection scenario budget eff = none) :
    (s.settle tl t).alone scenario budget (.injectDebt eff) = s.settle tl t := by
  have hSettled : (s.settle tl t).apply scenario budget (.injectDebt eff) =
      (s.settle tl t).injectDebt scenario budget eff := apply_running (settles_settle h)
  by_cases hRaises : (s.settle tl t).Raises scenario budget eff
  · refine alone_eq_self (apply_issued (settles_settle h).issued _) fun u w hSettles => ?_
    rw [hSettled] at hSettles
    exact not_settles_of_raises hRaises u w hSettles
  · rw [injectDebt_of_none hRaises hNone] at hSettled
    rw [alone_eq (by rw [hSettled]; exact settles_settle h), hSettled, settle_settle]

/-- The room for a debt on a line that is not about to be frozen is the same after a flush. -/
theorem Settles.granted (h : s.Settles tl t) {new : NewDebt} (hIndependent : s.DebtIndependent new)
    (hGranted : Granted s.base.flushed.db.trustLines s.base.flushed.db.debts new) :
    Granted tl t new ∧ raised t new = raised s.base.flushed.db.debts new := by
  have hRaised : raised t new = raised s.base.flushed.db.debts new := by
    cases hGet : s.base.flushed.db.debts.getDebt new.key.1 new.key.2.1 new.key.2.2 with
    | some d => rw [raised_of_some hGet, raised_of_some (h.getDebt_of_some hGet)]
    | none =>
        have hNone : t.getDebt new.key.1 new.key.2.1 new.key.2.2 = none :=
          DebtTable.getDebt_eq_none_iff_keys.mpr fun hIn => (h.mem_keys_iff.mp hIn).elim
            (DebtTable.getDebt_eq_none_iff_keys.mp hGet) (hIndependent.debt_new hGranted)
        rw [raised_of_none hGet, raised_of_none hNone]
  refine ⟨?_, hRaised⟩
  obtain ⟨l, hLive, hActive, hPos, hRoom⟩ := hGranted
  obtain ⟨hl, hNotClosed, hKey⟩ := TrustTable.live_eq_some_iff.mp hLive
  have hKept := hIndependent.line_kept l hLive ⟨l, hLive, hActive, hPos, hRoom⟩
  have hSame : l.freeze s.base.frozen = l := if_neg fun hFrozen => hKept hFrozen.1
  have hMem := h.mem_old hl
  rw [hSame] at hMem
  exact granted_iff.mpr ⟨l, hMem, hActive, hKey, hPos, by rwa [hRaised]⟩

/-- A debt that finds no room before a flush finds none after it. -/
theorem Settles.not_granted (hColumn : env.column = .numeric208) (h : s.Settles tl t) {new : NewDebt}
    (hIndependent : s.DebtIndependent new) (hPos : 0 < new.amount) (hCents : new.amount ∈ Grid.multiples cent)
    (hLoop : new.key.1 ≠ new.key.2.1) (hGranted : Granted tl t new) :
    Granted s.base.flushed.db.trustLines s.base.flushed.db.debts new := by
  have hFits := hGranted.fits hPos
  obtain ⟨l, hl, hActive, hKey, hLimit, hRoom⟩ := granted_iff.mp hGranted
  rcases h.line_cases hl with ⟨old, hOld, rfl⟩ | ⟨x, hx, hInserted⟩
  · have hKeep : old.freeze s.base.frozen = old := TrustLine.freeze_eq_self hActive
    rw [hKeep] at hActive hKey hLimit hRoom
    refine granted_iff.mpr ⟨old, hOld, hActive, hKey, hLimit, le_trans ?_ hRoom⟩
    cases hGet : s.base.flushed.db.debts.getDebt new.key.1 new.key.2.1 new.key.2.2 with
    | some d => rw [raised_of_some hGet, raised_of_some (h.getDebt_of_some hGet)]
    | none =>
        rw [raised_of_none hGet]
        exact amount_le_raised hColumn hPos hCents hFits
  · obtain ⟨limit, hSome, hStored⟩ := hInserted.limit
    have hNoRoom := hIndependent.line_added x hx (hInserted.key.symm.trans hKey) hLoop limit hSome
      (by rwa [← hStored])
    rw [h.flush_eq] at hNoRoom
    rw [hStored] at hRoom
    exact absurd hRoom (not_le.mpr hNoRoom)

/-- `inject_debt`. -/
theorem agrees_injectDebt (hColumn : env.column = .numeric208) {eff : DebtEffect} (h : s.Settles tl t)
    (hIndependent : s.Independent scenario budget (.injectDebt eff)) :
    s.Agrees scenario budget tl t (.injectDebt eff) := by
  obtain ⟨hQuiet, hIndependent⟩ := hIndependent
  have hStep : s.apply scenario budget (.injectDebt eff) = s.injectDebt scenario budget eff := apply_running h
  have hSettled : (s.settle tl t).apply scenario budget (.injectDebt eff) =
      (s.settle tl t).injectDebt scenario budget eff := apply_running (settles_settle h)
  cases hInjection : s.injection scenario budget eff with
  | some new =>
      obtain ⟨hNamed, hBudget, hGranted⟩ := injection_eq_some_iff.mp hInjection
      obtain ⟨hPos, hCents, _⟩ := named_cents hNamed
      have hNew := hIndependent new hNamed hBudget
      obtain ⟨hGrantedSettled, hRaised⟩ := h.granted hNew hGranted
      have hInjectionSettled : (s.settle tl t).injection scenario budget eff = some new :=
        injection_eq_some_iff.mpr ⟨hNamed, hBudget, hGrantedSettled⟩
      rw [injectDebt_of_some hColumn hInjection] at hStep
      rw [injectDebt_of_some hColumn hInjectionSettled] at hSettled
      have hLoop := hNew.no_self_loop hGranted
      obtain ⟨t', hPuts, hPut, hEq⟩ := h.putDebt hColumn hPos hCents hGranted (hNew.debt_new hGranted) hLoop
      obtain ⟨t'', hPuts', hPut', hEq'⟩ :=
        (settles_settle h).putDebt hColumn hPos hCents hGrantedSettled (by simp [settle]) hLoop
      cases hPuts.unique hPuts'
      refine ⟨tl, t', by rw [hStep]; exact hPut.account _ _ _ _, ?_⟩
      rw [alone_eq (by rw [hSettled]; exact hPut'.account _ _ _ _), hSettled, hStep, settle_account, settle_account,
        hEq, hEq', settle_settle]
  | none =>
      rw [injectDebt_of_none hQuiet hInjection] at hStep
      cases hInjectionSettled : (s.settle tl t).injection scenario budget eff with
      | none =>
          exact ⟨tl, t, by rwa [hStep], by rw [hStep, alone_injectDebt_of_none h hInjectionSettled]⟩
      | some new =>
          obtain ⟨hNamed, hBudget, hGranted⟩ := injection_eq_some_iff.mp hInjectionSettled
          obtain ⟨hPos, hCents, _⟩ := named_cents hNamed
          have hLoop : new.key.1 = new.key.2.1 := by
            by_contra hNe
            have hBefore := h.not_granted hColumn (hIndependent new hNamed hBudget) hPos hCents hNe hGranted
            have hSome : s.injection scenario budget eff = some new :=
              injection_eq_some_iff.mpr ⟨hNamed, hBudget, hBefore⟩
            rw [hSome] at hInjection
            cases hInjection
          rw [injectDebt_of_some hColumn hInjectionSettled] at hSettled
          refine ⟨tl, t, by rwa [hStep], ?_⟩
          rw [hStep]
          refine alone_eq_self (apply_issued (settles_settle h).issued _) fun u w hSettles => ?_
          · rw [hSettled] at hSettles
            exact (settles_settle h).putDebt_error hColumn hPos hCents hGranted (Or.inr hLoop) u w
              ⟨hSettles.running, hSettles.lines, hSettles.debts, hSettles.issued⟩

/-- An independent effect does to the settled tables what it does to the session. -/
theorem Settles.agrees (hColumn : env.column = .numeric208) (h : s.Settles tl t) {effect : EventEffect}
    (hIndependent : s.Independent scenario budget effect) : s.Agrees scenario budget tl t effect := by
  cases effect with
  | injectDebt eff => exact agrees_injectDebt hColumn h hIndependent
  | other eff =>
      cases eff with
      | addParticipant participant itls => exact agrees_addParticipant h hIndependent
      | createTrustline fromPid toPid equivalent limit => exact agrees_createTrustline h hIndependent
      | freezeParticipant participantId freezeTrustlines => exact agrees_freezeParticipant h hIndependent
  | unknown => exact agrees_of_skip h (apply_running h) (apply_running (settles_settle h))

end Agreement

section Disagreement

/-- The event fails at the step, or it leaves other tables than the effect alone. -/
def Disagrees (scenario : Scenario) (budget : Option Amount) (s : InjectSession env) (tl : TrustTable env)
    (t : DebtTable env) (effect : EventEffect) : Prop :=
  ∀ tl' t', (s.apply scenario budget effect).Settles tl' t' →
    ((s.settle tl t).alone scenario budget effect).base.flushed.db.trustLines ≠ tl' ∨
      ((s.settle tl t).alone scenario budget effect).base.flushed.db.debts ≠ t'

/-- Lines that are pending already, or that do not fit, fail the flush. -/
theorem insertAdded_error {xs : List NewLine} (hNew : ¬((xs.map NewLine.key).Nodup ∧ ∀ x ∈ xs, x.key ∉ tl.liveKeys ∧
    x.Storable env)) {tl' : TrustTable env} (h : insertAdded xs tl = .ok tl') : False := by
  obtain ⟨hNodup, hAll⟩ := insertAdded_eq_ok_iff.mp ⟨tl', h⟩
  exact hNew ⟨hNodup, fun x hx => ⟨(hAll x hx).1, (hAll x hx).2.1⟩⟩

/-- A line of a pending key, or with a limit that the column does not hold, makes the flush
fail. -/
theorem disagrees_createTrustline {fromPid toPid equivalent : String} {limit : ParsedDecimal} (h : s.Settles tl t)
    (hNot : ¬s.Independent scenario budget (.other (.createTrustline fromPid toPid equivalent limit))) :
    s.Disagrees scenario budget tl t (.other (.createTrustline fromPid toPid equivalent limit)) := by
  intro tl' t' hSettles
  exfalso
  have hSkip : ¬s.base.Registers (.createTrustline fromPid toPid equivalent limit) := fun hIn => hIn
  rw [apply_other scenario budget h hSkip, apply_createTrustline h.running] at hSettles
  have hLines := (h.lines_of_adds (s.base.createTrustline_adds scenario fromPid toPid equivalent limit)).symm.trans
    hSettles.lines
  refine insertAdded_error (fun hOk => hNot fun x hx => ?_) hLines
  obtain ⟨hLive, hFits⟩ := hOk.2 x hx
  exact ⟨fun hIn => hLive (h.mem_liveKeys_iff.mpr (Or.inr hIn)), hFits⟩

/-- A participant that does not fit its columns, or that brings lines which do not fit or
share a key, makes the flush fail. -/
theorem disagrees_addParticipant {participant : Option NewParticipant} {itls : List InitialTrustline}
    (h : s.Settles tl t) (hNot : ¬s.Independent scenario budget (.other (.addParticipant participant itls))) :
    s.Disagrees scenario budget tl t (.other (.addParticipant participant itls)) := by
  intro tl' t' hSettles
  exfalso
  by_cases hOverflows : s.base.Overflows (.addParticipant participant itls)
  · -- A row that does not fit fails the flush of the effect itself.
    have hSkip : ¬s.base.Registers (.addParticipant participant itls) := by
      cases participant with
      | none => exact id
      | some data => exact fun hIn => hOverflows.2.2 hIn.2.2.1
    rw [apply_other scenario budget h hSkip, apply_addParticipant h.running, addParticipant_of_overflows hOverflows]
      at hSettles
    exact absurd hSettles.running.symm Bool.false_ne_true
  have hRegisters : s.base.Registers (.addParticipant participant itls) := by
    by_contra hSkip
    exact hNot ⟨hOverflows, fun hIn => absurd hIn hSkip⟩
  cases participant with
  | none => exact hRegisters
  | some data =>
      obtain ⟨registered, hRegistered, hAdds, _⟩ := @registers_adds _ _ _ _ scenario _ _ h hRegisters
      rw [(apply_registers h hRegisters).1] at hSettles
      have hLines := (hRegistered.lines_of_adds hAdds).symm.trans hSettles.lines
      refine insertAdded_error (fun hOk => hNot ⟨hOverflows, fun _ => ?_⟩) hLines
      exact ⟨hOk.1, fun x hx => (hOk.2 x hx).2⟩

/-- A freeze that is not independent misses a line that was added, and leaves it active. -/
theorem disagrees_freezeParticipant {participantId : String} {freezeTrustlines : Bool} (h : s.Settles tl t)
    (hNot : ¬s.Independent scenario budget (.other (.freezeParticipant participantId freezeTrustlines))) :
    s.Disagrees scenario budget tl t (.other (.freezeParticipant participantId freezeTrustlines)) := by
  intro tl' t' hSettles
  left
  have hSkip : ∀ base : InjectState env, ¬base.Registers (.freezeParticipant participantId freezeTrustlines) :=
    fun _ hIn => hIn
  simp only [Independent] at hNot
  push Not at hNot
  obtain ⟨hTrue, p, hp, x, hx, hAt⟩ := hNot
  subst hTrue
  have hAt' : x.key.1 = p.id ∨ x.key.2.1 = p.id := by
    by_cases hFrom : x.key.1 = p.id
    · exact Or.inl hFrom
    · exact Or.inr (hAt hFrom)
  have hpSettled : (s.settle tl t).base.Suspends participantId p := ⟨hp.named, hp.found, hp.active⟩
  have hIncident : ∀ (tl : TrustTable env), ∀ id ∈ incidentLines tl p.id, id ∈ tl.rows.map (·.id) := by
    intro tl id hId
    obtain ⟨l, hl, hIdEq, _⟩ := mem_incidentLines_iff.mp hId
    exact List.mem_map.mpr ⟨l, hl, hIdEq⟩
  rw [apply_other scenario budget h (hSkip _), apply_freezeParticipant h.running, freezeParticipant_of_suspends hp]
    at hSettles
  have hLines := (hSettles.unique (h.freezes rfl rfl rfl rfl (hIncident _))).1
  have hAlone : ((s.settle tl t).apply scenario budget (.other (.freezeParticipant participantId true))).Settles
      (tl.freeze (incidentLines tl p.id)) t := by
    rw [apply_other scenario budget (settles_settle h) (hSkip _), apply_freezeParticipant (settles_settle h).running,
      freezeParticipant_of_suspends hpSettled]
    exact (settles_settle h).freezes rfl rfl rfl rfl (hIncident _)
  rw [alone_eq hAlone, ← hLines]
  change tl.freeze (incidentLines tl p.id) ≠ tl.freeze (incidentLines s.base.flushed.db.trustLines p.id)
  -- The added line is active, and frozen only when the effect is alone.
  obtain ⟨l, hl, hInserted⟩ := h.exists_added hx
  have hFrozen : l.id ∈ incidentLines tl p.id := by
    refine mem_incidentLines_iff.mpr ⟨l, hl, rfl, hInserted.active, ?_⟩
    rw [← hInserted.key] at hAt'
    exact hAt'
  have hKept : l.freeze (incidentLines s.base.flushed.db.trustLines p.id) = l := by
    refine if_neg fun hIn => ?_
    obtain ⟨old, hOld, hId, _, _⟩ := mem_incidentLines_iff.mp hIn.1
    obtain ⟨m, hm, hOldId⟩ := s.base.flushed.db.trustLines.issued old hOld
    obtain ⟨n, hn, _, hNewId⟩ := hInserted.fresh
    rw [hId, hNewId] at hOldId
    exact absurd (env.uuid4_injective hOldId) (by omega)
  intro hEq
  have hMem : l ∈ (tl.freeze (incidentLines tl p.id)).rows := by
    rw [hEq]
    exact List.mem_map.mpr ⟨l, hl, hKept⟩
  obtain ⟨old, hOld, hOldEq⟩ := List.mem_map.mp hMem
  have hSame : old = l := Rows.eq_of_column tl.id_unique hOld hl (by rw [← hOldEq, TrustLine.freeze_id])
  rw [hSame, TrustLine.freeze, if_pos ⟨hFrozen, hInserted.active⟩] at hOldEq
  have hStatus := hInserted.active
  rw [← hOldEq] at hStatus
  cases hStatus

/-- A debt that is granted before a flush and after it is independent of what waits for it. -/
theorem Settles.independent_of_granted (h : s.Settles tl t) {new : NewDebt}
    (hNew : new.key ∉ s.addedDebts.map NewDebt.key) (hLoop : new.key.1 ≠ new.key.2.1)
    (hBefore : Granted s.base.flushed.db.trustLines s.base.flushed.db.debts new) (hGranted : Granted tl t new) :
    s.DebtIndependent new where
  line_kept l hLive _ hFrozen := by
    obtain ⟨hl, hNotClosed, hKey⟩ := TrustTable.live_eq_some_iff.mp hLive
    obtain ⟨l', hl', hActive, hKey', _⟩ := granted_iff.mp hGranted
    have hMem := h.mem_old hl
    have hSame : l' = l.freeze s.base.frozen := by
      have hOne := (@TrustTable.live_eq_some_iff _ tl _ _ _ _).mpr 
        ⟨hMem, by simpa using hNotClosed, (l.freeze_key _).trans hKey⟩
      have hOther := (@TrustTable.live_eq_some_iff _ tl _ _ _ _).mpr ⟨hl', by simp [hActive], hKey'⟩
      exact Option.some_injective _ (hOther.symm.trans hOne)
    have hKeep : l.freeze s.base.frozen = l := TrustLine.freeze_eq_self (hSame ▸ hActive)
    rw [hSame, hKeep] at hActive
    rw [TrustLine.freeze, if_pos ⟨hFrozen, hActive⟩] at hKeep
    rw [← hKeep] at hActive
    cases hActive
  debt_new _ := hNew
  no_self_loop _ := hLoop
  line_added x hx hKey _ _ _ _ := by
    obtain ⟨l, hl, hActive, hLine, _⟩ := granted_iff.mp hBefore
    refine absurd (TrustTable.mem_liveKeys_iff.mpr ⟨l, hl, by simp [hActive], hLine⟩) ?_
    rw [← hKey]
    exact h.added_not_live hx

/-- A debt that is granted now and is not independent fails the flush, or it is put on a line that is
frozen by the time the effect is alone. -/
theorem disagrees_of_granted (hColumn : env.column = .numeric208) {eff : DebtEffect} {new : NewDebt}
    (h : s.Settles tl t) (hNamed : s.named scenario eff = some new) (hBudget : ¬s.OverBudget budget new.amount)
    (hDependent : ¬s.DebtIndependent new)
    (hGranted : Granted s.base.flushed.db.trustLines s.base.flushed.db.debts new) :
    s.Disagrees scenario budget tl t (.injectDebt eff) := by
  intro tl' t' hSettles
  obtain ⟨hPos, hCents, _⟩ := named_cents hNamed
  rw [apply_running h] at hSettles
  simp only [injectDebt_of_some hColumn (injection_eq_some_iff.mpr ⟨hNamed, hBudget, hGranted⟩)] at hSettles
  have hPut : (s.putDebt new).Settles tl' t' := ⟨hSettles.running, hSettles.lines, hSettles.debts, hSettles.issued⟩
  by_cases hBad : new.key ∈ s.addedDebts.map NewDebt.key ∨ new.key.1 = new.key.2.1
  · exact absurd hPut (h.putDebt_error hColumn hPos hCents hGranted hBad tl' t')
  · rw [not_or] at hBad
    right
    obtain ⟨u, hPuts, hSettlesPut, _⟩ := h.putDebt hColumn hPos hCents hGranted hBad.1 hBad.2
    obtain ⟨rfl, rfl⟩ := hSettlesPut.unique hPut
    have hNone : (s.settle tl' t).injection scenario budget eff = none := by
      refine Option.eq_none_iff_forall_not_mem.mpr fun other hOther => ?_
      obtain ⟨hNamedOther, _, hGrantedOther⟩ := injection_eq_some_iff.mp hOther
      cases hNamed.symm.trans hNamedOther
      exact hDependent (h.independent_of_granted hBad.1 hBad.2 hGranted hGrantedOther)
    rw [alone_injectDebt_of_none h hNone]
    exact (hPuts.ne hPos hCents hColumn).symm

/-- A debt that is skipped now and is not independent has room on a line that is pending, so it is put
when the effect is alone. -/
theorem disagrees_of_not_granted (hColumn : env.column = .numeric208) {eff : DebtEffect} {new : NewDebt}
    (h : s.Settles tl t) (hQuiet : ¬s.Raises scenario budget eff) (hNamed : s.named scenario eff = some new)
    (hBudget : ¬s.OverBudget budget new.amount) (hDependent : ¬s.DebtIndependent new)
    (hGranted : ¬Granted s.base.flushed.db.trustLines s.base.flushed.db.debts new) :
    s.Disagrees scenario budget tl t (.injectDebt eff) := by
  intro tl' t' hSettles
  obtain ⟨hPos, hCents, _⟩ := named_cents hNamed
  have hNone : s.injection scenario budget eff = none := by
    refine Option.eq_none_iff_forall_not_mem.mpr fun other hOther => ?_
    obtain ⟨hNamedOther, _, hGrantedOther⟩ := injection_eq_some_iff.mp hOther
    cases hNamed.symm.trans hNamedOther
    exact hGranted hGrantedOther
  rw [apply_running h] at hSettles
  simp only [injectDebt_of_none hQuiet hNone] at hSettles
  obtain ⟨rfl, rfl⟩ := h.unique hSettles
  right
  have hAdded : ∃ x ∈ s.base.added, x.key = new.line ∧ new.key.1 ≠ new.key.2.1 ∧ ∃ limit ∈ x.limit,
      0 < env.column.round limit ∧ raised t' new ≤ env.column.round limit := by
    by_contra hNo
    push Not at hNo
    refine hDependent ⟨fun _ _ hIn => absurd hIn hGranted, fun hIn => absurd hIn hGranted,
      fun hIn => absurd hIn hGranted, fun x hx hKey hLoop limit hSome hLimit => ?_⟩
    rw [h.flush_eq]
    exact hNo x hx hKey hLoop limit hSome hLimit
  obtain ⟨x, hx, hKey, hLoop, limit, hSome, hLimit, hRoom⟩ := hAdded
  obtain ⟨l, hl, hInserted⟩ := h.exists_added hx
  obtain ⟨stored, hStoredSome, hStored⟩ := hInserted.limit
  obtain rfl : limit = stored := Option.some.inj (hSome.symm.trans hStoredSome)
  rw [← hStored] at hLimit hRoom
  have hGrantedSettled : Granted tl' t' new :=
    granted_iff.mpr ⟨l, hl, hInserted.active, hInserted.key.trans hKey, hLimit, hRoom⟩
  obtain ⟨u, hPuts, hPut, _⟩ :=
    (settles_settle h).putDebt hColumn hPos hCents hGrantedSettled (by simp [settle]) hLoop
  have hSettled : (s.settle tl' t').apply scenario budget (.injectDebt eff) =
      (s.settle tl' t').injectDebt scenario budget eff := apply_running (settles_settle h)
  have hInjection : (s.settle tl' t').injection scenario budget eff = some new :=
    injection_eq_some_iff.mpr ⟨hNamed, hBudget, hGrantedSettled⟩
  rw [injectDebt_of_some hColumn hInjection] at hSettled
  rw [alone_eq (by rw [hSettled]; exact hPut.account _ _ _ _)]
  exact hPuts.ne hPos hCents hColumn

/-- A debt that is granted by a line or a row of the future is put in one of the two sessions only. -/
theorem disagrees_injectDebt (hColumn : env.column = .numeric208) {eff : DebtEffect} (h : s.Settles tl t)
    (hNot : ¬s.Independent scenario budget (.injectDebt eff)) : s.Disagrees scenario budget tl t (.injectDebt eff) := by
  by_cases hRaises : s.Raises scenario budget eff
  · intro tl' t' hSettles
    rw [apply_running h] at hSettles
    exact absurd hSettles (not_settles_of_raises hRaises tl' t')
  · have hSome : ∃ new, s.named scenario eff = some new ∧ ¬s.OverBudget budget new.amount ∧ ¬s.DebtIndependent new := by
      by_contra hNone
      push Not at hNone
      exact hNot ⟨hRaises, hNone⟩
    obtain ⟨new, hNamed, hBudget, hDependent⟩ := hSome
    by_cases hGranted : Granted s.base.flushed.db.trustLines s.base.flushed.db.debts new
    · exact disagrees_of_granted hColumn h hNamed hBudget hDependent hGranted
    · exact disagrees_of_not_granted hColumn h hRaises hNamed hBudget hDependent hGranted

/-- An effect that is not independent does something else to the session than to the settled
tables. -/
theorem Settles.disagrees (hColumn : env.column = .numeric208) (h : s.Settles tl t) {effect : EventEffect}
    (hNot : ¬s.Independent scenario budget effect) : s.Disagrees scenario budget tl t effect := by
  cases effect with
  | injectDebt eff => exact disagrees_injectDebt hColumn h hNot
  | other eff =>
      cases eff with
      | addParticipant participant itls => exact disagrees_addParticipant h hNot
      | createTrustline fromPid toPid equivalent limit => exact disagrees_createTrustline h hNot
      | freezeParticipant participantId freezeTrustlines => exact disagrees_freezeParticipant h hNot
  | unknown => exact absurd trivial hNot

end Disagreement

section Events

/-- The effects one after another, each alone. -/
def sequential (scenario : Scenario) (metadata : ParsedDecimal) (pidToParticipantId : Dict Pid Uuid)
    (effects : List EventEffect) (sim : SimDb env) : InjectSession env :=
  effects.foldl (alone scenario (maxTotalAmount metadata)) (start sim pidToParticipantId)

/-- The event commits, and leaves the database that its effects leave one after another. -/
def Sequential (scenario : Scenario) (metadata : ParsedDecimal) (pidToParticipantId : Dict Pid Uuid)
    (sim : SimDb env) (effects : List EventEffect) : Prop :=
  ∃ after, applyInjectEvent scenario metadata pidToParticipantId effects sim = some after ∧
    after.base.flushed = (sequential scenario metadata pidToParticipantId effects sim).base.flushed

/-- An event starts with the tables as they are, and settles in them. -/
theorem start_settles (sim : SimDb env) (pids : Dict Pid Uuid) :
    (start sim pids).Settles sim.db.trustLines sim.db.debts where
  running := rfl
  lines := congrArg Except.ok sim.db.trustLines.freeze_nil
  debts := rfl
  issued _ hId := nomatch hId

/-- The flush of the session succeeds. -/
def Flushes (s : InjectSession env) : Prop := ∃ tl t, s.Settles tl t

/-- A run of independent effects flushes to the effects one after another. -/
theorem flush_run (hColumn : env.column = .numeric208) {first finish : InjectSession env} {effects : List EventEffect}
    (run : Transition.Run (apply scenario budget) (Independent scenario budget) first effects finish)
    (h : first.Flushes) : finish.Flushes ∧ finish.flush = effects.foldl (alone scenario budget) first.flush := by
  have hStep : ∀ (s : InjectSession env) (effect : EventEffect), s.Flushes → s.Independent scenario budget effect →
      (s.apply scenario budget effect).Flushes ∧
        (s.apply scenario budget effect).flush = s.flush.alone scenario budget effect := by
    rintro s effect ⟨tl, t, h⟩ hIndependent
    obtain ⟨tl', t', hSettles, hAlone⟩ := h.agrees hColumn hIndependent
    exact ⟨⟨tl', t', hSettles⟩, by rw [hSettles.flush_eq, h.flush_eq, hAlone]⟩
  exact WriteBehind.settle_run hStep h run

/-- An event whose metadata are readable applies its effects in one session, and commits it
by one flush. -/
theorem applyInjectEvent_eq {metadata : ParsedDecimal} {pids : Dict Pid Uuid} {sim : SimDb env}
    {effects : List EventEffect} (hNe : effects ≠ []) (hNumber : metadata ≠ .notANumber) (hLength : effects.length ≤ 500) :
    applyInjectEvent scenario metadata pids effects sim =
      if (effects.foldl (apply scenario (maxTotalAmount metadata)) (start sim pids)).flush.base.failed then none
      else some (effects.foldl (apply scenario (maxTotalAmount metadata)) (start sim pids)).flush := by
  rw [applyInjectEvent, if_neg (not_or.mpr ⟨hNe, hNumber⟩), List.take_of_length_le hLength]

/-- Of the events that the prefixes of a list of effects make, with a budget that is not NaN, each commits
the database that its effects leave one after another exactly when every effect is independent. -/
theorem prefixes_sequential_iff (hColumn : env.column = .numeric208) {metadata : ParsedDecimal}
    (hNumber : metadata ≠ .notANumber) (scenario : Scenario) (pidToParticipantId : Dict Pid Uuid) (sim : SimDb env)
    (effects : List EventEffect) (hLength : effects.length ≤ 500) :
    (∀ before, before ≠ [] → before <+: effects → Sequential scenario metadata pidToParticipantId sim before) ↔
      Transition.Run (apply scenario (maxTotalAmount metadata)) (Independent scenario (maxTotalAmount metadata))
        (start sim pidToParticipantId) effects
        (effects.foldl (apply scenario (maxTotalAmount metadata)) (start sim pidToParticipantId)) := by
  have hStart := start_settles sim pidToParticipantId
  have hStartFlush : (start sim pidToParticipantId).flush = start sim pidToParticipantId := hStart.flush_eq
  refine WriteBehind.prefixes_iff effects ?_ ?_
  · -- A run of independent effects commits their sequential composition.
    intro before effect hPrefix run
    have hShort := hPrefix.length_le.trans hLength
    obtain ⟨⟨tl, t, hSettles⟩, hFlush⟩ := flush_run hColumn run ⟨_, _, hStart⟩
    refine ⟨_, (applyInjectEvent_eq (by simp) hNumber hShort).trans (if_neg ?_), ?_⟩
    · rw [hSettles.flush_eq]
      exact Bool.eq_false_iff.mp hSettles.running
    · rw [hFlush, hStartFlush]
      rfl
  · -- The first effect that is not independent makes the event fail or leave other tables.
    rintro before effect hPrefix run hNot ⟨after, hAfter, hSame⟩
    have hShort := hPrefix.length_le.trans hLength
    obtain ⟨⟨tl, t, hSettles⟩, hFlush⟩ := flush_run hColumn run ⟨_, _, hStart⟩
    rw [applyInjectEvent_eq (by simp) hNumber hShort, List.foldl_append, List.foldl_cons, List.foldl_nil] at hAfter
    rw [hStartFlush] at hFlush
    have hIssued := @apply_issued _ _ scenario (maxTotalAmount metadata) hSettles.issued effect
    split at hAfter
    · cases hAfter
    · next hOk =>
        cases hAfter
        rw [Bool.not_eq_true] at hOk
        have hStep : ∃ tl' t', ((before.foldl (apply scenario (maxTotalAmount metadata))
            (start sim pidToParticipantId)).apply scenario (maxTotalAmount metadata) effect).Settles tl' t' := by
          by_contra hNone
          push Not at hNone
          rw [(flush_failed_iff hIssued).mpr hNone] at hOk
          cases hOk
        obtain ⟨tl', t', hStep⟩ := hStep
        rw [hStep.flush_eq, sequential, List.foldl_append, List.foldl_cons, List.foldl_nil, ← hFlush,
          hSettles.flush_eq] at hSame
        rcases hSettles.disagrees hColumn hNot tl' t' hStep with hLines | hDebts
        · exact hLines (congrArg (fun sim => sim.db.trustLines) hSame).symm
        · exact hDebts (congrArg (fun sim => sim.db.debts) hSame).symm

/-- Of the events that the prefixes of a list of effects make, each commits the
database that its effects leave one after another exactly when its budget is not NaN and every
effect is independent of what waits for the flush when its turn comes. -/
theorem inject_event_sequential_iff (hColumn : env.column = .numeric208) (scenario : Scenario)
    (metadata : ParsedDecimal) (pidToParticipantId : Dict Pid Uuid) (sim : SimDb env) (effects : List EventEffect)
    (hLength : effects.length ≤ 500) :
    (∀ before, before ≠ [] → before <+: effects → Sequential scenario metadata pidToParticipantId sim before) ↔
      (effects ≠ [] → metadata ≠ .notANumber) ∧
        Transition.Run (apply scenario (maxTotalAmount metadata)) (Independent scenario (maxTotalAmount metadata))
          (start sim pidToParticipantId) effects
          (effects.foldl (apply scenario (maxTotalAmount metadata)) (start sim pidToParticipantId)) := by
  by_cases hNumber : metadata = .notANumber
  · -- The whole event raises before its first effect.
    refine ⟨fun hAll => ?_, fun hRun before hNe hPrefix => ?_⟩
    · by_cases hNe : effects = []
      · subst hNe
        exact ⟨fun hSome => absurd rfl hSome, .nil⟩
      · obtain ⟨after, hAfter, _⟩ := hAll effects hNe (List.prefix_refl _)
        rw [applyInjectEvent, if_pos (Or.inr hNumber)] at hAfter
        cases hAfter
    · exact absurd hNumber (hRun.1 fun hNone => hNe (List.prefix_nil.mp (hNone ▸ hPrefix)))
  · rw [prefixes_sequential_iff hColumn hNumber scenario pidToParticipantId sim effects hLength]
    exact ⟨fun run => ⟨fun _ => hNumber, run⟩, And.right⟩

/-- An event that creates the line of A to B, and then once more. -/
def doubleLine : List EventEffect :=
  [.other (.createTrustline "A" "B" "UAH" (.number 10)), .other (.createTrustline "A" "B" "UAH" (.number 10))]

/-- A scenario with the participants A and B, registered and without lines. -/
def twoParticipants : Scenario × Dict Pid Uuid × SimDb (Env.sample .numeric208 true) :=
  (⟨"UAH", "", [⟨"A", "active"⟩, ⟨"B", "active"⟩], []⟩, Dict.ofList [("A", 1), ("B", 2)],
    ⟨.empty, Dict.ofList [("A", .active), ("B", .active)]⟩)

/-- The event that adds one line twice is undone. -/
theorem doubleLine_undone : (applyInjectEvent twoParticipants.1 .unreadable twoParticipants.2.1 doubleLine
    twoParticipants.2.2).isNone := by decide +kernel

/-- The second effect alone would have been skipped, but the event fails. -/
theorem double_line_not_sequential :
    (alone twoParticipants.1 none (alone twoParticipants.1 none (start twoParticipants.2.2 twoParticipants.2.1)
      (.other (.createTrustline "A" "B" "UAH" (.number 10)))) (.other (.createTrustline "A" "B" "UAH" (.number 10)))
      ).base.flushed.db.trustLines.rows.length = 1 ∧
      ¬Sequential twoParticipants.1 .unreadable twoParticipants.2.1 twoParticipants.2.2 doubleLine := by
  refine ⟨by decide +kernel, ?_⟩
  rintro ⟨after, hAfter, _⟩
  have hUndone := doubleLine_undone
  rw [hAfter] at hUndone
  cases hUndone

/-- So the condition fails for the event that creates one line twice. -/
theorem inject_event_sequential_iff_double_line :
    ¬Transition.Run (apply twoParticipants.1 (maxTotalAmount .unreadable))
      (Independent twoParticipants.1 (maxTotalAmount .unreadable))
      (start twoParticipants.2.2 twoParticipants.2.1) doubleLine
      (doubleLine.foldl (apply twoParticipants.1 (maxTotalAmount .unreadable))
        (start twoParticipants.2.2 twoParticipants.2.1)) := by
  intro run
  obtain ⟨after, hAfter, _⟩ := (inject_event_sequential_iff rfl twoParticipants.1 .unreadable twoParticipants.2.1
    twoParticipants.2.2 doubleLine (by decide)).mpr ⟨fun _ => by decide, run⟩ doubleLine (by decide) (List.prefix_refl _)
  have hUndone := doubleLine_undone
  rw [hAfter] at hUndone
  cases hUndone

end Events

end InjectSession

end GeoLedger

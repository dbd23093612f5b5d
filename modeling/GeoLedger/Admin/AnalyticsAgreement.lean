import Mathlib
import GeoLedger.Invariants
import GeoLedger.Admin.DisplayAtoms

/-! The fallback of the admin interface against the backend, when the interface
has loaded the rows of the database. The interface cuts every amount before it
adds, so its sums are short of the backend's by the carry of what was cut off. -/
namespace GeoLedger.GraphAnalytics
open Distributions Truncation Directory

variable {env : Env} {db : Db env} {data : GraphData} {e : Equivalent} {p : Participant} {precision : Nat}

section Mirror

/-- The rows of participants and equivalents that debts and trust lines refer to exist. -/
structure Referenced (db : Db env) : Prop where
  debts : ∀ d ∈ db.debts.rows, env.directory.Registered d.debtorId ∧ env.directory.Registered d.creditorId ∧
    ∃ e ∈ env.directory.equivalents, e.id = d.equivalentId
  trustlines : ∀ l ∈ db.trustLines.rows, env.directory.Registered l.fromParticipantId ∧
    env.directory.Registered l.toParticipantId ∧ ∃ e ∈ env.directory.equivalents, e.id = l.equivalentId

/-- No PID has white space around it, and the codes are valid. -/
structure PlainNames (directory : Directory) : Prop where
  pid : ∀ p ∈ directory.participants, trimText p.pid = p.pid
  code : ∀ e ∈ directory.equivalents, validateEquivalentCode e.code = .ok ()

/-- A valid code is its own normal form, and not empty. -/
theorem normEq_of_valid {code : String} (h : validateEquivalentCode code = .ok ()) : normEq code = code ∧ code ≠ "" := by
  have hChars : 1 ≤ code.toList.length ∧ ∀ c ∈ code.toList,
      (charIn 'A' 'Z' c || charIn '0' '9' c || c == '_') = true := by
    simp only [validateEquivalentCode] at h
    split at h
    · next hValid => exact ⟨hValid.1, List.all_eq_true.mp hValid.2.2⟩
    · cases h
  have hPlain : ∀ c ∈ code.toList, SseWire.isJsWhitespace c = false ∧ c.toUpper = c := by
    intro c hc
    have hRange : c.toNat = 95 ∨ 48 ≤ c.toNat ∧ c.toNat ≤ 57 ∨ 65 ≤ c.toNat ∧ c.toNat ≤ 90 := by
      have hClass := hChars.2 c hc
      simp only [charIn, Bool.or_eq_true, Bool.and_eq_true, decide_eq_true_eq, beq_iff_eq] at hClass
      rcases hClass with (hUpper | hDigit) | rfl
      · exact Or.inr (Or.inr hUpper)
      · exact Or.inr (Or.inl hDigit)
      · exact Or.inl rfl
    constructor
    · rw [SseWire.isJsWhitespace, Bool.or_eq_false_iff, decide_eq_false_iff_not]
      constructor
      · simp only [List.mem_cons, List.not_mem_nil, or_false]
        omega
      · simp only [Bool.and_eq_false_iff, decide_eq_false_iff_not]
        omega
    · rw [Char.toUpper, dif_neg]
      intro hLower
      have hLow : 97 ≤ c.toNat := UInt32.le_iff_toNat_le.mp hLower.1
      omega
  have hTrim : SseWire.trim code.toList = code.toList := by
    have hStart : SseWire.trimStart code.toList = code.toList := by
      rw [SseWire.trimStart, List.dropWhile_eq_self_iff]
      intro hPos
      exact Bool.eq_false_iff.mp (hPlain _ (List.getElem_mem hPos)).1
    rw [SseWire.trim, hStart, List.rdropWhile_eq_self_iff]
    intro hNonempty
    exact Bool.eq_false_iff.mp (hPlain _ (List.getLast_mem hNonempty)).1
  constructor
  · rw [normEq, hTrim, List.map_congr_left fun c hc => (hPlain c hc).2, List.map_id', String.ofList_toList]
  · rintro rfl
    exact absurd hChars.1 (by decide)

/-- A debt as the interface has it. -/
structure ShowsDebt (directory : Directory) (d : Debt) (shown : GraphDebt) : Prop where
  equivalent : shown.equivalent = directory.codeText d.equivalentId
  debtor : shown.debtor = directory.pidText d.debtorId
  creditor : shown.creditor = directory.pidText d.creditorId
  amount : Shows shown.amount d.amount

/-- A trust line as the interface has it. -/
structure ShowsTrustline (db : Db env) (l : TrustLine) (shown : GraphTrustline) : Prop where
  equivalent : shown.equivalent = env.directory.codeText l.equivalentId
  fromPid : shown.fromPid = env.directory.pidText l.fromParticipantId
  toPid : shown.toPid = env.directory.pidText l.toParticipantId
  limit : Shows shown.limit l.limit
  used : Shows shown.used (lineUsed db.debts l)
  available : Shows shown.available (l.limit - lineUsed db.debts l)

/-- The interface has loaded all participants, all debts and all live trust lines. -/
structure Mirrors (data : GraphData) (db : Db env) : Prop where
  participants : data.participants.Perm (env.directory.participants.map (·.pid))
  debts : ∃ text : Debt → GraphDebt, data.debts.Perm (db.debts.rows.map text) ∧
    ∀ d ∈ db.debts.rows, ShowsDebt env.directory d (text d)
  trustlines : ∃ text : TrustLine → GraphTrustline,
    data.trustlines.Perm ((db.trustLines.rows.filter (·.status ≠ .closed)).map text) ∧
    ∀ l ∈ db.trustLines.rows, ShowsTrustline db l (text l)

/-- The normal form of a row's code is the selected code for the rows of the equivalent. -/
theorem normEq_codeText_iff (hNames : PlainNames env.directory) (he : e ∈ env.directory.equivalents) {id : Uuid}
    (hId : ∃ other ∈ env.directory.equivalents, other.id = id) :
    normEq (env.directory.codeText id) = e.code ↔ id = e.id := by
  obtain ⟨other, hOther, rfl⟩ := hId
  rw [(Directory.codeText_eq_code_iff hOther).mpr rfl, (normEq_of_valid (hNames.code other hOther)).1,
    ← Directory.codeText_eq_code_iff he, (Directory.codeText_eq_code_iff hOther).mpr rfl]

end Mirror

section Totals

/-- Amounts that are truncated to atoms and added up. -/
def atomSum (precision : Nat) (amounts : List Amount) : ℤ :=
  (amounts.map fun x => GeoLedger.decimalToAtoms x precision).sum

/-- What truncation cuts off some amounts, in atoms. -/
def cutOff (precision : Nat) (amounts : List Amount) : Amount :=
  (amounts.map fun x => Int.fract (x * 10 ^ precision)).sum

/-- The scaled sum is the sum of the atoms and of what was cut off. -/
theorem atomSum_add_cutOff {amounts : List Amount} (hNonneg : ∀ x ∈ amounts, 0 ≤ x) :
    (atomSum precision amounts : Amount) + cutOff precision amounts = amounts.sum * 10 ^ precision := by
  have hFloors : amounts.map (fun x => GeoLedger.decimalToAtoms x precision) =
      (amounts.map (· * 10 ^ precision)).map Int.floor := by
    rw [List.map_map]
    refine List.map_congr_left fun x hx => ?_
    rw [GeoLedger.decimalToAtoms_eq, truncate_of_nonneg (mul_nonneg (hNonneg x hx) (by positivity))]
    rfl
  have hFracts : cutOff precision amounts = ((amounts.map (· * 10 ^ precision)).map Int.fract).sum := by
    rw [cutOff, List.map_map]
    rfl
  rw [atomSum, hFloors, hFracts, sum_floor_add_sum_fract, List.sum_map_mul_right, List.map_id']

/-- What truncation cuts off is not negative. -/
theorem cutOff_nonneg (amounts : List Amount) : 0 ≤ cutOff precision amounts := by
  refine List.sum_nonneg fun y hy => ?_
  obtain ⟨x, _, rfl⟩ := List.mem_map.mp hy
  exact Int.fract_nonneg _

/-- The truncated sum has the carry of what was cut off on top. -/
theorem decimalToAtoms_sum {amounts : List Amount} (hNonneg : ∀ x ∈ amounts, 0 ≤ x) :
    GeoLedger.decimalToAtoms amounts.sum precision = atomSum precision amounts + ⌊cutOff precision amounts⌋ := by
  have hSum := List.sum_nonneg hNonneg
  rw [GeoLedger.decimalToAtoms_eq, truncate_of_nonneg (mul_nonneg hSum (by positivity)),
    ← atomSum_add_cutOff hNonneg, Int.floor_intCast_add]

/-- Truncating before adding gives the same total exactly when nothing is carried. -/
theorem atomSum_eq_iff {amounts : List Amount} (hNonneg : ∀ x ∈ amounts, 0 ≤ x) :
    atomSum precision amounts = GeoLedger.decimalToAtoms amounts.sum precision ↔ cutOff precision amounts < 1 := by
  rw [decimalToAtoms_sum hNonneg, left_eq_add, Int.floor_eq_zero_iff, Set.mem_Ico,
    and_iff_right (cutOff_nonneg amounts)]

/-- The difference of two totals is the truncated difference exactly when what was
cut off differs by less than an atom and does not work against its sign. -/
theorem atomSum_sub_eq_iff {credits debts : List Amount} (hCredits : ∀ x ∈ credits, 0 ≤ x)
    (hDebts : ∀ x ∈ debts, 0 ≤ x) :
    atomSum precision credits - atomSum precision debts =
        GeoLedger.decimalToAtoms (credits.sum - debts.sum) precision ↔
      |cutOff precision credits - cutOff precision debts| < 1 ∧
        (0 < atomSum precision credits - atomSum precision debts → cutOff precision debts ≤ cutOff precision credits) ∧
        (atomSum precision credits - atomSum precision debts < 0 →
          cutOff precision credits ≤ cutOff precision debts) := by
  have hScaled : (credits.sum - debts.sum) * 10 ^ precision =
      ((atomSum precision credits - atomSum precision debts : ℤ) : Amount) +
        (cutOff precision credits - cutOff precision debts) := by
    rw [sub_mul, ← atomSum_add_cutOff hCredits, ← atomSum_add_cutOff hDebts]
    push_cast
    ring
  rw [GeoLedger.decimalToAtoms_eq, hScaled, eq_comm, truncate_intCast_add_eq_iff, sub_nonneg, sub_nonpos]

end Totals

section Balance

/-- The atoms of an equivalent are the atoms of the rows that are kept for it. -/
theorem getD_atomsByEq {Row : Type} {equivalent amount : Row → String} {keep : Row → Bool} {rows : List Row}
    {code : String} (hNormal : normEq code = code ∧ code ≠ "") (hPrecision : data.precisionOf code = some precision) :
    (atomsByEq data equivalent amount keep rows).getD code 0 =
      ((rows.filter fun r => normEq (equivalent r) = code && keep r).map fun r =>
        decimalToAtoms (amount r) precision).sum := by
  rw [atomsByEq, Dict.getD_tally]
  have hEmpty : (Dict.empty : Dict String ℤ).getD code 0 = 0 := rfl
  rw [hEmpty, zero_add]
  induction rows with
  | nil => rfl
  | cons r rest ih =>
      by_cases hCode : normEq (equivalent r) = code
      · cases hKeep : keep r <;> simp [hCode, hNormal.2, hPrecision, hKeep, ih]
      · rw [List.filterMap_cons]
        split
        · simpa [hCode] using ih
        · next entry hEntry =>
            have hOther : ¬entry.1 = code := by
              dsimp only at hEntry
              split at hEntry
              · cases hEntry
              · split at hEntry
                · cases hEntry
                · split at hEntry
                  · cases hEntry
                    exact hCode
                  · cases hEntry
            simpa [hCode, hOther] using ih

/-- A sum over the shown rows is a sum over the rows. -/
theorem sum_shown {Row Shown : Type} {text : Row → Shown} {rows : List Row} {shown : List Shown}
    (hPerm : shown.Perm (rows.map text)) {keep : Shown → Bool} (keepRow : Row → Bool)
    (hKeep : ∀ r ∈ rows, keep (text r) = keepRow r) {atoms : Shown → ℤ} {atomsRow : Row → ℤ}
    (hAtoms : ∀ r ∈ rows, atoms (text r) = atomsRow r) :
    ((shown.filter keep).map atoms).sum = ((rows.filter keepRow).map atomsRow).sum := by
  rw [((hPerm.filter keep).map atoms).sum_eq, List.filter_map, List.map_map]
  have hFilter : rows.filter (keep ∘ text) = rows.filter keepRow := List.filter_congr hKeep
  rw [hFilter]
  exact congrArg List.sum (List.map_congr_left fun r hr => hAtoms r (List.mem_of_mem_filter hr))

/-- The amounts that the figures of a balance row add up. -/
structure BalanceAmounts where
  outgoingLimit : List Amount
  outgoingUsed : List Amount
  incomingLimit : List Amount
  incomingUsed : List Amount
  totalDebt : List Amount
  totalCredit : List Amount

def balanceAmounts (db : Db env) (p e : Uuid) : BalanceAmounts :=
  let outgoing := (liveLines db.trustLines e).filter (·.fromParticipantId = p)
  let incoming := (liveLines db.trustLines e).filter (·.toParticipantId = p)
  { outgoingLimit := outgoing.map (·.limit)
    outgoingUsed := outgoing.map (lineUsed db.debts)
    incomingLimit := incoming.map (·.limit)
    incomingUsed := incoming.map (lineUsed db.debts)
    totalDebt := (db.debts.rows.filter fun d => d.debtorId = p ∧ d.equivalentId = e).map (·.amount)
    totalCredit := (db.debts.rows.filter fun d => d.creditorId = p ∧ d.equivalentId = e).map (·.amount) }

def BalanceAmounts.figures (amounts : BalanceAmounts) : List (List Amount) :=
  [amounts.outgoingLimit, amounts.outgoingUsed, amounts.incomingLimit, amounts.incomingUsed, amounts.totalDebt,
    amounts.totalCredit]

/-- All figures of a balance row are sums of nonnegative amounts. -/
theorem balanceAmounts_nonneg (db : Db env) (p e : Uuid) :
    ∀ amounts ∈ (balanceAmounts db p e).figures, ∀ x ∈ amounts, 0 ≤ x := by
  have hLimits {keep : TrustLine → Bool} : ∀ x ∈ ((liveLines db.trustLines e).filter keep).map (·.limit), 0 ≤ x := by
    intro x hx
    obtain ⟨l, hl, rfl⟩ := List.mem_map.mp hx
    exact db.trustLines.limit_nonneg l (List.mem_of_mem_filter (List.mem_of_mem_filter hl))
  have hUsed {lines : List TrustLine} : ∀ x ∈ lines.map (lineUsed db.debts), 0 ≤ x := by
    intro x hx
    obtain ⟨l, _, rfl⟩ := List.mem_map.mp hx
    exact db.debts.owed_nonneg _ _ _
  have hDebts {keep : Debt → Bool} : ∀ x ∈ (db.debts.rows.filter keep).map (·.amount), 0 ≤ x := by
    intro x hx
    obtain ⟨d, hd, rfl⟩ := List.mem_map.mp hx
    exact (db.debts.amount_positive d (List.mem_of_mem_filter hd)).le
  intro amounts hAmounts
  simp only [BalanceAmounts.figures, balanceAmounts, List.mem_cons, List.not_mem_nil, or_false] at hAmounts
  rcases hAmounts with rfl | rfl | rfl | rfl | rfl | rfl
  · exact hLimits
  · exact hUsed
  · exact hLimits
  · exact hUsed
  · exact hDebts
  · exact hDebts

/-- The fallback adds up the atoms of the amounts that the backend adds up. -/
theorem selectedBalanceRow_eq (hMirrors : Mirrors data db) (hReferenced : Referenced db)
    (hNames : PlainNames env.directory) (he : e ∈ env.directory.equivalents)
    (hPrecision : data.precisionOf e.code = some precision) (hp : p ∈ env.directory.participants) :
    selectedBalanceRow data p.pid e.code =
      let amounts := balanceAmounts db p.id e.id
      some { outgoingLimit := atomSum precision amounts.outgoingLimit
             outgoingUsed := atomSum precision amounts.outgoingUsed
             incomingLimit := atomSum precision amounts.incomingLimit
             incomingUsed := atomSum precision amounts.incomingUsed
             totalDebt := atomSum precision amounts.totalDebt
             totalCredit := atomSum precision amounts.totalCredit
             net := atomSum precision amounts.totalCredit - atomSum precision amounts.totalDebt } := by
  have hNormal := normEq_of_valid (hNames.code e he)
  obtain ⟨textDebt, hDebts, hShowsDebt⟩ := hMirrors.debts
  obtain ⟨textLine, hLines, hShowsLine⟩ := hMirrors.trustlines
  have hDebtRows {keep : GraphDebt → Bool} {keepRow : Debt → Bool}
      (hKeep : ∀ d ∈ db.debts.rows, keep (textDebt d) = keepRow d) :
      (atomsByEq data (·.equivalent) (·.amount) keep data.debts).getD e.code 0 =
        ((db.debts.rows.filter fun d => keepRow d && d.equivalentId = e.id).map fun d =>
          GeoLedger.decimalToAtoms d.amount precision).sum := by
    rw [getD_atomsByEq hNormal hPrecision]
    refine sum_shown hDebts _ (fun d hd => ?_) fun d hd => (hShowsDebt d hd).amount.atoms precision
    rw [hKeep d hd, (hShowsDebt d hd).equivalent, Bool.and_comm]
    exact congrArg _ (decide_eq_decide.mpr (normEq_codeText_iff hNames he (hReferenced.debts d hd).2.2))
  have hLineRows {keep : GraphTrustline → Bool} {keepRow : TrustLine → Bool} {text : GraphTrustline → String}
      {amount : TrustLine → Amount} (hKeep : ∀ l ∈ db.trustLines.rows, keep (textLine l) = keepRow l)
      (hText : ∀ l ∈ db.trustLines.rows, Shows (text (textLine l)) (amount l)) :
      (atomsByEq data (·.equivalent) text keep data.trustlines).getD e.code 0 =
        atomSum precision (((liveLines db.trustLines e.id).filter keepRow).map amount) := by
    have hRow (l : TrustLine) (hl : l ∈ db.trustLines.rows.filter (·.status ≠ .closed)) : l ∈ db.trustLines.rows :=
      List.mem_of_mem_filter hl
    rw [getD_atomsByEq hNormal hPrecision, atomSum, List.map_map,
      sum_shown hLines (fun l => keepRow l && l.equivalentId = e.id) (fun l hl => ?_)
        fun l hl => (hText l (hRow l hl)).atoms precision]
    · rw [liveLines, List.filter_filter, List.filter_filter]
      refine congrArg List.sum (congrArg _ (List.filter_congr fun l _ => ?_))
      simp only [Bool.decide_and]
      cases keepRow l <;> simp [Bool.and_comm]
    · rw [hKeep l (hRow l hl), (hShowsLine l (hRow l hl)).equivalent, Bool.and_comm]
      exact congrArg _ (decide_eq_decide.mpr
        (normEq_codeText_iff hNames he (hReferenced.trustlines l (hRow l hl)).2.2))
  have hFrom : ∀ l ∈ db.trustLines.rows, decide ((textLine l).fromPid = p.pid) =
      decide (l.fromParticipantId = p.id) := fun l hl => by
    rw [(hShowsLine l hl).fromPid, decide_eq_decide]
    exact pidText_eq_iff hp (hReferenced.trustlines l hl).1
  have hTo : ∀ l ∈ db.trustLines.rows, decide ((textLine l).toPid = p.pid) =
      decide (l.toParticipantId = p.id) := fun l hl => by
    rw [(hShowsLine l hl).toPid, decide_eq_decide]
    exact pidText_eq_iff hp (hReferenced.trustlines l hl).2.1
  have hDebtor : ∀ d ∈ db.debts.rows, decide ((textDebt d).debtor = p.pid) = decide (d.debtorId = p.id) :=
    fun d hd => by
      rw [(hShowsDebt d hd).debtor, decide_eq_decide]
      exact pidText_eq_iff hp (hReferenced.debts d hd).1
  have hCreditor : ∀ d ∈ db.debts.rows, decide ((textDebt d).creditor = p.pid) = decide (d.creditorId = p.id) :=
    fun d hd => by
      rw [(hShowsDebt d hd).creditor, decide_eq_decide]
      exact pidText_eq_iff hp (hReferenced.debts d hd).2.1
  simp only [selectedBalanceRow, hPrecision, Option.map_some, Option.some.injEq, balanceAmounts]
  rw [hLineRows hFrom fun l hl => (hShowsLine l hl).limit, hLineRows hFrom fun l hl => (hShowsLine l hl).used,
    hLineRows hTo fun l hl => (hShowsLine l hl).limit, hLineRows hTo fun l hl => (hShowsLine l hl).used,
    hDebtRows hDebtor, hDebtRows hCreditor]
  simp only [atomSum, List.map_map, Bool.decide_and]
  rfl

end Balance

section Distribution

/-- The least of some numbers that add up to nothing is not positive. -/
theorem minOrZero_nonpos {vals : List ℤ} (hSum : vals.sum = 0) : minOrZero vals ≤ 0 := by
  cases vals with
  | nil => exact le_rfl
  | cons v rest =>
      by_contra hPos
      have hAll : ∀ x ∈ v :: rest, 0 < x := fun x hx => (not_le.mp hPos).trans_le (minOrZero_le hx)
      exact (List.sum_pos _ hAll (List.cons_ne_nil v rest)).ne' hSum

theorem maxOrZero_nonneg {vals : List ℤ} (hSum : vals.sum = 0) : 0 ≤ maxOrZero vals := by
  cases vals with
  | nil => exact le_rfl
  | cons v rest =>
      by_contra hNeg
      have hAll : ∀ x ∈ v :: rest, x < 0 := fun x hx => (List.le_max_of_mem hx).trans_lt (not_le.mp hNeg)
      exact (@List.sum_pos ℤᵒᵈ _ _ _ _ hAll (List.cons_ne_nil v rest)).ne' hSum

/-- The fallback clamps a bin as the backend does. -/
theorem bucket_eq {minV w v : ℤ} (hMin : minV ≤ v) :
    (max 0 (min (20 - 1) (if w > 0 then (v - minV).tdiv w else 0))).toNat = binOf minV w v := by
  rw [binOf, Int.tdiv_eq_ediv_of_nonneg (sub_nonneg.mpr hMin)]
  generalize (if w > 0 then (v - minV) / w else 0) = idx
  split
  · omega
  · split <;> omega

/-- Of positions that add up to nothing both sides make the same distribution. -/
theorem distributionOf_eq (localeCompare : String → String → ℤ) {net : Dict String ℤ} {vals : List ℤ}
    (hPerm : (net.items.map (·.2)).Perm vals) (hSum : vals.sum = 0) :
    let dist := distributionOf localeCompare net
    dist.n = vals.length ∧ dist.min = minOrZero vals ∧ dist.max = maxOrZero vals ∧
      dist.bins = distributionBins (minOrZero vals) (maxOrZero vals) vals := by
  intro dist
  have hValues : net.items.map (·.2) = net.keys.map (net.getD · 0) := Dict.map_snd_items net 0
  have hMin : (net.items.map (·.2)).foldl min 0 = minOrZero vals := by
    rw [hPerm.foldl_eq, List.foldl_min, ← minOrZero_eq, min_eq_right (minOrZero_nonpos hSum)]
  have hMax : (net.items.map (·.2)).foldl max 0 = maxOrZero vals := by
    rw [hPerm.foldl_eq, List.foldl_max, ← maxOrZero_eq, max_eq_right (maxOrZero_nonneg hSum)]
  have hKeys : (net.keys.insertionSort fun a b => comparePids localeCompare net a b ≤ 0).Perm net.keys :=
    List.perm_insertionSort _ _
  have hCount : (net.keys.insertionSort fun a b => comparePids localeCompare net a b ≤ 0).length = vals.length := by
    rw [hKeys.length_eq, ← hPerm.length_eq, hValues, List.length_map]
  refine ⟨hCount, hMin, hMax, ?_⟩
  simp only [dist, distributionOf, hMin, hMax, hCount, distributionBins]
  split
  · rfl
  · next hSpan =>
      have hWidth : (maxOrZero vals - minOrZero vals + 20 - 1).tdiv 20 =
          binWidth (maxOrZero vals - minOrZero vals) := Int.tdiv_eq_ediv_of_nonneg (by omega)
      have hCounts : fill (fun pid => (max 0 (min (20 - 1)
            (if binWidth (maxOrZero vals - minOrZero vals) > 0 then
              (net.getD pid 0 - minOrZero vals).tdiv (binWidth (maxOrZero vals - minOrZero vals)) else 0))).toNat)
          (List.replicate 20 0) (net.keys.insertionSort fun a b => comparePids localeCompare net a b ≤ 0) =
          fill (binOf (minOrZero vals) (binWidth (maxOrZero vals - minOrZero vals))) (List.replicate 20 0) vals := by
        rw [fill_perm _ _ hKeys, ← fill_perm _ _ hPerm, hValues, fill_map]
        refine fill_congr _ fun pid hPid => bucket_eq (minOrZero_le (hPerm.mem_iff.mp ?_))
        rw [hValues]
        exact List.mem_map_of_mem hPid
      rw [hWidth, hCounts]

end Distribution

section NetPositions

/-- The transfers of the rows that the fallback adds up to net positions. -/
theorem netByPid_eq (hMirrors : Mirrors data db) (hReferenced : Referenced db) (hNames : PlainNames env.directory)
    (he : e ∈ env.directory.equivalents) :
    ∃ entries, netByPid data e.code precision =
        (Dict.ofList ((data.participants.filter (· ≠ "")).map (·, (0 : ℤ)))).tally entries ∧
      entries.Perm ((db.debts.rows.filter (·.equivalentId = e.id)).flatMap fun d =>
        [(env.directory.pidText d.debtorId, -GeoLedger.decimalToAtoms d.amount precision),
          (env.directory.pidText d.creditorId, GeoLedger.decimalToAtoms d.amount precision)]) := by
  obtain ⟨text, hDebts, hShows⟩ := hMirrors.debts
  refine ⟨_, rfl, ?_⟩
  have hPlain {id : Uuid} (hId : env.directory.Registered id) :
      trimText (env.directory.pidText id) = env.directory.pidText id ∧ env.directory.pidText id ≠ "" := by
    obtain ⟨q, hq, hPid⟩ := pidText_mem hId
    rw [← hPid]
    exact ⟨hNames.pid q hq, env.directory.pid_nonempty q hq⟩
  refine ((hDebts.filter _).flatMap_right _).trans (List.Perm.of_eq ?_)
  rw [List.filter_map, List.flatMap_map]
  have hFilter : db.debts.rows.filter ((fun d => decide (normEq d.equivalent = e.code)) ∘ text) =
      db.debts.rows.filter (·.equivalentId = e.id) := by
    refine List.filter_congr fun d hd => ?_
    rw [Function.comp_apply, (hShows d hd).equivalent, decide_eq_decide]
    exact normEq_codeText_iff hNames he (hReferenced.debts d hd).2.2
  rw [hFilter]
  refine List.flatMap_congr fun d hd => ?_
  have hRow := List.mem_of_mem_filter hd
  have hDebtor := hPlain (hReferenced.debts d hRow).1
  have hCreditor := hPlain (hReferenced.debts d hRow).2.1
  rw [(hShows d hRow).debtor, (hShows d hRow).creditor, (hShows d hRow).amount.atoms precision, hDebtor.1, hCreditor.1]
  simp only [if_pos hDebtor.2, if_pos hCreditor.2]
  rfl

/-- Every participant has a net position, and nobody else. -/
theorem keys_netByPid (hMirrors : Mirrors data db) (hReferenced : Referenced db) (hNames : PlainNames env.directory)
    (he : e ∈ env.directory.equivalents) :
    (netByPid data e.code precision).keys.Perm (env.directory.participants.map (·.pid)) := by
  obtain ⟨entries, hNet, hPerm⟩ := @netByPid_eq _ _ _ _ precision hMirrors hReferenced hNames he
  refine (List.perm_ext_iff_of_nodup (netByPid data e.code precision).nodup env.directory.pid_unique).mpr fun pid => ?_
  change pid ∈ (netByPid data e.code precision).keys ↔ _
  rw [hNet, Dict.mem_keys_tally, Dict.mem_keys_ofList, List.map_map]
  constructor
  · rintro (hListed | hEntry)
    · obtain ⟨listed, hIn, rfl⟩ := List.mem_map.mp hListed
      exact hMirrors.participants.mem_iff.mp (List.mem_of_mem_filter hIn)
    · obtain ⟨entry, hIn, rfl⟩ := List.mem_map.mp hEntry
      obtain ⟨d, hd, hEnd⟩ := List.mem_flatMap.mp (hPerm.mem_iff.mp hIn)
      have hEnds := hReferenced.debts d (List.mem_of_mem_filter hd)
      simp only [List.mem_cons, List.not_mem_nil, or_false] at hEnd
      rcases hEnd with rfl | rfl
      · exact List.mem_map.mpr (pidText_mem hEnds.1)
      · exact List.mem_map.mpr (pidText_mem hEnds.2.1)
  · intro hPid
    refine Or.inl (List.mem_map.mpr ⟨pid, List.mem_filter.mpr ⟨hMirrors.participants.mem_iff.mpr hPid, ?_⟩, rfl⟩)
    obtain ⟨q, hq, rfl⟩ := List.mem_map.mp hPid
    exact decide_eq_true (env.directory.pid_nonempty q hq)

/-- What a PID is left with in the fallback. -/
theorem getD_netByPid_eq (hMirrors : Mirrors data db) (hReferenced : Referenced db) (hNames : PlainNames env.directory)
    (he : e ∈ env.directory.equivalents) (pid : Pid) :
    let rows := db.debts.rows.filter (·.equivalentId = e.id)
    let atoms := fun d : Debt => GeoLedger.decimalToAtoms d.amount precision
    (netByPid data e.code precision).getD pid 0 =
      ((rows.filter fun d => env.directory.pidText d.creditorId = pid).map atoms).sum -
        ((rows.filter fun d => env.directory.pidText d.debtorId = pid).map atoms).sum := by
  obtain ⟨entries, hNet, hPerm⟩ := @netByPid_eq _ _ _ _ precision hMirrors hReferenced hNames he
  intro rows atoms
  rw [hNet, Dict.getD_tally, Dict.getD_ofList_const, zero_add, ((hPerm.filter _).map _).sum_eq]
  exact sum_transfers rows pid

/-- The net position of a participant in the fallback: truncated credits less truncated debts. -/
theorem getD_netByPid (hMirrors : Mirrors data db) (hReferenced : Referenced db) (hNames : PlainNames env.directory)
    (he : e ∈ env.directory.equivalents) (hp : p ∈ env.directory.participants) :
    (netByPid data e.code precision).getD p.pid 0 =
      atomSum precision (balanceAmounts db p.id e.id).totalCredit -
        atomSum precision (balanceAmounts db p.id e.id).totalDebt := by
  rw [getD_netByPid_eq hMirrors hReferenced hNames he]
  have hEnd {side : Debt → Uuid} (hSide : ∀ d ∈ db.debts.rows, env.directory.Registered (side d)) :
      (((db.debts.rows.filter (·.equivalentId = e.id)).filter fun d => env.directory.pidText (side d) = p.pid).map
        fun d => GeoLedger.decimalToAtoms d.amount precision).sum =
      atomSum precision ((db.debts.rows.filter fun d => side d = p.id ∧ d.equivalentId = e.id).map (·.amount)) := by
    rw [atomSum, List.map_map, List.filter_filter]
    refine congrArg List.sum (congrArg _ (List.filter_congr fun d hd => ?_))
    rw [Bool.decide_and, decide_eq_decide.mpr (pidText_eq_iff hp (hSide d hd))]
  rw [hEnd fun d hd => (hReferenced.debts d hd).2.1, hEnd fun d hd => (hReferenced.debts d hd).1]
  rfl

/-- The net positions of the fallback add up to nothing. -/
theorem sum_netByPid (hMirrors : Mirrors data db) (hReferenced : Referenced db) (hNames : PlainNames env.directory)
    (he : e ∈ env.directory.equivalents) :
    ((netByPid data e.code precision).items.map (·.2)).sum = 0 := by
  have hKeys := @keys_netByPid _ _ _ _ precision hMirrors hReferenced hNames he
  have hKey {id : Uuid} (hId : env.directory.Registered id) :
      env.directory.pidText id ∈ (netByPid data e.code precision).keys :=
    hKeys.mem_iff.mpr (List.mem_map.mpr (pidText_mem hId))
  have hValues := Dict.map_snd_items (netByPid data e.code precision) 0
  simp only [getD_netByPid_eq hMirrors hReferenced hNames he] at hValues
  rw [hValues]
  refine sum_positions (netByPid data e.code precision).nodup (fun d hd => ?_) fun d hd => ?_
  · exact hKey (hReferenced.debts d (List.mem_of_mem_filter hd)).1
  · exact hKey (hReferenced.debts d (List.mem_of_mem_filter hd)).2.1

/-- The carries of the credits and of the debts of every participant are the same. -/
def CarriesBalance (db : Db env) (e : Uuid) (precision : Nat) : Prop :=
  ∀ p ∈ env.directory.participants, ⌊cutOff precision (balanceAmounts db p.id e).totalCredit⌋ =
    ⌊cutOff precision (balanceAmounts db p.id e).totalDebt⌋

/-- The net position of the backend is that of the truncated figures, with what the sums
carry. -/
theorem netAtoms_eq (db : Db env) (e : Uuid) (precision : Nat) (p : Participant) :
    netAtoms db.debts e precision p =
      (atomSum precision (balanceAmounts db p.id e).totalCredit +
          ⌊cutOff precision (balanceAmounts db p.id e).totalCredit⌋) -
        (atomSum precision (balanceAmounts db p.id e).totalDebt +
          ⌊cutOff precision (balanceAmounts db p.id e).totalDebt⌋) := by
  rw [← decimalToAtoms_sum (balanceAmounts_nonneg db p.id e _ (by simp [BalanceAmounts.figures])),
    ← decimalToAtoms_sum (balanceAmounts_nonneg db p.id e _ (by simp [BalanceAmounts.figures]))]
  rfl

/-- The net position of a participant is the same on both sides exactly when the
carries of its credits and debts are. -/
theorem netByPid_eq_netAtoms_iff (hMirrors : Mirrors data db) (hReferenced : Referenced db)
    (hNames : PlainNames env.directory) (he : e ∈ env.directory.equivalents) (hp : p ∈ env.directory.participants) :
    (netByPid data e.code precision).getD p.pid 0 = netAtoms db.debts e.id precision p ↔
      ⌊cutOff precision (balanceAmounts db p.id e.id).totalCredit⌋ =
        ⌊cutOff precision (balanceAmounts db p.id e.id).totalDebt⌋ := by
  rw [getD_netByPid hMirrors hReferenced hNames he hp, netAtoms_eq]
  omega

/-- The net positions of the fallback are those of the backend, up to their order. -/
theorem values_perm (hMirrors : Mirrors data db) (hReferenced : Referenced db) (hNames : PlainNames env.directory)
    (he : e ∈ env.directory.equivalents) (hCarries : CarriesBalance db e.id precision) :
    ((netByPid data e.code precision).items.map (·.2)).Perm
      ((sortedParticipants db.debts e.id precision).map (netAtoms db.debts e.id precision)) := by
  have hKeys := @keys_netByPid _ _ _ _ precision hMirrors hReferenced hNames he
  have hSame : env.directory.participants.map (fun p => (netByPid data e.code precision).getD p.pid 0) =
      env.directory.participants.map (netAtoms db.debts e.id precision) := List.map_congr_left fun p hp =>
    (netByPid_eq_netAtoms_iff hMirrors hReferenced hNames he hp).mpr (hCarries p hp)
  rw [Dict.map_snd_items _ 0]
  refine (hKeys.map _).trans ?_
  rw [List.map_map]
  exact (List.Perm.of_eq hSame).trans ((List.perm_insertionSort _ _).map _).symm

end NetPositions

section Rank

/-- How `localeCompare` compares: a total order on texts that tells PIDs apart. -/
structure LocaleOrder (localeCompare : String → String → ℤ) (directory : Directory) : Prop where
  total : ∀ a b, localeCompare a b ≤ 0 ∨ localeCompare b a ≤ 0
  trans : ∀ a b c, localeCompare a b ≤ 0 → localeCompare b c ≤ 0 → localeCompare a c ≤ 0
  antisymm : ∀ p ∈ directory.participants, ∀ q ∈ directory.participants,
    localeCompare p.pid q.pid ≤ 0 → localeCompare q.pid p.pid ≤ 0 → p.pid = q.pid

/-- The fallback puts the larger net position first, and leaves ties to the locale. -/
theorem comparePids_iff {localeCompare : String → String → ℤ} {net : Dict String ℤ} (a b : String) :
    comparePids localeCompare net a b ≤ 0 ↔
      net.getD b 0 < net.getD a 0 ∨ net.getD a 0 = net.getD b 0 ∧ localeCompare a b ≤ 0 := by
  unfold comparePids
  split
  · next hEq => simp [hEq]
  · next hNe =>
      split
      · next hMore => simp [hMore.not_gt, hNe]
      · next hLess => simp [lt_of_le_of_ne (not_lt.mp hLess) (Ne.symm hNe)]

/-- The participants of a participant's net position that an order puts before it. -/
def tiesBefore (db : Db env) (e : Uuid) (precision : Nat) (before : Pid → Pid → Prop) [DecidableRel before]
    (p : Participant) : Nat :=
  env.directory.participants.countP fun q =>
    netAtoms db.debts e precision q = netAtoms db.debts e precision p ∧ before q.pid p.pid

/-- The participants with a larger net position. -/
def ahead (db : Db env) (e : Uuid) (precision : Nat) (p : Participant) : Nat :=
  env.directory.participants.countP fun q => netAtoms db.debts e precision p < netAtoms db.debts e precision q

/-- The rank of the backend counts those ahead and the ties with a lesser PID. -/
theorem backendRank_eq (db : Db env) (e : Uuid) (precision : Nat) (hp : p ∈ env.directory.participants) :
    (computeRankAndDistribution db.debts p.pid e precision).2 =
      ⟨ahead db e precision p + tiesBefore db e precision (· < ·) p + 1, env.directory.participants.length,
        netAtoms db.debts e precision p⟩ := by
  have hIdx : (sortedParticipants db.debts e precision).idxOf p =
      ahead db e precision p + tiesBefore db e precision (· < ·) p := by
    unfold sortedParticipants
    rw [@idxOf_ranking _ _ _ _ (netAtoms db.debts e precision) (fun a b => a.pid ≤ b.pid) _ _ _ (fun _ _ => Iff.rfl)
      (fun a b => le_total a.pid b.pid) (fun _ _ _ => le_trans) _ (List.Nodup.of_map _ env.directory.pid_unique)
      (fun a ha b hb hab hba => Rows.eq_of_column env.directory.pid_unique ha hb (le_antisymm hab hba)) _ hp]
    simp only [ahead, tiesBefore, lt_iff_le_not_ge]
  rw [rank_eq_place db.debts e precision hp, hIdx]

/-- The rank of the fallback counts those ahead and the ties that come before in the locale. -/
theorem selectedRank_eq (hMirrors : Mirrors data db) (hReferenced : Referenced db)
    (hNames : PlainNames env.directory) (he : e ∈ env.directory.equivalents)
    (hCarries : CarriesBalance db e.id precision) {localeCompare : String → String → ℤ}
    (hLocale : LocaleOrder localeCompare env.directory) (hp : p ∈ env.directory.participants) :
    selectedRank (distributionOf localeCompare (netByPid data e.code precision)) p.pid =
      some ⟨ahead db e.id precision p + tiesBefore db e.id precision
          (fun a b => localeCompare a b ≤ 0 ∧ ¬localeCompare b a ≤ 0) p + 1,
        env.directory.participants.length, netAtoms db.debts e.id precision p⟩ := by
  have hKeys := @keys_netByPid _ _ _ _ precision hMirrors hReferenced hNames he
  have hNet {q : Participant} (hq : q ∈ env.directory.participants) :
      (netByPid data e.code precision).getD q.pid 0 = netAtoms db.debts e.id precision q :=
    (netByPid_eq_netAtoms_iff hMirrors hReferenced hNames he hq).mpr (hCarries q hq)
  have hMem : p.pid ∈ (netByPid data e.code precision).keys := hKeys.mem_iff.mpr (List.mem_map_of_mem hp)
  have hAntisymm : ∀ a ∈ (netByPid data e.code precision).keys, ∀ b ∈ (netByPid data e.code precision).keys,
      localeCompare a b ≤ 0 → localeCompare b a ≤ 0 → a = b := by
    intro a ha b hb hab hba
    obtain ⟨q, hq, rfl⟩ := List.mem_map.mp (hKeys.mem_iff.mp ha)
    obtain ⟨r, hr, rfl⟩ := List.mem_map.mp (hKeys.mem_iff.mp hb)
    exact hLocale.antisymm q hq r hr hab hba
  have hIdx := @idxOf_ranking _ _ _ _ ((netByPid data e.code precision).getD · 0) (fun a b => localeCompare a b ≤ 0)
    _ _ _ comparePids_iff hLocale.total hLocale.trans (netByPid data e.code precision).keys
    (netByPid data e.code precision).nodup hAntisymm _ hMem
  have hAhead : (netByPid data e.code precision).keys.countP (fun pid =>
      (netByPid data e.code precision).getD p.pid 0 < (netByPid data e.code precision).getD pid 0) =
      ahead db e.id precision p := by
    rw [hKeys.countP_eq, List.countP_map]
    refine List.countP_congr fun q hq => ?_
    rw [Function.comp_apply, hNet hp, hNet hq]
  have hTies : (netByPid data e.code precision).keys.countP (fun pid =>
      (netByPid data e.code precision).getD pid 0 = (netByPid data e.code precision).getD p.pid 0 ∧
        localeCompare pid p.pid ≤ 0 ∧ ¬localeCompare p.pid pid ≤ 0) =
      tiesBefore db e.id precision (fun a b => localeCompare a b ≤ 0 ∧ ¬localeCompare b a ≤ 0) p := by
    rw [hKeys.countP_eq, List.countP_map]
    refine List.countP_congr fun q hq => ?_
    rw [Function.comp_apply, hNet hp, hNet hq]
  rw [hAhead, hTies] at hIdx
  have hCount : (netByPid data e.code precision).keys.length = env.directory.participants.length := by
    rw [hKeys.length_eq, List.length_map]
  have hFound := List.idxOf_lt_length_of_mem ((List.mem_insertionSort
    fun a b => comparePids localeCompare (netByPid data e.code precision) a b ≤ 0).mpr hMem)
  rw [hIdx, List.length_insertionSort, hCount] at hFound
  simp only [selectedRank, distributionOf, hIdx, List.length_insertionSort, hCount, if_pos hFound, hNet hp]

end Rank

section Bottlenecks

/-- A coefficient of twenty-eight digits is not rounded. -/
theorem roundToContext_of_lt {coefficient : Nat} (h : coefficient < 10 ^ 28) : roundToContext coefficient = coefficient := by
  have hDigits : (Nat.digits 10 coefficient).length - contextPrecision = 0 :=
    Nat.sub_eq_zero_of_le ((Nat.digits_length_le_iff (by norm_num) coefficient).mpr h)
  simp [roundToContext, hDigits, Nat.mod_one]

/-- A product with at most twenty-eight digits is exact. -/
theorem contextProduct_eq {amount : Amount} (hGrid : amount ∈ AmountColumn.numeric208.grid) (hNonneg : 0 ≤ amount)
    {d : UnsignedDecimal} (hDigits : ⌊amount * 10 ^ 8⌋.toNat * d.coefficient < 10 ^ 28) :
    contextProduct amount d = amount * d.value := by
  obtain ⟨n, rfl⟩ := Grid.mem_multiples_iff.mp hGrid
  have hScaled : (n : Amount) * AmountColumn.storageQuantum * 10 ^ 8 = n := by
    rw [AmountColumn.storageQuantum]
    ring
  have hSign : 0 ≤ n := by
    by_contra hNeg
    have hQuantum := AmountColumn.storageQuantum_pos
    have hCast : (n : Amount) < 0 := by exact_mod_cast not_le.mp hNeg
    exact absurd hNonneg (not_le.mpr (mul_neg_of_neg_of_pos hCast hQuantum))
  have hCoefficient : ((⌊(n : Amount) * AmountColumn.storageQuantum * 10 ^ 8⌋.toNat : Nat) : Amount) = n := by
    rw [hScaled, Int.floor_intCast]
    exact_mod_cast Int.toNat_of_nonneg hSign
  rw [contextProduct, roundToContext_of_lt hDigits, Nat.cast_mul, hCoefficient, UnsignedDecimal.value,
    AmountColumn.storageQuantum, pow_add]
  field_simp
  ring

/-- The direction of a trust line around a participant, and its other end. -/
def entryOf (p : Uuid) (l : TrustLine) : Option (BottleneckDir × Uuid) :=
  if l.fromParticipantId = p then some (.out, l.toParticipantId)
  else if l.toParticipantId = p then some (.inc, l.fromParticipantId)
  else none

/-- A line is an outgoing bottleneck of the participant that gives it. -/
theorem entryOf_eq_out_iff {p id : Uuid} {l : TrustLine} :
    entryOf p l = some (.out, id) ↔ l.fromParticipantId = p ∧ l.toParticipantId = id := by
  unfold entryOf
  split
  · next hFrom => simp [hFrom]
  · next hFrom => split <;> simp [hFrom]

/-- A line is an incoming bottleneck of the participant that receives it. -/
theorem entryOf_eq_inc_iff {p id : Uuid} {l : TrustLine} :
    entryOf p l = some (.inc, id) ↔ l.fromParticipantId ≠ p ∧ l.toParticipantId = p ∧ l.fromParticipantId = id := by
  unfold entryOf
  split
  · next hFrom => simp [hFrom]
  · next hFrom => split <;> simp_all

/-- The live lines of an equivalent around a participant differ in direction or other end. -/
theorem eq_of_entryOf {tl : TrustTable env} {p e id : Uuid} {dir : BottleneckDir} {l l' : TrustLine}
    (hl : l ∈ liveLines tl e) (hl' : l' ∈ liveLines tl e) (h : entryOf p l = some (dir, id))
    (h' : entryOf p l' = some (dir, id)) : l' = l := by
  obtain ⟨hMem, hLive⟩ := List.mem_filter.mp hl
  obtain ⟨hMem', hLive'⟩ := List.mem_filter.mp hl'
  simp only [decide_eq_true_eq] at hLive hLive'
  refine TrustTable.eq_of_live hMem' hMem hLive'.1 hLive.1 ?_
  cases dir with
  | out =>
      obtain ⟨hFrom, hTo⟩ := entryOf_eq_out_iff.mp h
      obtain ⟨hFrom', hTo'⟩ := entryOf_eq_out_iff.mp h'
      rw [TrustLine.key, TrustLine.key, hFrom, hFrom', hTo, hTo', hLive.2, hLive'.2]
  | inc =>
      obtain ⟨_, hTo, hFrom⟩ := entryOf_eq_inc_iff.mp h
      obtain ⟨_, hTo', hFrom'⟩ := entryOf_eq_inc_iff.mp h'
      rw [TrustLine.key, TrustLine.key, hFrom, hFrom', hTo, hTo', hLive.2, hLive'.2]

/-- The bottlenecks of the fallback, by the lines they come from. -/
theorem mem_selectedBottlenecks_iff (hMirrors : Mirrors data db) (hReferenced : Referenced db)
    (hNames : PlainNames env.directory) (he : e ∈ env.directory.equivalents) (hp : p ∈ env.directory.participants)
    {threshold : String} {thr : UnsignedDecimal} (hThreshold : parseDecimal threshold = some ⟨thr.coefficient, thr.scale⟩)
    {dir : BottleneckDir} {other : String} :
    (dir, other) ∈ selectedBottlenecks data p.pid e.code threshold ↔
      ∃ l ∈ liveLines db.trustLines e.id, ∃ id, entryOf p.id l = some (dir, id) ∧
        env.directory.pidText id = other ∧ l.limit ≠ 0 ∧ l.limit - lineUsed db.debts l < l.limit * thr.value := by
  obtain ⟨text, hLines, hShows⟩ := hMirrors.trustlines
  have hBelow {l : TrustLine} (hl : l ∈ db.trustLines.rows) :
      isRatioBelowThreshold (text l).available (text l).limit threshold = true ↔
        l.limit ≠ 0 ∧ l.limit - lineUsed db.debts l < l.limit * thr.value :=
    isRatioBelowThreshold_iff (hShows l hl).available (hShows l hl).limit hThreshold (Int.natCast_nonneg _)
  have hEntry {l : TrustLine} (hl : l ∈ db.trustLines.rows) :
      ((dir, other) ∈ if (text l).fromPid = p.pid then
          if isRatioBelowThreshold (text l).available (text l).limit threshold then
            [(BottleneckDir.out, (text l).toPid)] else []
        else if (text l).toPid = p.pid then
          if isRatioBelowThreshold (text l).available (text l).limit threshold then
            [(BottleneckDir.inc, (text l).fromPid)] else []
        else []) ↔
      ∃ id, entryOf p.id l = some (dir, id) ∧ env.directory.pidText id = other ∧
        l.limit ≠ 0 ∧ l.limit - lineUsed db.debts l < l.limit * thr.value := by
    obtain ⟨hFrom, hTo, _⟩ := hReferenced.trustlines l hl
    rw [← hBelow hl, (hShows l hl).fromPid, (hShows l hl).toPid]
    unfold entryOf
    by_cases hOut : l.fromParticipantId = p.id
    · rw [if_pos ((pidText_eq_iff hp hFrom).mpr hOut), if_pos hOut]
      split
      · next hRatio => simp [hRatio, eq_comm]
      · next hRatio => simp [hRatio]
    · rw [if_neg (mt (pidText_eq_iff hp hFrom).mp hOut), if_neg hOut]
      by_cases hInc : l.toParticipantId = p.id
      · rw [if_pos ((pidText_eq_iff hp hTo).mpr hInc), if_pos hInc]
        split
        · next hRatio => simp [hRatio, eq_comm]
        · next hRatio => simp [hRatio]
      · rw [if_neg (mt (pidText_eq_iff hp hTo).mp hInc), if_neg hInc]
        simp
  have hCode {l : TrustLine} (hl : l ∈ db.trustLines.rows) :
      normEq (text l).equivalent = e.code ↔ l.equivalentId = e.id := by
    rw [(hShows l hl).equivalent]
    exact normEq_codeText_iff hNames he (hReferenced.trustlines l hl).2.2
  unfold selectedBottlenecks
  rw [List.mem_flatMap]
  constructor
  · rintro ⟨t, ht, hIn⟩
    obtain ⟨hLoaded, hEquivalent⟩ := List.mem_filter.mp ht
    obtain ⟨l, hl, rfl⟩ := List.mem_map.mp (hLines.mem_iff.mp hLoaded)
    obtain ⟨hMem, hLive⟩ := List.mem_filter.mp hl
    refine ⟨l, List.mem_filter.mpr ⟨hMem, ?_⟩, (hEntry hMem).mp hIn⟩
    simpa using ⟨of_decide_eq_true hLive, (hCode hMem).mp (of_decide_eq_true hEquivalent)⟩
  · rintro ⟨l, hl, hFound⟩
    obtain ⟨hMem, hLive⟩ := List.mem_filter.mp hl
    simp only [decide_eq_true_eq] at hLive
    refine ⟨text l, List.mem_filter.mpr ⟨hLines.mem_iff.mpr (List.mem_map_of_mem ?_), ?_⟩, (hEntry hMem).mpr hFound⟩
    · exact List.mem_filter.mpr ⟨hMem, decide_eq_true hLive.1⟩
    · exact decide_eq_true ((hCode hMem).mpr hLive.2)

/-- The bottlenecks of the backend, by the lines they come from. -/
theorem mem_computeBottlenecks_iff {p e : Uuid} {thr : UnsignedDecimal} {b : AdminParticipantCapacityBottleneck} :
    b ∈ computeBottlenecks db p e (some thr) ↔
      b.trustline ∈ liveLines db.trustLines e ∧ b.trustline.status = .active ∧ 0 < b.trustline.limit ∧
        b.trustline.limit - lineUsed db.debts b.trustline < contextProduct b.trustline.limit thr ∧
        (b.dir = .out ∧ b.trustline.fromParticipantId = p ∧
            b.other = env.directory.pidText b.trustline.toParticipantId ∨
          b.dir = .inc ∧ b.trustline.toParticipantId = p ∧
            b.other = env.directory.pidText b.trustline.fromParticipantId) := by
  have hBelow (l : TrustLine) : (some thr).any (fun thr => l.status = .active ∧ 0 < l.limit ∧
      GeoLedger.isRatioBelowThreshold (l.limit - lineUsed db.debts l) l.limit thr) = true ↔
      l.status = .active ∧ 0 < l.limit ∧ l.limit - lineUsed db.debts l < contextProduct l.limit thr := by
    rw [Option.any_some, decide_eq_true_iff, GeoLedger.isRatioBelowThreshold]
    refine and_congr_right fun _ => and_congr_right fun hPos => ?_
    rw [if_neg (not_le.mpr hPos), decide_eq_true_eq]
  unfold computeBottlenecks
  simp only [List.mem_flatMap, List.mem_filter, List.mem_append, List.mem_ite_nil_right, List.mem_singleton,
    decide_eq_true_eq, hBelow]
  constructor
  · rintro ⟨l, ⟨hl, _⟩, ⟨⟨hFrom, hActive, hPos, hLess⟩, rfl⟩ | ⟨⟨hTo, hActive, hPos, hLess⟩, rfl⟩⟩
    · exact ⟨hl, hActive, hPos, hLess, Or.inl ⟨rfl, hFrom, rfl⟩⟩
    · exact ⟨hl, hActive, hPos, hLess, Or.inr ⟨rfl, hTo, rfl⟩⟩
  · obtain ⟨dir, other, l⟩ := b
    rintro ⟨hl, hActive, hPos, hLess, ⟨hDir, hFrom, hOther⟩ | ⟨hDir, hTo, hOther⟩⟩
    · simp only at hDir hOther
      subst hDir hOther
      exact ⟨l, ⟨hl, Or.inl hFrom⟩, Or.inl ⟨⟨hFrom, hActive, hPos, hLess⟩, rfl⟩⟩
    · simp only at hDir hOther
      subst hDir hOther
      exact ⟨l, ⟨hl, Or.inr hTo⟩, Or.inr ⟨⟨hTo, hActive, hPos, hLess⟩, rfl⟩⟩

/-- The other end of a bottleneck is a registered participant. -/
theorem registered_of_entryOf (hReferenced : Referenced db) {q id : Uuid} {dir : BottleneckDir} {l : TrustLine}
    (hl : l ∈ liveLines db.trustLines e.id) (hEntry : entryOf q l = some (dir, id)) : env.directory.Registered id := by
  obtain ⟨hFrom, hTo, _⟩ := hReferenced.trustlines l (List.mem_of_mem_filter hl)
  cases dir with
  | out => exact (entryOf_eq_out_iff.mp hEntry).2 ▸ hTo
  | inc => exact (entryOf_eq_inc_iff.mp hEntry).2.2 ▸ hFrom

/-- A line around the participant is a bottleneck of the fallback. -/
theorem entry_mem_selected_iff (hMirrors : Mirrors data db) (hReferenced : Referenced db)
    (hNames : PlainNames env.directory) (he : e ∈ env.directory.equivalents) (hp : p ∈ env.directory.participants)
    {threshold : String} {thr : UnsignedDecimal} (hThreshold : parseDecimal threshold = some ⟨thr.coefficient, thr.scale⟩)
    {dir : BottleneckDir} {id : Uuid} {l : TrustLine} (hl : l ∈ liveLines db.trustLines e.id)
    (hEntry : entryOf p.id l = some (dir, id)) :
    (dir, env.directory.pidText id) ∈ selectedBottlenecks data p.pid e.code threshold ↔
      l.limit ≠ 0 ∧ l.limit - lineUsed db.debts l < l.limit * thr.value := by
  rw [mem_selectedBottlenecks_iff hMirrors hReferenced hNames he hp hThreshold]
  constructor
  · rintro ⟨l', hl', id', hEntry', hText, hBelow⟩
    have hId : id' = id :=
      pidText_inj (registered_of_entryOf hReferenced hl' hEntry') (registered_of_entryOf hReferenced hl hEntry) hText
    rwa [eq_of_entryOf hl hl' hEntry (hId ▸ hEntry')] at hBelow
  · exact fun hBelow => ⟨l, hl, id, hEntry, rfl, hBelow⟩

/-- An active line around the participant is a bottleneck of the backend. -/
theorem entry_mem_computed_iff (hReferenced : Referenced db) {q : Uuid} {thr : UnsignedDecimal} {dir : BottleneckDir}
    {id : Uuid} {l : TrustLine} (hl : l ∈ liveLines db.trustLines e.id) (hActive : l.status = .active)
    (hEntry : entryOf q l = some (dir, id)) :
    (∃ b ∈ computeBottlenecks db q e.id (some thr), b.dir = dir ∧ b.other = env.directory.pidText id) ↔
      0 < l.limit ∧ l.limit - lineUsed db.debts l < contextProduct l.limit thr := by
  have hId := registered_of_entryOf hReferenced hl hEntry
  constructor
  · rintro ⟨b, hb, rfl, hOther⟩
    obtain ⟨hl', _, hPos, hBelow, hSide⟩ := mem_computeBottlenecks_iff.mp hb
    obtain ⟨hFrom, hTo, _⟩ := hReferenced.trustlines _ (List.mem_of_mem_filter hl')
    have hEntry' : entryOf q b.trustline = some (b.dir, id) := by
      rcases hSide with ⟨hDir, hOut, hText⟩ | ⟨hDir, hInc, hText⟩
      · rw [hDir, entryOf_eq_out_iff]
        exact ⟨hOut, pidText_inj hTo hId (hText.symm.trans hOther)⟩
      · rw [hDir] at hEntry
        have hSame := pidText_inj hFrom hId (hText.symm.trans hOther)
        obtain ⟨hNe, _, hEnd⟩ := entryOf_eq_inc_iff.mp hEntry
        rw [hDir, entryOf_eq_inc_iff]
        exact ⟨fun hSelf => hNe (hEnd.trans (hSame.symm.trans hSelf)), hInc, hSame⟩
    rw [eq_of_entryOf hl hl' hEntry hEntry'] at hPos hBelow
    exact ⟨hPos, hBelow⟩
  · rintro ⟨hPos, hBelow⟩
    refine ⟨⟨dir, env.directory.pidText id, l⟩, mem_computeBottlenecks_iff.mpr ⟨hl, hActive, hPos, hBelow, ?_⟩, rfl, rfl⟩
    cases dir with
    | out =>
        obtain ⟨hFrom, hTo⟩ := entryOf_eq_out_iff.mp hEntry
        exact Or.inl ⟨rfl, hFrom, congrArg env.directory.pidText hTo.symm⟩
    | inc =>
        obtain ⟨_, hTo, hFrom⟩ := entryOf_eq_inc_iff.mp hEntry
        exact Or.inr ⟨rfl, hTo, congrArg env.directory.pidText hFrom.symm⟩

end Bottlenecks

section Agreement

/-- When the figures of a balance row are those of the backend, truncated. -/
structure BalanceAgreement (precision : Nat) (row : BalanceAtoms) (shown : AdminParticipantBalanceRow)
    (amounts : BalanceAmounts) : Prop where
  outgoingLimit : row.outgoingLimit = GeoLedger.decimalToAtoms shown.outgoingLimit precision ↔
    cutOff precision amounts.outgoingLimit < 1
  outgoingUsed : row.outgoingUsed = GeoLedger.decimalToAtoms shown.outgoingUsed precision ↔
    cutOff precision amounts.outgoingUsed < 1
  incomingLimit : row.incomingLimit = GeoLedger.decimalToAtoms shown.incomingLimit precision ↔
    cutOff precision amounts.incomingLimit < 1
  incomingUsed : row.incomingUsed = GeoLedger.decimalToAtoms shown.incomingUsed precision ↔
    cutOff precision amounts.incomingUsed < 1
  totalDebt : row.totalDebt = GeoLedger.decimalToAtoms shown.totalDebt precision ↔
    cutOff precision amounts.totalDebt < 1
  totalCredit : row.totalCredit = GeoLedger.decimalToAtoms shown.totalCredit precision ↔
    cutOff precision amounts.totalCredit < 1
  net : row.net = GeoLedger.decimalToAtoms shown.net precision ↔
    |cutOff precision amounts.totalCredit - cutOff precision amounts.totalDebt| < 1 ∧
      (0 < row.net → cutOff precision amounts.totalDebt ≤ cutOff precision amounts.totalCredit) ∧
      (row.net < 0 → cutOff precision amounts.totalCredit ≤ cutOff precision amounts.totalDebt)

/-- The balance row of the fallback agrees with that of the backend as far as truncation
lets it. -/
theorem balance_agrees (hMirrors : Mirrors data db) (hReferenced : Referenced db)
    (hNames : PlainNames env.directory) (he : e ∈ env.directory.equivalents)
    (hPrecision : data.precisionOf e.code = some precision) (hp : p ∈ env.directory.participants) :
    ∃ row, selectedBalanceRow data p.pid e.code = some row ∧
      BalanceAgreement precision row (computeBalanceRow db p.id e) (balanceAmounts db p.id e.id) := by
  have hNonneg {amounts : List Amount} (h : amounts ∈ (balanceAmounts db p.id e.id).figures) :=
    balanceAmounts_nonneg db p.id e.id amounts h
  refine ⟨_, selectedBalanceRow_eq hMirrors hReferenced hNames he hPrecision hp, ?_⟩
  exact {
    outgoingLimit := atomSum_eq_iff (hNonneg (by simp [BalanceAmounts.figures]))
    outgoingUsed := atomSum_eq_iff (hNonneg (by simp [BalanceAmounts.figures]))
    incomingLimit := atomSum_eq_iff (hNonneg (by simp [BalanceAmounts.figures]))
    incomingUsed := atomSum_eq_iff (hNonneg (by simp [BalanceAmounts.figures]))
    totalDebt := atomSum_eq_iff (hNonneg (by simp [BalanceAmounts.figures]))
    totalCredit := atomSum_eq_iff (hNonneg (by simp [BalanceAmounts.figures]))
    net := atomSum_sub_eq_iff (hNonneg (by simp [BalanceAmounts.figures]))
      (hNonneg (by simp [BalanceAmounts.figures])) }

/-- The distribution is the one of the backend. -/
structure DistributionAgreement (dist : NetDist) (shown : AdminParticipantNetDistribution) : Prop where
  min : dist.min = shown.minAtoms
  max : dist.max = shown.maxAtoms
  bins : dist.bins = shown.bins

/-- A bottleneck is one on both sides or on neither. -/
def BottleneckAgrees (data : GraphData) (db : Db env) (p : Participant) (e : Equivalent) (threshold : String)
    (thr : UnsignedDecimal) (dir : BottleneckDir) (other : String) : Prop :=
  (dir, other) ∈ selectedBottlenecks data p.pid e.code threshold ↔
    ∃ b ∈ computeBottlenecks db p.id e.id (some thr), b.dir = dir ∧ b.other = other

/-- The fallback counts the same participants as the backend. Its totals are the
truncated ones of the backend exactly when nothing is carried, and its net
position when what was cut off does not work against it. With equal carries it
has the same distribution, and the same ranks exactly up to the order of ties.
It finds the same active lines wherever the product of the limit and the
threshold is not rounded across the available amount. -/
theorem fallback_agrees (hColumn : env.column = .numeric208) (hMirrors : Mirrors data db) (hReferenced : Referenced db)
    (hNames : PlainNames env.directory) (he : e ∈ env.directory.equivalents)
    (hPrecision : data.precisionOf e.code = some precision) {localeCompare : String → String → ℤ}
    (hLocale : LocaleOrder localeCompare env.directory) {threshold : String} {thr : UnsignedDecimal}
    (hThreshold : parseDecimal threshold = some ⟨thr.coefficient, thr.scale⟩) :
    ∃ dist, netDistribution localeCompare data e.code = some dist ∧
      ∀ p ∈ env.directory.participants,
        let backend := computeRankAndDistribution db.debts p.pid e.id precision
        (∃ row, selectedBalanceRow data p.pid e.code = some row ∧
          BalanceAgreement precision row (computeBalanceRow db p.id e) (balanceAmounts db p.id e.id)) ∧
        dist.n = backend.2.n ∧
        (dist.netAtomsByPid.getD p.pid 0 = backend.2.netAtoms ↔
          ⌊cutOff precision (balanceAmounts db p.id e.id).totalCredit⌋ =
            ⌊cutOff precision (balanceAmounts db p.id e.id).totalDebt⌋) ∧
        (CarriesBalance db e.id precision →
          DistributionAgreement dist backend.1 ∧
          (selectedRank dist p.pid = some backend.2 ↔
            tiesBefore db e.id precision (fun a b => localeCompare a b ≤ 0 ∧ ¬localeCompare b a ≤ 0) p =
              tiesBefore db e.id precision (· < ·) p)) ∧
        ∀ l ∈ liveLines db.trustLines e.id, l.status = .active → ∀ dir id, entryOf p.id l = some (dir, id) →
          (BottleneckAgrees data db p e threshold thr dir (env.directory.pidText id) ↔
            (0 < l.limit → (l.limit - lineUsed db.debts l < l.limit * thr.value ↔
              l.limit - lineUsed db.debts l < contextProduct l.limit thr))) ∧
          (⌊l.limit * 10 ^ 8⌋.toNat * thr.coefficient < 10 ^ 28 →
            BottleneckAgrees data db p e threshold thr dir (env.directory.pidText id)) := by
  have hDist : netDistribution localeCompare data e.code =
      some (distributionOf localeCompare (netByPid data e.code precision)) := by
    rw [netDistribution, hPrecision, Option.map_some]
  refine ⟨_, hDist, fun p hp => ⟨balance_agrees hMirrors hReferenced hNames he hPrecision hp, ?_, ?_, ?_, ?_⟩⟩
  · have hKeys := @keys_netByPid _ _ _ _ precision hMirrors hReferenced hNames he
    have hCount : (netByPid data e.code precision).keys.length = env.directory.participants.length := by
      rw [hKeys.length_eq, List.length_map]
    rw [backendRank_eq db e.id precision hp]
    simp only [distributionOf, List.length_insertionSort, hCount]
  · rw [backendRank_eq db e.id precision hp]
    exact netByPid_eq_netAtoms_iff hMirrors hReferenced hNames he hp
  · intro hCarries
    have hPerm := values_perm hMirrors hReferenced hNames he hCarries
    have hSum := hPerm.sum_eq.symm.trans (sum_netByPid hMirrors hReferenced hNames he)
    obtain ⟨_, hMin, hMax, hBins⟩ := distributionOf_eq localeCompare hPerm hSum
    refine ⟨⟨hMin, hMax, hBins⟩, ?_⟩
    rw [selectedRank_eq hMirrors hReferenced hNames he hCarries hLocale hp, backendRank_eq db e.id precision hp]
    simp
  · intro l hl hActive dir id hEntry
    have hMem := List.mem_of_mem_filter hl
    have hLimit : l.limit ≠ 0 ↔ 0 < l.limit := (db.trustLines.limit_nonneg l hMem).lt_iff_ne'.symm
    have hAgrees : BottleneckAgrees data db p e threshold thr dir (env.directory.pidText id) ↔
        (0 < l.limit → (l.limit - lineUsed db.debts l < l.limit * thr.value ↔
          l.limit - lineUsed db.debts l < contextProduct l.limit thr)) := by
      rw [BottleneckAgrees, entry_mem_selected_iff hMirrors hReferenced hNames he hp hThreshold hl hEntry,
        entry_mem_computed_iff hReferenced hl hActive hEntry, hLimit, and_congr_right_iff]
    refine ⟨hAgrees, fun hDigits => hAgrees.mpr fun hPos => ?_⟩
    rw [contextProduct_eq (hColumn ▸ db.trustLines.stored l hMem) hPos.le hDigits]

end Agreement

section Sample

/-- A owes half a cent to B and to C, which have lines of one cent to it. -/
def halfCents : Db (Env.sample .numeric208 true) where
  trustLines := {
    rows := [⟨0, 2, 1, 1, 1 / 100, none, .active⟩, ⟨1, 3, 1, 1, 1 / 100, none, .active⟩]
    generated := 2
    id_unique := by decide
    live_unique := by decide
    issued := by simp [Env.sample]
    stored := by
      have hRow : (1 / 100 : Amount) ∈ Grid.multiples AmountColumn.storageQuantum :=
        Grid.mem_multiples_iff.mpr ⟨1000000, by norm_num [AmountColumn.storageQuantum]⟩
      exact List.forall_mem_cons.mpr ⟨hRow, List.forall_mem_cons.mpr ⟨hRow, List.forall_mem_nil _⟩⟩
    limit_fits := by decide +kernel
    limit_nonneg := by decide +kernel }
  debts := {
    rows := [⟨0, 1, 2, 1, 1 / 200⟩, ⟨1, 1, 3, 1, 1 / 200⟩]
    generated := 2
    id_unique := by decide
    key_unique := by decide
    issued := by simp [Env.sample]
    stored := by
      have hRow : (1 / 200 : Amount) ∈ Grid.multiples AmountColumn.storageQuantum :=
        Grid.mem_multiples_iff.mpr ⟨500000, by norm_num [AmountColumn.storageQuantum]⟩
      exact List.forall_mem_cons.mpr ⟨hRow, List.forall_mem_cons.mpr ⟨hRow, List.forall_mem_nil _⟩⟩
    amount_fits := by decide +kernel
    amount_positive := by decide +kernel
    no_self_loop := by decide }
  prepareLocks := .empty
  transactions := .empty
  auditLog := []

/-- The same rows in the interface. -/
def shownHalfCents : GraphData where
  participants := ["A", "B", "C", "D", "E"]
  trustlines := [⟨"UAH", "B", "A", "0.01000000", "0.00500000", "0.00500000"⟩,
    ⟨"UAH", "C", "A", "0.01000000", "0.00500000", "0.00500000"⟩]
  debts := [⟨"UAH", "A", "B", "0.00500000"⟩, ⟨"UAH", "A", "C", "0.00500000"⟩]
  precisionByEq := Dict.ofList [("UAH", 2), ("HOUR", 2)]

/-- Slightly more than a half, with twenty-nine digits. -/
def halfAndABit : UnsignedDecimal := ⟨50000000000000000000000000001, 29⟩

/-- A locale that compares code points. -/
def codePointCompare (a b : String) : ℤ := if a ≤ b then if b ≤ a then 0 else -1 else 1

theorem codePointCompare_iff (a b : String) : codePointCompare a b ≤ 0 ↔ a ≤ b := by
  unfold codePointCompare
  split
  · next hLe => split <;> simp [hLe]
  · next hGt => simp [hGt]

theorem codePoint_localeOrder (directory : Directory) : LocaleOrder codePointCompare directory where
  total a b := by simpa only [codePointCompare_iff] using le_total a b
  trans a b c := by simpa only [codePointCompare_iff] using le_trans
  antisymm _ _ _ _ := by simpa only [codePointCompare_iff] using le_antisymm

theorem shownHalfCents_mirrors : Mirrors shownHalfCents halfCents := by
  have hHalf : Shows "0.00500000" (1 / 200) := ⟨⟨500000, 8⟩, by decide +kernel, by norm_num [BigDec.value]⟩
  have hWhole : Shows "0.01000000" (1 / 100) := ⟨⟨1000000, 8⟩, by decide +kernel, by norm_num [BigDec.value]⟩
  have hUsed : ∀ l ∈ halfCents.trustLines.rows, lineUsed halfCents.debts l = 1 / 200 := by decide +kernel
  have hLimit : ∀ l ∈ halfCents.trustLines.rows, l.limit = 1 / 100 := by decide +kernel
  refine ⟨List.Perm.refl _, ⟨fun d => ⟨"UAH", Directory.sample.pidText d.debtorId,
    Directory.sample.pidText d.creditorId, "0.00500000"⟩, List.Perm.of_eq (by rfl), fun d hd => ?_⟩,
    ⟨fun l => ⟨"UAH", Directory.sample.pidText l.fromParticipantId, Directory.sample.pidText l.toParticipantId,
      "0.01000000", "0.00500000", "0.00500000"⟩, List.Perm.of_eq (by rfl), fun l hl => ?_⟩⟩
  · have hAmount : d.amount = 1 / 200 := (by decide +kernel : ∀ d ∈ halfCents.debts.rows, d.amount = 1 / 200) d hd
    have hCode : "UAH" = Directory.sample.codeText d.equivalentId :=
      (by decide +kernel : ∀ d ∈ halfCents.debts.rows, "UAH" = Directory.sample.codeText d.equivalentId) d hd
    exact ⟨hCode, rfl, rfl, hAmount ▸ hHalf⟩
  · have hCode : "UAH" = Directory.sample.codeText l.equivalentId :=
      (by decide +kernel : ∀ l ∈ halfCents.trustLines.rows, "UAH" = Directory.sample.codeText l.equivalentId) l hl
    refine ⟨hCode, rfl, rfl, hLimit l hl ▸ hWhole, hUsed l hl ▸ hHalf, ?_⟩
    rw [hUsed l hl, hLimit l hl]
    exact (by norm_num : (1 / 200 : Amount) = 1 / 100 - 1 / 200) ▸ hHalf

theorem halfCents_referenced : Referenced halfCents := by
  constructor
  · unfold Directory.Registered
    decide +kernel
  · unfold Directory.Registered
    decide +kernel

theorem sample_plainNames : PlainNames Directory.sample := ⟨by decide +kernel, by decide +kernel⟩

/-- With two decimals the counts agree; with three nothing is carried, and A has the
same rank on both sides. -/
theorem fallback_agrees_halfCents :
    (∃ dist, netDistribution codePointCompare shownHalfCents "UAH" = some dist ∧ dist.n = 5) ∧
    ∃ dist, netDistribution codePointCompare { shownHalfCents with precisionByEq := Dict.ofList [("UAH", 3)] } "UAH" =
      some dist ∧ selectedRank dist "A" = some (computeRankAndDistribution halfCents.debts "A" 1 3).2 := by
  constructor
  · obtain ⟨dist, hDist, hAgrees⟩ := @fallback_agrees _ _ _ .uah 2 rfl shownHalfCents_mirrors halfCents_referenced
      sample_plainNames (by decide) (by decide +kernel) codePointCompare (codePoint_localeOrder _)
      "0.50000000000000000000000000001" halfAndABit (by decide +kernel)
    exact ⟨dist, hDist, (hAgrees ⟨1, "A"⟩ (by decide)).2.1.trans (by decide +kernel)⟩
  · have hMirrors : Mirrors { shownHalfCents with precisionByEq := Dict.ofList [("UAH", 3)] } halfCents :=
      ⟨shownHalfCents_mirrors.1, shownHalfCents_mirrors.2, shownHalfCents_mirrors.3⟩
    have hCarries : CarriesBalance halfCents 1 3 := by
      unfold CarriesBalance
      decide +kernel
    obtain ⟨dist, hDist, hAgrees⟩ := @fallback_agrees _ _ _ .uah 3 rfl hMirrors halfCents_referenced
      sample_plainNames (by decide) (by decide +kernel) codePointCompare (codePoint_localeOrder _)
      "0.50000000000000000000000000001" halfAndABit (by decide +kernel)
    refine ⟨dist, hDist, ((hAgrees ⟨1, "A"⟩ (by decide)).2.2.2.1 hCarries).2.mpr ?_⟩
    decide +kernel

/-- A total of two half cents is nothing for the fallback and a cent for the
backend, and a product that is rounded down hides the lines from the backend. -/
theorem fallback_differs : ∃ (data : GraphData) (db : Db (Env.sample .numeric208 true)), Mirrors data db ∧
    Referenced db ∧ data.precisionOf "UAH" = some 2 ∧
    (∃ row, selectedBalanceRow data "A" "UAH" = some row ∧
      row.totalDebt ≠ GeoLedger.decimalToAtoms (computeBalanceRow db 1 .uah).totalDebt 2) ∧
    (BottleneckDir.inc, "B") ∈ selectedBottlenecks data "A" "UAH" "0.50000000000000000000000000001" ∧
    ∀ b ∈ computeBottlenecks db 1 1 (some halfAndABit), b.other ≠ "B" := by
  refine ⟨shownHalfCents, halfCents, shownHalfCents_mirrors, halfCents_referenced, by decide +kernel, ?_, ?_, ?_⟩
  · have hRow : (selectedBalanceRow shownHalfCents "A" "UAH").map (·.totalDebt) = some 0 := by decide +kernel
    obtain ⟨row, hSome, hZero⟩ := Option.map_eq_some_iff.mp hRow
    refine ⟨row, hSome, ?_⟩
    rw [hZero]
    decide +kernel
  · decide +kernel
  · decide +kernel

end Sample

end GeoLedger.GraphAnalytics

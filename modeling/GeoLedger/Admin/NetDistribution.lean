import Mathlib
import GeoLedger.Admin.ParticipantMetrics

/-! How faithful the distribution of net positions and the rank are. Credits and
debts are truncated before they are subtracted, and twenty bins of one width
may reach past the largest value before the last one starts. -/
namespace GeoLedger.NetDistribution
open Distributions Truncation

variable {env : Env}

section Statement

/-- The bins are intervals, each starts where the previous one ends, and together
they reach from the least to the largest value. -/
structure Chained (dist : AdminParticipantNetDistribution) : Prop where
  first : dist.bins.head?.map (·.fromAtoms) = some dist.minAtoms
  last : dist.bins.getLast?.map (·.toAtoms) = some dist.maxAtoms
  adjacent : dist.bins.IsChain fun a b => a.toAtoms = b.fromAtoms
  ordered : ∀ bin ∈ dist.bins, bin.fromAtoms ≤ bin.toAtoms

/-- A value lies in a bin of a distribution. An end that two bins share belongs
to the later one. -/
def LiesIn (bins : List NetDistributionBin) (i : Nat) (h : i < bins.length) (v : ℤ) : Prop :=
  bins[i].fromAtoms ≤ v ∧ (v < bins[i].toAtoms ∨ i + 1 = bins.length ∧ v = bins[i].toAtoms)

instance (bins : List NetDistributionBin) (i : Nat) (h : i < bins.length) (v : ℤ) : Decidable (LiesIn bins i h v) :=
  inferInstanceAs (Decidable (_ ∧ _))

/-- The counts add up to the number of values, and each of them is the number of
values in its bin. -/
structure Counted (bins : List NetDistributionBin) (vals : List ℤ) : Prop where
  total : (bins.map (·.count)).sum = vals.length
  each : ∀ i (h : i < bins.length), bins[i].count = vals.countP fun v => LiesIn bins i h v

variable (t : DebtTable env) (e : Uuid) (precision : Nat)

/-- A participant's credits and debts in atoms, before truncation. -/
def scaledCredits (p : Participant) : Amount := t.credits p.id e * 10 ^ precision

def scaledDebits (p : Participant) : Amount := t.debits p.id e * 10 ^ precision

/-- The difference of the integer parts. -/
def truncatedNet (p : Participant) : ℤ := ⌊scaledCredits t e precision p⌋ - ⌊scaledDebits t e precision p⌋

/-- The difference of the fractional parts. -/
def carry (p : Participant) : Amount :=
  Int.fract (scaledCredits t e precision p) - Int.fract (scaledDebits t e precision p)

/-- The distribution, the reported net and the ranks are right for everybody. -/
structure Faithful : Prop where
  chained : ∀ p ∈ env.directory.participants, Chained (computeRankAndDistribution t p.pid e precision).1
  counted : ∀ p ∈ env.directory.participants, Counted (computeRankAndDistribution t p.pid e precision).1.bins
    (env.directory.participants.map (netAtoms t e precision))
  net : ∀ p ∈ env.directory.participants,
    (computeRankAndDistribution t p.pid e precision).2.netAtoms = truncate (t.netPosition p.id e * 10 ^ precision)
  rank : ∀ p ∈ env.directory.participants, ∀ q ∈ env.directory.participants,
    t.netPosition q.id e < t.netPosition p.id e →
      (computeRankAndDistribution t p.pid e precision).2.rank ≤ (computeRankAndDistribution t q.pid e precision).2.rank

/-- What the totals must be like: nineteen bins fit between the least and the
largest truncated net, no carry works against the sign of its net, and carries
do not overturn the order of neighbouring nets or of PIDs. -/
structure Regular : Prop where
  fits :
    let vals := env.directory.participants.map (truncatedNet t e precision)
    19 * ((maxOrZero vals - minOrZero vals + 19) / 20) ≤ maxOrZero vals - minOrZero vals
  signs : ∀ p ∈ env.directory.participants, (0 < truncatedNet t e precision p → 0 ≤ carry t e precision p) ∧
    (truncatedNet t e precision p < 0 → carry t e precision p ≤ 0)
  neighbours : ∀ p ∈ env.directory.participants, ∀ q ∈ env.directory.participants,
    truncatedNet t e precision q = truncatedNet t e precision p + 1 →
      carry t e precision p ≤ carry t e precision q + 1
  ties : ∀ p ∈ env.directory.participants, ∀ q ∈ env.directory.participants,
    truncatedNet t e precision q = truncatedNet t e precision p → q.pid < p.pid →
      carry t e precision p ≤ carry t e precision q

end Statement

section Nets

variable {t : DebtTable env} {e : Uuid} {precision : Nat} {p q : Participant}

theorem credits_nonneg (t : DebtTable env) (p e : Uuid) : 0 ≤ t.credits p e := by
  refine List.sum_nonneg fun x hx => ?_
  obtain ⟨d, hd, rfl⟩ := List.mem_map.mp hx
  exact (t.amount_positive d (List.mem_of_mem_filter hd)).le

theorem debits_nonneg (t : DebtTable env) (p e : Uuid) : 0 ≤ t.debits p e := by
  refine List.sum_nonneg fun x hx => ?_
  obtain ⟨d, hd, rfl⟩ := List.mem_map.mp hx
  exact (t.amount_positive d (List.mem_of_mem_filter hd)).le

/-- The net position in atoms is the truncated net position of the debts. -/
theorem netAtoms_eq (t : DebtTable env) (e : Uuid) (precision : Nat) :
    netAtoms t e precision = truncatedNet t e precision := by
  funext p
  have hUnit : (0 : Amount) ≤ 10 ^ precision := by positivity
  rw [netAtoms, decimalToAtoms_eq, decimalToAtoms_eq, truncate_of_nonneg (mul_nonneg (credits_nonneg t p.id e) hUnit),
    truncate_of_nonneg (mul_nonneg (debits_nonneg t p.id e) hUnit)]
  rfl

/-- The exact net in atoms is the truncated net and the carry. -/
theorem netPosition_mul (t : DebtTable env) (e : Uuid) (precision : Nat) (p : Participant) :
    t.netPosition p.id e * 10 ^ precision = truncatedNet t e precision p + carry t e precision p := by
  have hCredits := Int.floor_add_fract (scaledCredits t e precision p)
  have hDebits := Int.floor_add_fract (scaledDebits t e precision p)
  rw [DebtTable.netPosition, sub_mul, truncatedNet, carry, Int.cast_sub]
  change scaledCredits t e precision p - scaledDebits t e precision p = _
  linarith

/-- The truncations of credits and debits carry less than one atom between them. -/
theorem abs_carry_lt_one (t : DebtTable env) (e : Uuid) (precision : Nat) (p : Participant) :
    -1 < carry t e precision p ∧ carry t e precision p < 1 := by
  have hCredits := Int.fract_nonneg (scaledCredits t e precision p)
  have hCredits' := Int.fract_lt_one (scaledCredits t e precision p)
  have hDebits := Int.fract_nonneg (scaledDebits t e precision p)
  have hDebits' := Int.fract_lt_one (scaledDebits t e precision p)
  rw [carry]
  constructor <;> linarith

/-- The reported net is the truncated exact net exactly when the carry does not
work against its sign. -/
theorem netAtoms_eq_truncate_iff : netAtoms t e precision p = truncate (t.netPosition p.id e * 10 ^ precision) ↔
    (0 < truncatedNet t e precision p → 0 ≤ carry t e precision p) ∧
      (truncatedNet t e precision p < 0 → carry t e precision p ≤ 0) := by
  obtain ⟨hBelow, hAbove⟩ := abs_carry_lt_one t e precision p
  rw [netAtoms_eq, netPosition_mul, eq_comm, truncate_intCast_add_eq_iff_of_small hAbove hBelow]

/-- Exact net positions are compared by their truncated ones and their carries. -/
theorem netPosition_lt_iff : t.netPosition q.id e < t.netPosition p.id e ↔
    (truncatedNet t e precision q : Amount) + carry t e precision q <
      truncatedNet t e precision p + carry t e precision p := by
  rw [← netPosition_mul, ← netPosition_mul, mul_lt_mul_iff_left₀ (by positivity)]

/-- The order in which the participants are sorted. -/
def RanksBefore (t : DebtTable env) (e : Uuid) (precision : Nat) (p q : Participant) : Prop :=
  netAtoms t e precision q < netAtoms t e precision p ∨
    netAtoms t e precision p = netAtoms t e precision q ∧ p.pid ≤ q.pid

instance (t : DebtTable env) (e : Uuid) (precision : Nat) : DecidableRel (RanksBefore t e precision) :=
  fun _ _ => inferInstanceAs (Decidable (_ ∨ _))

/-- Of two participants one ranks before the other. -/
theorem RanksBefore.total (t : DebtTable env) (e : Uuid) (precision : Nat) (p q : Participant) :
    RanksBefore t e precision p q ∨ RanksBefore t e precision q p := by
  rcases lt_trichotomy (netAtoms t e precision p) (netAtoms t e precision q) with hLess | hSame | hMore
  · exact Or.inr (Or.inl hLess)
  · exact (le_total p.pid q.pid).imp (fun hPids => Or.inr ⟨hSame, hPids⟩) fun hPids => Or.inr ⟨hSame.symm, hPids⟩
  · exact Or.inl (Or.inl hMore)

theorem RanksBefore.trans {r : Participant} (h : RanksBefore t e precision p q)
    (h' : RanksBefore t e precision q r) : RanksBefore t e precision p r := by
  rcases h with hMore | ⟨hSame, hPids⟩ <;> rcases h' with hMore' | ⟨hSame', hPids'⟩
  · exact Or.inl (hMore'.trans hMore)
  · exact Or.inl (hSame' ▸ hMore)
  · exact Or.inl (hSame ▸ hMore')
  · exact Or.inr ⟨hSame.trans hSame', hPids.trans hPids'⟩

/-- Two participants that rank before each other are the same one. -/
theorem RanksBefore.antisymm (hp : p ∈ env.directory.participants) (hq : q ∈ env.directory.participants)
    (h : RanksBefore t e precision p q) (h' : RanksBefore t e precision q p) : p = q := by
  refine Rows.eq_of_column env.directory.pid_unique hp hq ?_
  rcases h with hMore | ⟨hSame, hPids⟩ <;> rcases h' with hMore' | ⟨_, hPids'⟩
  · exact absurd hMore' hMore.not_gt
  · omega
  · omega
  · exact le_antisymm hPids hPids'

/-- A participant is ranked before another one exactly by the order of the rows. -/
theorem rank_le_iff (hp : p ∈ env.directory.participants) (hq : q ∈ env.directory.participants) :
    (computeRankAndDistribution t p.pid e precision).2.rank ≤ (computeRankAndDistribution t q.pid e precision).2.rank ↔
      truncatedNet t e precision q < truncatedNet t e precision p ∨
        truncatedNet t e precision p = truncatedNet t e precision q ∧ p.pid ≤ q.pid := by
  have hPerm : (sortedParticipants t e precision).Perm env.directory.participants := List.perm_insertionSort _ _
  have hSorted : (sortedParticipants t e precision).Pairwise (RanksBefore t e precision) :=
    @List.pairwise_insertionSort _ (RanksBefore t e precision) _ ⟨RanksBefore.total t e precision⟩
      ⟨fun _ _ _ => RanksBefore.trans⟩ _
  rw [rank_eq_place t e precision hp, rank_eq_place t e precision hq, Nat.add_le_add_iff_right,
    idxOf_le_idxOf_iff (RanksBefore.total t e precision) hSorted
      (fun a ha b hb => RanksBefore.antisymm (hPerm.mem_iff.mp ha) (hPerm.mem_iff.mp hb))
      (hPerm.mem_iff.mpr hp) (hPerm.mem_iff.mpr hq), RanksBefore, netAtoms_eq]

/-- Ranks follow the exact nets exactly when carries overturn neither the order
of neighbouring truncated nets nor that of PIDs. -/
theorem rank_faithful_iff (hp : p ∈ env.directory.participants) (hq : q ∈ env.directory.participants) :
    (t.netPosition q.id e < t.netPosition p.id e →
      (computeRankAndDistribution t p.pid e precision).2.rank ≤
        (computeRankAndDistribution t q.pid e precision).2.rank) ↔
    (truncatedNet t e precision q = truncatedNet t e precision p + 1 →
      carry t e precision p ≤ carry t e precision q + 1) ∧
    (truncatedNet t e precision q = truncatedNet t e precision p → q.pid < p.pid →
      carry t e precision p ≤ carry t e precision q) := by
  obtain ⟨hBelow, hAbove⟩ := abs_carry_lt_one t e precision p
  obtain ⟨hBelow', hAbove'⟩ := abs_carry_lt_one t e precision q
  rw [rank_le_iff hp hq, @netPosition_lt_iff _ _ _ precision _ _]
  rcases lt_trichotomy (truncatedNet t e precision p) (truncatedNet t e precision q) with hLess | hSame | hMore
  · have hWorse : ¬ (truncatedNet t e precision q < truncatedNet t e precision p ∨
        truncatedNet t e precision p = truncatedNet t e precision q ∧ p.pid ≤ q.pid) := by omega
    rw [imp_iff_not hWorse, not_lt, and_iff_left fun hSame => absurd hSame hLess.ne']
    constructor
    · intro h hNext
      rw [hNext, Int.cast_add, Int.cast_one] at h
      linarith
    · intro h
      rcases (Int.add_one_le_iff.mpr hLess).lt_or_eq with hFar | hNext
      · have hCast : (truncatedNet t e precision p : Amount) + 2 ≤ truncatedNet t e precision q := by
          exact_mod_cast (by omega : truncatedNet t e precision p + 2 ≤ truncatedNet t e precision q)
        linarith
      · have hCast : (truncatedNet t e precision p : Amount) + 1 = truncatedNet t e precision q := by
          exact_mod_cast hNext
        linarith [h hNext.symm]
  · rw [hSame, and_iff_right fun hNext => absurd hNext (by omega), add_lt_add_iff_left]
    constructor
    · intro h _ hPids
      by_contra hCarry
      rcases h (not_le.mp hCarry) with hLess | ⟨_, hOrder⟩
      · exact absurd hLess (lt_irrefl _)
      · exact absurd hPids hOrder.not_gt
    · intro h hCarry
      refine Or.inr ⟨rfl, ?_⟩
      by_contra hPids
      exact absurd (h rfl (not_le.mp hPids)) hCarry.not_ge
  · refine iff_of_true (fun _ => Or.inl hMore) ⟨fun hNext => absurd hNext (by omega), fun hSame => ?_⟩
    exact absurd hSame hMore.ne

end Nets

section Bins

variable {vals : List ℤ} {minV maxV : ℤ}

/-- The bins of one width. -/
def evenBins (minV maxV w : ℤ) (buckets : List Nat) : List NetDistributionBin :=
  (List.range 20).map fun (i : Nat) =>
    ⟨minV + i * w, if i = 20 - 1 then maxV else minV + i * w + w, buckets.getD i 0⟩

/-- Values that are spread are counted into twenty even bins. -/
theorem distributionBins_of_spread (h : 0 < maxV - minV) (vals : List ℤ) :
    distributionBins minV maxV vals = evenBins minV maxV (binWidth (maxV - minV))
      (fill (binOf minV (binWidth (maxV - minV))) (List.replicate 20 0) vals) := by
  rw [distributionBins, if_neg (not_le.mpr h)]
  rfl

/-- The bins are a chain of intervals exactly when the last one does not start
behind the largest value. -/
theorem chained_iff (hOrder : minV ≤ maxV) (vals : List ℤ) :
    Chained ⟨minV, maxV, distributionBins minV maxV vals⟩ ↔
      19 * ((maxV - minV + 19) / 20) ≤ maxV - minV := by
  by_cases hSpread : 0 < maxV - minV
  · have hWidth : binWidth (maxV - minV) = (maxV - minV + 19) / 20 := by rw [binWidth]; omega
    rw [distributionBins_of_spread hSpread]
    generalize fill _ _ vals = buckets
    generalize hW : binWidth (maxV - minV) = w at *
    constructor
    · intro h
      have hLast := h.ordered ⟨minV + (19 : Nat) * w, maxV, buckets.getD 19 0⟩
        (List.mem_map.mpr ⟨19, by simp, rfl⟩)
      simp only [Nat.cast_ofNat] at hLast
      omega
    · intro h
      have hHead : (List.range 20).head? = some 0 := rfl
      refine ⟨by simp [evenBins, hHead], by simp [evenBins, List.range_succ], ?_, ?_⟩
      · rw [evenBins, List.isChain_map, List.isChain_range]
        intro i hi
        rw [if_neg (by omega)]
        push_cast
        ring
      · intro bin hBin
        obtain ⟨i, hi, rfl⟩ := List.mem_map.mp hBin
        simp only
        split
        · next hLast =>
          rw [hLast]
          push_cast
          omega
        · omega
  · have hEq : maxV = minV := by omega
    subst hEq
    simp only [distributionBins, sub_self, le_refl, if_true]
    exact iff_of_true ⟨rfl, rfl, List.IsChain.singleton _, by simp⟩ (by decide)

/-- Which bin a value between the ends counts in. -/
theorem binOf_eq_iff {w v : ℤ} {i : Nat} (hWidth : 0 < w) (hSpan : maxV - minV ≤ 20 * w) (hMin : minV ≤ v)
    (hMax : v ≤ maxV) (hi : i < 20) :
    binOf minV w v = i ↔ minV + i * w ≤ v ∧ (v < minV + i * w + w ∨ i = 19 ∧ v ≤ maxV) := by
  have hQuot : 0 ≤ (v - minV) / w := Int.ediv_nonneg (by omega) hWidth.le
  have hPlace (k : ℤ) : k ≤ (v - minV) / w ↔ minV + k * w ≤ v := by
    rw [Int.le_ediv_iff_mul_le hWidth]
    omega
  have hHere := hPlace i
  have hNext := hPlace (i + 1)
  have hLast := hPlace 19
  rw [add_mul, one_mul] at hNext
  simp only [binOf, gt_iff_lt, hWidth, if_true]
  rw [if_neg (not_lt.mpr hQuot)]
  split
  · constructor
    · intro h
      obtain rfl : i = 19 := by omega
      refine ⟨?_, Or.inr ⟨rfl, hMax⟩⟩
      push_cast
      omega
    · rintro ⟨_, hLess | ⟨rfl, _⟩⟩
      · omega
      · rfl
  · constructor
    · intro h
      omega
    · rintro ⟨hFrom, hLess | ⟨rfl, _⟩⟩ <;> omega

/-- Every value is counted, in the bin it lies in. -/
theorem counted_distributionBins (hBounds : ∀ v ∈ vals, minV ≤ v ∧ v ≤ maxV) (hOrder : minV ≤ maxV) :
    Counted (distributionBins minV maxV vals) vals := by
  by_cases hSpread : 0 < maxV - minV
  · rw [distributionBins_of_spread hSpread]
    set w := binWidth (maxV - minV) with hW
    have hWidth : 0 < w ∧ maxV - minV ≤ 20 * w := by
      rw [hW, binWidth]
      omega
    set buckets := fill (binOf minV w) (List.replicate 20 0) vals with hBuckets
    have hInside (v : ℤ) : binOf minV w v < 20 := by
      simp only [binOf]
      split <;> split <;> omega
    have hLength : buckets.length = 20 := by rw [hBuckets, length_fill, List.length_replicate]
    have hBucket (i : Nat) (hi : i < 20) : buckets.getD i 0 = vals.countP fun v => binOf minV w v = i := by
      rw [List.getD_eq_getElem?_getD, hBuckets, getElem?_fill, List.getElem?_replicate, if_pos hi]
      simp
    constructor
    · have hCounts : (evenBins minV maxV w buckets).map (·.count) = buckets := by
        refine List.ext_getElem (by simp [evenBins, hLength]) fun i _ hi => ?_
        simp [evenBins, hi]
      rw [hCounts, hBuckets, sum_fill (by simpa using fun v _ => hInside v)]
      simp
    · intro i hi
      have hi' : i < 20 := by simpa [evenBins] using hi
      simp only [evenBins, List.getElem_map, List.getElem_range, hBucket i hi']
      refine List.countP_congr fun v hv => ?_
      simp only [decide_eq_true_eq, LiesIn, List.getElem_map, List.getElem_range, List.length_map,
        List.length_range]
      obtain ⟨hMin, hMax⟩ := hBounds v hv
      rw [binOf_eq_iff hWidth.1 hWidth.2 hMin hMax hi']
      refine and_congr_right fun hFrom => ?_
      split
      · exact iff_of_true (Or.inr ⟨by omega, hMax⟩) (by omega)
      · omega
  · have hEq : maxV = minV := by omega
    subst hEq
    simp only [distributionBins, sub_self, le_refl, if_true]
    refine ⟨rfl, fun i hi => ?_⟩
    obtain rfl : i = 0 := by simpa using hi
    refine (List.countP_eq_length.mpr fun v hv => decide_eq_true ?_).symm
    obtain ⟨hMin, hMax⟩ := hBounds v hv
    exact ⟨hMin, Or.inr ⟨rfl, le_antisymm hMax hMin⟩⟩

end Bins

section Faithfulness

variable {t : DebtTable env} {e : Uuid} {precision : Nat} {p : Participant}

/-- What the bins count does not depend on the order of the values. -/
theorem Counted.perm {bins : List NetDistributionBin} {vals others : List ℤ} (h : Counted bins vals)
    (hPerm : vals.Perm others) : Counted bins others where
  total := h.total.trans hPerm.length_eq
  each i hi := (h.each i hi).trans (hPerm.countP_eq _)

/-- The distribution is that of the truncated nets, for every participant. -/
theorem distribution_eq (t : DebtTable env) (e : Uuid) (precision : Nat) (p : Participant) :
    ∃ sorted : List ℤ, sorted.Perm (env.directory.participants.map (truncatedNet t e precision)) ∧
      (computeRankAndDistribution t p.pid e precision).1 =
        ⟨minOrZero (env.directory.participants.map (truncatedNet t e precision)),
          maxOrZero (env.directory.participants.map (truncatedNet t e precision)),
          distributionBins (minOrZero (env.directory.participants.map (truncatedNet t e precision)))
            (maxOrZero (env.directory.participants.map (truncatedNet t e precision))) sorted⟩ := by
  have hPerm : ((sortedParticipants t e precision).map (netAtoms t e precision)).Perm
      (env.directory.participants.map (truncatedNet t e precision)) :=
    netAtoms_eq t e precision ▸ (List.perm_insertionSort _ _).map _
  refine ⟨_, hPerm, ?_⟩
  rw [← minOrZero_perm hPerm, ← maxOrZero_perm hPerm]
  rfl

/-- The truncated net position of a participant is between the least and the greatest. -/
theorem truncatedNet_between (hp : p ∈ env.directory.participants) :
    minOrZero (env.directory.participants.map (truncatedNet t e precision)) ≤ truncatedNet t e precision p ∧
      truncatedNet t e precision p ≤ maxOrZero (env.directory.participants.map (truncatedNet t e precision)) :=
  ⟨minOrZero_le (List.mem_map_of_mem hp), le_maxOrZero (List.mem_map_of_mem hp)⟩

/-- The bins are chained exactly when nineteen widths do not exceed the spread. -/
theorem chained_distribution_iff (hp : p ∈ env.directory.participants) :
    Chained (computeRankAndDistribution t p.pid e precision).1 ↔
      19 * ((maxOrZero (env.directory.participants.map (truncatedNet t e precision)) -
        minOrZero (env.directory.participants.map (truncatedNet t e precision)) + 19) / 20) ≤
      maxOrZero (env.directory.participants.map (truncatedNet t e precision)) -
        minOrZero (env.directory.participants.map (truncatedNet t e precision)) := by
  obtain ⟨sorted, _, hDist⟩ := distribution_eq t e precision p
  obtain ⟨hMin, hMax⟩ := @truncatedNet_between _ t e precision p hp
  rw [hDist, chained_iff (hMin.trans hMax)]

/-- The counts are right in every case. -/
theorem counted_distribution (hp : p ∈ env.directory.participants) :
    Counted (computeRankAndDistribution t p.pid e precision).1.bins
      (env.directory.participants.map (netAtoms t e precision)) := by
  obtain ⟨sorted, hPerm, hDist⟩ := distribution_eq t e precision p
  obtain ⟨hMin, hMax⟩ := @truncatedNet_between _ t e precision p hp
  rw [hDist, netAtoms_eq]
  refine (counted_distributionBins (fun v hv => ?_) (hMin.trans hMax)).perm hPerm
  obtain ⟨q, hq, rfl⟩ := List.mem_map.mp (hPerm.mem_iff.mp hv)
  exact truncatedNet_between hq

/-- The bins, the reported nets and the ranks of all participants are right
exactly when the totals are regular. -/
theorem faithful_iff (t : DebtTable env) (e : Uuid) (precision : Nat) :
    Faithful t e precision ↔ Regular t e precision := by
  constructor
  · intro h
    refine ⟨?_, fun p hp => ?_, fun p hp q hq => ?_, fun p hp q hq => ?_⟩
    · rcases hAll : env.directory.participants with _ | ⟨p, rest⟩
      · exact (by decide : 19 * (((0 : ℤ) - 0 + 19) / 20) ≤ 0 - 0)
      · have hp : p ∈ env.directory.participants := hAll ▸ List.mem_cons_self
        rw [← hAll]
        exact (chained_distribution_iff hp).mp (h.chained p hp)
    · have hNet := h.net p hp
      rw [rank_eq_place t e precision hp] at hNet
      exact netAtoms_eq_truncate_iff.mp hNet
    · exact ((rank_faithful_iff hp hq).mp (h.rank p hp q hq)).1
    · exact ((rank_faithful_iff hp hq).mp (h.rank p hp q hq)).2
  · intro h
    refine ⟨fun p hp => (chained_distribution_iff hp).mpr h.fits, fun p hp => counted_distribution hp,
      fun p hp => ?_, fun p hp q hq => ?_⟩
    · rw [rank_eq_place t e precision hp]
      exact netAtoms_eq_truncate_iff.mpr (h.signs p hp)
    · exact (rank_faithful_iff hp hq).mpr ⟨h.neighbours p hp q hq, h.ties p hp q hq⟩

/-- `A` is owed one and a half and owes six tenths. -/
def narrowDebts : DebtTable (Env.sample .numeric208 false) where
  rows := [⟨0, 3, 1, 1, 3 / 2⟩, ⟨1, 1, 2, 1, 3 / 5⟩]
  generated := 2
  id_unique := by decide
  key_unique := by decide
  issued := List.forall_mem_cons.mpr ⟨⟨0, by decide, rfl⟩,
    List.forall_mem_cons.mpr ⟨⟨1, by decide, rfl⟩, List.forall_mem_nil _⟩⟩
  stored := List.forall_mem_cons.mpr
    ⟨Grid.mem_multiples_iff.mpr ⟨150000000, by norm_num [AmountColumn.storageQuantum]⟩,
      List.forall_mem_cons.mpr
        ⟨Grid.mem_multiples_iff.mpr ⟨60000000, by norm_num [AmountColumn.storageQuantum]⟩, List.forall_mem_nil _⟩⟩
  amount_fits := List.forall_mem_cons.mpr ⟨decide_eq_true (by norm_num),
    List.forall_mem_cons.mpr ⟨decide_eq_true (by norm_num), List.forall_mem_nil _⟩⟩
  amount_positive := List.forall_mem_cons.mpr ⟨by norm_num,
    List.forall_mem_cons.mpr ⟨by norm_num, List.forall_mem_nil _⟩⟩
  no_self_loop := by decide

/-- In whole units the nets are one, zero and minus one: the last of twenty bins
starts at eighteen and ends at one, and the net of `A`, nine tenths, is reported
as one. -/
theorem narrowDebts_not_faithful :
    ¬ Faithful narrowDebts 1 0 ∧
    (⟨18, 1, 0⟩ : NetDistributionBin) ∈ (computeRankAndDistribution narrowDebts "A" 1 0).1.bins ∧
    (computeRankAndDistribution narrowDebts "A" 1 0).2.netAtoms = 1 ∧
    truncate (narrowDebts.netPosition 1 1 * 10 ^ 0) = 0 := by
  have hBin : (⟨18, 1, 0⟩ : NetDistributionBin) ∈ (computeRankAndDistribution narrowDebts "A" 1 0).1.bins := by
    decide +kernel
  refine ⟨fun h => ?_, hBin, by decide +kernel, by decide +kernel⟩
  have hOrdered := (h.chained ⟨1, "A"⟩ (by decide)).ordered _ hBin
  exact absurd hOrdered (by decide)

end Faithfulness

end GeoLedger.NetDistribution

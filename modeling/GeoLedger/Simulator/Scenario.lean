import Mathlib
import GeoLedger.Library.Dict
import GeoLedger.Validation

/-! The scenario of a run and the part of the run record that mirrors its trust
lines. Both live in memory, beside the database. -/
namespace GeoLedger

section Text

/-- `text.strip()`. -/
def strip (text : String) : String := String.ofList (pyStrip text.toList)

/-- `text.strip().upper()`, on the ASCII letters: the texts it is applied to are equivalent codes. -/
def stripUpper (text : String) : String := String.ofList ((pyStrip text.toList).map Char.toUpper)

/-- `text.strip().lower()`. -/
def stripLower (text : String) : String := String.ofList (pyLower (pyStrip text.toList))

theorem pyStrip_eq (text : List Char) :
    pyStrip text = (text.dropWhile isPyWhitespace).rdropWhile isPyWhitespace := rfl

/-- A stripped text has nothing to strip. -/
theorem pyStrip_pyStrip (text : List Char) : pyStrip (pyStrip text) = pyStrip text := by
  have hFront : (pyStrip text).dropWhile isPyWhitespace = pyStrip text := by
    rw [List.dropWhile_eq_self_iff]
    intro hPos
    have hPrefix : pyStrip text <+: text.dropWhile isPyWhitespace :=
      List.rdropWhile_prefix isPyWhitespace (text.dropWhile isPyWhitespace)
    rw [hPrefix.getElem hPos]
    exact List.dropWhile_get_zero_not isPyWhitespace text (hPos.trans_le hPrefix.length_le)
  rw [pyStrip_eq (pyStrip text), hFront, pyStrip_eq, List.rdropWhile_idempotent]

theorem toUpper_cases (c : Char) :
    c.toUpper = c ∧ ¬(97 ≤ c.toNat ∧ c.toNat ≤ 122) ∨
      97 ≤ c.toNat ∧ c.toNat ≤ 122 ∧ c.toUpper.toNat = c.toNat - 32 := by
  unfold Char.toUpper
  split
  · next h =>
      have h₁ : 97 ≤ c.toNat := h.1
      have h₂ : c.toNat ≤ 122 := h.2
      refine Or.inr ⟨h₁, h₂, ?_⟩
      have hSub : 'A'.val - 'a'.val = 4294967264 := by decide
      show (c.val + ('A'.val - 'a'.val)).toNat = c.toNat - 32
      rw [hSub, UInt32.toNat_add]
      change (c.toNat + 4294967264) % 2 ^ 32 = c.toNat - 32
      omega
  · next h => exact Or.inl ⟨rfl, fun hRange => h ⟨hRange.1, hRange.2⟩⟩

theorem isPyWhitespace_toUpper (c : Char) : isPyWhitespace c.toUpper = isPyWhitespace c := by
  rcases toUpper_cases c with ⟨h, _⟩ | ⟨h₁, h₂, h⟩
  · rw [h]
  · unfold isPyWhitespace
    rw [h]
    rw [Bool.eq_iff_iff]
    simp only [Bool.or_eq_true, Bool.and_eq_true, decide_eq_true_eq]
    omega

theorem toUpper_toUpper (c : Char) : c.toUpper.toUpper = c.toUpper := by
  rcases toUpper_cases c.toUpper with ⟨h, _⟩ | ⟨h₁, _, _⟩
  · exact h
  · rcases toUpper_cases c with ⟨h, hNot⟩ | ⟨h₂, h₃, h⟩
    · rw [h, h]
    · omega

theorem pyStrip_map_toUpper (text : List Char) :
    pyStrip (text.map Char.toUpper) = (pyStrip text).map Char.toUpper := by
  have hSame : isPyWhitespace ∘ Char.toUpper = isPyWhitespace := funext isPyWhitespace_toUpper
  unfold pyStrip
  rw [List.dropWhile_map, hSame, ← List.map_reverse, List.dropWhile_map, hSame, List.map_reverse]

theorem stripUpper_stripUpper (text : String) : stripUpper (stripUpper text) = stripUpper text := by
  unfold stripUpper
  rw [String.toList_ofList, pyStrip_map_toUpper, pyStrip_pyStrip, List.map_map]
  exact congrArg String.ofList (List.map_congr_left fun c _ => toUpper_toUpper c)

end Text

/-- An entry of `scenario["trustlines"]`. An absent text is empty, and `limit` is
the number that `Decimal(str(limit))` denotes, if it denotes one. -/
structure ScenarioTrustline where
  equivalent : String
  fromText : String
  toText : String
  limit : Option Amount
  status : String
deriving DecidableEq, Repr

/-- An entry of `scenario["participants"]`. -/
structure ScenarioParticipant where
  id : String
  status : String
deriving DecidableEq, Repr

structure Scenario where
  baseEquivalent : String
  equivalent : String
  participants : List ScenarioParticipant
  trustlines : List ScenarioTrustline

def scenarioDefaultEquivalent (scenario : Scenario) : String :=
  stripUpper (if scenario.baseEquivalent = "" then scenario.equivalent else scenario.baseEquivalent)

/-- `effective_equivalent`, for the `equivalent` of a payload. -/
def effectiveEquivalent (scenario : Scenario) (equivalent : String) : String :=
  if stripUpper equivalent = "" then scenarioDefaultEquivalent scenario else stripUpper equivalent

namespace ScenarioTrustline

variable (scenario : Scenario) (tl : ScenarioTrustline)

def fromPid : Pid := strip tl.fromText

def toPid : Pid := strip tl.toText

/-- `str(tl.get("status") or "active").strip().lower()`. -/
def statusText : String := if tl.status = "" then "active" else stripLower tl.status

/-- The pair and the equivalent that an entry is matched by. -/
def edge : String × Pid × Pid := (stripUpper (effectiveEquivalent scenario tl.equivalent), tl.fromPid, tl.toPid)

end ScenarioTrustline

/-- Set the limit of the first entry of an edge. -/
def setFirstLimit (scenario : Scenario) (edge : String × Pid × Pid) (limit : Amount) :
    List ScenarioTrustline → List ScenarioTrustline
  | [] => []
  | tl :: rest =>
      if tl.edge scenario = edge then { tl with limit := some limit } :: rest
      else tl :: setFirstLimit scenario edge limit rest

/-- The configuration of the trust drift. `decayMult` is the decimal of the
difference `1 - decay_rate` of floats. -/
structure TrustDriftConfig where
  enabled : Bool
  growthRate : Amount
  decayMult : Amount
  maxGrowth : Amount
  minLimitRatio : Amount
  overloadThreshold : Amount
deriving DecidableEq, Repr

structure EdgeClearingHistory where
  originalLimit : Amount
  clearingCount : Nat
  lastClearingTick : ℤ
  clearedVolume : Amount
deriving DecidableEq, Repr

/-- The fields of `RunRecord` that follow the trust lines of the run. -/
structure RunRecord where
  scenarioRaw : Scenario
  edgesByEquivalent : Option (Dict String (List (Pid × Pid)))
  realParticipants : Option (List (Uuid × Pid))
  trustDriftConfig : Option TrustDriftConfig
  edgeClearingHistory : Dict String EdgeClearingHistory

end GeoLedger

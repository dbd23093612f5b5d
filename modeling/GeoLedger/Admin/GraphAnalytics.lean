import Mathlib
import GeoLedger.Validation
import GeoLedger.Admin.ParticipantMetrics
import GeoLedger.Simulator.SseWire

/-! The fallback of `useGraphAnalytics`: the same figures from the rows that the
admin interface has loaded. Amounts are texts, every one of them is truncated to
atoms before anything is added up. -/
namespace GeoLedger.GraphAnalytics
open Distributions

section Decimals

/-- The digits of a text of the form `\d+`. -/
def jsDigits? (text : List Char) : Option (List Nat) :=
  if text = [] then none
  else text.mapM fun c => if charIn '0' '9' c then some (c.toNat - '0'.toNat) else none

/-- `/^(-)?(\d+)(?:\.(\d+))?$/` on a trimmed text: the sign and the digits. -/
def matchDecimal (text : String) : Option (Bool × List Nat × List Nat) :=
  let raw := SseWire.trim text.toList
  let neg := raw.head? = some '-'
  match (if neg then raw.tail else raw).span (· ≠ '.') with
  | (intPart, []) => (jsDigits? intPart).map fun int => (neg, int, [])
  | (intPart, _ :: fracPart) =>
      match jsDigits? intPart, jsDigits? fracPart with
      | some int, some frac => some (neg, int, frac)
      | _, _ => none

/-- `decimalToAtoms`: the digits beyond the precision are cut off. -/
def decimalToAtoms (input : String) (precision : Nat) : ℤ :=
  match matchDecimal input with
  | none => 0
  | some (neg, intPart, fracPart) =>
      let frac := (fracPart ++ List.replicate precision 0).take precision
      let atoms : ℤ := digitsValue (intPart ++ frac)
      if neg then -atoms else atoms

/-- A decimal as an integer and the number of its fractional digits. -/
structure BigDec where
  i : ℤ
  scale : Nat
deriving DecidableEq

def BigDec.value (d : BigDec) : ℚ := d.i / 10 ^ d.scale

def parseDecimal (text : String) : Option BigDec :=
  (matchDecimal text).map fun (neg, intPart, fracPart) =>
    let i : ℤ := digitsValue (intPart ++ fracPart)
    ⟨if neg then -i else i, fracPart.length⟩

def isRatioBelowThreshold (numerator denominator threshold : String) : Bool :=
  match parseDecimal numerator, parseDecimal denominator, parseDecimal threshold with
  | some num, some den, some thr =>
      if den.i = 0 then false
      else if thr.i < 0 then false
      else
        let s := max num.scale den.scale
        let numI := num.i * 10 ^ (s - num.scale)
        let denI := den.i * 10 ^ (s - den.scale)
        numI * 10 ^ thr.scale < denI * thr.i
  | _, _, _ => false

end Decimals

section Rows

structure GraphDebt where
  equivalent : String
  debtor : String
  creditor : String
  amount : String

structure GraphTrustline where
  equivalent : String
  fromPid : String
  toPid : String
  limit : String
  used : String
  available : String

/-- What the interface has loaded. -/
structure GraphData where
  participants : List String
  trustlines : List GraphTrustline
  debts : List GraphDebt
  precisionByEq : Dict String Nat

def trimText (text : String) : String := String.ofList (SseWire.trim text.toList)

def normEq (text : String) : String := String.ofList ((SseWire.trim text.toList).map Char.toUpper)

def GraphData.precisionOf (data : GraphData) (eqCode : String) : Option Nat :=
  data.precisionByEq.get? (normEq eqCode)

end Rows

section Balance

/-- The totals of a balance row, in atoms. -/
structure BalanceAtoms where
  outgoingLimit : ℤ
  outgoingUsed : ℤ
  incomingLimit : ℤ
  incomingUsed : ℤ
  totalDebt : ℤ
  totalCredit : ℤ
  net : ℤ
deriving DecidableEq

/-- Add up the atoms of the rows that match, by equivalent. -/
def atomsByEq {Row : Type} (data : GraphData) (equivalent amount : Row → String) (keep : Row → Bool)
    (rows : List Row) : Dict String ℤ :=
  Dict.empty.tally (rows.filterMap fun r =>
    let eqCode := normEq (equivalent r)
    if eqCode = "" then none
    else match data.precisionOf eqCode with
      | none => none
      | some p => if keep r then some (eqCode, decimalToAtoms (amount r) p) else none)

/-- `selectedBalanceRows` for the selected participant and equivalent. -/
def selectedBalanceRow (data : GraphData) (pid eqCode : String) : Option BalanceAtoms :=
  (data.precisionOf eqCode).map fun _ =>
    let lines (amount : GraphTrustline → String) (keep : GraphTrustline → Bool) :=
      (atomsByEq data (·.equivalent) amount keep data.trustlines).getD eqCode 0
    let debt := (atomsByEq data (·.equivalent) (·.amount) (·.debtor = pid) data.debts).getD eqCode 0
    let credit := (atomsByEq data (·.equivalent) (·.amount) (·.creditor = pid) data.debts).getD eqCode 0
    { outgoingLimit := lines (·.limit) (·.fromPid = pid)
      outgoingUsed := lines (·.used) (·.fromPid = pid)
      incomingLimit := lines (·.limit) (·.toPid = pid)
      incomingUsed := lines (·.used) (·.toPid = pid)
      totalDebt := debt
      totalCredit := credit
      net := credit - debt }

end Balance

section Distribution

structure NetDist where
  n : Nat
  netAtomsByPid : Dict String ℤ
  sortedPids : List String
  min : ℤ
  max : ℤ
  bins : List NetDistributionBin

/-- The net positions of `netDistribution`: every debt moves both of its ends. -/
def netByPid (data : GraphData) (eqCode : String) (prec : Nat) : Dict String ℤ :=
  (Dict.ofList ((data.participants.filter (· ≠ "")).map (·, (0 : ℤ)))).tally <|
    (data.debts.filter fun d => normEq d.equivalent = eqCode).flatMap fun d =>
      let amt := decimalToAtoms d.amount prec
      (if trimText d.debtor ≠ "" then [(trimText d.debtor, -amt)] else []) ++
        (if trimText d.creditor ≠ "" then [(trimText d.creditor, amt)] else [])

/-- The comparator that sorts the PIDs: larger positions first, equal ones by locale. -/
def comparePids (localeCompare : String → String → ℤ) (net : Dict String ℤ) (a b : String) : ℤ :=
  if net.getD a 0 = net.getD b 0 then localeCompare a b else if net.getD b 0 > net.getD a 0 then 1 else -1

/-- What `netDistribution` makes of the net positions. -/
def distributionOf (localeCompare : String → String → ℤ) (net : Dict String ℤ) : NetDist :=
  let pids := net.keys.insertionSort fun a b => comparePids localeCompare net a b ≤ 0
  let values := net.items.map (·.2)
  let minV := values.foldl min 0
  let maxV := values.foldl max 0
  let span := maxV - minV
  let w := (span + 20 - 1).tdiv 20
  let bucket := fun pid =>
    (max 0 (min (20 - 1) (if w > 0 then (net.getD pid 0 - minV).tdiv w else 0))).toNat
  let counts := fill bucket (List.replicate 20 0) pids
  let bins := if span ≤ 0 then [⟨minV, maxV, pids.length⟩]
    else (List.range 20).map fun (i : Nat) =>
      let frm := minV + i * w
      ⟨frm, if i = 20 - 1 then maxV else frm + w, counts.getD i 0⟩
  ⟨pids.length, net, pids, minV, maxV, bins⟩

def netDistribution (localeCompare : String → String → ℤ) (data : GraphData) (eqCode : String) : Option NetDist :=
  (data.precisionOf eqCode).map fun prec => distributionOf localeCompare (netByPid data eqCode prec)

def selectedRank (dist : NetDist) (pid : String) : Option AdminParticipantRank :=
  let idx := dist.sortedPids.idxOf pid
  if idx < dist.sortedPids.length then some ⟨idx + 1, dist.n, dist.netAtomsByPid.getD pid 0⟩ else none

end Distribution

section Capacity

/-- The bottlenecks of `selectedCapacity`, with the direction and the other participant. -/
def selectedBottlenecks (data : GraphData) (pid eqCode threshold : String) : List (BottleneckDir × String) :=
  (data.trustlines.filter fun t => normEq t.equivalent = eqCode).flatMap fun t =>
    if t.fromPid = pid then
      if isRatioBelowThreshold t.available t.limit threshold then [(.out, t.toPid)] else []
    else if t.toPid = pid then
      if isRatioBelowThreshold t.available t.limit threshold then [(.inc, t.fromPid)] else []
    else []

end Capacity

end GeoLedger.GraphAnalytics

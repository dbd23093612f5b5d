import Mathlib
import GeoLedger.Simulator.EventWire
import GeoLedger.Simulator.EventNormalizer

/-! Which published events the client accepts as they were emitted. Every field is
read back from what the models dump; an event is lost when its error has no
message, its amount is blank for the client only, or its count is negative. -/
namespace EventAcceptance
open GeoLedger JsValues EventNormalizer EventWire

section Expected

/-- The number that the client has for an integer. -/
def double (n : ℤ) : ℚ := ((toDouble n).getD 0 : ℤ)

/-- No value stays `null`. -/
def nullOr {Value Number : Type} (read : Value → Number) : Option Value → Nullish Number
  | none => .null
  | some value => .value (read value)

def counter (n : FiniteNat) : ℚ := double n.1

def nodePatch (p : EventWire.NodePatch) : EventNormalizer.NodePatch where
  id := p.id
  netBalanceAtoms := .value p.netBalanceAtoms
  netSign := .value p.netSign
  netBalance := .value p.netBalance
  vizColorKey := .value p.vizColorKey
  vizShapeKey := .value p.vizShapeKey
  vizSize := .value (p.width, p.height)

def edgePatch (p : EventWire.EdgePatch) : EventNormalizer.EdgePatch where
  source := p.source
  target := p.target
  trustLimit := p.trustLimit.map .text
  used := some (.text p.used)
  available := some (.text p.available)
  vizColorKey := .undefined
  vizWidthKey := (p.vizWidthKey.map .value).getD .undefined
  vizAlphaKey := .value p.vizAlphaKey

/-- Patches, unless there are none. -/
def patches {Patch Read : Type} (read : Patch → Read) (items : Option (List Patch)) : Option (List Read) :=
  orUndefined (items.map (·.map read))

/-- The style of an edge, unless it names no key. -/
def edgeStyle (style : Option String × Option String × Record) : Option EdgeStyle :=
  if style.1.isSome ∨ style.2.1.isSome then some ⟨style.1, style.2.1⟩ else none

def txEdge (edge : EventWire.TxEdge) : EventNormalizer.TxEdge where
  source := edge.source
  target := edge.target
  style := edge.style.bind edgeStyle

def nodeBadge (badge : EventWire.NodeBadge) : EventNormalizer.NodeBadge := ⟨badge.id, badge.vizBadgeKey⟩

def nodeRef (node : EventWire.NodeRef) : EventNormalizer.NodeRef := ⟨node.pid, node.name, node.type⟩

def edgeRef (edge : EventWire.EdgeRef) : EventNormalizer.EdgeRef :=
  ⟨edge.fromPid, edge.toPid, edge.equivalentCode, edge.limit⟩

def runStatus (run : RunStatus) : RunStatusEvent where
  runId := run.runId
  scenarioId := run.scenarioId
  state := run.state.text
  simTimeMs := nullOr counter run.simTimeMs
  intensityPercent := nullOr counter run.intensityPercent
  opsSec := nullOr id run.opsSec
  queueDepth := nullOr counter run.queueDepth
  lastEventType := run.lastEventType
  currentPhase := run.currentPhase
  lastError := run.lastError.map fun e => ⟨e.code, e.message, e.at'.text⟩
  stopRequestedAt := none
  stopSource := none
  stopReason := none
  stopClient := none
  attemptsTotal := run.attemptsTotal.map counter
  committedTotal := run.committedTotal.map counter
  rejectedTotal := run.rejectedTotal.map counter
  errorsTotal := run.errorsTotal.map counter
  timeoutsTotal := run.timeoutsTotal.map counter
  consecAllRejectedTicks := run.consecAllRejectedTicks.map counter

def txUpdated (tx : TxUpdated) : TxUpdatedEvent where
  equivalent := stripUpper tx.equivalent
  source := tx.fromPid.map Subtype.val
  target := tx.toPid.map Subtype.val
  amount := tx.amount
  amountFlyout := some tx.amountFlyout
  ttlMs := double tx.ttlMs
  intensityKey := tx.intensityKey
  edges := tx.edges.map txEdge
  nodeBadges := (tx.nodeBadges.getD []).map nodeBadge
  nodePatch := patches nodePatch tx.nodePatch
  edgePatch := patches edgePatch tx.edgePatch

def txFailed (tx : TxFailed) (date : UtcTime) : TxFailedEvent where
  equivalent := stripUpper tx.equivalent
  source := some tx.fromPid
  target := some tx.toPid
  error := ⟨tx.errorCode, tx.errorMessage, date.text⟩

def clearingDone (clearing : ClearingDone) : ClearingDoneEvent where
  equivalent := stripUpper clearing.equivalent
  planId := clearing.planId
  clearedCycles := clearing.clearedCycles.map fun n => double n.1
  clearedAmount := clearing.clearedAmount
  cycleEdges := clearing.cycleEdges.map (·.map fun edge => (edge.1.1, edge.2.1))
  nodePatch := patches nodePatch clearing.nodePatch
  edgePatch := patches edgePatch clearing.edgePatch

def topologyChanged (equivalent : String) (payload : TopologyPayload) (reason : Option String) :
    TopologyChangedEvent where
  equivalent := stripUpper equivalent
  addedNodes := payload.addedNodes.map nodeRef
  removedNodes := payload.removedNodes.map Subtype.val
  frozenNodes := patches Subtype.val (some payload.frozenNodes)
  addedEdges := payload.addedEdges.map edgeRef
  removedEdges := payload.removedEdges.map edgeRef
  frozenEdges := patches edgeRef (some payload.frozenEdges)
  nodePatch := patches nodePatch payload.nodePatch
  edgePatch := patches edgePatch payload.edgePatch
  reason := reason

/-- The event as it was emitted: its type, identifier, equivalent, amounts, edges, patches, error and
run state. Lists of patches that are empty are as good as absent. -/
def emitted (envelope : Envelope) (emission : Emission) : AcceptedEvent where
  eventId := envelope.eventId
  ts := envelope.ts.text
  body := match emission with
    | .runStatus run => .runStatus (runStatus run)
    | .txUpdated tx => .txUpdated (txUpdated tx)
    | .txFailed tx => .txFailed (txFailed tx envelope.at')
    | .clearingDone clearing => .clearingDone (clearingDone clearing)
    | .topologyEdgePatch equivalent patch reason =>
        .topologyChanged (topologyChanged equivalent (.ofEdgePatch patch) (some reason))
    | .topologyChanged equivalent payload reason => .topologyChanged (topologyChanged equivalent payload reason)

/-- The emissions whose events the client understands. -/
def Understood : Emission → Prop
  | .runStatus run => ∀ e ∈ run.lastError, e.message ≠ ""
  | .txUpdated tx => tx.amountFlyout = true → ∀ amount ∈ tx.amount, SseWire.trim amount.toList ≠ []
  | .txFailed tx => tx.errorMessage ≠ ""
  | .clearingDone clearing => ∀ n ∈ clearing.clearedCycles, 0 ≤ n.1
  | .topologyEdgePatch _ _ _ => True
  | .topologyChanged _ _ _ => True

end Expected

section Dates

/-- A fraction of six digits is skipped. -/
theorem skipFraction_fixedDigits (n : ℕ) : skipFraction ('.' :: (fixedDigits 6 n ++ ['Z'])) = ['Z'] := by
  have hDigits : ∀ c ∈ fixedDigits 6 n, isDigit c = true := List.all_eq_true.mp (all_fixedDigits 6 n)
  have hTake : (fixedDigits 6 n ++ ['Z']).takeWhile isDigit = fixedDigits 6 n := by
    rw [List.takeWhile_append_of_pos hDigits]
    simp [isDigit]
  have hDrop : (fixedDigits 6 n ++ ['Z']).dropWhile isDigit = ['Z'] := by
    rw [List.dropWhile_append_of_pos hDigits]
    simp [isDigit]
  rw [skipFraction, hTake, hDrop, length_fixedDigits, if_pos (by norm_num)]

/-- After the fraction of a second, written or left out, stands the time zone. -/
theorem isZone_fraction (t : UtcTime) :
    isZone (skipFraction ((if t.microsecond = 0 then [] else '.' :: fixedDigits 6 t.microsecond) ++ ['Z'])) =
      true := by
  split
  · rfl
  · rw [List.cons_append, skipFraction_fixedDigits]
    rfl

/-- The months of the client have the lengths of the months of the backend. -/
theorem day_le (year : ℕ) : ∀ month ∈ List.range 13, 1 ≤ month → daysInMonth year month =
    [31, if year % 4 = 0 ∧ (year % 100 ≠ 0 ∨ year % 400 = 0) then 29 else 28, 31, 30, 31, 30, 31, 31, 30, 31, 30,
      31].getD (month - 1) 0 := by
  intro month hMonth hPos
  simp only [List.mem_range] at hMonth
  interval_cases month <;> simp [daysInMonth, isLeapYear]

/-- The client reads the date of an event. -/
theorem isCanonicalIsoDateTime_text (t : UtcTime) : isCanonicalIsoDateTime t.text = true := by
  obtain ⟨hMonth, hMonthLe⟩ := t.month_range
  obtain ⟨hDay, hDayLe⟩ := t.day_range
  have hHour := t.hour_lt
  have hMinute := t.minute_lt
  have hSecond := t.second_lt
  have hDays := day_le t.year t.month (List.mem_range.mpr (by omega)) hMonth
  have hBound : daysInMonth t.year t.month ≤ 31 := by
    unfold daysInMonth
    split_ifs <;> omega
  rw [isCanonicalIsoDateTime, UtcTime.text, String.toList_ofList, UtcTime.chars]
  simp only [takeDigits_fixedDigits (k := 4) t.year_lt,
    takeDigits_fixedDigits (k := 2) (n := t.month) (by omega),
    takeDigits_fixedDigits (k := 2) (n := t.day) (by omega),
    takeDigits_fixedDigits (k := 2) (n := t.hour) (by omega),
    takeDigits_fixedDigits (k := 2) (n := t.minute) (by omega),
    takeDigits_fixedDigits (k := 2) (n := t.second) (by omega),
    expect_cons, Option.bind_eq_bind, Option.bind_some, isZone_fraction, Bool.and_true, Option.pure_def,
    Option.getD_some, decide_eq_true_eq, ← hDays]
  omega

end Dates

section Items

/-- Reading back dumped items gives what is kept of each. -/
theorem mapM_map {Item Read : Type} {read : Json → Option Read} {dump : Item → Json} {kept : Item → Read}
    (h : ∀ x, read (dump x) = some (kept x)) (items : List Item) :
    (items.map dump).mapM read = some (items.map kept) := by
  induction items with
  | nil => rfl
  | cons x rest ih =>
      rw [List.map_cons, List.mapM_cons, h x, ih]
      rfl

theorem double_of_lt {n : ℤ} (h : n.natAbs < 2 ^ 53) : double n = n := by
  rw [double, toDouble_of_lt h, Option.getD_some]

/-- An integer that a double holds is read as that double. -/
theorem finiteNumber?_int {n : ℤ} (h : (toDouble n).isSome = true) :
    (Json.int n).finiteNumber? = some (double n) := by
  obtain ⟨d, hd⟩ := Option.isSome_iff_exists.mp h
  rw [Json.finiteNumber?, double, hd]
  rfl

/-- An integer below two to the fifty-third is read as it is. -/
theorem finiteNumber?_of_lt {n : ℤ} (h : n.natAbs < 2 ^ 53) : (Json.int n).finiteNumber? = some (n : ℚ) := by
  rw [Json.finiteNumber?, toDouble_of_lt h]
  rfl

/-- A node patch that is dumped is read back as the patch that is kept of it. -/
theorem nodePatch?_dump (p : EventWire.NodePatch) : nodePatch? p.dump = some (nodePatch p) := by
  have hWidth := finiteNumber?_of_lt (n := p.width) (by have := p.width_le; omega)
  have hHeight := finiteNumber?_of_lt (n := p.height) (by have := p.height_le; omega)
  have hSign : (Json.int p.netSign).finiteNumber? = some (p.netSign : ℚ) := by
    refine finiteNumber?_of_lt ?_
    rcases p.isSign with h | h | h <;> simp [h]
  have hIsSign : (p.netSign : ℚ) = -1 ∨ (p.netSign : ℚ) = 0 ∨ (p.netSign : ℚ) = 1 := by
    rcases p.isSign with h | h | h <;> simp [h]
  simp only [nodePatch?, NodePatch.dump, Json.record?, nonEmptyString, asString, nullableString, netSign, vizSize,
    List.lookup_cons, String.reduceBEq, Json.text?, hWidth, hHeight, hSign, if_pos hIsSign, if_neg p.id.2,
    Option.bind_eq_bind, Option.bind_some, Option.pure_def]
  rfl

/-- An edge patch that is dumped is read back as the patch that is kept of it. -/
theorem edgePatch?_dump (p : EventWire.EdgePatch) : edgePatch? p.dump = some (edgePatch p) := by
  obtain ⟨source, target, limit, used, available, alpha, width⟩ := p
  cases limit <;> cases width <;>
    simp only [edgePatch?, EdgePatch.dump, Json.record?, nonEmptyString, asString, nullableString, textOrNumber,
      Option.map_none, Option.map_some, Option.toList_none, Option.toList_some, List.append_nil, List.cons_append,
      List.nil_append, List.lookup_cons, List.lookup_nil, String.reduceBEq, Json.text?, if_neg source.2, if_neg target.2,
      Option.bind_eq_bind, Option.bind_some, Option.pure_def] <;>
    rfl

theorem value?_nullOr {Value Number : Type} (read : Value → Number) (value : Option Value) :
    Nullish.value? (nullOr read value) = value.map read := by
  cases value <;> rfl

/-- An optional text that is dumped is read back, whether it is there or null. -/
theorem optionalString_dumpText {raw : Record} {key : String} {value : Option String}
    (h : raw.lookup key = some (dumpText value)) : optionalString raw key = some value := by
  rw [optionalString, h]
  cases value <;> rfl

/-- A text that is not empty is read as it was. -/
theorem nonEmptyString_text {raw : Record} {key value : String} (hNonempty : value ≠ "")
    (h : raw.lookup key = some (.text value)) : nonEmptyString raw key = some value := by
  simp only [nonEmptyString, asString, h, Json.text?, Option.bind_eq_bind, Option.bind_some, if_neg hNonempty,
    Option.pure_def]

/-- A name is a text that is not blank, so it is read back. -/
theorem nonEmptyString_name {raw : Record} {key : String} {name : Name}
    (h : raw.lookup key = some (.text name)) : nonEmptyString raw key = some name.1 :=
  nonEmptyString_text name.2 h

/-- The style of an edge is read back from its two keys, whatever else its record holds. -/
theorem edgeStyle?_dump {raw : Record} {style : Option (Option String × Option String × Record)}
    (h : raw.lookup "style" = some ((style.map fun style => Json.dict ([("viz_width_key", dumpText style.1),
      ("viz_alpha_key", dumpText style.2.1)] ++ style.2.2)).getD .null)) :
    edgeStyle? raw = some (style.bind edgeStyle) := by
  rw [edgeStyle?, h]
  cases style with
  | none => rfl
  | some style =>
      obtain ⟨width, alpha, more⟩ := style
      cases width <;> cases alpha <;> rfl

/-- An edge of a payment is read back from its dump. -/
theorem txEdge?_dump (edge : EventWire.TxEdge) : txEdge? edge.dump = some (txEdge edge) := by
  obtain ⟨source, target, style, extra⟩ := edge
  let raw : Record := [("from", .text source), ("to", .text target),
    ("style", (style.map fun style => Json.dict ([("viz_width_key", dumpText style.1),
      ("viz_alpha_key", dumpText style.2.1)] ++ style.2.2)).getD .null)] ++ extra
  have hSource : nonEmptyString raw "from" = some source.1 := nonEmptyString_name rfl
  have hTarget : nonEmptyString raw "to" = some target.1 := nonEmptyString_name rfl
  have hStyle : edgeStyle? raw = some (style.bind edgeStyle) := edgeStyle?_dump rfl
  change txEdge? (.dict raw) = _
  simp only [txEdge?, Json.record?, hSource, hTarget, hStyle, Option.bind_eq_bind, Option.bind_some, Option.pure_def]
  rfl

/-- A badge of a node is read back from its dump. -/
theorem nodeBadge?_dump (badge : EventWire.NodeBadge) : nodeBadge? badge.dump = some (nodeBadge badge) := by
  obtain ⟨id, key, extra⟩ := badge
  cases key <;>
    simp only [nodeBadge?, NodeBadge.dump, dumpText, Json.record?, nonEmptyString, asString, nullableString,
      List.cons_append, List.lookup_cons, String.reduceBEq, Json.text?, if_neg id.2, Option.bind_eq_bind,
      Option.bind_some, Option.pure_def] <;>
    rfl

theorem eventEdge?_dump (edge : Name × Name) : eventEdge? (dumpEdgeRef edge) = some (edge.1.1, edge.2.1) := by
  simp only [eventEdge?, dumpEdgeRef, Json.record?, nonEmptyString, asString, List.lookup_cons, String.reduceBEq,
    Json.text?, if_neg edge.1.2, if_neg edge.2.2, Option.bind_eq_bind, Option.bind_some, Option.pure_def]

theorem nodeRef?_dump (node : EventWire.NodeRef) : nodeRef? node.dump = some (nodeRef node) := by
  obtain ⟨pid, name, type⟩ := node
  cases name <;> cases type <;>
    simp only [nodeRef?, NodeRef.dump, dumpText, Json.record?, nonEmptyString, asString, optionalString,
      hasOnlyKeys, List.lookup_cons, String.reduceBEq, Json.text?, if_neg pid.2, Option.bind_eq_bind,
      Option.bind_some, Option.pure_def] <;>
    rfl

theorem nodeId?_dump (name : Name) : nodeId? (dumpName name) = some name.1 := by
  simp only [nodeId?, dumpName, Json.text?, Option.bind_eq_bind, Option.bind_some, if_neg name.2, Option.pure_def]

/-- A reference to an edge is read back from its dump. -/
theorem edgeRef?_dump (edge : EventWire.EdgeRef) : edgeRef? edge.dump = some (edgeRef edge) := by
  obtain ⟨fromPid, toPid, code, limit⟩ := edge
  cases limit <;>
    simp only [edgeRef?, EdgeRef.dump, dumpText, Json.record?, nonEmptyString, asString, optionalString,
      hasOnlyKeys, List.lookup_cons, String.reduceBEq, Json.text?, if_neg fromPid.2, if_neg toPid.2,
      if_neg code.2, Option.bind_eq_bind, Option.bind_some, Option.pure_def] <;>
    rfl

end Items

section Fields

variable {raw : Record} {key : String}

/-- An integer is read as an optional number exactly when its double keeps the bounds. -/
theorem optionalNumber_int {n : ℤ} {lower upper : Option ℚ} (hFinite : (toDouble n).isSome = true)
    (h : raw.lookup key = some (.int n)) :
    optionalNumber raw key true lower upper =
      if (∃ x ∈ lower, double n < x) ∨ ∃ x ∈ upper, x < double n then none else some (.value (double n)) := by
  have hDen : (double n).den = 1 := Rat.den_intCast _
  rw [optionalNumber, h]
  simp only [finiteNumber?_int hFinite, Option.bind_eq_bind, Option.bind_some, hDen, ne_eq, not_true_eq_false,
    and_false, if_false, Option.pure_def]
  by_cases hLower : ∃ x ∈ lower, double n < x
  · rw [if_pos hLower, if_pos (Or.inl hLower)]
  · rw [if_neg hLower]
    simp only [hLower, false_or]

theorem double_nonneg_iff {n : ℤ} (hFinite : (toDouble n).isSome = true) : 0 ≤ double n ↔ 0 ≤ n := by
  obtain ⟨d, hd⟩ := Option.isSome_iff_exists.mp hFinite
  rw [double, hd, Option.getD_some, ← toDouble_nonneg_iff hd, Int.cast_nonneg_iff]

/-- A counter within its bound is read as it was. -/
theorem optionalNumber_dumpNat {n : Option FiniteNat} {upper : Option ℚ}
    (hUpper : ∀ m ∈ n, ∀ x ∈ upper, counter m ≤ x) (h : raw.lookup key = some (dumpNat n)) :
    optionalNumber raw key true (some 0) upper = some (nullOr counter n) := by
  cases n with
  | none =>
      rw [optionalNumber, h]
      rfl
  | some m =>
      have hNonneg : 0 ≤ double m.1 := (double_nonneg_iff m.2).mpr (Int.natCast_nonneg _)
      rw [optionalNumber_int m.2 h, if_neg]
      · rfl
      · rintro (⟨x, hx, hLess⟩ | ⟨x, hx, hLess⟩)
        · cases hx
          exact absurd hLess (not_lt.mpr hNonneg)
        · exact absurd hLess (not_lt.mpr (hUpper m rfl x hx))

/-- An optional counter that is dumped is read back. -/
theorem counter?_dumpNat {n : Option FiniteNat} (h : raw.lookup key = some (dumpNat n)) :
    counter? raw key = .ok (n.map counter) := by
  rw [counter?, optionalNumber_dumpNat (fun _ _ _ hNone => by cases hNone) h, ← value?_nullOr]
  rfl

/-- A count is read unless it is negative. -/
theorem optionalNumber_count {n : Option FiniteInt}
    (h : raw.lookup key = some (dumpInt n)) :
    optionalNumber raw key true (some 0) none =
      if ∃ m ∈ n, m.1 < 0 then none else some (nullOr (fun m : FiniteInt => double m.1) n) := by
  cases n with
  | none =>
      rw [optionalNumber, h, if_neg (by simp)]
      rfl
  | some m =>
      have hSign : double m.1 < 0 ↔ m.1 < 0 := by
        rw [← not_le, double_nonneg_iff m.2, not_le]
      rw [optionalNumber_int m.2 h]
      simp only [Option.mem_def, Option.some.injEq, exists_eq_left', reduceCtorEq, false_and, exists_false,
        or_false, hSign]
      split <;> rfl

/-- A rate is read as it was. -/
theorem optionalNumber_float {x : Option ℚ} (hNonneg : ∀ y ∈ x, 0 ≤ y)
    (h : raw.lookup key = some ((x.map Json.float).getD .null)) :
    optionalNumber raw key false (some 0) none = some (nullOr id x) := by
  rw [optionalNumber, h]
  cases x with
  | none => rfl
  | some y =>
      have hLower : ¬∃ lower ∈ some (0 : ℚ), y < lower := by
        rintro ⟨lower, hLower, hLess⟩
        cases hLower
        exact absurd hLess (not_lt.mpr (hNonneg y rfl))
      simp only [Option.map_some, Option.getD_some, Json.finiteNumber?, Option.bind_eq_bind, Option.bind_some,
        if_neg hLower]
      rfl

/-- A list is read back where each of its items is. -/
theorem optionalArray_dumpList {Item Read : Type} {read : Json → Option Read} {dump : Item → Json}
    {kept : Item → Read} (hRead : ∀ x, read (dump x) = some (kept x)) {items : Option (List Item)}
    (h : raw.lookup key = some (dumpList dump items)) :
    optionalArray read raw key = some (items.map (·.map kept)) := by
  rw [optionalArray, h]
  cases items with
  | none => rfl
  | some items =>
      simp only [dumpList, mapM_map hRead]
      rfl

/-- The node patches of an event are read back from its dump. -/
theorem normalizeNodePatchArray_dump {items : Option (List EventWire.NodePatch)}
    (h : raw.lookup "node_patch" = some (dumpList NodePatch.dump items)) :
    normalizeNodePatchArray raw = some (patches nodePatch items) := by
  rw [normalizeNodePatchArray, optionalArray_dumpList nodePatch?_dump h]
  rfl

/-- The edge patches of an event are read back from its dump. -/
theorem normalizeEdgePatchArray_dump {items : Option (List EventWire.EdgePatch)}
    (h : raw.lookup "edge_patch" = some (dumpList EdgePatch.dump items)) :
    normalizeEdgePatchArray raw = some (patches edgePatch items) := by
  rw [normalizeEdgePatchArray, optionalArray_dumpList edgePatch?_dump h]
  rfl

/-- An error is read unless it has no message. -/
theorem runError?_eq {code : Name} {message : String} {date : UtcTime} (hCode : raw.lookup "code" = some (.text code))
    (hMessage : raw.lookup "message" = some (.text message)) (hDate : raw.lookup "at" = some (.text date.text)) :
    runError? raw = if message = "" then none else some ⟨code, message, date.text⟩ := by
  rw [runError?, nonEmptyString_name hCode]
  simp only [nonEmptyString, asString, hMessage, hDate, Json.text?, Option.bind_eq_bind, Option.bind_some,
    Option.pure_def]
  split
  · rfl
  · simp only [Option.bind_some, isCanonicalIsoDateTime_text, if_true]

theorem optionalString_name {name : Name} (h : raw.lookup key = some (.text name)) :
    optionalString raw key = some (some name.1) := by
  rw [optionalString, h]

/-- An error of a run is read unless it has no message. -/
theorem lastError?_dump {error : Option LastError}
    (h : raw.lookup "last_error" = some ((error.map LastError.dump).getD .null)) :
    lastError? raw = if ∃ e ∈ error, e.message = "" then none
      else some (error.map fun e => ⟨e.code, e.message, e.at'.text⟩) := by
  rw [lastError?, h]
  cases error with
  | none => simp
  | some e =>
      have hRead : runError? [("code", .text e.code), ("message", .text e.message), ("at", .text e.at'.text)] =
          if e.message = "" then none else some ⟨e.code, e.message, e.at'.text⟩ := runError?_eq rfl rfl rfl
      simp only [Option.map_some, Option.getD_some, LastError.dump, hRead, Option.mem_def, Option.some.injEq,
        exists_eq_left']
      split <;> rfl

end Fields

section Events

variable (envelope : Envelope)

/-- A `run_status` is accepted exactly when its last error, if it has one, has a message. -/
theorem normalizeRunStatus_iff (run : RunStatus) :
    normalizeRunStatus (run.dump envelope) = .ok (runStatus run) ↔ ∀ e ∈ run.lastError, e.message ≠ "" := by
  set raw := run.dump envelope with hRaw
  have hRunId : nonEmptyString raw "run_id" = some run.runId.1 := nonEmptyString_name rfl
  have hScenarioId : nonEmptyString raw "scenario_id" = some run.scenarioId.1 := nonEmptyString_name rfl
  have hState : nonEmptyString raw "state" = some run.state.text :=
    nonEmptyString_text (by cases run.state <;> decide) rfl
  have hKnown : run.state.text ∈ runStates := by cases run.state <;> decide
  have hSimTime : optionalNumber raw "sim_time_ms" true (some 0) none = some (nullOr counter run.simTimeMs) :=
    optionalNumber_dumpNat (fun _ _ _ hNone => by cases hNone) rfl
  have hIntensity : optionalNumber raw "intensity_percent" true (some 0) (some 100) =
      some (nullOr counter run.intensityPercent) := by
    refine optionalNumber_dumpNat (fun n hn x hx => ?_) rfl
    cases hx
    have hLe := run.intensity_le n hn
    rw [counter, double_of_lt (by omega)]
    exact_mod_cast hLe
  have hOps : optionalNumber raw "ops_sec" false (some 0) none = some (nullOr id run.opsSec) :=
    optionalNumber_float run.ops_nonneg rfl
  have hQueue : optionalNumber raw "queue_depth" true (some 0) none = some (nullOr counter run.queueDepth) :=
    optionalNumber_dumpNat (fun _ _ _ hNone => by cases hNone) rfl
  have hError : lastError? raw = if ∃ e ∈ run.lastError, e.message = "" then none
      else some (run.lastError.map fun e => ⟨e.code, e.message, e.at'.text⟩) := lastError?_dump rfl
  have hEventType : optionalString raw "last_event_type" = some run.lastEventType := optionalString_dumpText rfl
  have hPhase : optionalString raw "current_phase" = some run.currentPhase := optionalString_dumpText rfl
  have hAttempts : counter? raw "attempts_total" = .ok (run.attemptsTotal.map counter) := counter?_dumpNat rfl
  have hCommitted : counter? raw "committed_total" = .ok (run.committedTotal.map counter) := counter?_dumpNat rfl
  have hRejected : counter? raw "rejected_total" = .ok (run.rejectedTotal.map counter) := counter?_dumpNat rfl
  have hErrors : counter? raw "errors_total" = .ok (run.errorsTotal.map counter) := counter?_dumpNat rfl
  have hTimeouts : counter? raw "timeouts_total" = .ok (run.timeoutsTotal.map counter) := counter?_dumpNat rfl
  have hConsec : counter? raw "consec_all_rejected_ticks" = .ok (run.consecAllRejectedTicks.map counter) :=
    counter?_dumpNat rfl
  have hStops : optionalString raw "stop_requested_at" = some none ∧ optionalString raw "stop_source" = some none ∧
      optionalString raw "stop_reason" = some none ∧ optionalString raw "stop_client" = some none :=
    ⟨rfl, rfl, rfl, rfl⟩
  obtain ⟨hAt, hSource, hReason, hClient⟩ := hStops
  clear_value raw
  simp only [normalizeRunStatus, hRunId, hScenarioId, hState, if_pos hKnown, hSimTime, hIntensity, hOps, hQueue,
    hError, hEventType, hPhase, hAt, hSource, hReason, hClient, hAttempts, hCommitted, hRejected, hErrors,
    hTimeouts, hConsec, Option.bind_some, Option.pure_def, orMalformed, bind, Except.bind]
  have hNoDate : ¬∃ date ∈ (none : Option String), isCanonicalIsoDateTime date = false := by simp
  by_cases hLost : ∃ e ∈ run.lastError, e.message = ""
  · simp only [if_pos hLost, reduceCtorEq, false_iff]
    obtain ⟨e, he, hEmpty⟩ := hLost
    exact fun hAll => hAll e he hEmpty
  · simp only [if_neg hLost, if_neg hNoDate]
    push Not at hLost
    exact ⟨fun _ => hLost, fun _ => rfl⟩

/-- A `tx.failed` is accepted exactly when its error has a message. -/
theorem normalizeTxFailed_iff (tx : TxFailed) (hEquivalent : stripUpper tx.equivalent ≠ "") :
    normalizeTxFailed (tx.dump envelope) = .ok (txFailed tx envelope.at') ↔ tx.errorMessage ≠ "" := by
  set raw := tx.dump envelope with hRaw
  have hCode : nonEmptyString raw "equivalent" = some (stripUpper tx.equivalent) :=
    nonEmptyString_text hEquivalent rfl
  have hSource : optionalString raw "from" = some (some tx.fromPid.1) := optionalString_name rfl
  have hTarget : optionalString raw "to" = some (some tx.toPid.1) := optionalString_name rfl
  have hLookup : raw.lookup "error" = some (.dict [("code", .text tx.errorCode), ("message", .text tx.errorMessage),
      ("at", .text envelope.at'.text), ("details", tx.errorDetails)]) := rfl
  have hError : runError? [("code", .text tx.errorCode), ("message", .text tx.errorMessage),
      ("at", .text envelope.at'.text), ("details", tx.errorDetails)] =
        if tx.errorMessage = "" then none else some ⟨tx.errorCode, tx.errorMessage, envelope.at'.text⟩ :=
    runError?_eq rfl rfl rfl
  clear_value raw
  simp only [normalizeTxFailed, hCode, hSource, hTarget, hLookup, Json.record?, hError, Option.bind_some,
    Option.pure_def, orMalformed, bind, Except.bind]
  by_cases hLost : tx.errorMessage = ""
  · simp [hLost]
  · simp only [if_neg hLost]
    exact ⟨fun _ => hLost, fun _ => rfl⟩

/-- A `clearing.done` is accepted exactly when its number of cleared cycles is not negative. -/
theorem normalizeClearingDone_iff (clearing : ClearingDone) (hEquivalent : stripUpper clearing.equivalent ≠ "") :
    normalizeClearingDone (clearing.dump envelope) = .ok (clearingDone clearing) ↔
      ∀ n ∈ clearing.clearedCycles, 0 ≤ n.1 := by
  set raw := clearing.dump envelope with hRaw
  have hCode : nonEmptyString raw "equivalent" = some (stripUpper clearing.equivalent) :=
    nonEmptyString_text hEquivalent rfl
  have hPlan : nonEmptyString raw "plan_id" = some clearing.planId.1 := nonEmptyString_name rfl
  have hCycles : optionalNumber raw "cleared_cycles" true (some 0) none =
      if ∃ n ∈ clearing.clearedCycles, n.1 < 0 then none
      else some (nullOr (fun n : FiniteInt => double n.1) clearing.clearedCycles) := optionalNumber_count rfl
  have hAmount : optionalString raw "cleared_amount" = some clearing.clearedAmount := optionalString_dumpText rfl
  have hEdges : normalizeEventEdges raw =
      some (clearing.cycleEdges.map (·.map fun edge => (edge.1.1, edge.2.1))) :=
    optionalArray_dumpList eventEdge?_dump rfl
  have hNodePatch : normalizeNodePatchArray raw = some (patches nodePatch clearing.nodePatch) :=
    normalizeNodePatchArray_dump rfl
  have hEdgePatch : normalizeEdgePatchArray raw = some (patches edgePatch clearing.edgePatch) :=
    normalizeEdgePatchArray_dump rfl
  clear_value raw
  simp only [normalizeClearingDone, hCode, hPlan, hCycles, hAmount, hEdges, hNodePatch, hEdgePatch, Option.bind_some,
    Option.pure_def, orMalformed, bind, Except.bind]
  by_cases hLost : ∃ n ∈ clearing.clearedCycles, n.1 < 0
  · simp only [if_pos hLost, Option.bind_none, reduceCtorEq, false_iff]
    obtain ⟨n, hn, hNegative⟩ := hLost
    exact fun hAll => absurd (hAll n hn) (not_le.mpr hNegative)
  · simp only [if_neg hLost, Option.bind_some, value?_nullOr]
    push Not at hLost
    exact ⟨fun _ => hLost, fun _ => rfl⟩

/-- A list of patches that is dumped unless it is empty is read as it was. -/
theorem optionalArray_dumpNonEmpty {Item Read : Type} {read : Json → Option Read} {dump : Item → Json}
    {kept : Item → Read} (hRead : ∀ x, read (dump x) = some (kept x)) {items : Option (List Item)} {raw : Record}
    {key : String} (h : raw.lookup key =
      if (items.getD []).isEmpty = true then none else some (dumpList dump items)) :
    (optionalArray read raw key).map orUndefined = some (patches kept items) := by
  split at h
  · next hEmpty =>
      rw [optionalArray, h]
      cases items with
      | none => rfl
      | some items =>
          rw [Option.getD_some, List.isEmpty_iff] at hEmpty
          rw [hEmpty]
          rfl
  · rw [optionalArray_dumpList hRead h]
    rfl

/-- The name of an endpoint is no empty text. -/
theorem truthy_name {name : Option Name} : truthy (name.map Subtype.val) = name.isSome := by
  cases name with
  | none => rfl
  | some name => simp [truthy, name.2]

/-- A transaction that validates is shown with its amount unless the client finds the amount blank. -/
theorem flyoutShown_iff {tx : TxUpdated} (hValid : tx.flyoutValid = true) :
    (!decide (some tx.amountFlyout = some true) ||
      (decide (∃ text ∈ tx.amount, SseWire.trim text.toList ≠ []) &&
        ((truthy (tx.fromPid.map Subtype.val) && truthy (tx.toPid.map Subtype.val)) ||
          !(tx.edges.map txEdge).isEmpty))) = true ↔
      (tx.amountFlyout = true → ∀ amount ∈ tx.amount, SseWire.trim amount.toList ≠ []) := by
  cases hFlyout : tx.amountFlyout with
  | false => simp
  | true =>
      rw [TxUpdated.flyoutValid, hFlyout] at hValid
      simp only [Bool.not_true, Bool.false_or, Bool.and_eq_true, Bool.or_eq_true, decide_eq_true_eq,
        List.any_eq_true] at hValid
      obtain ⟨hNotBlank, hEndpoints⟩ := hValid
      obtain ⟨amount, hAmount⟩ : ∃ amount, tx.amount = some amount := by
        cases hNone : tx.amount with
        | none => exact absurd (by rw [hNone]; rfl) hNotBlank
        | some amount => exact ⟨amount, rfl⟩
      have hShown : (tx.fromPid.isSome && tx.toPid.isSome || !(tx.edges.map txEdge).isEmpty) = true := by
        rcases hEndpoints with ⟨⟨a, ha, -⟩, b, hb, -⟩ | ⟨edge, hEdge, -⟩
        · rw [Option.mem_def.mp ha, Option.mem_def.mp hb]
          rfl
        · simp [List.ne_nil_of_mem hEdge]
      rw [truthy_name, truthy_name, hShown, hAmount]
      simp

/-- A `tx.updated` is accepted exactly when an amount that is to fly out is not blank. -/
theorem normalizeTxUpdated_iff (tx : TxUpdated) (hEquivalent : stripUpper tx.equivalent ≠ "")
    (hValid : tx.flyoutValid = true) :
    normalizeTxUpdated (tx.dump envelope) = .ok (txUpdated tx) ↔
      (tx.amountFlyout = true → ∀ amount ∈ tx.amount, SseWire.trim amount.toList ≠ []) := by
  set raw := tx.dump envelope with hRaw
  have hCode : nonEmptyString raw "equivalent" = some (stripUpper tx.equivalent) :=
    nonEmptyString_text hEquivalent rfl
  have hSource : optionalString raw "from" = some (tx.fromPid.map Subtype.val) := optionalString_dumpText rfl
  have hTarget : optionalString raw "to" = some (tx.toPid.map Subtype.val) := optionalString_dumpText rfl
  have hAmount : optionalString raw "amount" = some tx.amount := optionalString_dumpText rfl
  have hIntensity : optionalString raw "intensity_key" = some tx.intensityKey := optionalString_dumpText rfl
  have hFlyout : amountFlyout? raw = some (some tx.amountFlyout) := rfl
  have hTtl : optionalNumber raw "ttl_ms" true none none = some (.value (double tx.ttlMs)) := by
    rw [optionalNumber_int tx.ttlMs.2 rfl, if_neg (by simp)]
  have hEdges : normalizeTxEdges raw = some (tx.edges.map txEdge) := by
    have hList : optionalArray txEdge? raw "edges" = some ((some tx.edges).map (·.map txEdge)) :=
      optionalArray_dumpList txEdge?_dump rfl
    rw [normalizeTxEdges, hList]
    rfl
  have hBadges : normalizeNodeBadges raw = some ((tx.nodeBadges.getD []).map nodeBadge) := by
    rw [normalizeNodeBadges, optionalArray_dumpList nodeBadge?_dump rfl]
    cases tx.nodeBadges <;> rfl
  have hNodePatch : normalizeNodePatchArray raw = some (patches nodePatch tx.nodePatch) := by
    refine optionalArray_dumpNonEmpty nodePatch?_dump ?_
    rw [hRaw, TxUpdated.dump]
    split <;> split <;> rfl
  have hEdgePatch : normalizeEdgePatchArray raw = some (patches edgePatch tx.edgePatch) := by
    refine optionalArray_dumpNonEmpty edgePatch?_dump ?_
    rw [hRaw, TxUpdated.dump]
    split <;> split <;> rfl
  clear_value raw
  simp only [normalizeTxUpdated, hCode, hSource, hTarget, hAmount, hIntensity, hFlyout, hTtl, hEdges, hBadges,
    hNodePatch, hEdgePatch, Option.bind_some, Option.pure_def, orMalformed, guardMalformed, bind, Except.bind]
  rw [← flyoutShown_iff hValid]
  generalize (!decide (some tx.amountFlyout = some true) || _) = shown
  cases shown with
  | false => simp
  | true => exact ⟨fun _ => rfl, fun _ => rfl⟩

/-- A `topology.changed` is always accepted. -/
theorem normalizeTopologyChanged_dump (equivalent : String) (hEquivalent : stripUpper equivalent ≠ "")
    (payload : TopologyPayload) (reason : Option String) :
    normalizeTopologyChanged (dumpTopologyChanged envelope equivalent payload reason) =
      .ok (topologyChanged equivalent payload reason) := by
  set raw := dumpTopologyChanged envelope equivalent payload reason with hRaw
  have hCode : nonEmptyString raw "equivalent" = some (stripUpper equivalent) :=
    nonEmptyString_text hEquivalent rfl
  have hReason : optionalString raw "reason" = some reason := by
    cases reason <;> rfl
  obtain ⟨entries, hEntries⟩ : ∃ entries, payload.dump = .dict entries := ⟨_, rfl⟩
  have hPayload : raw.lookup "payload" = some (.dict entries) := by
    rw [← hEntries]
    rfl
  clear_value raw
  cases hEntries
  set entries : Record := [("added_nodes", .list (payload.addedNodes.map NodeRef.dump)),
    ("removed_nodes", .list (payload.removedNodes.map dumpName)),
    ("frozen_nodes", .list (payload.frozenNodes.map dumpName)),
    ("added_edges", .list (payload.addedEdges.map EdgeRef.dump)),
    ("removed_edges", .list (payload.removedEdges.map EdgeRef.dump)),
    ("frozen_edges", .list (payload.frozenEdges.map EdgeRef.dump)),
    ("node_patch", dumpList NodePatch.dump payload.nodePatch),
    ("edge_patch", dumpList EdgePatch.dump payload.edgePatch)] with hEntries
  have hKeys : hasOnlyKeys entries topologyKeys = true := rfl
  have hAddedNodes : topologyArray entries "added_nodes" = some (payload.addedNodes.map NodeRef.dump) := rfl
  have hRemovedNodes : topologyArray entries "removed_nodes" = some (payload.removedNodes.map dumpName) := rfl
  have hFrozenNodes : topologyArray entries "frozen_nodes" = some (payload.frozenNodes.map dumpName) := rfl
  have hAddedEdges : topologyArray entries "added_edges" = some (payload.addedEdges.map EdgeRef.dump) := rfl
  have hRemovedEdges : topologyArray entries "removed_edges" = some (payload.removedEdges.map EdgeRef.dump) := rfl
  have hFrozenEdges : topologyArray entries "frozen_edges" = some (payload.frozenEdges.map EdgeRef.dump) := rfl
  have hNodePatch : normalizeNodePatchArray entries = some (patches nodePatch payload.nodePatch) :=
    normalizeNodePatchArray_dump rfl
  have hEdgePatch : normalizeEdgePatchArray entries = some (patches edgePatch payload.edgePatch) :=
    normalizeEdgePatchArray_dump rfl
  clear_value entries
  simp only [normalizeTopologyChanged, hCode, hPayload, Json.record?, hKeys, hAddedNodes, hRemovedNodes,
    hFrozenNodes, hAddedEdges, hRemovedEdges, hFrozenEdges, hNodePatch, hEdgePatch, hReason,
    mapM_map nodeRef?_dump, mapM_map nodeId?_dump, mapM_map edgeRef?_dump, Option.bind_some, Option.pure_def,
    orMalformed, guardMalformed, if_true, bind, Except.bind]
  rfl

/-- An event with its envelope is accepted when its branch takes the rest. -/
theorem normalizeSimulatorEvent_iff {raw : Record} {type : String} {body : EventBody} (hNonempty : type ≠ "")
    (hId : raw.lookup "event_id" = some (.text envelope.eventId))
    (hTs : raw.lookup "ts" = some (.text envelope.ts.text)) (hType : raw.lookup "type" = some (.text type)) :
    normalizeSimulatorEvent (.dict raw) = .ok ⟨envelope.eventId, envelope.ts.text, body⟩ ↔
      normalizeBody type raw = .ok body := by
  have hTsText : asString raw "ts" = some envelope.ts.text := by rw [asString, hTs]; rfl
  simp only [normalizeSimulatorEvent, Json.record?, nonEmptyString_name hId, nonEmptyString_text hNonempty hType, hTsText,
    isCanonicalIsoDateTime_text, Option.bind_some, if_true, Option.pure_def, orMalformed, bind, Except.bind]
  cases normalizeBody type raw with
  | error ignored => simp
  | ok read =>
      simp only [pure, Except.pure, Except.ok.injEq, AcceptedEvent.mk.injEq, true_and]

/-- An injective wrapping of what is read changes nothing about whether it is. -/
theorem map_eq_ok_iff {Event Body : Type} {wrap : Event → Body} (hInjective : Function.Injective wrap)
    {read : Except Ignored Event} {event : Event} : wrap <$> read = .ok (wrap event) ↔ read = .ok event := by
  cases read with
  | error ignored => simp [Functor.map, Except.map]
  | ok read => simp [Functor.map, Except.map, hInjective.eq_iff]

end Events

section Acceptance

/-- Noon of the first day of 2026. -/
def noon : UtcTime where
  year := 2026
  month := 1
  day := 1
  hour := 12
  minute := 0
  second := 0
  microsecond := 0
  year_lt := by decide
  month_range := by decide
  day_range := by decide
  hour_lt := by decide
  minute_lt := by decide
  second_lt := by decide
  microsecond_lt := by decide

def firstEnvelope : Envelope := ⟨⟨"1", by decide⟩, noon, noon⟩

/-- A run whose tick failed with an exception of this text. -/
def failedTick (message : String) : RunStatus where
  runId := ⟨"run_1", by decide⟩
  scenarioId := ⟨"greenfield-village", by decide⟩
  state := .running
  simTimeMs := none
  intensityPercent := none
  opsSec := none
  queueDepth := none
  attemptsTotal := none
  committedTotal := none
  rejectedTotal := none
  errorsTotal := none
  timeoutsTotal := none
  consecAllRejectedTicks := none
  lastEventType := none
  currentPhase := none
  lastError := some ⟨⟨"REAL_MODE_TICK_FAILED", by decide⟩, message, noon⟩
  intensity_le := by simp
  ops_nonneg := by simp

end Acceptance

end EventAcceptance

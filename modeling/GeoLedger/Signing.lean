import Mathlib
import GeoLedger.Library.JsonText
import GeoLedger.Validation
import GeoLedger.TrustLines

/-! What a participant signs. Every service verifies the signature over the
canonical JSON of a dictionary built from the request; no dictionary names the
operation, so two operations are told apart by the keys that are present. -/
namespace GeoLedger
open JsonText Outcomes

section Canonical

/-- A float's text has a point or an exponent. -/
def isFloatToken (token : NumberToken) : Bool := '.' ∈ token.chars || 'e' ∈ token.chars

/-- `sorted(items, key=lambda kv: kv[0])`. -/
def sortByKey (entries : List (String × Json)) : List (String × Json) :=
  entries.insertionSort (fun a b => a.1 ≤ b.1)

theorem sortByKey_perm (entries : List (String × Json)) : (sortByKey entries).Perm entries :=
  List.perm_insertionSort _ entries

mutual

/-- `_normalize` on the values that a JSON request holds. -/
def normalize : Json → Except GeoError Json
  | .null => .ok .null
  | .bool value => .ok (.bool value)
  | .number token =>
      if isFloatToken token then .error (.badRequest "Float is not allowed in canonical JSON")
      else .ok (.number token)
  | .text value => .ok (.text value)
  | .list items => do return .list (← normalizeItems items)
  | .dict entries => do return .dict (sortByKey (← normalizeEntries entries))

def normalizeItems : List Json → Except GeoError (List Json)
  | [] => .ok []
  | item :: rest => do
      let item ← normalize item
      return item :: (← normalizeItems rest)

def normalizeEntries : List (String × Json) → Except GeoError (List (String × Json))
  | [] => .ok []
  | (key, value) :: rest => do
      let value ← normalize value
      return (key, value) :: (← normalizeEntries rest)

end

def canonicalJson (payload : List (String × Json)) : Except GeoError ByteArray := do
  let normalized ← normalize (.dict payload)
  return (String.ofList (dumps Escaping.unicode normalized)).toUTF8

theorem normalizeEntries_keys {entries normalized : List (String × Json)}
    (h : normalizeEntries entries = .ok normalized) : normalized.map Prod.fst = entries.map Prod.fst := by
  induction entries generalizing normalized with
  | nil =>
      cases h
      rfl
  | cons entry rest ih =>
      obtain ⟨key, value⟩ := entry
      obtain ⟨value', _, h⟩ := bind_eq_ok_iff.mp h
      obtain ⟨rest', hRest, h⟩ := bind_eq_ok_iff.mp h
      cases h
      simp [ih hRest]

/-- Equal messages were printed from equal normalized dictionaries. -/
theorem canonicalJson_injective {p q : List (String × Json)} {message : ByteArray}
    (hp : canonicalJson p = .ok message) (hq : canonicalJson q = .ok message) :
    ∃ v, normalize (.dict p) = .ok v ∧ normalize (.dict q) = .ok v := by
  obtain ⟨v, hv, hp⟩ := bind_eq_ok_iff.mp hp
  obtain ⟨w, hw, hq⟩ := bind_eq_ok_iff.mp hq
  cases hp
  have hText := String.toByteArray_inj.mp (Except.ok.inj hq)
  rw [dumps_injective _ (String.ofList_inj.mp hText)] at hw
  exact ⟨v, hv, hw⟩

/-- Equal messages were printed from dictionaries with the same keys. -/
theorem canonicalJson_keys {p q : List (String × Json)} {message : ByteArray}
    (hp : canonicalJson p = .ok message) (hq : canonicalJson q = .ok message) :
    (p.map Prod.fst).Perm (q.map Prod.fst) := by
  obtain ⟨v, hv, hw⟩ := canonicalJson_injective hp hq
  obtain ⟨ps, hps, hv⟩ := bind_eq_ok_iff.mp hv
  obtain ⟨qs, hqs, hw⟩ := bind_eq_ok_iff.mp hw
  have hSorted : sortByKey qs = sortByKey ps :=
    Json.dict.inj ((Except.ok.inj hw).trans (Except.ok.inj hv).symm)
  have hPerm : ps.Perm qs := by
    have hLeft := sortByKey_perm qs
    rw [hSorted] at hLeft
    exact (sortByKey_perm ps).symm.trans hLeft
  rw [← normalizeEntries_keys hps, ← normalizeEntries_keys hqs]
  exact hPerm.map Prod.fst

end Canonical

section Payloads

variable {V : Type*}

/-- What `_create_payment_impl` verifies. -/
def paymentPayload (txId toPid equivalent amount : V) (description constraints : Option V) :
    List (String × V) :=
  [("tx_id", txId), ("to", toPid), ("equivalent", equivalent), ("amount", amount)] ++
    optionalEntry "description" description ++ optionalEntry "constraints" constraints

theorem optionalEntry_keys (key : String) (value : Option V) :
    (optionalEntry key value).map Prod.fst = if value.isSome then [key] else [] := by
  cases value <;> rfl

end Payloads

/-- `PaymentConstraints`: a field is `none` when the request leaves it out and
`some none` when the request sets it to `null`. -/
structure PaymentConstraints where
  maxHops : Option (Option Nat)
  maxPaths : Option (Option Nat)
  timeoutMs : Option (Option Nat)
  avoid : Option (Option (List String))

/-- The text of a whole number. -/
def natToken (n : Nat) : NumberToken where
  chars := Nat.toDigits 10 n
  nonempty := Nat.toDigits_ne_nil
  alphabet := by
    intro c hc
    have hDigit := Nat.isDigit_of_mem_toDigits (by decide) (by decide) hc
    simp only [Char.isDigit, Bool.and_eq_true, decide_eq_true_eq] at hDigit
    have hLow : 48 ≤ c.toNat := hDigit.1
    have hHigh : c.toNat ≤ 57 := hDigit.2
    rw [← Char.ofNat_toNat c]
    generalize c.toNat = n at hLow hHigh
    interval_cases n <;> decide

theorem toString_injective {m n : Nat} (h : toString m = toString n) : m = n := by
  have hDigits : Nat.toDigits 10 m = Nat.toDigits 10 n := by
    rw [← Nat.toList_repr, ← Nat.toList_repr]
    exact congrArg String.toList h
  rw [← Nat.ofDigitChars_ten_toDigits (n := m), hDigits, Nat.ofDigitChars_ten_toDigits]

/-- `null` or a value. -/
def nullable {α : Type*} (json : α → Json) (value : Option α) : Json := (value.map json).getD .null

/-- `constraints.model_dump(exclude_unset=True)`. -/
def PaymentConstraints.modelDump (c : PaymentConstraints) : Json :=
  .dict (optionalEntry "max_hops" (c.maxHops.map (nullable fun n => .number (natToken n))) ++
    optionalEntry "max_paths" (c.maxPaths.map (nullable fun n => .number (natToken n))) ++
    optionalEntry "timeout_ms" (c.timeoutMs.map (nullable fun n => .number (natToken n))) ++
    optionalEntry "avoid" (c.avoid.map (nullable fun pids => .list (pids.map .text))))

structure PaymentCreateRequest where
  txId : String
  toPid : String
  equivalent : String
  amount : String
  description : Option String
  constraints : Option PaymentConstraints
  signature : String

/-- The dictionary whose canonical JSON the sender of a payment signs. -/
def PaymentCreateRequest.signedPayload (request : PaymentCreateRequest) (txId : TxId) :
    List (String × Json) :=
  paymentPayload (.text txId) (.text request.toPid) (.text request.equivalent) (.text request.amount)
    (request.description.map .text) (request.constraints.map PaymentConstraints.modelDump)

/-- The operations that a participant signs. -/
inductive OperationKind where
  | paymentCreate
  | trustLineCreate
  | trustLineUpdate
  | trustLineClose
deriving DecidableEq

/-- The fields that a verified signature covers. A limit is the text of its
`Decimal`, a policy is whatever dictionary the request carries. -/
inductive SignedRequest where
  | paymentCreate (txId : TxId) (request : PaymentCreateRequest)
  | trustLineCreate (toPid equivalent limit : String) (policy : Option (List (String × Json)))
  | trustLineUpdate (id : Uuid) (limit : Option String) (policy : Option (List (String × Json)))
  | trustLineClose (id : Uuid)

namespace SignedRequest

def kind : SignedRequest → OperationKind
  | .paymentCreate .. => .paymentCreate
  | .trustLineCreate .. => .trustLineCreate
  | .trustLineUpdate .. => .trustLineUpdate
  | .trustLineClose .. => .trustLineClose

def payload : SignedRequest → List (String × Json)
  | .paymentCreate txId request => request.signedPayload txId
  | .trustLineCreate toPid equivalent limit policy =>
      trustLineCreatePayload (.text toPid) (.text equivalent) (.text limit) (policy.map .dict)
  | .trustLineUpdate id limit policy =>
      trustLineUpdatePayload (.text (toString id)) (limit.map .text) (policy.map .dict)
  | .trustLineClose id => trustLineClosePayload (.text (toString id))

/-- The bytes that the service verifies. -/
def message (r : SignedRequest) : Except GeoError ByteArray := canonicalJson r.payload

/-- An update that sets no field, and a close of the same line. -/
inductive EmptyUpdateAndClose : SignedRequest → SignedRequest → Prop where
  | intro (id : Uuid) : EmptyUpdateAndClose (.trustLineUpdate id none none) (.trustLineClose id)

theorem txId_mem_keys_iff (r : SignedRequest) :
    "tx_id" ∈ r.payload.map Prod.fst ↔ r.kind = .paymentCreate := by
  cases r <;>
    simp [payload, kind, PaymentCreateRequest.signedPayload, paymentPayload, trustLineCreatePayload,
      trustLineUpdatePayload, trustLineClosePayload, optionalEntry_keys]

theorem to_mem_keys_iff (r : SignedRequest) :
    "to" ∈ r.payload.map Prod.fst ↔ r.kind = .paymentCreate ∨ r.kind = .trustLineCreate := by
  cases r <;>
    simp [payload, kind, PaymentCreateRequest.signedPayload, paymentPayload, trustLineCreatePayload,
      trustLineUpdatePayload, trustLineClosePayload, optionalEntry_keys]

/-- An update and a close with one message are an empty update and a close of
the same line. -/
theorem emptyUpdateAndClose_of_message {id other : Uuid} {limit : Option String}
    {policy : Option (List (String × Json))} {m : ByteArray}
    (hUpdate : (trustLineUpdate id limit policy).message = .ok m)
    (hClose : (trustLineClose other).message = .ok m) :
    EmptyUpdateAndClose (.trustLineUpdate id limit policy) (.trustLineClose other) := by
  have hKeys := canonicalJson_keys hUpdate hClose
  simp only [payload, trustLineUpdatePayload, trustLineClosePayload, List.map_append, optionalEntry_keys,
    Option.isSome_map, List.map_cons, List.map_nil] at hKeys
  have hLength := hKeys.length_eq
  cases limit with
  | some limit => simp at hLength
  | none =>
      cases policy with
      | some policy => simp at hLength
      | none =>
          obtain ⟨v, hv, hw⟩ := canonicalJson_injective hUpdate hClose
          have hIds : Json.dict [("id", .text (toString id))] = .dict [("id", .text (toString other))] :=
            Except.ok.inj (hv.trans hw.symm)
          have hText : toString id = toString other := by simpa using hIds
          obtain rfl := toString_injective hText
          exact .intro id

/-- Requests of different kinds with one message are an empty update and a
close of the same line. -/
theorem emptyUpdateAndClose_of_kinds {a b : SignedRequest} {m : ByteArray} (hKinds : a.kind ≠ b.kind)
    (ha : a.message = .ok m) (hb : b.message = .ok m) : EmptyUpdateAndClose a b ∨ EmptyUpdateAndClose b a := by
  have hKeys := canonicalJson_keys ha hb
  have hTxId := (txId_mem_keys_iff a).symm.trans (hKeys.mem_iff.trans (txId_mem_keys_iff b))
  have hTo := (to_mem_keys_iff a).symm.trans (hKeys.mem_iff.trans (to_mem_keys_iff b))
  cases a with
  | paymentCreate => exact absurd (hTxId.mp rfl).symm hKinds
  | trustLineCreate =>
      rcases hTo.mp (.inr rfl) with hPayment | hCreate
      · cases hTxId.mpr hPayment
      · exact absurd hCreate.symm hKinds
  | trustLineUpdate id limit policy =>
      cases b with
      | paymentCreate => cases hTxId.mpr rfl
      | trustLineCreate => exact absurd (hTo.mpr (.inr rfl)) (by simp [kind])
      | trustLineUpdate => exact absurd rfl hKinds
      | trustLineClose other => exact .inl (emptyUpdateAndClose_of_message ha hb)
  | trustLineClose id =>
      cases b with
      | paymentCreate => cases hTxId.mpr rfl
      | trustLineCreate => exact absurd (hTo.mpr (.inr rfl)) (by simp [kind])
      | trustLineUpdate other limit policy => exact .inr (emptyUpdateAndClose_of_message hb ha)
      | trustLineClose => exact absurd rfl hKinds

/-- An empty update has the message of a close of its line. -/
theorem EmptyUpdateAndClose.message_eq {a b : SignedRequest} (h : EmptyUpdateAndClose a b) :
    ∃ m, a.message = .ok m ∧ b.message = .ok m := by
  obtain ⟨id⟩ := h
  exact ⟨_, rfl, rfl⟩

/-- A signature tells the kinds apart, except an update that sets no field from
a close of the same line. Where the messages differ and a signature is of one
message only, a signature given for one request is refused for the other. -/
theorem message_separates_kinds {a b : SignedRequest} (hKinds : a.kind ≠ b.kind) :
    ((∀ m, a.message = .ok m → b.message ≠ .ok m) ↔
      ¬ (EmptyUpdateAndClose a b ∨ EmptyUpdateAndClose b a)) ∧
    (¬ (EmptyUpdateAndClose a b ∨ EmptyUpdateAndClose b a) →
      ∀ verify : Participant → ByteArray → String → Bool,
        (∀ signer m n signature, verify signer m signature = true → verify signer n signature = true →
          m = n) →
        ∀ signer signature m n, a.message = .ok m → b.message = .ok n →
          verify signer m signature = true → verify signer n signature = false) := by
  refine ⟨⟨?_, ?_⟩, ?_⟩
  · rintro hDiffer (hPair | hPair)
    · obtain ⟨m, ha, hb⟩ := hPair.message_eq
      exact hDiffer m ha hb
    · obtain ⟨m, hb, ha⟩ := hPair.message_eq
      exact hDiffer m ha hb
  · intro hPair m ha hb
    exact hPair (emptyUpdateAndClose_of_kinds hKinds ha hb)
  · intro hPair verify hBinding signer signature m n ha hb hVerified
    apply eq_false_of_ne_true
    intro hReplayed
    obtain rfl := hBinding signer m n signature hVerified hReplayed
    exact hPair (emptyUpdateAndClose_of_kinds hKinds ha hb)

/-- A new limit of a line is not a close of it. -/
theorem message_separates_limit_from_close :
    (∀ m, (trustLineUpdate 7 (some "10") none).message = .ok m → (trustLineClose 7).message ≠ .ok m) ∧
    (trustLineUpdate 7 (some "10") none).kind ≠ (trustLineClose 7).kind := by
  have hKinds : (trustLineUpdate 7 (some "10") none).kind ≠ (trustLineClose 7).kind := by decide
  refine ⟨(message_separates_kinds hKinds).1.mpr ?_, hKinds⟩
  rintro (hPair | hPair) <;> cases hPair

/-- The signature of an update of line 7 that changes nothing also closes it. -/
theorem emptyUpdate_message_closes :
    ¬ ∀ a b : SignedRequest, a.kind ≠ b.kind → ∀ m, a.message = .ok m → b.message ≠ .ok m := by
  intro h
  obtain ⟨m, ha, hb⟩ := (EmptyUpdateAndClose.intro 7).message_eq
  exact h _ _ (by decide) m ha hb

end SignedRequest

end GeoLedger

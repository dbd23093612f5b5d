import Mathlib
import GeoLedger.Library.Outcomes
import GeoLedger.Validation
import GeoLedger.Invariants

/-! `TrustLineService`: create, update and close. Each is one database
transaction, and a request that is refused leaves the database as it was. -/
namespace GeoLedger
open Outcomes

variable {env : Env}

structure TrustLineCreateRequest where
  toPid : Pid
  equivalent : String
  limit : Amount
  policy : Option Policy
  signature : String

structure TrustLineUpdateRequest where
  limit : Option Amount
  policy : Option Policy
  signature : String

structure TrustLineCloseRequest where
  signature : String

namespace TrustTable

/-- Insert an active line, unless a live one stands between the participants. -/
def insert (tl : TrustTable env) (fromId toId equivalentId : Uuid) (limit : Amount) (policy : Policy) :
    Except GeoError (TrustTable env) :=
  if hLive : (fromId, toId, equivalentId) ∈
      (tl.rows.filter (·.status ≠ .closed)).map TrustLine.key then
    .error (.conflict "Active trustline already exists")
  else if hFits : env.column.fits (env.column.round limit) = false then
    .error (.database .numericOverflow)
  else if hLimit : env.column.round limit < 0 then .error (.database .trustLineLimitPositive)
  else
    .ok {
      rows := tl.rows ++ [⟨env.uuid4 tl.generated, fromId, toId, equivalentId, env.column.round limit,
        some policy, .active⟩]
      generated := tl.generated + 1
      id_unique := by
        refine Rows.nodup_map_append TrustLine.id _ tl.id_unique ?_
        intro l hl hEq
        obtain ⟨n, hn, hId⟩ := tl.issued l hl
        exact hn.ne (env.uuid4_injective (hId.symm.trans hEq))
      live_unique := by
        rw [List.filter_append, List.filter_cons_of_pos (by simp), List.filter_nil]
        refine Rows.nodup_map_append TrustLine.key _ tl.live_unique ?_
        intro l hl hEq
        exact hLive (List.mem_map.mpr ⟨l, hl, hEq⟩)
      issued := by
        intro l hl
        rcases List.mem_append.mp hl with hOld | hNew
        · obtain ⟨n, hn, hId⟩ := tl.issued l hOld
          exact ⟨n, Nat.lt_succ_of_lt hn, hId⟩
        · rw [List.mem_singleton.mp hNew]
          exact ⟨tl.generated, Nat.lt_succ_self _, rfl⟩
      stored := by
        intro l hl
        rcases List.mem_append.mp hl with hOld | hNew
        · exact tl.stored l hOld
        · rw [List.mem_singleton.mp hNew]
          exact env.column.round_mem limit
      limit_fits := by
        intro l hl
        rcases List.mem_append.mp hl with hOld | hNew
        · exact tl.limit_fits l hOld
        · rw [List.mem_singleton.mp hNew]
          exact eq_true_of_ne_false hFits
      limit_nonneg := by
        intro l hl
        rcases List.mem_append.mp hl with hOld | hNew
        · exact tl.limit_nonneg l hOld
        · rw [List.mem_singleton.mp hNew]
          exact not_lt.mp hLimit }

/-- Rewrite the limit and the policy of one line. -/
def write (tl : TrustTable env) (id : Uuid) (limit : Amount) (policy : Option Policy) :
    Except GeoError (TrustTable env) :=
  if hFits : env.column.fits (env.column.round limit) = false then
    .error (.database .numericOverflow)
  else if hLimit : env.column.round limit < 0 then .error (.database .trustLineLimitPositive)
  else
    .ok {
      rows := Rows.update TrustLine.id id
        (fun l => { l with limit := env.column.round limit, policy := policy }) tl.rows
      generated := tl.generated
      id_unique := Rows.nodup_map_update TrustLine.id (fun _ => rfl) tl.id_unique
      live_unique := by
        have hFilter : (Rows.update TrustLine.id id
              (fun l => { l with limit := env.column.round limit, policy := policy }) tl.rows).filter
              (·.status ≠ .closed) =
            Rows.update TrustLine.id id
              (fun l => { l with limit := env.column.round limit, policy := policy })
              (tl.rows.filter (·.status ≠ .closed)) := by
          simp only [Rows.update, List.filter_map]
          congr 1
          apply List.filter_congr
          intro l _
          simp only [Function.comp_apply]
          split <;> rfl
        rw [hFilter]
        exact Rows.nodup_map_update TrustLine.key (fun _ => rfl) tl.live_unique
      issued := by
        intro l hl
        rcases Rows.mem_update_iff.mp hl with ⟨old, hOld, _, rfl⟩ | ⟨hMem, _⟩
        · exact tl.issued old hOld
        · exact tl.issued l hMem
      stored := by
        intro l hl
        rcases Rows.mem_update_iff.mp hl with ⟨old, _, _, rfl⟩ | ⟨hMem, _⟩
        · exact env.column.round_mem limit
        · exact tl.stored l hMem
      limit_fits := by
        intro l hl
        rcases Rows.mem_update_iff.mp hl with ⟨old, _, _, rfl⟩ | ⟨hMem, _⟩
        · exact eq_true_of_ne_false hFits
        · exact tl.limit_fits l hMem
      limit_nonneg := by
        intro l hl
        rcases Rows.mem_update_iff.mp hl with ⟨old, _, _, rfl⟩ | ⟨hMem, _⟩
        · exact not_lt.mp hLimit
        · exact tl.limit_nonneg l hMem }

/-- Set the status of one line to closed. -/
def close (tl : TrustTable env) (id : Uuid) : TrustTable env where
  rows := Rows.update TrustLine.id id (fun l => { l with status := .closed }) tl.rows
  generated := tl.generated
  id_unique := Rows.nodup_map_update TrustLine.id (fun _ => rfl) tl.id_unique
  live_unique := by
    have hSublist : ∀ rows : List TrustLine,
        List.Sublist ((Rows.update TrustLine.id id (fun l => { l with status := .closed }) rows).filter
          (·.status ≠ .closed)) (rows.filter (·.status ≠ .closed)) := by
      intro rows
      induction rows with
      | nil => exact List.Sublist.refl _
      | cons l rest ih =>
          by_cases hId : l.id = id
          · rw [show Rows.update TrustLine.id id (fun l => { l with status := .closed }) (l :: rest) =
              { l with status := .closed } ::
                Rows.update TrustLine.id id (fun l => { l with status := .closed }) rest by
              simp [Rows.update, hId], List.filter_cons_of_neg (by simp)]
            exact ih.trans (List.Sublist.filter _ (List.sublist_cons_self l rest))
          · rw [show Rows.update TrustLine.id id (fun l => { l with status := .closed }) (l :: rest) =
              l :: Rows.update TrustLine.id id (fun l => { l with status := .closed }) rest by
              simp [Rows.update, hId]]
            by_cases hStatus : l.status = .closed
            · simpa [hStatus] using ih
            · simpa [hStatus] using ih
    exact tl.live_unique.sublist ((hSublist tl.rows).map TrustLine.key)
  issued l hl := by
    rcases Rows.mem_update_iff.mp hl with ⟨old, hOld, _, rfl⟩ | ⟨hMem, _⟩
    · exact tl.issued old hOld
    · exact tl.issued l hMem
  stored l hl := by
    rcases Rows.mem_update_iff.mp hl with ⟨old, hOld, _, rfl⟩ | ⟨hMem, _⟩
    · exact tl.stored old hOld
    · exact tl.stored l hMem
  limit_fits l hl := by
    rcases Rows.mem_update_iff.mp hl with ⟨old, hOld, _, rfl⟩ | ⟨hMem, _⟩
    · exact tl.limit_fits old hOld
    · exact tl.limit_fits l hMem
  limit_nonneg l hl := by
    rcases Rows.mem_update_iff.mp hl with ⟨old, hOld, _, rfl⟩ | ⟨hMem, _⟩
    · exact tl.limit_nonneg old hOld
    · exact tl.limit_nonneg l hMem

end TrustTable

section Limits

namespace TrustTable

variable {tl tl' : TrustTable env} {a b e : Uuid}

theorem limit_eq_zero (h : ∀ l ∈ tl.rows, l.status = .active → l.key ≠ (a, b, e)) :
    tl.limit a b e = 0 := by
  rcases tl.limit_cases a b e with hZero | ⟨l, hMem, hActive, hKey, _⟩
  · exact hZero
  · exact absurd hKey (h l hMem hActive)

/-- Limits are equal when the same active line stands for the pair. -/
theorem limit_congr (h : ∀ x, (∃ l ∈ tl'.rows, l.status = .active ∧ l.key = (a, b, e) ∧ l.limit = x) ↔
    ∃ l ∈ tl.rows, l.status = .active ∧ l.key = (a, b, e) ∧ l.limit = x) :
    tl'.limit a b e = tl.limit a b e := by
  by_cases hExists : ∃ l ∈ tl.rows, l.status = .active ∧ l.key = (a, b, e)
  · obtain ⟨l, hMem, hActive, hKey⟩ := hExists
    obtain ⟨l', hMem', hActive', hKey', hLimit⟩ := (h l.limit).mpr ⟨l, hMem, hActive, hKey, rfl⟩
    rw [limit_of_active hMem hActive hKey, limit_of_active hMem' hActive' hKey', hLimit]
  · push Not at hExists
    rw [limit_eq_zero hExists]
    apply limit_eq_zero
    intro l hMem hActive hKey
    obtain ⟨old, hOld, hOldActive, hOldKey, _⟩ := (h l.limit).mp ⟨l, hMem, hActive, hKey, rfl⟩
    exact hExists old hOld hOldActive hOldKey

/-- An inserted line is an active one at the end of the table. -/
theorem rows_of_insert {x y w : Uuid} {amount : Amount} {policy : Policy}
    (h : tl.insert x y w amount policy = .ok tl') :
    tl'.rows = tl.rows ++
      [⟨env.uuid4 tl.generated, x, y, w, env.column.round amount, some policy, .active⟩] := by
  unfold insert at h
  split at h
  · cases h
  · split at h
    · cases h
    · split at h
      · cases h
      · cases h
        rfl

theorem rows_of_write {id : Uuid} {amount : Amount} {policy : Option Policy}
    (h : tl.write id amount policy = .ok tl') :
    tl'.rows = Rows.update TrustLine.id id
      (fun l => { l with limit := env.column.round amount, policy := policy }) tl.rows := by
  unfold write at h
  split at h
  · cases h
  · split at h
    · cases h
    · cases h
      rfl

/-- A new line gives its pair a limit where there was none. -/
theorem limit_insert {x y w : Uuid} {amount : Amount} {policy : Policy}
    (h : tl.insert x y w amount policy = .ok tl') :
    tl.limit x y w = 0 ∧ ∀ a b e, tl'.limit a b e =
      if (x, y, w) = (a, b, e) then env.column.round amount else tl.limit a b e := by
  unfold insert at h
  split at h
  · cases h
  · next hLive =>
      have hNone : ∀ l ∈ tl.rows, l.status = .active → l.key ≠ (x, y, w) := by
        intro l hMem hActive hKey
        exact hLive (List.mem_map.mpr ⟨l, List.mem_filter.mpr ⟨hMem, by simp [hActive]⟩, hKey⟩)
      refine ⟨limit_eq_zero hNone, fun a b e => ?_⟩
      split at h
      · cases h
      · split at h
        · cases h
        · cases h
          split
          · next hKey =>
              exact limit_of_active (l := ⟨env.uuid4 tl.generated, x, y, w, env.column.round amount,
                some policy, .active⟩) (List.mem_append_right _ (List.mem_singleton.mpr rfl)) rfl hKey
          · next hKey =>
              apply limit_congr
              intro v
              constructor
              · rintro ⟨l, hMem, hActive, hLineKey, hLimit⟩
                rcases List.mem_append.mp hMem with hOld | hNew
                · exact ⟨l, hOld, hActive, hLineKey, hLimit⟩
                · rw [List.mem_singleton.mp hNew] at hLineKey
                  exact absurd hLineKey hKey
              · rintro ⟨l, hMem, hLine⟩
                exact ⟨l, List.mem_append_left _ hMem, hLine⟩

/-- Rewriting a live line changes the limit of its pair when the line is active. -/
theorem limit_write {l : TrustLine} {amount : Amount} {policy : Option Policy} (hMem : l ∈ tl.rows)
    (h : tl.write l.id amount policy = .ok tl') (a b e : Uuid) :
    tl'.limit a b e =
      if l.status = .active ∧ l.key = (a, b, e) then env.column.round amount else tl.limit a b e := by
  have hRows := rows_of_write h
  split
  · next hLine =>
      refine limit_of_active
        (l := { l with limit := env.column.round amount, policy := policy }) ?_ hLine.1 hLine.2
      rw [hRows]
      exact Rows.mem_update_iff.mpr (Or.inl ⟨l, hMem, rfl, rfl⟩)
  · next hLine =>
      apply limit_congr
      intro x
      rw [hRows]
      constructor
      · rintro ⟨other, hOther, hActive, hKey, hLimit⟩
        rcases Rows.mem_update_iff.mp hOther with ⟨old, hOld, hId, rfl⟩ | ⟨hOld, _⟩
        · rw [Rows.eq_of_column tl.id_unique hOld hMem hId] at hActive hKey
          exact absurd ⟨hActive, hKey⟩ hLine
        · exact ⟨other, hOld, hActive, hKey, hLimit⟩
      · rintro ⟨other, hOther, hActive, hKey, hLimit⟩
        refine ⟨other, Rows.mem_update_iff.mpr (Or.inr ⟨hOther, fun hId => hLine ?_⟩), hActive, hKey,
          hLimit⟩
        rw [← Rows.eq_of_column tl.id_unique hOther hMem hId]
        exact ⟨hActive, hKey⟩

/-- Closing a live line takes the limit of its pair away. -/
theorem limit_close {l : TrustLine} (hMem : l ∈ tl.rows) (hLive : l.status ≠ .closed) (a b e : Uuid) :
    (tl.close l.id).limit a b e = if l.key = (a, b, e) then 0 else tl.limit a b e := by
  split
  · next hKey =>
      apply limit_eq_zero
      intro other hOther hActive hOtherKey
      rcases Rows.mem_update_iff.mp hOther with ⟨old, _, _, rfl⟩ | ⟨hOld, hId⟩
      · cases hActive
      · exact hId (congrArg TrustLine.id (eq_of_live hOld hMem (by simp [hActive]) hLive
          (hOtherKey.trans hKey.symm)))
  · next hKey =>
      apply limit_congr
      intro x
      constructor
      · rintro ⟨other, hOther, hActive, hOtherKey, hLimit⟩
        rcases Rows.mem_update_iff.mp hOther with ⟨old, _, _, rfl⟩ | ⟨hOld, _⟩
        · cases hActive
        · exact ⟨other, hOld, hActive, hOtherKey, hLimit⟩
      · rintro ⟨other, hOther, hActive, hOtherKey, hLimit⟩
        refine ⟨other, Rows.mem_update_iff.mpr (Or.inr ⟨hOther, fun hId => hKey ?_⟩), hActive,
          hOtherKey, hLimit⟩
        rw [← Rows.eq_of_column tl.id_unique hOther hMem hId]
        exact hOtherKey

end TrustTable

end Limits

/-- `_get_used_amount`: what the debtor owes on the line; zero on a closed one. -/
def usedAmount (t : DebtTable env) (l : TrustLine) : Amount :=
  if l.status = .closed then 0 else t.owed l.toParticipantId l.fromParticipantId l.equivalentId

/-- `_get_reverse_used_amount`. -/
def reverseUsedAmount (t : DebtTable env) (l : TrustLine) : Amount :=
  if l.status = .closed then 0 else t.owed l.fromParticipantId l.toParticipantId l.equivalentId

/-- The change of the trust lines with its audit row. -/
def auditTrustLine (db : Db env) (operation : OperationType) (e : Uuid) (participants : List String)
    (tl : TrustTable env) : Db env :=
  { db with
    trustLines := tl
    auditLog := db.auditLog ++ [auditRow operation none (env.directory.codeText e) participants
      (computeIntegrityCheckpoint db.trustLines db.debts e)
      (computeIntegrityCheckpoint tl db.debts e)] }

/-- `policy or {}`. -/
def policyOrEmpty (policy : Option Policy) : Policy := policy.getD Dict.empty

section Payloads

variable {V : Type*}

/-- An entry that a payload has only when the request sets the field. -/
def optionalEntry (key : String) (value : Option V) : List (String × V) :=
  (value.map fun v => (key, v)).toList

/-- What `TrustLineService.create` verifies. -/
def trustLineCreatePayload (toPid equivalent limit : V) (policy : Option V) : List (String × V) :=
  [("to", toPid), ("equivalent", equivalent), ("limit", limit)] ++ optionalEntry "policy" policy

/-- What `TrustLineService.update` verifies. -/
def trustLineUpdatePayload (id : V) (limit policy : Option V) : List (String × V) :=
  [("id", id)] ++ optionalEntry "limit" limit ++ optionalEntry "policy" policy

/-- What `TrustLineService.close` verifies. -/
def trustLineClosePayload (id : V) : List (String × V) := [("id", id)]

end Payloads

/-- `TrustLineService.create`. -/
def createTrustLine (fromParticipantId : Uuid) (data : TrustLineCreateRequest) (db : Db env) :
    Except GeoError (Db env) :=
  if data.signature = "" then .error (.invalidSignature "Missing signature")
  else match env.directory.participantById fromParticipantId with
    | none => .error (.notFound "Sender not found")
    | some sender =>
        let signedPayload := trustLineCreatePayload (SignedValue.text data.toPid) (.text data.equivalent)
          (.amount data.limit) (data.policy.map .policy)
        if env.verifySignature sender signedPayload data.signature = false then
          .error (.invalidSignature "Invalid signature")
        else do
          validateEquivalentCode data.equivalent
          (data.policy.map validateTrustlinePolicy).getD (.ok ())
          match env.directory.participantByPid data.toPid with
          | none => .error (.notFound "Recipient participant not found")
          | some receiver =>
              if fromParticipantId = receiver.id then
                .error (.badRequest "Cannot create trustline to self")
              else match env.directory.equivalentByCode data.equivalent with
                | none => .error (.notFound ("Equivalent '" ++ data.equivalent ++ "' not found"))
                | some equivalent => do
                    let tl ← db.trustLines.insert fromParticipantId receiver.id equivalent.id data.limit
                      (policyOrEmpty data.policy)
                    return auditTrustLine db .TRUST_LINE_CREATE equivalent.id
                      [sender.pid, receiver.pid] tl

/-- `current_policy.update(data.policy)`. -/
def mergePolicy (current : Option Policy) (changes : Policy) : Policy :=
  changes.items.foldl (fun policy entry => policy.set entry.1 entry.2) (policyOrEmpty current)

/-- `TrustLineService.update`. -/
def updateTrustLine (trustlineId userId : Uuid) (data : TrustLineUpdateRequest) (db : Db env) :
    Except GeoError (Db env) :=
  match db.trustLines.rows.find? (·.id = trustlineId) with
  | none => .error (.notFound "Trustline not found")
  | some trustline =>
      if trustline.fromParticipantId ≠ userId then
        .error (.forbidden "Not authorized to update this trustline")
      else if trustline.status = .closed then .error (.conflict "Cannot update a closed trustline")
      else if data.signature = "" then .error (.invalidSignature "Missing signature")
      else match env.directory.participantById userId with
        | none => .error (.notFound "Sender not found")
        | some user =>
            let signedPayload := trustLineUpdatePayload (SignedValue.text (toString trustlineId))
              (data.limit.map .amount) (data.policy.map .policy)
            if env.verifySignature user signedPayload data.signature = false then
              .error (.invalidSignature "Invalid signature")
            else if data.limit.any (· < usedAmount db.debts trustline) then
              .error (.badRequest "Cannot reduce trustline limit below used amount")
            else do
              (data.policy.map validateTrustlinePolicy).getD (.ok ())
              let tl ← db.trustLines.write trustlineId (data.limit.getD trustline.limit)
                ((data.policy.map (mergePolicy trustline.policy)).or trustline.policy)
              return auditTrustLine db .TRUST_LINE_UPDATE trustline.equivalentId
                [env.directory.pidText trustline.fromParticipantId,
                  env.directory.pidText trustline.toParticipantId, toString trustlineId] tl

/-- `TrustLineService.close`. -/
def closeTrustLine (trustlineId userId : Uuid) (data : TrustLineCloseRequest) (db : Db env) :
    Except GeoError (Db env) :=
  match db.trustLines.rows.find? (·.id = trustlineId) with
  | none => .error (.notFound "Trustline not found")
  | some trustline =>
      if trustline.fromParticipantId ≠ userId then
        .error (.forbidden "Not authorized to close this trustline")
      else if trustline.status = .closed then .error (.conflict "Trustline is already closed")
      else if data.signature = "" then .error (.invalidSignature "Missing signature")
      else match env.directory.participantById userId with
        | none => .error (.notFound "Sender not found")
        | some user =>
            if env.verifySignature user (trustLineClosePayload (.text (toString trustlineId))) data.signature = false then
              .error (.invalidSignature "Invalid signature")
            else if 0 < usedAmount db.debts trustline ∨ 0 < reverseUsedAmount db.debts trustline then
              .error (.badRequest "Cannot close trustline with non-zero debt")
            else
              .ok (auditTrustLine db .TRUST_LINE_CLOSE trustline.equivalentId
                [env.directory.pidText trustline.fromParticipantId,
                  env.directory.pidText trustline.toParticipantId, toString trustlineId]
                (db.trustLines.close trustlineId))

section Effects

variable {db db' : Db env} {trustlineId userId : Uuid}

/-- A created line only adds a limit. -/
theorem createTrustLine_effect {fromParticipantId : Uuid} {data : TrustLineCreateRequest}
    (h : createTrustLine fromParticipantId data db = .ok db') :
    ∃ toId equivalent participants tl, env.directory.equivalentByCode data.equivalent = some equivalent ∧
      fromParticipantId ≠ toId ∧ env.directory.Registered fromParticipantId ∧ env.directory.Registered toId ∧
      db.trustLines.insert fromParticipantId toId equivalent.id data.limit (policyOrEmpty data.policy) = .ok tl ∧
      db' = auditTrustLine db .TRUST_LINE_CREATE equivalent.id participants tl := by
  unfold createTrustLine at h
  split at h
  · cases h
  · split at h
    · cases h
    · next sender hSender =>
        simp only at h
        split at h
        · cases h
        · obtain ⟨_, _, h⟩ := bind_eq_ok_iff.mp h
          obtain ⟨_, _, h⟩ := bind_eq_ok_iff.mp h
          split at h
          · cases h
          · next receiver hReceiver =>
              split at h
              · cases h
              · next hSelf =>
                  split at h
                  · cases h
                  · next equivalent hEquivalent =>
                      obtain ⟨tl, hInsert, hOk⟩ := bind_eq_ok_iff.mp h
                      cases hOk
                      have hFound := List.find?_some hSender
                      exact ⟨receiver.id, equivalent, _, tl, hEquivalent, hSelf,
                        ⟨sender, List.mem_of_find?_eq_some hSender, by simpa using hFound⟩,
                        ⟨receiver, List.mem_of_find?_eq_some hReceiver, rfl⟩, hInsert, rfl⟩

/-- An update rewrites one live line, with a limit that covers the used amount. -/
theorem updateTrustLine_effect {data : TrustLineUpdateRequest}
    (h : updateTrustLine trustlineId userId data db = .ok db') :
    ∃ l ∈ db.trustLines.rows, l.id = trustlineId ∧ l.status ≠ .closed ∧
      (∀ x, data.limit = some x → usedAmount db.debts l ≤ x) ∧
      ∃ policy participants tl,
        db.trustLines.write l.id (data.limit.getD l.limit) policy = .ok tl ∧
        db' = auditTrustLine db .TRUST_LINE_UPDATE l.equivalentId participants tl := by
  unfold updateTrustLine at h
  split at h
  · cases h
  · next l hFind =>
      have hId : l.id = trustlineId := by
        have hFound := List.find?_some hFind
        simpa using hFound
      split at h
      · cases h
      · split at h
        · cases h
        · next hLive =>
            split at h
            · cases h
            · split at h
              · cases h
              · simp only at h
                split at h
                · cases h
                · split at h
                  · cases h
                  · next hUsed =>
                      obtain ⟨_, _, h⟩ := bind_eq_ok_iff.mp h
                      obtain ⟨tl, hWrite, hOk⟩ := bind_eq_ok_iff.mp h
                      cases hOk
                      refine ⟨l, List.mem_of_find?_eq_some hFind, hId, hLive, ?_, _, _, tl,
                        hId ▸ hWrite, rfl⟩
                      intro x hx
                      simpa [hx] using hUsed

/-- A closed line was live and carried no debt in either direction. -/
theorem closeTrustLine_effect {data : TrustLineCloseRequest}
    (h : closeTrustLine trustlineId userId data db = .ok db') :
    ∃ l ∈ db.trustLines.rows, l.id = trustlineId ∧ l.status ≠ .closed ∧ usedAmount db.debts l ≤ 0 ∧
      reverseUsedAmount db.debts l ≤ 0 ∧
      ∃ participants, db' =
        auditTrustLine db .TRUST_LINE_CLOSE l.equivalentId participants (db.trustLines.close l.id) := by
  unfold closeTrustLine at h
  split at h
  · cases h
  · next l hFind =>
      have hId : l.id = trustlineId := by
        have hFound := List.find?_some hFind
        simpa using hFound
      split at h
      · cases h
      · split at h
        · cases h
        · next hLive =>
            split at h
            · cases h
            · split at h
              · cases h
              · split at h
                · cases h
                · split at h
                  · cases h
                  · next hUsed =>
                      push Not at hUsed
                      cases h
                      exact ⟨l, List.mem_of_find?_eq_some hFind, hId, hLive, hUsed.1, hUsed.2, _,
                        by rw [hId]⟩

end Effects

end GeoLedger

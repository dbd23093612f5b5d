import Mathlib
import GeoLedger.Library.Dict
import GeoLedger.Library.Runs

/-! One-time credentials under concurrent calls. A login consumes its challenge
in one serializable transaction. A refresh asks the revocation store, reads the
participant and then revokes, and other calls run between these steps. -/
namespace GeoLedger.Credentials
open Transition

/-- The claims of a token. An absent or empty claim is the empty text. -/
structure Token where
  type : String
  jti : String
  sub : String
  exp : Nat
deriving DecidableEq, Repr

/-- A row of `auth_challenges`. -/
structure AuthChallenge where
  id : Nat
  pid : String
  challenge : String
  expiresAt : Nat
  used : Bool
deriving DecidableEq, Repr

/-- What the calls run with. The hub's signature vouches for a token, and every
token it signs has an identifier of its own. -/
structure Hub where
  accepts : Token → Bool
  registered : String → Bool
  redisEnabled : Bool
  refreshExpireSeconds : Nat
  jti_unique : ∀ token other, accepts token = true → accepts other = true → token.jti = other.jti → token = other

section Store

variable (hub : Hub)

/-- `revoke_jti`. An entry is the second at which it expires. -/
def revokeJti (jti : String) (exp now : Nat) (revoked : Dict String Nat) : Dict String Nat :=
  if jti = "" then revoked
  else if exp ≠ 0 ∧ exp ≤ now then revoked
  else if hub.redisEnabled then
    let ttl := if exp ≠ 0 then exp - now else hub.refreshExpireSeconds
    revoked.set jti (now + max 1 ttl)
  else revoked.set jti exp

/-- `is_jti_revoked`: the answer, and the store after an expired entry is dropped. -/
def isJtiRevoked (jti : String) (now : Nat) (revoked : Dict String Nat) : Bool × Dict String Nat :=
  if jti = "" then (false, revoked)
  else match revoked.get? jti with
  | none => (false, revoked)
  | some exp =>
      if hub.redisEnabled then (decide (now < exp), revoked)
      else if exp ≠ 0 ∧ exp ≤ now then (false, revoked.pop jti)
      else (true, revoked)

end Store

/-- The two calls that take a refresh token. -/
inductive Operation where
  | refreshTokens
  | revokeRefreshToken
deriving DecidableEq, Repr

/-- Where a call stands: before its transaction, before the check of the store,
before the read of the participant, before the revocation, or at its end. -/
inductive Phase where
  | idle
  | transacting (pid challenge : String) (validSignature : Bool) (now : Nat)
  | checking (op : Operation) (token : Token)
  | reading (token : Token)
  | revoking (op : Operation) (token : Token)
  | loggedIn (challengeId : Nat)
  | returned (op : Operation) (token : Token)
  | raised
deriving DecidableEq, Repr

structure State where
  now : Nat
  challenges : List AuthChallenge
  revoked : Dict String Nat
  calls : Nat → Phase

/-- What can happen next. A call's own step runs to its next await; `interrupt`
stands for a cancellation, a failed query or a serialization failure. -/
inductive Action where
  | tick
  | login (call : Nat) (pid challenge : String) (validSignature : Bool)
  | present (call : Nat) (op : Operation) (token : Token)
  | transact (call : Nat)
  | check (call : Nat)
  | read (call : Nat)
  | revoke (call : Nat)
  | interrupt (call : Nat)

def State.put (s : State) (call : Nat) (phase : Phase) : State :=
  { s with calls := Function.update s.calls call phase }

section Source

variable (hub : Hub)

/-- `AuthService.login` from its first query to its commit. A login that raises
leaves the table as it was. -/
def loginTransaction (challenges : List AuthChallenge) (pid challenge : String) (validSignature : Bool)
    (now : Nat) : Option (Nat × List AuthChallenge) :=
  let kept := challenges.filter fun c => ¬ c.expiresAt < now
  match kept.filter fun c => c.pid = pid ∧ c.challenge = challenge ∧ c.used = false ∧ now < c.expiresAt with
  | [found] =>
      if hub.registered pid = false then none
      else if validSignature = false then none
      else some (found.id, kept.map fun c => if c.id = found.id then { c with used := true } else c)
  | _ => none

/-- `decode_token` up to the check of the store, and the check for a `jti`. -/
def startToken (op : Operation) (token : Token) (now : Nat) : Phase :=
  if hub.accepts token = false ∨ token.exp ≤ now ∨ token.type ≠ "refresh" then .raised
  else if token.jti = "" then .raised
  else .checking op token

/-- What a call does with a token that is not revoked. -/
def afterCheck (op : Operation) (token : Token) : Phase :=
  match op with
  | .revokeRefreshToken => .revoking op token
  | .refreshTokens => if token.sub = "" then .raised else .reading token

/-- One step of the clock, of a caller or of a call. -/
def step (s : State) : Action → State
  | .tick => { s with now := s.now + 1 }
  | .login call pid challenge validSignature =>
      if s.calls call = .idle then s.put call (.transacting pid challenge validSignature s.now) else s
  | .present call op token =>
      if s.calls call = .idle then s.put call (startToken hub op token s.now) else s
  | .transact call =>
      match s.calls call with
      | .transacting pid challenge validSignature now =>
          match loginTransaction hub s.challenges pid challenge validSignature now with
          | some (challengeId, challenges) => { s with challenges }.put call (.loggedIn challengeId)
          | none => s.put call .raised
      | _ => s
  | .check call =>
      match s.calls call with
      | .checking op token =>
          let answer := isJtiRevoked hub token.jti s.now s.revoked
          { s with revoked := answer.2 }.put call (if answer.1 then .raised else afterCheck op token)
      | _ => s
  | .read call =>
      match s.calls call with
      | .reading token =>
          s.put call (if hub.registered token.sub then .revoking .refreshTokens token else .raised)
      | _ => s
  | .revoke call =>
      match s.calls call with
      | .revoking op token =>
          { s with revoked := revokeJti hub token.jti token.exp s.now s.revoked }.put call (.returned op token)
      | _ => s
  | .interrupt call =>
      match s.calls call with
      | .transacting .. | .checking .. | .reading .. | .revoking .. => s.put call .raised
      | _ => s

end Source

/-- No call has started. -/
def State.Fresh (s : State) : Prop := ∀ call, s.calls call = .idle

/-- The call has passed the check with the token, and has not failed since. -/
def Phase.Holds (phase : Phase) (token : Token) : Prop :=
  phase = .reading token ∨ phase = .revoking .refreshTokens token ∨ phase = .returned .refreshTokens token

/-- A refresh asks the store only while no other refresh of its token stands
between its check and its revocation. -/
def Exclusive (s : State) : Action → Prop
  | .check call => ∀ token, s.calls call = .checking .refreshTokens token →
      ∀ other, s.calls other ≠ .reading token ∧ s.calls other ≠ .revoking .refreshTokens token
  | _ => True

variable {hub : Hub}

@[simp] theorem State.put_now (s : State) (call : Nat) (phase : Phase) : (s.put call phase).now = s.now := rfl

@[simp] theorem State.put_challenges (s : State) (call : Nat) (phase : Phase) :
    (s.put call phase).challenges = s.challenges := rfl

@[simp] theorem State.put_revoked (s : State) (call : Nat) (phase : Phase) :
    (s.put call phase).revoked = s.revoked := rfl

/-- The phase of a call is put for that call only. -/
theorem State.put_calls (s : State) (call other : Nat) (phase : Phase) :
    (s.put call phase).calls other = if other = call then phase else s.calls other := by
  simp [State.put, Function.update_apply]

section Moves

/-- Everything a step can do. -/
inductive Moves (hub : Hub) (s : State) : Action → State → Prop where
  | stay {a : Action} : Moves hub s a s
  | tick : Moves hub s .tick { s with now := s.now + 1 }
  | login {call : Nat} {pid challenge : String} {validSignature : Bool} (hIdle : s.calls call = .idle) :
      Moves hub s (.login call pid challenge validSignature)
        (s.put call (.transacting pid challenge validSignature s.now))
  | present {call : Nat} {op : Operation} {token : Token} (hIdle : s.calls call = .idle)
      (hAccepts : hub.accepts token = true) (hJti : token.jti ≠ "") :
      Moves hub s (.present call op token) (s.put call (.checking op token))
  | raise {a : Action} {call : Nat} : Moves hub s a (s.put call .raised)
  | loggedIn {call : Nat} {pid challenge : String} {validSignature : Bool} {now challengeId : Nat}
      {challenges : List AuthChallenge} (hPhase : s.calls call = .transacting pid challenge validSignature now)
      (hLogin : loginTransaction hub s.challenges pid challenge validSignature now = some (challengeId, challenges)) :
      Moves hub s (.transact call) ({ s with challenges := challenges }.put call (.loggedIn challengeId))
  | refused {call : Nat} {op : Operation} {token : Token} (hPhase : s.calls call = .checking op token)
      (hRevoked : (isJtiRevoked hub token.jti s.now s.revoked).1 = true) :
      Moves hub s (.check call)
        ({ s with revoked := (isJtiRevoked hub token.jti s.now s.revoked).2 }.put call .raised)
  | passed {call : Nat} {op : Operation} {token : Token} (hPhase : s.calls call = .checking op token)
      (hRevoked : (isJtiRevoked hub token.jti s.now s.revoked).1 = false) :
      Moves hub s (.check call)
        ({ s with revoked := (isJtiRevoked hub token.jti s.now s.revoked).2 }.put call (afterCheck op token))
  | found {call : Nat} {token : Token} (hPhase : s.calls call = .reading token) :
      Moves hub s (.read call) (s.put call (.revoking .refreshTokens token))
  | revoked {call : Nat} {op : Operation} {token : Token} (hPhase : s.calls call = .revoking op token) :
      Moves hub s (.revoke call)
        ({ s with revoked := revokeJti hub token.jti token.exp s.now s.revoked }.put call (.returned op token))

/-- A step of the hub is one of the moves. -/
theorem step_moves (hub : Hub) (s : State) (a : Action) : Moves hub s a (step hub s a) := by
  cases a with
  | tick => exact .tick
  | login call pid challenge validSignature =>
      rw [step]
      split
      · next hIdle => exact .login hIdle
      · exact .stay
  | present call op token =>
      rw [step]
      split
      · next hIdle =>
        rw [startToken]
        split
        · exact .raise
        · next hValid =>
          split
          · exact .raise
          · next hJti =>
            simp only [not_or, Bool.not_eq_false] at hValid
            exact .present hIdle hValid.1 hJti
      · exact .stay
  | transact call =>
      rw [step]
      split
      · next hPhase =>
        split
        · next hLogin => exact .loggedIn hPhase hLogin
        · exact .raise
      · exact .stay
  | check call =>
      rw [step]
      split
      · next op token hPhase =>
        cases hRevoked : (isJtiRevoked hub token.jti s.now s.revoked).1 with
        | true => simpa only [hRevoked, if_true] using Moves.refused hPhase hRevoked
        | false =>
            simpa only [hRevoked, Bool.false_eq_true, if_false] using Moves.passed hPhase hRevoked
      · exact .stay
  | read call =>
      rw [step]
      split
      · next hPhase =>
        split
        · exact .found hPhase
        · exact .raise
      · exact .stay
  | revoke call =>
      rw [step]
      split
      · next hPhase => exact .revoked hPhase
      · exact .stay
  | interrupt call =>
      rw [step]
      split <;> first | exact .raise | exact .stay

/-- Time does not go back. -/
theorem Moves.now_le {s s' : State} {a : Action} (h : Moves hub s a s') : s.now ≤ s'.now := by
  cases h <;> simp

end Moves

section Challenges

/-- A login takes an unused challenge and leaves it used; used rows stay used. -/
theorem loginTransaction_spec {challenges challenges' : List AuthChallenge} {pid challenge : String}
    {validSignature : Bool} {now challengeId : Nat}
    (h : loginTransaction hub challenges pid challenge validSignature now = some (challengeId, challenges')) :
    (∃ row ∈ challenges, row.id = challengeId ∧ row.used = false) ∧
    (∀ row ∈ challenges', row.id = challengeId → row.used = true) ∧
    ∀ row ∈ challenges', row.used = true ∨ row ∈ challenges := by
  simp only [loginTransaction] at h
  split at h
  · next found hFound =>
    have hMem : found ∈ challenges ∧ found.used = false := by
      have hIn : found ∈ [found] := List.mem_singleton_self _
      rw [← hFound, List.mem_filter, List.mem_filter] at hIn
      exact ⟨hIn.1.1, (of_decide_eq_true hIn.2).2.2.1⟩
    split at h
    · cases h
    · split at h
      · cases h
      · simp only [Option.some.injEq, Prod.mk.injEq] at h
        obtain ⟨rfl, rfl⟩ := h
        refine ⟨⟨found, hMem.1, rfl, hMem.2⟩, fun row hRow hId => ?_, fun row hRow => ?_⟩
        · obtain ⟨old, _, rfl⟩ := List.mem_map.mp hRow
          split at hId <;> simp_all
        · obtain ⟨old, hOld, rfl⟩ := List.mem_map.mp hRow
          split
          · exact Or.inl rfl
          · exact Or.inr (List.mem_of_mem_filter hOld)
  · cases h

/-- The challenge of a login that succeeded is used, and no other login took it. -/
structure Consumed (s : State) : Prop where
  used : ∀ call challengeId, s.calls call = .loggedIn challengeId →
    ∀ row ∈ s.challenges, row.id = challengeId → row.used = true
  once : ∀ call other challengeId, s.calls call = .loggedIn challengeId →
    s.calls other = .loggedIn challengeId → call = other

/-- A step that logs nobody in keeps the challenges consumed. -/
theorem Consumed.of_calls {s s' : State} (h : Consumed s) (hRows : s'.challenges = s.challenges)
    (hCalls : ∀ call challengeId, s'.calls call = .loggedIn challengeId → s.calls call = .loggedIn challengeId) :
    Consumed s' where
  used call challengeId hCall := hRows ▸ h.used call challengeId (hCalls call challengeId hCall)
  once call other challengeId hCall hOther :=
    h.once call other challengeId (hCalls call challengeId hCall) (hCalls other challengeId hOther)

theorem Consumed.store {s : State} (h : Consumed s) (revoked : Dict String Nat) :
    Consumed { s with revoked := revoked } := h.of_calls rfl fun _ _ hCall => hCall

/-- A call that does not log in by a challenge consumes none. -/
theorem Consumed.put {s : State} (h : Consumed s) {call : Nat} {phase : Phase}
    (hPhase : ∀ challengeId, phase ≠ .loggedIn challengeId) : Consumed (s.put call phase) := by
  refine h.of_calls rfl fun other challengeId hOther => ?_
  rw [State.put_calls] at hOther
  split at hOther
  · exact absurd hOther (hPhase challengeId)
  · exact hOther

/-- Every move keeps that a challenge is consumed by one call at most. -/
theorem Consumed.step {s s' : State} {a : Action} (h : Consumed s) (hMove : Moves hub s a s') : Consumed s' := by
  cases hMove with
  | stay => exact h
  | tick => exact h.of_calls rfl fun _ _ hCall => hCall
  | login hIdle => exact h.put (by simp)
  | present hIdle hAccepts hJti => exact h.put (by simp)
  | raise => exact h.put (by simp)
  | refused hPhase hRevoked => exact (h.store _).put (by simp)
  | found hPhase => exact h.put (by simp)
  | revoked hPhase => exact (h.store _).put (by simp)
  | @passed call op token hPhase hRevoked =>
      refine (h.store _).put fun challengeId => ?_
      cases op with
      | refreshTokens =>
          rw [afterCheck]
          split <;> simp
      | revokeRefreshToken => simp [afterCheck]
  | @loggedIn call pid challenge validSignature now challengeId challenges hPhase hLogin =>
      obtain ⟨⟨row, hRow, hId, hUnused⟩, hUsed, hKept⟩ := loginTransaction_spec hLogin
      have hNew : ∀ other, s.calls other ≠ .loggedIn challengeId := by
        intro other hOther
        have hWasUsed := h.used other challengeId hOther row hRow hId
        rw [hUnused] at hWasUsed
        cases hWasUsed
      constructor
      · intro other otherId hOther row hRow hId
        rw [State.put_calls] at hOther
        split at hOther
        · cases hOther
          exact hUsed row hRow hId
        · rcases hKept row hRow with hDone | hOld
          · exact hDone
          · exact h.used other otherId hOther row hOld hId
      · intro first second otherId hFirst hSecond
        rw [State.put_calls] at hFirst hSecond
        split at hFirst <;> split at hSecond
        · next hIs hAlso => exact hIs.trans hAlso.symm
        · cases hFirst
          exact absurd hSecond (hNew second)
        · cases hSecond
          exact absurd hFirst (hNew first)
        · exact h.once first second otherId hFirst hSecond

end Challenges

section Tokens

/-- The token a call works with. -/
def Phase.token? : Phase → Option Token
  | .checking _ token | .reading token | .revoking _ token | .returned _ token => some token
  | _ => none

/-- The tokens in use are signed by the hub and have an identifier. -/
def Signed (hub : Hub) (s : State) : Prop :=
  ∀ call token, (s.calls call).token? = some token → hub.accepts token = true ∧ token.jti ≠ ""

/-- Only tokens that were signed, or that a call held before, are held. -/
theorem Signed.of_calls {s s' : State} (h : Signed hub s)
    (hCalls : ∀ call token, (s'.calls call).token? = some token →
      (∃ other, (s.calls other).token? = some token) ∨ hub.accepts token = true ∧ token.jti ≠ "") :
    Signed hub s' := by
  intro call token hToken
  rcases hCalls call token hToken with ⟨other, hOther⟩ | hNew
  · exact h other token hOther
  · exact hNew

theorem afterCheck_token {op : Operation} {token other : Token}
    (h : (afterCheck op token).token? = some other) : other = token := by
  cases op with
  | revokeRefreshToken =>
      simp only [afterCheck, Phase.token?, Option.some.injEq] at h
      exact h.symm
  | refreshTokens =>
      rw [afterCheck] at h
      split at h
      · cases h
      · exact (Option.some.inj h).symm

/-- Every move keeps that all held tokens were signed. -/
theorem Signed.step {s s' : State} {a : Action} (h : Signed hub s) (hMove : Moves hub s a s') : Signed hub s' := by
  refine h.of_calls fun call token hToken => ?_
  cases hMove with
  | stay => exact Or.inl ⟨call, hToken⟩
  | tick => exact Or.inl ⟨call, hToken⟩
  | login hIdle | raise | loggedIn hPhase hLogin | refused hPhase hRevoked =>
      rw [State.put_calls] at hToken
      split at hToken
      · cases hToken
      · exact Or.inl ⟨call, hToken⟩
  | present hIdle hAccepts hJti =>
      rw [State.put_calls] at hToken
      split at hToken
      · cases hToken
        exact Or.inr ⟨hAccepts, hJti⟩
      · exact Or.inl ⟨call, hToken⟩
  | @passed who op token' hPhase hRevoked =>
      rw [State.put_calls] at hToken
      split at hToken
      · rw [afterCheck_token hToken]
        exact Or.inl ⟨who, by rw [hPhase]; rfl⟩
      · exact Or.inl ⟨call, hToken⟩
  | @found who token' hPhase | @revoked who op token' hPhase =>
      rw [State.put_calls] at hToken
      split at hToken
      · cases hToken
        exact Or.inl ⟨who, by rw [hPhase]; rfl⟩
      · exact Or.inl ⟨call, hToken⟩

/-- The store says until when the token is revoked. -/
def Marked (s : State) (token : Token) : Prop := s.revoked.get? token.jti = some token.exp

/-- A revoked token that has not expired is found among the revoked ones. -/
theorem get?_revokeJti_self {token : Token} {now : Nat} (hJti : token.jti ≠ "") (hLive : now < token.exp)
    (revoked : Dict String Nat) :
    (revokeJti hub token.jti token.exp now revoked).get? token.jti = some token.exp := by
  have hExp : token.exp ≠ 0 := by omega
  have hEntry : now + max 1 (token.exp - now) = token.exp := by omega
  rw [revokeJti, if_neg hJti, if_neg (by omega)]
  split
  · simp only [Dict.get?_set, if_true, hEntry]
  · rw [Dict.get?_set, if_pos rfl]

/-- Revoking one token leaves all others as they are. -/
theorem get?_revokeJti_of_ne {jti key : String} (hKey : key ≠ jti) (exp now : Nat) (revoked : Dict String Nat) :
    (revokeJti hub jti exp now revoked).get? key = revoked.get? key := by
  rw [revokeJti]
  split
  · rfl
  · split
    · rfl
    · split <;> simp only [Dict.get?_set, if_neg hKey]

/-- Asking the store drops no entry that has not expired. -/
theorem get?_isJtiRevoked {key : String} {exp now : Nat} (jti : String) {revoked : Dict String Nat}
    (hEntry : revoked.get? key = some exp) (hLive : now < exp) :
    (isJtiRevoked hub jti now revoked).2.get? key = some exp := by
  rw [isJtiRevoked]
  split
  · exact hEntry
  · split
    · exact hEntry
    · next hFound =>
      split
      · exact hEntry
      · split
        · next hExpired =>
          simp only [Dict.get?_pop]
          split
          · next hKey =>
            rw [← hKey, hEntry, Option.some.injEq] at hFound
            omega
          · exact hEntry
        · exact hEntry

/-- A token that is marked and has not expired is reported as revoked. -/
theorem isJtiRevoked_of_marked {token : Token} {now : Nat} {revoked : Dict String Nat} (hJti : token.jti ≠ "")
    (hEntry : revoked.get? token.jti = some token.exp) (hLive : now < token.exp) :
    (isJtiRevoked hub token.jti now revoked).1 = true := by
  rw [isJtiRevoked, if_neg hJti, hEntry]
  simp only
  split
  · exact decide_eq_true hLive
  · rw [if_neg (by omega)]

/-- The mark of a token stays until the token expires. -/
theorem Marked.step {s s' : State} {a : Action} {token : Token} (h : Marked s token) (hSigned : Signed hub s)
    (hAccepts : hub.accepts token = true) (hMove : Moves hub s a s') (hLive : s'.now < token.exp) :
    Marked s' token := by
  have hNow : s.now < token.exp := lt_of_le_of_lt hMove.now_le hLive
  cases hMove with
  | refused hPhase hRevoked | passed hPhase hRevoked => exact get?_isJtiRevoked _ h hNow
  | @revoked call op other hPhase =>
      obtain ⟨hOther, hJti⟩ := hSigned call other (by rw [hPhase]; rfl)
      by_cases hSame : token.jti = other.jti
      · obtain rfl := hub.jti_unique token other hAccepts hOther hSame
        exact get?_revokeJti_self hJti hNow _
      · exact (get?_revokeJti_of_ne hSame _ _ _).trans h
  | _ => exact h

/-- The tokens of the calls that returned are marked until they expire. -/
def Retired (s : State) : Prop :=
  ∀ call op token, s.calls call = .returned op token → s.now < token.exp → Marked s token

/-- Every move keeps that returned refresh tokens are revoked until they expire. -/
theorem Retired.step {s s' : State} {a : Action} (h : Retired s) (hSigned : Signed hub s)
    (hMove : Moves hub s a s') : Retired s' := by
  intro call op token hCall hLive
  have hNow : s.now < token.exp := lt_of_le_of_lt hMove.now_le hLive
  have hKeeps (hOld : s.calls call = .returned op token) : Marked s' token :=
    (h call op token hOld hNow).step hSigned (hSigned call token (by rw [hOld]; rfl)).1 hMove hLive
  by_cases hOld : s.calls call = .returned op token
  · exact hKeeps hOld
  · -- the call has returned in this step, so this step wrote the mark
    cases hMove with
    | stay | tick => exact absurd hCall hOld
    | login hIdle | present hIdle hAccepts hJti | raise | loggedIn hPhase hLogin
    | refused hPhase hRevoked | found hPhase =>
        rw [State.put_calls] at hCall
        split at hCall
        · cases hCall
        · exact absurd hCall hOld
    | @passed who other checked hPhase hRevoked =>
        rw [State.put_calls] at hCall
        split at hCall
        · cases other with
          | revokeRefreshToken => simp [afterCheck] at hCall
          | refreshTokens =>
              rw [afterCheck] at hCall
              split at hCall <;> cases hCall
        · exact absurd hCall hOld
    | @revoked who other gone hPhase =>
        rw [State.put_calls] at hCall
        split at hCall
        · cases hCall
          exact get?_revokeJti_self (hSigned who token (by rw [hPhase]; rfl)).2 hNow _
        · exact absurd hCall hOld

/-- Only a check that passes lets a call hold a token. -/
theorem Moves.holds {s s' : State} {a : Action} {call : Nat} {token : Token} (hMove : Moves hub s a s')
    (h : (s'.calls call).Holds token) :
    (s.calls call).Holds token ∨ a = .check call ∧ s.calls call = .checking .refreshTokens token ∧
      (isJtiRevoked hub token.jti s.now s.revoked).1 = false := by
  cases hMove with
  | stay | tick => exact Or.inl h
  | login hIdle | present hIdle hAccepts hJti | raise | loggedIn hPhase hLogin | refused hPhase hRevoked =>
      rw [State.put_calls] at h
      split at h
      · simp [Phase.Holds] at h
      · exact Or.inl h
  | @found who reading hPhase =>
      rw [State.put_calls] at h
      split at h
      · next hIs =>
        simp only [Phase.Holds, Phase.revoking.injEq, true_and, reduceCtorEq, false_or, or_false] at h
        exact Or.inl (Or.inl (by rw [hIs, hPhase, h]))
      · exact Or.inl h
  | @revoked who op revoking hPhase =>
      rw [State.put_calls] at h
      split at h
      · next hIs =>
        simp only [Phase.Holds, Phase.returned.injEq, reduceCtorEq, false_or] at h
        obtain ⟨rfl, rfl⟩ := h
        exact Or.inl (Or.inr (Or.inl (by rw [hIs, hPhase])))
      · exact Or.inl h
  | @passed who op checked hPhase hRevoked =>
      rw [State.put_calls] at h
      split at h
      · next hIs =>
        subst hIs
        cases op with
        | revokeRefreshToken => simp [Phase.Holds, afterCheck] at h
        | refreshTokens =>
            rw [afterCheck] at h
            split at h
            · simp [Phase.Holds] at h
            · simp only [Phase.Holds, Phase.reading.injEq, reduceCtorEq, or_false] at h
              subst h
              exact Or.inr ⟨rfl, hPhase, hRevoked⟩
      · exact Or.inl h

/-- At most one call holds a token that has not expired. -/
def HeldOnce (s : State) : Prop :=
  ∀ call other token, s.now < token.exp → (s.calls call).Holds token → (s.calls other).Holds token → call = other

/-- A step in which no other refresh of the token is under way keeps the token held once. -/
theorem HeldOnce.step {s s' : State} {a : Action} (h : HeldOnce s) (hSigned : Signed hub s) (hRetired : Retired s)
    (hAdmits : Exclusive s a) (hMove : Moves hub s a s') : HeldOnce s' := by
  intro call other token hLive hCall hOther
  have hNow : s.now < token.exp := lt_of_le_of_lt hMove.now_le hLive
  have hFresh {call : Nat} (hCheck : a = .check call) (hPhase : s.calls call = .checking .refreshTokens token)
      (hRevoked : (isJtiRevoked hub token.jti s.now s.revoked).1 = false) (holder : Nat) :
      ¬ (s.calls holder).Holds token := by
    subst hCheck
    have hNobody := hAdmits token hPhase holder
    rintro (hReading | hRevoking | hReturned)
    · exact hNobody.1 hReading
    · exact hNobody.2 hRevoking
    · have hMarked := hRetired holder _ token hReturned hNow
      have hJti := (hSigned call token (by rw [hPhase]; rfl)).2
      rw [isJtiRevoked_of_marked hJti hMarked hNow] at hRevoked
      cases hRevoked
  rcases hMove.holds hCall with hHeld | ⟨hCheck, hPhase, hRevoked⟩
  · rcases hMove.holds hOther with hAlso | ⟨hCheck, hPhase, hRevoked⟩
    · exact h call other token hNow hHeld hAlso
    · exact absurd hHeld (hFresh hCheck hPhase hRevoked call)
  · rcases hMove.holds hOther with hAlso | ⟨hCheck', _, _⟩
    · exact absurd hAlso (hFresh hCheck hPhase hRevoked other)
    · rw [hCheck] at hCheck'
      cases hCheck'
      rfl

end Tokens

section Runs

variable {start s : State} {trace : List Action} {admits : State → Action → Prop}

/-- After any run all held tokens were signed. -/
theorem signed_of_run (hStart : start.Fresh) (hRun : Run (step hub) admits start trace s) : Signed hub s := by
  refine hRun.invariant (fun call token hToken => ?_) fun s a h _ => h.step (step_moves hub s a)
  rw [hStart call] at hToken
  cases hToken

/-- After any run the tokens of refreshes that have returned are revoked until they expire. -/
theorem retired_of_run (hStart : start.Fresh) (hRun : Run (step hub) admits start trace s) :
    Signed hub s ∧ Retired s := by
  refine hRun.invariant (P := fun s => Signed hub s ∧ Retired s) ⟨signed_of_run hStart (@Run.nil _ _ _ admits _), ?_⟩
    fun s a h _ => ⟨h.1.step (step_moves hub s a), h.2.step h.1 (step_moves hub s a)⟩
  intro call op token hCall
  rw [hStart call] at hCall
  cases hCall

/-- After any run a challenge has been consumed by one call at most. -/
theorem consumed_of_run (hStart : start.Fresh) (hRun : Run (step hub) admits start trace s) : Consumed s := by
  refine hRun.invariant ⟨fun call challengeId hCall => ?_, fun call other challengeId hCall => ?_⟩
    fun s a h _ => h.step (step_moves hub s a)
  · rw [hStart call] at hCall
    cases hCall
  · rw [hStart call] at hCall
    cases hCall

/-- After a run without overlapping refreshes a token is held by one refresh at most. -/
theorem heldOnce_of_run (hStart : start.Fresh) (hRun : Run (step hub) Exclusive start trace s) : HeldOnce s := by
  have hAll := hRun.invariant (P := fun s => (Signed hub s ∧ Retired s) ∧ HeldOnce s)
    ⟨retired_of_run hStart (@Run.nil _ _ _ Exclusive _), fun call other token _ hCall => ?_⟩
    fun s a h hAdmits => ⟨⟨h.1.1.step (step_moves hub s a), h.1.2.step h.1.1 (step_moves hub s a)⟩,
      h.2.step h.1.1 h.1.2 hAdmits (step_moves hub s a)⟩
  · exact hAll.2
  · rw [hStart call] at hCall
    simp [Phase.Holds] at hCall

/-- From a marked token on, a call that has not passed the check never holds it. -/
theorem not_holds_of_run {later : List Action} {s' : State} {call : Nat} {token : Token} (hSigned : Signed hub s)
    (hAccepts : hub.accepts token = true) (hJti : token.jti ≠ "") (hMarked : s.now < token.exp → Marked s token)
    (hCall : ¬ (s.calls call).Holds token) (hRun : Run (step hub) admits s later s') (hLive : s'.now < token.exp) :
    ¬ (s'.calls call).Holds token := by
  have hAll := hRun.invariant
    (P := fun s => Signed hub s ∧ (s.now < token.exp → Marked s token ∧ ¬ (s.calls call).Holds token))
    ⟨hSigned, fun hNow => ⟨hMarked hNow, hCall⟩⟩ ?_
  · exact (hAll.2 hLive).2
  · rintro s a ⟨hSigned, hKept⟩ _
    have hMove := step_moves hub s a
    refine ⟨hSigned.step hMove, fun hLive => ?_⟩
    have hNow := lt_of_le_of_lt hMove.now_le hLive
    obtain ⟨hMarked, hOut⟩ := hKept hNow
    refine ⟨hMarked.step hSigned hAccepts hMove hLive, fun hHolds => ?_⟩
    rcases hMove.holds hHolds with hHeld | ⟨_, _, hRevoked⟩
    · exact hOut hHeld
    · rw [isJtiRevoked_of_marked hJti hMarked hNow] at hRevoked
      cases hRevoked

/-- In every run a challenge logs in at most one call, and a refresh that starts
after a call with its token returned does not succeed. In every run whose
refreshes check one at a time, an unexpired token is refreshed at most once. -/
theorem credentials_at_most_once (hub : Hub) (start : State) (hStart : start.Fresh) (trace : List Action)
    (s : State) (hRun : Run (step hub) (fun _ _ => True) start trace s) :
    (∀ call other challengeId, s.calls call = .loggedIn challengeId → s.calls other = .loggedIn challengeId →
      call = other) ∧
    (∀ earlier op token call, s.calls earlier = .returned op token → s.calls call = .idle →
      ∀ later s', Run (step hub) (fun _ _ => True) s later s' → s'.now < token.exp →
        s'.calls call ≠ .returned .refreshTokens token) ∧
    (Run (step hub) Exclusive start trace s →
      ∀ call other token, s.now < token.exp → s.calls call = .returned .refreshTokens token →
        s.calls other = .returned .refreshTokens token → call = other) := by
  refine ⟨(consumed_of_run hStart hRun).once, ?_, ?_⟩
  · intro earlier op token call hEarlier hIdle later s' hLater hLive hReturned
    obtain ⟨hSigned, hRetired⟩ := retired_of_run hStart hRun
    obtain ⟨hAccepts, hJti⟩ := hSigned earlier token (by rw [hEarlier]; rfl)
    refine not_holds_of_run hSigned hAccepts hJti (hRetired earlier op token hEarlier) ?_ hLater hLive
      (Or.inr (Or.inr hReturned))
    rw [hIdle]
    simp [Phase.Holds]
  · intro hExclusive call other token hLive hCall hOther
    exact heldOnce_of_run hStart hExclusive call other token hLive (Or.inr (Or.inr hCall))
      (Or.inr (Or.inr hOther))

end Runs

section Race

/-- A token that expires at second ten. -/
def raceToken : Token := ⟨"refresh", "j", "A", 10⟩

/-- A hub that has signed one token. -/
def raceHub : Hub where
  accepts token := token = raceToken
  registered _ := true
  redisEnabled := false
  refreshExpireSeconds := 600
  jti_unique _ _ h h' _ := (of_decide_eq_true h).trans (of_decide_eq_true h').symm

def raceStart : State := ⟨0, [], Dict.empty, fun _ => .idle⟩

/-- Both refreshes ask the store before one of them revokes. -/
def raceTrace : List Action :=
  [.present 0 .refreshTokens raceToken, .present 1 .refreshTokens raceToken, .check 0, .check 1,
    .read 0, .read 1, .revoke 0, .revoke 1]

/-- Two refreshes of one unexpired token succeed. -/
theorem two_refreshes_succeed :
    ∃ s, Run (step raceHub) (fun _ _ => True) raceStart raceTrace s ∧ raceStart.Fresh ∧ s.now < raceToken.exp ∧
      s.calls 0 = .returned .refreshTokens raceToken ∧ s.calls 1 = .returned .refreshTokens raceToken :=
  ⟨_, Run.of_foldl _ _ _, fun _ => rfl, by decide, by decide, by decide⟩

/-- A refresh with a token that was rotated before does not succeed, and as the two
refreshes did not overlap, the rotation is the only one that did. -/
theorem credentials_at_most_once_rotated :
    let rotate : List Action := [.present 0 .refreshTokens raceToken, .check 0, .read 0, .revoke 0]
    let reuse : List Action := [.tick, .present 1 .refreshTokens raceToken, .check 1, .read 1, .revoke 1]
    (reuse.foldl (step raceHub) (rotate.foldl (step raceHub) raceStart)).calls 1 ≠
      .returned .refreshTokens raceToken ∧
    ∀ call, ((rotate ++ reuse).foldl (step raceHub) raceStart).calls call = .returned .refreshTokens raceToken →
      call = 0 := by
  intro rotate reuse
  constructor
  · exact (credentials_at_most_once raceHub raceStart (fun _ => rfl) _ _ (Run.of_foldl _ _ _)).2.1 0 .refreshTokens
      raceToken 1 (by decide) (by decide) _ _ (Run.of_foldl _ _ _) (by decide)
  · intro call hCall
    have hExclusive : Run (step raceHub) Exclusive raceStart (rotate ++ reuse)
        ((rotate ++ reuse).foldl (step raceHub) raceStart) := by
      refine ((((((((Run.nil.snoc ?_).snoc ?_).snoc ?_).snoc ?_).snoc ?_).snoc ?_).snoc ?_).snoc ?_).snoc ?_
      · exact trivial
      · intro token _ other
        rcases other with _ | n <;> constructor <;> intro h <;> cases h
      · exact trivial
      · exact trivial
      · exact trivial
      · exact trivial
      · intro token _ other
        rcases other with _ | _ | n <;> constructor <;> intro h <;> cases h
      · exact trivial
      · exact trivial
    exact (credentials_at_most_once raceHub raceStart (fun _ => rfl) _ _ (Run.of_foldl _ _ _)).2.2 hExclusive call 0
      raceToken (by decide) hCall (by decide)

end Race

end GeoLedger.Credentials

import Mathlib
import GeoLedger.Simulator.Interact

/-! Seeding a scenario into the database. Existence is decided by queries that
do not see the trust lines staged by the same call and that pass over closed
ones. Rows name participants and equivalents by PID and code, their unique
columns. -/
namespace GeoLedger.ScenarioSeeder

/-- What `Decimal(str(limit))` makes of an entry's limit. -/
inductive LimitReading where
  | unreadable
  | nan
  | infinite (negative : Bool)
  | finite (value : Amount)
deriving DecidableEq

/-- `limit < 0`. -/
def LimitReading.negative : LimitReading → Bool
  | .infinite negative => negative
  | .finite value => value < 0
  | _ => false

/-- An entry of `scenario["trustlines"]`. An absent text is empty, and a policy
is absent when it is not a dictionary. -/
structure TrustlineEntry where
  equivalent : String
  fromText : String
  toText : String
  limit : LimitReading
  status : String
  policy : Option Policy

/-- An entry of `scenario["participants"]`. -/
structure ParticipantEntry where
  id : String
  name : String
  type : String
  status : String
deriving DecidableEq

structure Input where
  equivalents : List String
  baseEquivalent : String
  equivalent : String
  participants : List ParticipantEntry
  trustlines : List TrustlineEntry

structure ParticipantRow where
  pid : Pid
  displayName : String
  publicKey : String
  type : String
  status : String
deriving DecidableEq

/-- A row of `trust_lines`; `Stored` is what the column keeps of a limit. -/
structure LineRow (Stored : Type) where
  fromPid : Pid
  toPid : Pid
  code : String
  limit : Stored
  status : String
  policy : Policy

/-- The columns of `uq_trust_lines_live_from_to_equivalent`. -/
def LineRow.triple {Stored : Type} (l : LineRow Stored) : Pid × Pid × String := (l.fromPid, l.toPid, l.code)

/-- The database: which rows of participants fit their columns, and what the
limit column makes of a number, if it takes it. -/
structure Backend where
  Stored : Type
  bindLimit : LimitReading → Option Stored
  fits : ParticipantRow → Bool
  sha256 : String → String

/-- Keys are unique, and so are triples among the rows that are not closed. -/
structure Sound {Stored : Type} (codes : List String) (participants : List ParticipantRow)
    (lines : List (LineRow Stored)) : Prop where
  code_unique : codes.Nodup
  pid_unique : (participants.map (·.pid)).Nodup
  key_unique : (participants.map (·.publicKey)).Nodup
  live_unique : ((lines.filter (·.status ≠ "closed")).map LineRow.triple).Nodup

instance {Stored : Type} (codes : List String) (participants : List ParticipantRow) (lines : List (LineRow Stored)) :
    Decidable (Sound codes participants lines) :=
  decidable_of_iff (codes.Nodup ∧ (participants.map (·.pid)).Nodup ∧ (participants.map (·.publicKey)).Nodup ∧
      ((lines.filter (·.status ≠ "closed")).map LineRow.triple).Nodup)
    ⟨fun h => ⟨h.1, h.2.1, h.2.2.1, h.2.2.2⟩, fun h => ⟨h.1, h.2, h.3, h.4⟩⟩

/-- The three tables. -/
structure Tables (backend : Backend) where
  codes : List String
  participants : List ParticipantRow
  lines : List (LineRow backend.Stored)
  sound : Sound codes participants lines

inductive SeedError where
  | rejected
  | invalidOperation
  | database
deriving DecidableEq

section Source

variable {backend : Backend}

/-- The scenario as the functions of `scenario_equivalent` see it. -/
def Input.header (s : Input) : Scenario := ⟨s.baseEquivalent, s.equivalent, [], []⟩

/-- The code of an entry. -/
def Input.codeOf (s : Input) (tl : TrustlineEntry) : String := stripUpper (effectiveEquivalent s.header tl.equivalent)

def Input.eqCodes (s : Input) : List String :=
  ((s.equivalents.map stripUpper ++ [scenarioDefaultEquivalent s.header] ++ s.trustlines.map s.codeOf).filter
    (· ≠ "")).dedup.insertionSort (· ≤ ·)

def Input.pids (s : Input) : List Pid := (s.participants.map fun p => strip p.id).filter (· ≠ "")

def seedType (type : String) : String :=
  let pType := if strip (if type = "" then "person" else type) = "" then "person"
    else strip (if type = "" then "person" else type)
  if pType ∈ ["person", "business", "hub"] then pType else "person"

def seedStatus (status : String) : String :=
  let text := stripLower (if status = "" then "active" else status)
  if text = "frozen" then "suspended"
  else if text = "banned" then "deleted"
  else if text ∈ ["active", "suspended", "left", "deleted"] then text
  else "active"

/-- `Participant(…)` for an entry. -/
def participantRow (backend : Backend) (p : ParticipantEntry) : ParticipantRow where
  pid := strip p.id
  displayName := if p.name = "" then strip p.id else p.name
  publicKey := backend.sha256 (strip p.id)
  type := seedType p.type
  status := seedStatus p.status

/-- The entries of participants that are added. -/
def newParticipants (db : Tables backend) (s : Input) : List ParticipantRow :=
  (s.participants.filter fun p => strip p.id ≠ "" ∧ strip p.id ∉ db.participants.map (·.pid)).map
    (participantRow backend)

def newCodes (db : Tables backend) (s : Input) : List String := s.eqCodes.filter (· ∉ db.codes)

/-- The rows that the column makes of staged lines, if it takes all limits. -/
def bindLines (backend : Backend) : List (LineRow LimitReading) → Option (List (LineRow backend.Stored))
  | [] => some []
  | l :: rest =>
      match backend.bindLimit l.limit, bindLines backend rest with
      | some limit, some rows => some (⟨l.fromPid, l.toPid, l.code, limit, l.status, l.policy⟩ :: rows)
      | _, _ => none

/-- Write staged rows, or fail on a constraint. -/
def flush (db : Tables backend) (codes : List String) (participants : List ParticipantRow)
    (lines : List (LineRow LimitReading)) : Except SeedError (Tables backend) :=
  match bindLines backend lines with
  | none => .error .database
  | some rows =>
      if h : Sound (db.codes ++ codes) (db.participants ++ participants) (db.lines ++ rows) ∧
          participants.all backend.fits then
        .ok ⟨db.codes ++ codes, db.participants ++ participants, db.lines ++ rows, h.1⟩
      else .error .database

/-- The triples with a row that is not closed. -/
def liveTriples (db : Tables backend) : List (Pid × Pid × String) :=
  (db.lines.filter (·.status ≠ "closed")).map LineRow.triple

/-- `tl["status"]` of a staged row. -/
def lineStatus (tl : TrustlineEntry) : String :=
  let text := stripLower (if tl.status = "" then "active" else tl.status)
  if text ∈ ["active", "frozen", "closed"] then text else "active"

def tripleOf (s : Input) (tl : TrustlineEntry) : Pid × Pid × String :=
  (strip tl.fromText, strip tl.toText, s.codeOf tl)

/-- `TrustLine(…)` for an entry. -/
def lineRow (s : Input) (tl : TrustlineEntry) : LineRow LimitReading where
  fromPid := strip tl.fromText
  toPid := strip tl.toText
  code := s.codeOf tl
  limit := tl.limit
  status := lineStatus tl
  policy := tl.policy.getD defaultTlPolicy

/-- One pass of the loop over the trust lines: the row it stages, if any. A
comparison with a NaN raises. -/
def stageLine (db : Tables backend) (s : Input) (tl : TrustlineEntry) :
    Except SeedError (Option (LineRow LimitReading)) :=
  if s.codeOf tl = "" ∨ s.codeOf tl ∉ s.eqCodes ∨ s.codeOf tl ∉ db.codes then .ok none
  else if strip tl.fromText = "" ∨ strip tl.toText = "" then .ok none
  else if strip tl.fromText ∉ s.pids ∨ strip tl.fromText ∉ db.participants.map (·.pid) ∨
      strip tl.toText ∉ s.pids ∨ strip tl.toText ∉ db.participants.map (·.pid) then .ok none
  else match tl.limit with
  | .unreadable => .ok none
  | .nan => .error .invalidOperation
  | limit =>
      if limit.negative then .ok none
      else if tripleOf s tl ∈ liveTriples db then .ok none
      else .ok (some (lineRow s tl))

def stageLines (db : Tables backend) (s : Input) : List TrustlineEntry → Except SeedError (List (LineRow LimitReading))
  | [] => .ok []
  | tl :: rest =>
      match stageLine db s tl with
      | .error error => .error error
      | .ok staged =>
          match stageLines db s rest with
          | .error error => .error error
          | .ok more => .ok (staged.toList ++ more)

/-- `seed_scenario_into_db` and the commit after it. -/
def seedAndCommit (db : Tables backend) (s : Input) : Except SeedError (Tables backend) :=
  if s.eqCodes.all fun code => (validateEquivalentCode code).isOk then
    match flush db (newCodes db s) (newParticipants db s) [] with
    | .error error => .error error
    | .ok seeded =>
        if s.trustlines = [] ∨ s.eqCodes = [] ∨ s.pids = [] then .ok seeded
        else match stageLines seeded s s.trustlines with
        | .error error => .error error
        | .ok staged => flush seeded [] [] staged
  else .error .rejected

end Source

section Conditions

variable {backend : Backend} (db : Tables backend) (s : Input)

/-- The scenario's codes are valid. -/
def ValidCodes : Prop := ∀ code ∈ s.eqCodes, validateEquivalentCode code = .ok ()

instance : Decidable (ValidCodes s) :=
  decidable_of_iff (s.eqCodes.all fun code => (validateEquivalentCode code).isOk) (by
    rw [List.all_eq_true, ValidCodes]
    refine forall₂_congr fun code _ => ?_
    cases validateEquivalentCode code <;> simp [Except.isOk, Except.toBool])

/-- The entry names an equivalent and two participants of the scenario. -/
def Addressed (tl : TrustlineEntry) : Prop :=
  s.codeOf tl ≠ "" ∧ strip tl.fromText ∈ s.pids ∧ strip tl.toText ∈ s.pids

instance (tl : TrustlineEntry) : Decidable (Addressed s tl) := inferInstanceAs (Decidable (_ ∧ _))

/-- The entry is addressed, its limit is a number that is not negative, and its
triple has no live row in the database. -/
def Opens (tl : TrustlineEntry) : Prop :=
  Addressed s tl ∧ (tl.limit ≠ .unreadable ∧ tl.limit ≠ .nan ∧ tl.limit.negative = false) ∧
    tripleOf s tl ∉ liveTriples db

instance (tl : TrustlineEntry) : Decidable (Opens db s tl) := inferInstanceAs (Decidable (_ ∧ _))

/-- Seeding succeeds, keeps every row, and done again changes nothing. -/
def SeedsOnce : Prop :=
  ∃ seeded, seedAndCommit db s = .ok seeded ∧
    (db.codes <+: seeded.codes ∧ db.participants <+: seeded.participants ∧ db.lines <+: seeded.lines) ∧
    seedAndCommit seeded s = .ok seeded

/-- The PIDs of the participants that the database does not have. -/
def newPids : List Pid :=
  (s.participants.map fun p => strip p.id).filter fun pid => pid ≠ "" ∧ pid ∉ db.participants.map (·.pid)

/-- What the scenario must be like beside the rows of the database. -/
structure Plain : Prop where
  keys : (db.participants.map (·.publicKey) ++ (newPids db s).map backend.sha256).Nodup
  fits : ∀ p ∈ s.participants, strip p.id ≠ "" → strip p.id ∉ db.participants.map (·.pid) →
    backend.fits (participantRow backend p) = true
  numbers : ∀ tl ∈ s.trustlines, Addressed s tl → tl.limit ≠ .nan
  bound : ∀ tl ∈ s.trustlines, Opens db s tl → backend.bindLimit tl.limit ≠ none
  distinct : ((s.trustlines.filter fun tl => Opens db s tl ∧ lineStatus tl ≠ "closed").map (tripleOf s)).Nodup
  closed : ∀ tl ∈ s.trustlines, Opens db s tl → lineStatus tl = "closed" →
    ∃ other ∈ s.trustlines, Opens db s other ∧ lineStatus other ≠ "closed" ∧ tripleOf s other = tripleOf s tl

end Conditions

section Flush

variable {backend : Backend} {db : Tables backend} {s : Input}

/-- Where a row stands, whatever its limit is stored as. -/
def LineRow.place {Stored : Type} (l : LineRow Stored) : (Pid × Pid × String) × String := (l.triple, l.status)

/-- The live triples depend on the places of the rows only. -/
theorem liveTriples_eq_of_place {Stored Other : Type} {rows : List (LineRow Stored)} {others : List (LineRow Other)}
    (h : rows.map LineRow.place = others.map LineRow.place) :
    (rows.filter (·.status ≠ "closed")).map LineRow.triple =
      (others.filter (·.status ≠ "closed")).map LineRow.triple := by
  have hPlaces {T : Type} (xs : List (LineRow T)) : (xs.filter (·.status ≠ "closed")).map LineRow.triple =
      ((xs.map LineRow.place).filter (·.2 ≠ "closed")).map Prod.fst := by
    rw [List.filter_map, List.map_map]
    rfl
  rw [hPlaces, hPlaces, h]

/-- Lines are bound exactly when the backend binds the limit of each. -/
theorem bindLines_isSome_iff (lines : List (LineRow LimitReading)) :
    (∃ rows, bindLines backend lines = some rows) ↔ ∀ l ∈ lines, backend.bindLimit l.limit ≠ none := by
  induction lines with
  | nil => simp [bindLines]
  | cons l rest ih =>
      rw [List.forall_mem_cons, ← ih, bindLines]
      cases backend.bindLimit l.limit <;> cases bindLines backend rest <;> simp

/-- Binding lines leaves their places as they are. -/
theorem place_bindLines {lines : List (LineRow LimitReading)} {rows : List (LineRow backend.Stored)}
    (h : bindLines backend lines = some rows) : rows.map LineRow.place = lines.map LineRow.place := by
  induction lines generalizing rows with
  | nil =>
      cases h
      rfl
  | cons l rest ih =>
      rw [bindLines] at h
      split at h
      · next limit more _ hMore =>
        cases h
        rw [List.map_cons, List.map_cons, ih hMore]
        rfl
      · cases h

/-- A flush succeeds when all lines are bound, all texts fit and no unique key is taken
twice, and appends the new rows. -/
theorem flush_eq_ok_iff {codes : List String} {participants : List ParticipantRow}
    {lines : List (LineRow LimitReading)} {flushed : Tables backend} :
    flush db codes participants lines = .ok flushed ↔
      ∃ rows, bindLines backend lines = some rows ∧ participants.all backend.fits = true ∧
        flushed.codes = db.codes ++ codes ∧ flushed.participants = db.participants ++ participants ∧
        flushed.lines = db.lines ++ rows := by
  rw [flush]
  cases bindLines backend lines with
  | none => simp
  | some rows =>
      simp only [Option.some.injEq, exists_eq_left']
      split
      · next h =>
        constructor
        · intro hFlushed
          cases hFlushed
          exact ⟨h.2, rfl, rfl, rfl⟩
        · rintro ⟨_, hCodes, hParticipants, hLines⟩
          cases flushed
          subst hCodes hParticipants hLines
          rfl
      · next h =>
        refine ⟨fun hFlushed => (nomatch hFlushed), ?_⟩
        rintro ⟨hFits, hCodes, hParticipants, hLines⟩
        refine absurd ⟨?_, hFits⟩ h
        rw [← hCodes, ← hParticipants, ← hLines]
        exact flushed.sound

/-- A flush of nothing changes nothing. -/
theorem flush_nothing (db : Tables backend) : flush db [] [] [] = .ok db := by
  refine flush_eq_ok_iff.mpr ⟨[], rfl, rfl, ?_, ?_, ?_⟩ <;> rw [List.append_nil]

/-- The live triples after an insertion are the old ones and those of the lines that are not
closed. -/
theorem liveTriples_append {lines : List (LineRow LimitReading)} {rows : List (LineRow backend.Stored)}
    (hBind : bindLines backend lines = some rows) :
    ((db.lines ++ rows).filter (·.status ≠ "closed")).map LineRow.triple =
      liveTriples db ++ (lines.filter (·.status ≠ "closed")).map LineRow.triple := by
  rw [List.filter_append, List.map_append, liveTriples_eq_of_place (place_bindLines hBind), liveTriples]

/-- The live triples after a flush are the old ones and those of the lines that are not
closed. -/
theorem liveTriples_of_flush {codes : List String} {participants : List ParticipantRow}
    {lines : List (LineRow LimitReading)} {flushed : Tables backend}
    (h : flush db codes participants lines = .ok flushed) :
    liveTriples flushed = liveTriples db ++ (lines.filter (·.status ≠ "closed")).map LineRow.triple := by
  obtain ⟨rows, hBind, _, _, _, hLines⟩ := flush_eq_ok_iff.mp h
  rw [liveTriples, hLines, liveTriples_append hBind]

/-- The tables are sound with more rows exactly when the new keys are new. -/
theorem exists_flush_iff {codes : List String} {participants : List ParticipantRow}
    {lines : List (LineRow LimitReading)} :
    (∃ flushed, flush db codes participants lines = .ok flushed) ↔
      (∃ rows, bindLines backend lines = some rows) ∧ participants.all backend.fits = true ∧
        (db.codes ++ codes).Nodup ∧ ((db.participants ++ participants).map (·.pid)).Nodup ∧
        ((db.participants ++ participants).map (·.publicKey)).Nodup ∧
        (liveTriples db ++ (lines.filter (·.status ≠ "closed")).map LineRow.triple).Nodup := by
  constructor
  · rintro ⟨flushed, h⟩
    obtain ⟨rows, hBind, hFits, hCodes, hParticipants, hLines⟩ := flush_eq_ok_iff.mp h
    refine ⟨⟨rows, hBind⟩, hFits, hCodes ▸ flushed.sound.code_unique, hParticipants ▸ flushed.sound.pid_unique,
      hParticipants ▸ flushed.sound.key_unique, ?_⟩
    rw [← liveTriples_append hBind, ← hLines]
    exact flushed.sound.live_unique
  · rintro ⟨⟨rows, hBind⟩, hFits, hCodes, hPids, hKeys, hTriples⟩
    have hSound : Sound (db.codes ++ codes) (db.participants ++ participants) (db.lines ++ rows) :=
      ⟨hCodes, hPids, hKeys, (liveTriples_append hBind).symm ▸ hTriples⟩
    exact ⟨⟨_, _, _, hSound⟩, flush_eq_ok_iff.mpr ⟨rows, hBind, hFits, rfl, rfl, rfl⟩⟩

end Flush

section Staging

variable {backend : Backend} {db : Tables backend} {s : Input}

/-- All codes and participants of the scenario are in the database. -/
structure Covers (db : Tables backend) (s : Input) : Prop where
  codes : ∀ code ∈ s.eqCodes, code ∈ db.codes
  pids : ∀ pid ∈ s.pids, pid ∈ db.participants.map (·.pid)

/-- The code of a trust line entry is among the codes of the scenario. -/
theorem codeOf_mem_eqCodes {tl : TrustlineEntry} (hMem : tl ∈ s.trustlines) (h : s.codeOf tl ≠ "") :
    s.codeOf tl ∈ s.eqCodes := by
  rw [Input.eqCodes, List.mem_insertionSort, List.mem_dedup, List.mem_filter]
  exact ⟨List.mem_append_right _ (List.mem_map_of_mem hMem), decide_eq_true h⟩

theorem ne_empty_of_mem_pids {pid : Pid} (h : pid ∈ s.pids) : pid ≠ "" :=
  of_decide_eq_true (List.mem_filter.mp h).2

/-- What the loop does with an entry when the scenario's names are all there. -/
theorem stageLine_of_covers (hCovers : Covers db s) {tl : TrustlineEntry} (hMem : tl ∈ s.trustlines) :
    stageLine db s tl =
      if Addressed s tl ∧ tl.limit = .nan then .error .invalidOperation
      else if Opens db s tl then .ok (some (lineRow s tl))
      else .ok none := by
  by_cases hAddressed : Addressed s tl
  · obtain ⟨hCode, hFrom, hTo⟩ := hAddressed
    have hKnown := codeOf_mem_eqCodes hMem hCode
    have hAddressed : Addressed s tl := ⟨hCode, hFrom, hTo⟩
    rw [stageLine, if_neg (by simp [hCode, hKnown, hCovers.codes _ hKnown]),
      if_neg (by simp [ne_empty_of_mem_pids hFrom, ne_empty_of_mem_pids hTo]),
      if_neg (by simpa [hFrom, hTo] using ⟨List.mem_map.mp (hCovers.pids _ hFrom),
        List.mem_map.mp (hCovers.pids _ hTo)⟩)]
    simp only [Opens, hAddressed, true_and]
    cases hLimit : tl.limit with
    | unreadable => simp
    | nan => simp
    | infinite negative =>
        cases negative <;> by_cases hLive : tripleOf s tl ∈ liveTriples db <;> simp [LimitReading.negative, hLive]
    | finite value =>
        by_cases hNegative : value < 0 <;> by_cases hLive : tripleOf s tl ∈ liveTriples db <;>
          simp [LimitReading.negative, hNegative, hLive]
  · have hOpens : ¬ Opens db s tl := fun h => hAddressed h.1
    rw [if_neg fun h => hAddressed h.1, if_neg hOpens, stageLine]
    split
    · rfl
    · next hCode =>
      split
      · rfl
      · split
        · rfl
        · next hParties =>
          refine absurd ⟨fun h => hCode (Or.inl h), ?_, ?_⟩ hAddressed
          · by_contra hFrom
            exact hParties (Or.inl hFrom)
          · by_contra hTo
            exact hParties (Or.inr (Or.inr (Or.inl hTo)))

/-- The loop stages the entries that open a line, unless it meets a NaN. -/
theorem stageLines_eq_ok_iff (hCovers : Covers db s) {entries : List TrustlineEntry}
    (hEntries : ∀ tl ∈ entries, tl ∈ s.trustlines) {staged : List (LineRow LimitReading)} :
    stageLines db s entries = .ok staged ↔
      (∀ tl ∈ entries, Addressed s tl → tl.limit ≠ .nan) ∧
        staged = (entries.filter (Opens db s ·)).map (lineRow s) := by
  induction entries generalizing staged with
  | nil => simp [stageLines, eq_comm]
  | cons tl rest ih =>
      rw [List.forall_mem_cons] at hEntries
      rw [List.forall_mem_cons, stageLines, stageLine_of_covers hCovers hEntries.1]
      by_cases hNan : Addressed s tl ∧ tl.limit = .nan
      · rw [if_pos hNan]
        exact iff_of_false (by simp) fun h => h.1.1 hNan.1 hNan.2
      · rw [if_neg hNan]
        have hNumber : Addressed s tl → tl.limit ≠ .nan := fun hAddressed hLimit => hNan ⟨hAddressed, hLimit⟩
        obtain ⟨line, hLine, hFilter⟩ : ∃ line : Option (LineRow LimitReading),
            (if Opens db s tl then .ok (some (lineRow s tl)) else .ok none) = (Except.ok line : Except SeedError _) ∧
            ((tl :: rest).filter (Opens db s ·)).map (lineRow s) =
              line.toList ++ (rest.filter (Opens db s ·)).map (lineRow s) := by
          by_cases hOpens : Opens db s tl
          · exact ⟨some (lineRow s tl), if_pos hOpens, by rw [List.filter_cons_of_pos (by simpa using hOpens)]; rfl⟩
          · exact ⟨none, if_neg hOpens, by rw [List.filter_cons_of_neg (by simpa using hOpens)]; rfl⟩
        have hRest := @ih hEntries.2
        rw [hLine, hFilter]
        cases hMore : stageLines db s rest with
        | error error =>
            refine iff_of_false (by simp) fun h => ?_
            have hOk := hRest.mpr ⟨h.1.2, rfl⟩
            rw [hMore] at hOk
            cases hOk
        | ok more =>
            obtain ⟨hNumbers, rfl⟩ := hRest.mp hMore
            exact ⟨fun h => ⟨⟨hNumber, hNumbers⟩, (Except.ok.inj h).symm⟩, fun h => congrArg Except.ok h.2.symm⟩

end Staging

section Seeding

variable {backend : Backend} {db : Tables backend} {s : Input}

/-- The new participants are those of the new PIDs. -/
theorem newParticipants_pid (db : Tables backend) (s : Input) :
    (newParticipants db s).map (·.pid) = newPids db s := by
  rw [newParticipants, newPids, List.map_map, List.filter_map]
  rfl

/-- The public key of a new participant is the digest of its PID. -/
theorem newParticipants_publicKey (db : Tables backend) (s : Input) :
    (newParticipants db s).map (·.publicKey) = (newPids db s).map backend.sha256 := by
  rw [← newParticipants_pid, newParticipants, List.map_map, List.map_map, List.map_map]
  rfl

/-- With nothing to add the scenario is covered, and the other way round. -/
theorem covers_of_flushed {flushed : Tables backend} {lines : List (LineRow LimitReading)}
    (h : flush db (newCodes db s) (newParticipants db s) lines = .ok flushed) : Covers flushed s := by
  obtain ⟨rows, _, _, hCodes, hParticipants, _⟩ := flush_eq_ok_iff.mp h
  constructor
  · intro code hCode
    rw [hCodes, List.mem_append]
    by_cases hOld : code ∈ db.codes
    · exact Or.inl hOld
    · exact Or.inr (List.mem_filter.mpr ⟨hCode, decide_eq_true hOld⟩)
  · intro pid hPid
    rw [hParticipants, List.map_append, List.mem_append, newParticipants_pid]
    by_cases hOld : pid ∈ db.participants.map (·.pid)
    · exact Or.inl hOld
    · obtain ⟨hMem, hNonempty⟩ := List.mem_filter.mp hPid
      exact Or.inr (List.mem_filter.mpr ⟨hMem, decide_eq_true ⟨of_decide_eq_true hNonempty, hOld⟩⟩)

/-- Tables that cover a scenario lack none of its codes. -/
theorem newCodes_of_covers (hCovers : Covers db s) : newCodes db s = [] := by
  rw [newCodes, List.filter_eq_nil_iff]
  exact fun code hCode => by simpa using hCovers.codes code hCode

/-- Tables that cover a scenario lack none of its participants. -/
theorem newParticipants_of_covers (hCovers : Covers db s) : newParticipants db s = [] := by
  rw [newParticipants, List.map_eq_nil_iff, List.filter_eq_nil_iff]
  intro p hp hNew
  obtain ⟨hNonempty, hOut⟩ := of_decide_eq_true hNew
  exact hOut (hCovers.pids _ (List.mem_filter.mpr ⟨List.mem_map_of_mem hp, decide_eq_true hNonempty⟩))

/-- Tables with more rows cover what those with fewer cover. -/
theorem Covers.of_prefixed {more : Tables backend} (hCovers : Covers db s) (hCodes : db.codes <+: more.codes)
    (hParticipants : db.participants <+: more.participants) : Covers more s where
  codes code hCode := hCodes.subset (hCovers.codes code hCode)
  pids pid hPid := (hParticipants.map _).subset (hCovers.pids pid hPid)

/-- A scenario with valid codes is seeded in two flushes. -/
theorem seedAndCommit_eq_ok_iff (hCodes : ValidCodes s) {seeded : Tables backend} :
    seedAndCommit db s = .ok seeded ↔
      ∃ flushed, flush db (newCodes db s) (newParticipants db s) [] = .ok flushed ∧
        (∀ tl ∈ s.trustlines, Addressed s tl → tl.limit ≠ .nan) ∧
        flush flushed [] [] ((s.trustlines.filter (Opens flushed s ·)).map (lineRow s)) = .ok seeded := by
  have hValid : (s.eqCodes.all fun code => (validateEquivalentCode code).isOk) = true :=
    List.all_eq_true.mpr fun code hCode => by rw [hCodes code hCode]; rfl
  rw [seedAndCommit, if_pos hValid]
  cases hFlush : flush db (newCodes db s) (newParticipants db s) [] with
  | error error => simp
  | ok flushed =>
      have hCovers := covers_of_flushed hFlush
      simp only [Except.ok.injEq, exists_eq_left']
      split
      · next hNothing =>
        -- no entry is addressed, so the loop would stage nothing
        have hNobody : ∀ tl ∈ s.trustlines, ¬ Addressed s tl := by
          rintro tl hMem ⟨hCode, hFrom, _⟩
          rcases hNothing with hNone | hNone | hNone
          · exact List.not_mem_nil (hNone ▸ hMem)
          · exact List.not_mem_nil (hNone ▸ codeOf_mem_eqCodes hMem hCode)
          · exact List.not_mem_nil (hNone ▸ hFrom)
        rw [List.filter_eq_nil_iff.mpr fun tl hMem => by simpa using fun h => hNobody tl hMem h.1, List.map_nil,
          flush_nothing]
        simp only [Except.ok.injEq]
        exact ⟨fun h => ⟨fun tl hMem hAddressed => absurd hAddressed (hNobody tl hMem), h⟩, And.right⟩
      · cases hStage : stageLines flushed s s.trustlines with
        | error error =>
            refine iff_of_false (by simp) fun h => ?_
            have hOk := (stageLines_eq_ok_iff hCovers fun _ => id).mpr ⟨h.1, rfl⟩
            rw [hStage] at hOk
            cases hOk
        | ok staged =>
            obtain ⟨hNumbers, rfl⟩ := (stageLines_eq_ok_iff hCovers fun _ => id).mp hStage
            exact ⟨fun h => ⟨hNumbers, h⟩, And.right⟩

/-- Whether an entry opens a line depends on the live triples only. -/
theorem opens_congr {other : Tables backend} (h : liveTriples other = liveTriples db) :
    Opens other s = Opens db s := by
  funext tl
  rw [Opens, Opens, h]

theorem lineRow_status (s : Input) (tl : TrustlineEntry) : (lineRow s tl).status = lineStatus tl := by
  simp only [lineRow]

/-- The triples of the live rows that the loop stages. -/
theorem live_staged (db : Tables backend) (s : Input) :
    (((s.trustlines.filter (Opens db s ·)).map (lineRow s)).filter (·.status ≠ "closed")).map LineRow.triple =
      (s.trustlines.filter fun tl => Opens db s tl ∧ lineStatus tl ≠ "closed").map (tripleOf s) := by
  rw [List.filter_map, List.map_map, List.filter_filter]
  change List.map (tripleOf s) _ = _
  refine congrArg (List.map (tripleOf s)) (List.filter_congr fun tl _ => ?_)
  rw [Bool.eq_iff_iff]
  simp only [Function.comp_apply, Bool.and_eq_true, decide_eq_true_eq]
  rw [lineRow_status, and_comm]

/-- The first flush succeeds exactly when the new participants have keys of
their own and fit. -/
theorem exists_firstFlush_iff (db : Tables backend) (s : Input) :
    (∃ flushed, flush db (newCodes db s) (newParticipants db s) [] = .ok flushed) ↔
      (db.participants.map (·.publicKey) ++ (newPids db s).map backend.sha256).Nodup ∧
      ∀ p ∈ s.participants, strip p.id ≠ "" → strip p.id ∉ db.participants.map (·.pid) →
        backend.fits (participantRow backend p) = true := by
  have hFits : (newParticipants db s).all backend.fits = true ↔ ∀ p ∈ s.participants, strip p.id ≠ "" →
      strip p.id ∉ db.participants.map (·.pid) → backend.fits (participantRow backend p) = true := by
    rw [List.all_eq_true, newParticipants, List.forall_mem_map]
    simp only [List.mem_filter, decide_eq_true_eq, and_imp]
  have hCodes : (db.codes ++ newCodes db s).Nodup := by
    have hNew : s.eqCodes.Nodup := (List.perm_insertionSort _ _).nodup_iff.mpr (List.nodup_dedup _)
    refine List.nodup_append.mpr ⟨db.sound.code_unique, hNew.filter _, fun a ha b hb hSame => ?_⟩
    exact of_decide_eq_true (List.mem_filter.mp hb).2 (hSame ▸ ha)
  rw [exists_flush_iff, List.map_append, List.map_append, newParticipants_pid, newParticipants_publicKey, hFits]
  constructor
  · exact fun h => ⟨h.2.2.2.2.1, h.2.1⟩
  · rintro ⟨hKeys, hRows⟩
    refine ⟨⟨[], rfl⟩, hRows, hCodes, ?_, hKeys, ?_⟩
    · have hNew := (List.nodup_append.mp hKeys).2.1.of_map
      refine List.nodup_append.mpr ⟨db.sound.pid_unique, hNew, fun a ha b hb hSame => ?_⟩
      exact (of_decide_eq_true (List.mem_filter.mp hb).2).2 (hSame ▸ ha)
    · rw [List.filter_nil, List.map_nil, List.append_nil]
      exact db.sound.live_unique

/-- The second flush succeeds exactly when the column takes the limits of the
staged lines and no two live ones have a triple. -/
theorem exists_secondFlush_iff {flushed : Tables backend} (hLive : liveTriples flushed = liveTriples db) :
    (∃ seeded, flush flushed [] [] ((s.trustlines.filter (Opens flushed s ·)).map (lineRow s)) = .ok seeded) ↔
      (∀ tl ∈ s.trustlines, Opens db s tl → backend.bindLimit tl.limit ≠ none) ∧
      ((s.trustlines.filter fun tl => Opens db s tl ∧ lineStatus tl ≠ "closed").map (tripleOf s)).Nodup := by
  have hBound : (∀ l ∈ (s.trustlines.filter (Opens db s ·)).map (lineRow s), backend.bindLimit l.limit ≠ none) ↔
      ∀ tl ∈ s.trustlines, Opens db s tl → backend.bindLimit tl.limit ≠ none := by
    rw [List.forall_mem_map]
    simp only [List.mem_filter, decide_eq_true_eq, and_imp]
    rfl
  simp only [opens_congr hLive]
  rw [exists_flush_iff, bindLines_isSome_iff, hBound, live_staged, hLive, List.append_nil, List.append_nil]
  constructor
  · exact fun h => ⟨h.1, (List.nodup_append.mp h.2.2.2.2.2).2.1⟩
  · rintro ⟨hLimits, hDistinct⟩
    refine ⟨hLimits, rfl, flushed.sound.code_unique, flushed.sound.pid_unique, flushed.sound.key_unique,
      List.nodup_append.mpr ⟨db.sound.live_unique, hDistinct, fun a ha b hb hSame => ?_⟩⟩
    obtain ⟨tl, hTl, rfl⟩ := List.mem_map.mp hb
    exact (of_decide_eq_true (List.mem_filter.mp hTl).2).1.2.2 (hSame ▸ ha)

/-- Seeding again changes nothing exactly when every entry that opened a line
has a live row by now. -/
theorem seedAndCommit_again_iff (hCodes : ValidCodes s) (hCovers : Covers db s)
    (hNumbers : ∀ tl ∈ s.trustlines, Addressed s tl → tl.limit ≠ .nan) :
    seedAndCommit db s = .ok db ↔ ∀ tl ∈ s.trustlines, ¬ Opens db s tl := by
  rw [seedAndCommit_eq_ok_iff hCodes, newCodes_of_covers hCovers, newParticipants_of_covers hCovers, flush_nothing]
  simp only [Except.ok.injEq, exists_eq_left']
  constructor
  · rintro ⟨_, hFlush⟩ tl hMem hOpens
    obtain ⟨rows, hBind, _, _, _, hLines⟩ := flush_eq_ok_iff.mp hFlush
    have hNone : rows = [] := List.append_cancel_left (hLines.symm.trans (List.append_nil _).symm)
    have hPlaces := place_bindLines hBind
    rw [hNone, List.map_nil, eq_comm, List.map_eq_nil_iff, List.map_eq_nil_iff, List.filter_eq_nil_iff] at hPlaces
    exact hPlaces tl hMem (decide_eq_true hOpens)
  · intro hNobody
    refine ⟨hNumbers, ?_⟩
    rw [List.filter_eq_nil_iff.mpr fun tl hMem => by simpa using hNobody tl hMem, List.map_nil, flush_nothing]

/-- Seeding a scenario with valid codes succeeds, keeps what is there and can be
repeated exactly when the scenario is plain. -/
theorem seedsOnce_iff_plain (db : Tables backend) (s : Input) (hCodes : ValidCodes s) :
    SeedsOnce db s ↔ Plain db s := by
  have hAfter {flushed seeded : Tables backend}
      (hFirst : flush db (newCodes db s) (newParticipants db s) [] = .ok flushed)
      (hSecond : flush flushed [] [] ((s.trustlines.filter (Opens flushed s ·)).map (lineRow s)) = .ok seeded) :
      liveTriples flushed = liveTriples db ∧ liveTriples seeded = liveTriples db ++
        (s.trustlines.filter fun tl => Opens db s tl ∧ lineStatus tl ≠ "closed").map (tripleOf s) ∧
      Covers seeded s := by
    have hSame : liveTriples flushed = liveTriples db := by
      rw [liveTriples_of_flush hFirst, List.filter_nil, List.map_nil, List.append_nil]
    obtain ⟨_, _, _, hSeededCodes, hSeededParticipants, _⟩ := flush_eq_ok_iff.mp hSecond
    refine ⟨hSame, ?_, (covers_of_flushed hFirst).of_prefixed ?_ ?_⟩
    · simp only [liveTriples_of_flush hSecond, live_staged, opens_congr hSame, hSame]
    · exact hSeededCodes ▸ List.prefix_append _ _
    · exact hSeededParticipants ▸ List.prefix_append _ _
  constructor
  · rintro ⟨seeded, hSeeded, _, hAgain⟩
    obtain ⟨flushed, hFirst, hNumbers, hSecond⟩ := (seedAndCommit_eq_ok_iff hCodes).mp hSeeded
    obtain ⟨hSame, hLive, hCovers⟩ := hAfter hFirst hSecond
    obtain ⟨hKeys, hFits⟩ := (exists_firstFlush_iff db s).mp ⟨flushed, hFirst⟩
    obtain ⟨hBound, hDistinct⟩ := (exists_secondFlush_iff hSame).mp ⟨seeded, hSecond⟩
    refine ⟨hKeys, hFits, hNumbers, hBound, hDistinct, fun tl hMem hOpens _ => ?_⟩
    have hClosed := (seedAndCommit_again_iff hCodes hCovers hNumbers).mp hAgain tl hMem
    have hTaken : tripleOf s tl ∈ liveTriples seeded := by
      by_contra hFree
      exact hClosed ⟨hOpens.1, hOpens.2.1, hFree⟩
    rw [hLive, List.mem_append] at hTaken
    obtain ⟨other, hOther, hTriple⟩ := List.mem_map.mp (hTaken.resolve_left hOpens.2.2)
    obtain ⟨hIn, hIs⟩ := List.mem_filter.mp hOther
    exact ⟨other, hIn, (of_decide_eq_true hIs).1, (of_decide_eq_true hIs).2, hTriple⟩
  · intro h
    obtain ⟨flushed, hFirst⟩ := (exists_firstFlush_iff db s).mpr ⟨h.keys, h.fits⟩
    have hSame : liveTriples flushed = liveTriples db := by
      rw [liveTriples_of_flush hFirst, List.filter_nil, List.map_nil, List.append_nil]
    obtain ⟨seeded, hSecond⟩ := (exists_secondFlush_iff (s := s) hSame).mpr ⟨h.bound, h.distinct⟩
    obtain ⟨_, hLive, hCovers⟩ := hAfter hFirst hSecond
    obtain ⟨_, _, _, hFlushedCodes, hFlushedParticipants, hFlushedLines⟩ := flush_eq_ok_iff.mp hFirst
    obtain ⟨_, _, _, hSeededCodes, hSeededParticipants, hSeededLines⟩ := flush_eq_ok_iff.mp hSecond
    refine ⟨seeded, (seedAndCommit_eq_ok_iff hCodes).mpr ⟨flushed, hFirst, h.numbers, hSecond⟩, ⟨?_, ?_, ?_⟩,
      (seedAndCommit_again_iff hCodes hCovers h.numbers).mpr fun tl hMem hOpens => ?_⟩
    · rw [hSeededCodes, hFlushedCodes, List.append_assoc]
      exact List.prefix_append _ _
    · rw [hSeededParticipants, hFlushedParticipants, List.append_assoc]
      exact List.prefix_append _ _
    · rw [hSeededLines, hFlushedLines, List.append_assoc]
      exact List.prefix_append _ _
    · have hFree := hOpens.2.2
      rw [hLive, List.mem_append, not_or] at hFree
      have hOpened : Opens db s tl := ⟨hOpens.1, hOpens.2.1, hFree.1⟩
      refine hFree.2 (List.mem_map.mpr ?_)
      by_cases hStatus : lineStatus tl = "closed"
      · obtain ⟨other, hOther, hOtherOpens, hOtherLive, hTriple⟩ := h.closed tl hMem hOpened hStatus
        exact ⟨other, List.mem_filter.mpr ⟨hOther, decide_eq_true ⟨hOtherOpens, hOtherLive⟩⟩, hTriple⟩
      · exact ⟨tl, List.mem_filter.mpr ⟨hMem, decide_eq_true ⟨hOpened, hStatus⟩⟩, rfl⟩

end Seeding

section Sample

/-- A database whose limit column takes every finite number. -/
def sampleBackend : Backend where
  Stored := Amount
  bindLimit
    | .finite value => some value
    | _ => none
  fits _ := true
  sha256 := id

def noTables : Tables sampleBackend where
  codes := []
  participants := []
  lines := []
  sound := ⟨List.nodup_nil, List.nodup_nil, List.nodup_nil, List.nodup_nil⟩

/-- Two participants and some lines of one of them to the other one. -/
def sampleInput (statuses : List String) : Input where
  equivalents := ["UAH"]
  baseEquivalent := ""
  equivalent := ""
  participants := [⟨"A", "", "", ""⟩, ⟨"B", "", "", ""⟩]
  trustlines := statuses.map fun status => ⟨"UAH", "A", "B", .finite 5, status, none⟩

/-- A closed entry is added by every seeding, and a repeated live one makes the
commit fail. -/
theorem closed_entry_seeds_again :
    ValidCodes (sampleInput ["closed"]) ∧ ¬ SeedsOnce noTables (sampleInput ["closed"]) ∧
    ValidCodes (sampleInput ["active", "frozen"]) ∧
    seedAndCommit noTables (sampleInput ["active", "frozen"]) = .error .database := by
  have hOnce : (seedAndCommit noTables (sampleInput ["closed"])).map (·.lines.length) = .ok 1 := by
    decide +kernel
  have hTwice : ((seedAndCommit noTables (sampleInput ["closed"])).bind
      fun seeded => seedAndCommit seeded (sampleInput ["closed"])).map (·.lines.length) = .ok 2 := by
    decide +kernel
  refine ⟨by decide +kernel, ?_, by decide +kernel, ?_⟩
  · rintro ⟨seeded, hSeeded, _, hAgain⟩
    rw [hSeeded] at hOnce hTwice
    rw [Except.bind, hAgain] at hTwice
    simp only [Except.map, Except.ok.injEq] at hOnce hTwice
    omega
  · have hError : (seedAndCommit noTables (sampleInput ["active", "frozen"])).map (fun _ => ()) =
        .error .database := by decide +kernel
    cases hSeed : seedAndCommit noTables (sampleInput ["active", "frozen"]) with
    | ok seeded =>
        rw [hSeed] at hError
        cases hError
    | error error =>
        rw [hSeed] at hError
        simpa [Except.map] using hError

/-- One active line between two new participants is seeded once. -/
theorem seedsOnce_iff_plain_active : SeedsOnce noTables (sampleInput ["active"]) := by
  refine (seedsOnce_iff_plain noTables (sampleInput ["active"]) (by decide +kernel)).mpr ?_
  constructor
  · decide +kernel
  · intro p _ _ _
    rfl
  · intro tl hMem _
    obtain rfl := List.mem_singleton.mp hMem
    simp
  · intro tl hMem _
    obtain rfl := List.mem_singleton.mp hMem
    simp [sampleBackend]
  · decide +kernel
  · intro tl hMem _ hClosed
    obtain rfl := List.mem_singleton.mp hMem
    exact absurd hClosed (by decide +kernel)

end Sample

end GeoLedger.ScenarioSeeder

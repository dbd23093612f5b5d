import Mathlib
import GeoLedger.Library.Trails
import GeoLedger.AuditRows

/-! The audit trail over whole runs. A run is a sequence of calls, each
committed on its own or staged with others in one transaction of its caller;
its history lists the operations whose effects were committed. -/
namespace GeoLedger
open Trails

variable {env : Env} {e : Equivalent}

/-- One executed operation, with the time and the state it was executed in. -/
structure Execution (env : Env) where
  now : Time
  op : LedgerOp
  before : Db env

namespace Execution

/-- The state right after the operation. -/
def after (x : Execution env) : Db env := applyOp x.now x.before x.op

/-- The audit rows that the operation appended. -/
def rows (x : Execution env) : List IntegrityAuditLog := x.after.auditLog.drop x.before.auditLog.length

end Execution

/-- One step of a run: a call in a transaction of its own, or calls staged in a
transaction that their caller commits or rolls back. -/
inductive LedgerCall where
  | single (op : LedgerOp)
  | outer (ops : List LedgerOp) (commits : Bool)

/-- The executions of operations one after the other. -/
def executeAll (now : Time) : Db env → List LedgerOp → List (Execution env)
  | _, [] => []
  | db, op :: rest => ⟨now, op, db⟩ :: executeAll now (applyOp now db op) rest

/-- A ledger with the history of its committed operations. -/
structure Journal (env : Env) where
  ledger : Ledger env
  history : List (Execution env)

namespace Journal

def empty : Journal env := ⟨.empty, []⟩

def step (s : Journal env) : LedgerCall → Journal env
  | .single op => ⟨s.ledger.step op, s.history ++ [⟨s.ledger.now, op, s.ledger.db⟩]⟩
  | .outer ops true =>
      ⟨⟨ops.foldl (applyOp s.ledger.now) s.ledger.db, s.ledger.now⟩,
        s.history ++ executeAll s.ledger.now s.ledger.db ops⟩
  | .outer _ false => s

/-- Clearings of a run list debts of one equivalent. -/
def Admits (s : Journal env) : LedgerCall → Prop
  | .single op => ClearsOneEquivalent s.ledger.db op
  | .outer ops _ => ∀ x ∈ executeAll s.ledger.now s.ledger.db ops, ClearsOneEquivalent x.before x.op

end Journal

/-- What the audit log says of one executed operation and one equivalent: a row
if the operation changed the equivalent, and never more than one; its checksums
are those of the states around the operation; no row without an effect. -/
structure Audited (e : Equivalent) (x : Execution env) : Prop where
  unique : (rowsOf e x.rows).length ≤ 1
  changed : ¬SameIn e.id x.before x.after → (rowsOf e x.rows).length = 1
  before : ∀ row ∈ rowsOf e x.rows, row.stateChecksumBefore = x.before.checksum e.id
  after : ∀ row ∈ rowsOf e x.rows, row.stateChecksumAfter = x.after.checksum e.id
  effective : x.rows ≠ [] → TakesEffect x.now x.before x.op

/-- The audit trail of an equivalent. The committed operations lead from the
empty ledger to the current state; their rows, in commit order, are the log of
the equivalent, and form a chain of checksums from the empty state's to the
current state's. -/
structure AuditTrail (e : Equivalent) (s : Journal env) : Prop where
  history : Trail Execution.before Execution.after Db.empty s.history s.ledger.db
  log : rowsOf e s.ledger.db.auditLog = s.history.flatMap fun x => rowsOf e x.rows
  audited : ∀ x ∈ s.history, Audited e x
  chain : Trail IntegrityAuditLog.stateChecksumBefore IntegrityAuditLog.stateChecksumAfter
    ((Db.empty : Db env).checksum e.id) (rowsOf e s.ledger.db.auditLog) (s.ledger.db.checksum e.id)

section Executions

/-- An execution appends its rows. -/
theorem Execution.audits (x : Execution env) (hOne : ClearsOneEquivalent x.before x.op) :
    Audits x.before x.after x.rows ∧ (x.rows ≠ [] → TakesEffect x.now x.before x.op) := by
  obtain ⟨rows, hAudits, hEffect⟩ := audits_applyOp x.now x.before x.op hOne
  have hRows : x.rows = rows := by
    have hLog : x.after.auditLog = x.before.auditLog ++ rows := hAudits.log
    rw [Execution.rows, hLog, List.drop_left]
  rw [hRows]
  exact ⟨hAudits, hEffect⟩

theorem Execution.audited (he : e ∈ env.directory.equivalents) (x : Execution env)
    (hOne : ClearsOneEquivalent x.before x.op) : Audited e x := by
  obtain ⟨hAudits, hEffect⟩ := x.audits hOne
  rcases hAudits.covers e he with ⟨hNil, hSame⟩ | ⟨row, hRow, hBefore, hAfter⟩
  · refine ⟨?_, fun hChanged => absurd hSame hChanged, ?_, ?_, hEffect⟩
    · rw [hNil]
      exact Nat.zero_le 1
    · rw [hNil]
      exact fun _ h => by cases h
    · rw [hNil]
      exact fun _ h => by cases h
  · refine ⟨?_, fun _ => ?_, ?_, ?_, hEffect⟩
    · rw [hRow]
      exact le_rfl
    · rw [hRow]
      rfl
    · rw [hRow]
      exact fun other hOther => List.mem_singleton.mp hOther ▸ hBefore
    · rw [hRow]
      exact fun other hOther => List.mem_singleton.mp hOther ▸ hAfter

/-- The rows of an execution lead from the checksum before it to the checksum after it. -/
theorem Execution.chain (he : e ∈ env.directory.equivalents) (x : Execution env)
    (hOne : ClearsOneEquivalent x.before x.op) :
    Trail IntegrityAuditLog.stateChecksumBefore IntegrityAuditLog.stateChecksumAfter
      (x.before.checksum e.id) (rowsOf e x.rows) (x.after.checksum e.id) := by
  rcases (x.audits hOne).1.covers e he with ⟨hNil, hSame⟩ | ⟨row, hRow, hBefore, hAfter⟩
  · rw [hNil]
    exact hSame.checksum.symm
  · rw [hRow, ← hBefore, ← hAfter]
    exact trail_singleton row

theorem trail_executeAll (now : Time) (db : Db env) (ops : List LedgerOp) :
    Trail Execution.before Execution.after db (executeAll now db ops) (ops.foldl (applyOp now) db) := by
  induction ops generalizing db with
  | nil => exact rfl
  | cons op rest ih => exact ⟨rfl, ih (applyOp now db op)⟩

/-- The log after joined executions is the log before them and their rows. -/
theorem rowsOf_auditLog {db db' : Db env} {history : List (Execution env)}
    (hTrail : Trail Execution.before Execution.after db history db')
    (hOne : ∀ x ∈ history, ClearsOneEquivalent x.before x.op) :
    rowsOf e db'.auditLog = rowsOf e db.auditLog ++ history.flatMap fun x => rowsOf e x.rows := by
  induction history generalizing db with
  | nil =>
      cases hTrail
      simp
  | cons x rest ih =>
      obtain ⟨rfl, hRest⟩ := hTrail
      have hLog := (x.audits (hOne x List.mem_cons_self)).1.log
      rw [ih hRest fun other hOther => hOne other (List.mem_cons_of_mem _ hOther), hLog,
        List.flatMap_cons, ← List.append_assoc, rowsOf, rowsOf, rowsOf, List.filter_append]

end Executions

/-- A history of joined executions of admitted operations. -/
structure HistorySound (s : Journal env) : Prop where
  trail : Trail Execution.before Execution.after Db.empty s.history s.ledger.db
  admitted : ∀ x ∈ s.history, ClearsOneEquivalent x.before x.op

theorem historySound_step {s : Journal env} {call : LedgerCall} (h : HistorySound s) (hAdmits : s.Admits call) :
    HistorySound (s.step call) := by
  cases call with
  | single op =>
      refine ⟨h.trail.append ⟨rfl, rfl⟩, fun x hx => ?_⟩
      rcases List.mem_append.mp hx with hOld | hNew
      · exact h.admitted x hOld
      · rw [List.mem_singleton.mp hNew]
        exact hAdmits
  | outer ops commits =>
      cases commits with
      | true =>
          refine ⟨h.trail.append (trail_executeAll _ _ ops), fun x hx => ?_⟩
          rcases List.mem_append.mp hx with hOld | hNew
          · exact h.admitted x hOld
          · exact hAdmits x hNew
      | false => exact h

/-- In every run from the empty ledger the audit log of every equivalent is an
unbroken chain with one row for each operation that changed it. -/
theorem audit_trail_unbroken {trace : List LedgerCall} {s : Journal env}
    (run : Transition.Run Journal.step Journal.Admits Journal.empty trace s) :
    ∀ e ∈ env.directory.equivalents, AuditTrail e s := by
  intro e he
  have hSound : HistorySound s :=
    run.invariant ⟨rfl, fun _ h => by cases h⟩ fun _ _ h hAdmits => historySound_step h hAdmits
  have hLog : rowsOf e s.ledger.db.auditLog = s.history.flatMap fun x => rowsOf e x.rows := by
    have hRows := rowsOf_auditLog (e := e) hSound.trail hSound.admitted
    exact hRows.trans (List.nil_append _)
  refine ⟨hSound.trail, hLog, fun x hx => x.audited he (hSound.admitted x hx), ?_⟩
  rw [hLog]
  exact hSound.trail.flatMap (fun db => db.checksum e.id) fun x hx => x.chain he (hSound.admitted x hx)

/-- B opens a line to A, A pays B in a staged transaction that is committed, and
another line is rolled back. -/
def sampleCalls : List LedgerCall :=
  [.single (openLine 2 "A" .uah 10),
    .outer (preparePath "tx" 1 ["A", "B"] 4 .uah ++ [.commitStaged "tx"]) true,
    .outer [openLine 3 "B" .uah 10] false]

/-- The state after these calls. -/
def sampleJournal : Journal (Env.sample .numeric208 true) := sampleCalls.foldl Journal.step .empty

/-- The opened line and the committed payment have an audit row each, the line that was
rolled back has none, and the trail is unbroken. -/
theorem audit_trail_unbroken_sample :
    (rowsOf .uah sampleJournal.ledger.db.auditLog).length = 2 ∧ AuditTrail .uah sampleJournal := by
  have run : Transition.Run Journal.step Journal.Admits Journal.empty sampleCalls sampleJournal := by
    refine ((Transition.Run.nil.snoc ?_).snoc ?_).snoc ?_
    · trivial
    · simp [Journal.Admits, preparePath, executeAll, ClearsOneEquivalent]
    · simp [Journal.Admits, openLine, executeAll, ClearsOneEquivalent]
  exact ⟨by decide +kernel, audit_trail_unbroken run .uah (by decide)⟩

end GeoLedger

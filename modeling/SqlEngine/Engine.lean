import SqlEngine.Execution.Statement
import SqlEngine.Dialect.Grammar
import SqlEngine.Limits.RateLimiter

/-! The engine: it admits a caller, reads a text as one statement, runs that and reports what came
of it. A failure is part of the report, and the report goes to the log. A statement that breaks off
is neither reported nor logged. -/

namespace SqlEngine

open Dialect

/-- What a caller is told. Parts that do not apply are `none`. -/
structure Report where
  success : Bool
  rows : Option (List Row)
  columns : Option (List String)
  rowCount : Option Nat
  message : Option String
  failure : Option FailureKind
  retryAfter : Option Nat
  warning : Option String
deriving DecidableEq

namespace Report

def ofOutput : Output → Report
  | .rows columns rows =>
    ⟨true, some rows, some columns, some rows.length, none, none, none, none⟩
  | .modification affected message warning =>
    ⟨true, none, none, some affected, some message, none, none, warning⟩
  | .definition message => ⟨true, none, none, none, some message, none, none, none⟩

def ofFailure (e : Failure) : Report :=
  ⟨false, none, none, none, some e.message, some e.kind, e.retryAfter?, none⟩

def columnValues (r : Report) (column : String) : List Value :=
  (r.rows.getD []).map fun row => row.get column

end Report

inductive Response where
  | told (r : Report)
  | broken
deriving DecidableEq

namespace Response

def ofOutput (output : Output) : Response := told (.ofOutput output)

def ofFailure (e : Failure) : Response := told (.ofFailure e)

def ofHalt : Halt → Response
  | .failed e => ofFailure e
  | .broken => broken

def ofResult : Except Halt Output → Response
  | .ok output => ofOutput output
  | .error h => ofHalt h

def report? : Response → Option Report
  | told r => some r
  | broken => none

def success (r : Response) : Bool := r.report?.any (·.success)

def rowCount (r : Response) : Option Nat := r.report?.bind (·.rowCount)

def failure (r : Response) : Option FailureKind := r.report?.bind (·.failure)

@[simp] theorem success_ofOutput (output : Output) : (ofOutput output).success = true := by
  cases output <;> rfl

@[simp] theorem success_ofHalt (h : Halt) : (ofHalt h).success = false := by
  cases h <;> rfl

@[simp] theorem failure_ofOutput (output : Output) : (ofOutput output).failure = none := by
  cases output <;> rfl

end Response

structure LogEntry where
  caller : String
  sql : String
  success : Bool
  rowCount : Option Nat
  failure : Option FailureKind
  message : Option String
deriving DecidableEq

/-- The entries in the order of the statements. A log that does not accept them loses them. -/
structure AuditLog where
  entries : List LogEntry
  accepting : Bool
deriving DecidableEq

namespace AuditLog

def empty : AuditLog := ⟨[], true⟩

def entry (caller sql : String) (r : Report) : LogEntry :=
  ⟨caller, sql, r.success, r.rowCount, r.failure, r.message⟩

def append (log : AuditLog) (e : LogEntry) : AuditLog :=
  if log.accepting then { log with entries := log.entries ++ [e] } else log

/-- The log after a statement. Only what is told to the caller is noted. -/
def note (log : AuditLog) (caller sql : String) : Response → AuditLog
  | .told r => log.append (entry caller sql r)
  | .broken => log

end AuditLog

structure Engine where
  configuration : Configuration
  remote : RemoteLimiter
  limiter : RateLimiter
  store : Store
  indexes : Index.Catalog
  patterns : PatternCache
  log : AuditLog

def anonymous : String := "anonymous"

namespace Engine

def ofConfiguration (c : Configuration) (remote : RemoteLimiter) : Engine :=
  ⟨c, remote, .ofLimit c.rateLimit, .empty, .empty, .empty, .empty⟩

def deadline (e : Engine) : Deadline := .starting e.configuration.timeoutMilliseconds

def bounds (e : Engine) : Bounds := ⟨e.deadline, e.configuration.quotas⟩

/-- A result, the store calls that were made for it in their order, and the engine after it. -/
structure Step (α : Type) where
  result : α
  calls : List StoreCall
  engine : Engine

/-- Runs one statement. The indexes change only if it succeeds. -/
def perform (e : Engine) (outage : Script.Outage) (s : Statement) :
    Step (Except Halt Output) :=
  let (run, patterns) :=
    (Execution.statement e.bounds s).runWith outage e.patterns e.store []
  let after := { e with store := run.store, patterns }
  match run.result with
  | .ok plan =>
    ⟨.ok plan.output, run.calls.reverse, { after with indexes := plan.change.apply e.indexes }⟩
  | .error halt => ⟨.error halt, run.calls.reverse, after⟩

def attempt (e : Engine) (outage : Script.Outage) (now : Nat) (caller sql : String) :
    Step (Except Halt Output) :=
  let (admission, limiter) := e.limiter.chargeThrough e.remote caller now
  let e := { e with limiter }
  match admission with
  | .error failure => ⟨.error failure, [], e⟩
  | .ok () =>
    match Statement.ofText sql with
    | .error failure => ⟨.error failure, [], e⟩
    | .ok s => e.perform outage s

def execute (e : Engine) (outage : Script.Outage) (now : Nat) (caller sql : String) :
    Step Response :=
  let step := e.attempt outage now caller sql
  let response := Response.ofResult step.result
  let log := if e.configuration.auditLog then step.engine.log.note caller sql response
    else step.engine.log
  ⟨response, step.calls, { step.engine with log }⟩

end Engine
end SqlEngine

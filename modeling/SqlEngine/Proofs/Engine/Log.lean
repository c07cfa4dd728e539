import SqlEngine.Proofs.Engine.Breaking

/-! The log of an engine. Every request that is answered leaves one entry there, whatever came of it,
and one that breaks off leaves none. No request sees what the log holds or whether there is one. -/

namespace SqlEngine

open Dialect Execution Script Store

namespace AuditLog

def record (enabled : Bool) (log : AuditLog) (e : LogEntry) : AuditLog :=
  if enabled then log.append e else log

variable {log : AuditLog} (entries : List LogEntry)

theorem foldl_record (accepting : log.accepting = true) :
    entries.foldl (record true) log = { log with entries := log.entries ++ entries } := by
  induction entries generalizing log with
  | nil => simp
  | cons e rest ih =>
    have one : record true log e = { log with entries := log.entries ++ [e] } := by
      simp [record, append, accepting]
    have others := @ih { log with entries := log.entries ++ [e] } accepting
    rw [List.foldl_cons, one, others, List.append_assoc, List.singleton_append]

theorem foldl_record_of_silent {enabled : Bool} (silent : enabled = false ∨ log.accepting = false) :
    entries.foldl (record enabled) log = log := by
  have one (e : LogEntry) : record enabled log e = log := by
    rcases silent with off | deaf
    · simp [record, off]
    · simp [record, append, deaf]
  induction entries with
  | nil => rfl
  | cons e rest ih => rw [List.foldl_cons, one, ih]

end AuditLog

namespace Engine

variable {e : Engine}

/-- A text that a caller sends at a time, what the shared limiter says then, and the calls of the
store that fail. -/
structure Request where
  remote : RemoteLimiter
  outage : Outage
  now : Nat
  caller : String
  sql : String

def serve (e : Engine) (q : Request) : Step Response :=
  { e with remote := q.remote }.execute q.outage q.now q.caller q.sql

def entryOf (q : Request) (r : Response) : Option LogEntry :=
  r.report?.map (AuditLog.entry q.caller q.sql)

def withLog (e : Engine) (auditLog : Bool) (log : AuditLog) : Engine :=
  { e with configuration := { e.configuration with auditLog }, log }

def Step.withLog {α : Type} (step : Step α) (auditLog : Bool) (log : AuditLog) : Step α :=
  { step with engine := step.engine.withLog auditLog log }

section

variable (auditLog : Bool) (log : AuditLog)

theorem perform_withLog (e : Engine) (outage : Outage) (st : Statement) :
    (e.withLog auditLog log).perform outage st = (e.perform outage st).withLog auditLog log := by
  rcases ran : (statement e.bounds st).run outage e.store [] with ⟨_ | p, s, calls⟩
  · rw [perform_of_failed ran, perform_of_failed (e := e.withLog auditLog log) ran]
    rfl
  · rw [perform_of_done ran, perform_of_done (e := e.withLog auditLog log) ran]
    rfl

theorem attempt_withLog (e : Engine) (outage : Outage) (now : Nat) (caller sql : String) :
    (e.withLog auditLog log).attempt outage now caller sql =
      (e.attempt outage now caller sql).withLog auditLog log := by
  cases admission : (e.limiter.chargeThrough e.remote caller now).1 with
  | error failure =>
    rw [attempt_of_refused admission, attempt_of_refused (e := e.withLog auditLog log) admission]
    rfl
  | ok admitted =>
    cases read : Statement.ofText sql with
    | error failure =>
      rw [attempt_of_unread admission read,
        attempt_of_unread (e := e.withLog auditLog log) admission read]
      rfl
    | ok st =>
      rw [attempt_of_spelled admission read,
        attempt_of_spelled (e := e.withLog auditLog log) admission read]
      exact perform_withLog auditLog log (e.afterAdmission now caller) outage st

/-- A request gets the same answer whatever the log is, and adds an entry to it if it is answered. -/
theorem serve_withLog (e : Engine) (q : Request) :
    (e.withLog auditLog log).serve q = (e.serve q).withLog auditLog
      ((entryOf q (e.serve q).result).toList.foldl (AuditLog.record auditLog) log) := by
  have attempted := attempt_withLog auditLog log { e with remote := q.remote } q.outage q.now
    q.caller q.sql
  have remote : { e.withLog auditLog log with remote := q.remote } =
      { e with remote := q.remote }.withLog auditLog log := rfl
  have noted (r : Response) : (entryOf q r).toList.foldl (AuditLog.record auditLog) log =
      if auditLog then log.note q.caller q.sql r else log := by
    cases r with
    | told report => rfl
    | broken => exact (ite_self log).symm
  rw [noted, serve, remote, execute, attempted]
  rfl

def answers (e : Engine) : List Request → List Response
  | [] => []
  | q :: rest => (e.serve q).result :: (e.serve q).engine.answers rest

def afterRequests (e : Engine) (requests : List Request) : Engine :=
  requests.foldl (fun e q => (e.serve q).engine) e

theorem length_answers (e : Engine) (requests : List Request) :
    (e.answers requests).length = requests.length := by
  induction requests generalizing e with
  | nil => rfl
  | cons q rest ih => exact congrArg (· + 1) (ih _)

def entries (requests : List Request) (answers : List Response) : List LogEntry :=
  (List.zipWith entryOf requests answers).reduceOption

theorem entries_cons (q : Request) (r : Response) (requests : List Request)
    (answers : List Response) :
    entries (q :: requests) (r :: answers) = (entryOf q r).toList ++ entries requests answers := by
  rw [entries, List.zipWith_cons_cons]
  cases entryOf q r <;> rfl

theorem run_withLog (e : Engine) (requests : List Request) :
    (e.withLog auditLog log).answers requests = e.answers requests ∧
      (e.withLog auditLog log).afterRequests requests = (e.afterRequests requests).withLog auditLog
        ((entries requests (e.answers requests)).foldl (AuditLog.record auditLog) log) := by
  induction requests generalizing e log with
  | nil => exact ⟨rfl, rfl⟩
  | cons q rest ih =>
    have served := serve_withLog auditLog log e q
    obtain ⟨sameAnswers, sameEngine⟩ := ih
      ((entryOf q (e.serve q).result).toList.foldl (AuditLog.record auditLog) log) (e.serve q).engine
    constructor
    · rw [answers, served]
      exact congrArg (List.cons _) sameAnswers
    · rw [answers, entries_cons, List.foldl_append, afterRequests, List.foldl_cons, served]
      exact sameEngine

end

theorem entries_afterRequests (on : e.configuration.auditLog = true)
    (accepting : e.log.accepting = true) (requests : List Request) :
    (e.afterRequests requests).log.entries =
      e.log.entries ++ entries requests (e.answers requests) := by
  have own : e.withLog true e.log = e := by
    rw [← on]
    rfl
  have run := (run_withLog true e.log e requests).2
  rw [own, AuditLog.foldl_record _ accepting] at run
  exact congrArg (fun e => e.log.entries) run

theorem length_entries (e : Engine) (requests : List Request) :
    (entries requests (e.answers requests)).length =
      (e.answers requests).countP (·.report?.isSome) := by
  induction requests generalizing e with
  | nil => rfl
  | cons q rest ih =>
    rw [answers, entries_cons, List.length_append, ih, List.countP_cons, Nat.add_comm]
    cases (e.serve q).result <;> rfl

theorem entries_told (requests : List Request) (reports : List Report) :
    entries requests (reports.map .told) =
      List.zipWith (fun q r => AuditLog.entry q.caller q.sql r) requests reports := by
  have each : List.zipWith entryOf requests (reports.map .told) =
      (List.zipWith (fun q r => AuditLog.entry q.caller q.sql r) requests reports).map some := by
    rw [List.zipWith_map_right, List.map_zipWith]
    rfl
  rw [entries, each]
  show (List.map some _).filterMap id = _
  rw [List.filterMap_map]
  exact List.filterMap_some

/-- A run in which no request sorts groups without an order is answered to the end. -/
theorem Reachable.answers_told (h : Reachable e) {requests : List Request}
    (ordered : ∀ before q after, requests = before ++ q :: after →
      ¬(e.afterRequests before).Disordered q.sql) :
    ∃ reports : List Report, e.answers requests = reports.map .told := by
  induction requests generalizing e with
  | nil => exact ⟨[], rfl⟩
  | cons q rest ih =>
    have surrounded := h.surrounded q.remote e.log
    obtain ⟨reports, others⟩ := ih (surrounded.execute q.outage q.now q.caller q.sql)
      fun before r after split => ordered (q :: before) r after (congrArg (List.cons q) split)
    cases answer : (e.serve q).result with
    | broken => exact absurd (surrounded.disordered_of_broken answer) (ordered [] q rest rfl)
    | told report =>
      refine ⟨report :: reports, ?_⟩
      rw [answers, answer, List.map_cons]
      exact congrArg (List.cons _) others

/-- With the log on, the requests that are answered leave one entry each, in their order, which is
the report on the request. If none of them sorts groups without an order, that is one entry for each
of them. Switched off or losing its entries, the log makes no difference to answers and tables. -/
theorem Reachable.logged (h : Reachable e) (on : e.configuration.auditLog = true)
    (accepting : e.log.accepting = true) (requests : List Request) :
    (e.answers requests).length = requests.length ∧
    (e.afterRequests requests).log.entries = e.log.entries ++
      (List.zipWith (fun q r => r.report?.map (AuditLog.entry q.caller q.sql)) requests
        (e.answers requests)).reduceOption ∧
    ((∀ before q after, requests = before ++ q :: after →
        ¬(e.afterRequests before).Disordered q.sql) →
      ∃ reports : List Report, e.answers requests = reports.map .told ∧
        (e.afterRequests requests).log.entries = e.log.entries ++
          List.zipWith (fun q r => ⟨q.caller, q.sql, r.success, r.rowCount, r.failure, r.message⟩)
            requests reports) ∧
    ∀ auditLog log, auditLog = false ∨ log.accepting = false →
      (e.withLog auditLog log).answers requests = e.answers requests ∧
      ((e.withLog auditLog log).afterRequests requests).store =
        (e.afterRequests requests).store ∧
      ((e.withLog auditLog log).afterRequests requests).log = log := by
  have kept := entries_afterRequests on accepting requests
  refine ⟨length_answers e requests, kept, fun ordered => ?_, fun auditLog log silent => ?_⟩
  · obtain ⟨reports, told⟩ := h.answers_told ordered
    refine ⟨reports, told, ?_⟩
    rw [kept, told, entries_told]
    rfl
  · obtain ⟨sameAnswers, sameEngine⟩ := run_withLog auditLog log e requests
    rw [AuditLog.foldl_record_of_silent _ silent] at sameEngine
    rw [sameEngine]
    exact ⟨sameAnswers, rfl, rfl⟩

def sortsNoGroups (sql : String) : Bool :=
  match Statement.ofText sql with
  | .ok (.select s) => s.orderBy.isEmpty || !(s.isAggregate || s.having.isSome)
  | _ => true

theorem not_disordered {sql : String} (none : sortsNoGroups sql = true) : ¬e.Disordered sql := by
  rintro ⟨q, spelled, -, grouped, items, kept, -, -, -, key, sorted, -⟩
  have grouped : (q.select.isAggregate || q.select.having.isSome) = true := grouped
  simp only [sortsNoGroups, spelled, grouped, Bool.not_true, Bool.or_false, List.isEmpty_iff] at none
  rw [Query.groupedSortNames, none] at sorted
  exact absurd sorted List.not_mem_nil

def fewStatements : Engine :=
  ofConfiguration { Configuration.testing with rateLimit := ⟨6, 60⟩ } noRemoteLimiter

/-- One request for each end that a request can come to. The shared limiter turns the second one
away, and the last one is beyond the limit of this engine. -/
def everyEnd : List Request := [
  ⟨noRemoteLimiter, noOutage, 0, "ann", "CREATE TABLE t (id INTEGER PRIMARY KEY)"⟩,
  ⟨fun _ => .rejected 7, noOutage, 0, "bob", "SHOW TABLES"⟩,
  ⟨noRemoteLimiter, noOutage, 1, "ann", "SELECT 'open"⟩,
  ⟨noRemoteLimiter, noOutage, 2, "ann", "SELECT FROM"⟩,
  ⟨noRemoteLimiter, noOutage, 3, "ann", "SELECT * FROM absent"⟩,
  ⟨noRemoteLimiter, fun _ _ => some (.late 5000), 4, "ann", "SELECT * FROM t ORDER BY id"⟩,
  ⟨noRemoteLimiter, noOutage, 5, "ann", "INSERT INTO t VALUES (1), (2)"⟩,
  ⟨noRemoteLimiter, noOutage, 6, "ann", "SELECT * FROM t"⟩]

theorem logged_everyEnd :
    (∃ reports : List Report, fewStatements.answers everyEnd = reports.map .told ∧
      (fewStatements.afterRequests everyEnd).log.entries =
        List.zipWith (fun q r => AuditLog.entry q.caller q.sql r) everyEnd reports) ∧
    (fewStatements.afterRequests everyEnd).log.entries.map
        (fun l => (l.caller, l.success, l.rowCount, l.failure)) = [
      ("ann", true, none, none), ("bob", false, none, some .rateLimit),
      ("ann", false, none, some .lex), ("ann", false, none, some .parse),
      ("ann", false, none, some .semantic), ("ann", false, none, some .timeout),
      ("ann", true, some 2, none), ("ann", false, none, some .rateLimit)] ∧
    (fewStatements.withLog false .empty).answers everyEnd = fewStatements.answers everyEnd := by
  have reachable : Reachable fewStatements := .start _ _
  have ordered : ∀ q ∈ everyEnd, sortsNoGroups q.sql = true := by decide +kernel
  obtain ⟨-, kept, each, silent⟩ := reachable.logged rfl rfl everyEnd
  obtain ⟨reports, told, entries⟩ := each fun before q after split =>
    not_disordered (ordered q (split ▸ by simp))
  refine ⟨⟨reports, told, entries⟩, ?_, (silent false .empty (.inl rfl)).1⟩
  rw [kept]
  decide +kernel

/-- The sums of the groups are words and, at one place, a double between them. -/
def sumsSorted : List Request := [
  "CREATE TABLE t (g INTEGER, x INTEGER DEFAULT 9007199254740993)",
  "INSERT INTO t (g) VALUES (1), (2), (3), (4), (5), (6), (7), (8), (9), (10), (11)",
  "UPDATE t SET x = 5 WHERE g = 2",
  "UPDATE t SET x = 9223372036854775807 WHERE g = 11",
  "INSERT INTO t (g, x) VALUES (11, 1), (11, -9214364837600034816)",
  "INSERT INTO t (g) VALUES (12), (13), (14), (15), (16), (17), (18), (19), (20), (21)",
  "UPDATE t SET x = 9007199254740992 WHERE g > 11",
  "SELECT g, SUM(x) AS s FROM t GROUP BY g ORDER BY s"].map
    fun sql => ⟨noRemoteLimiter, noOutage, 0, "ann", sql⟩

/-- The sort breaks off, so nothing comes back for the last request and it is not logged. -/
theorem log_astray :
    let e := ofConfiguration .testing noRemoteLimiter
    (e.configuration.auditLog = true ∧ e.log.accepting = true ∧ e.log.entries = []) ∧
    (e.answers sumsSorted).map (·.report?.map (·.success)) =
      [some true, some true, some true, some true, some true, some true, some true, none] ∧
    sumsSorted.length = 8 ∧ (e.afterRequests sumsSorted).log.entries.length = 7 := by
  intro e
  have told : (e.answers sumsSorted).map (·.report?.map (·.success)) =
      [some true, some true, some true, some true, some true, some true, some true, none] := by
    decide +kernel
  refine ⟨⟨rfl, rfl, rfl⟩, told, rfl, ?_⟩
  -- The answers have been evaluated, and there are as many entries as reports among them.
  have counted := congrArg (List.countP Option.isSome) told
  rw [List.countP_map] at counted
  have empty : e.log.entries = [] := rfl
  rw [entries_afterRequests rfl rfl, empty, List.nil_append, length_entries]
  simpa [Function.comp_def] using counted

end Engine
end SqlEngine

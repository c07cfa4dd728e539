import SqlEngine.Engine
import SqlEngine.Proofs.Execution.Run

/-! What executing a text does to the store and to the indexes of an engine. -/

namespace SqlEngine.Engine

open Dialect Execution Script Store

/-- What came of a text. It was turned away before any statement ran, or the statement that it
spells has ended without an output, or that statement has done what it settled on. -/
inductive Executed (e : Engine) (sql : String) (r : Response) (after : Engine) : Prop where
  | turnedAway {failure : Failure} (result : r = .ofFailure failure)
      (store : after.store = e.store) (indexes : after.indexes = e.indexes)
  | failed {st : Statement} {halt : Halt} (spelled : Statement.ofText sql = .ok st)
      (ran : Ran e.bounds e.store st (.error halt) after.store)
      (result : r = .ofHalt halt) (indexes : after.indexes = e.indexes)
  | done {st : Statement} {p : Plan} (spelled : Statement.ofText sql = .ok st)
      (ran : Ran e.bounds e.store st (.ok p) after.store)
      (result : r = .ofOutput p.output) (indexes : after.indexes = p.change.apply e.indexes)

def afterAdmission (e : Engine) (now : Nat) (caller : String) : Engine :=
  { e with limiter := (e.limiter.chargeThrough e.remote caller now).2 }

theorem attempt_of_refused {e : Engine} {now : Nat} {caller : String} {failure : Failure}
    (refused : (e.limiter.chargeThrough e.remote caller now).1 = .error failure)
    (outage : Outage) (sql : String) :
    e.attempt outage now caller sql = ⟨.error failure, [], e.afterAdmission now caller⟩ := by
  simp only [attempt, refused]
  rfl

theorem attempt_of_unread {e : Engine} {now : Nat} {caller sql : String} {failure : Failure}
    (admitted : (e.limiter.chargeThrough e.remote caller now).1 = .ok ())
    (unread : Statement.ofText sql = .error failure) (outage : Outage) :
    e.attempt outage now caller sql = ⟨.error failure, [], e.afterAdmission now caller⟩ := by
  simp only [attempt, admitted, unread]
  rfl

theorem attempt_of_spelled {e : Engine} {now : Nat} {caller sql : String} {st : Statement}
    (admitted : (e.limiter.chargeThrough e.remote caller now).1 = .ok ())
    (spelled : Statement.ofText sql = .ok st) (outage : Outage) :
    e.attempt outage now caller sql = (e.afterAdmission now caller).perform outage st := by
  simp only [attempt, admitted, spelled]
  rfl

def patternsAfter (e : Engine) (outage : Outage) (st : Statement) : PatternCache :=
  ((statement e.bounds st).runWith outage e.patterns e.store []).2

/-- A statement does what it would do if no pattern had been kept before. -/
theorem perform_eq (e : Engine) (outage : Outage) (st : Statement) :
    e.perform outage st =
      let run := (statement e.bounds st).run outage e.store []
      let after := { e with store := run.store, patterns := e.patternsAfter outage st }
      match run.result with
      | .ok p => ⟨.ok p.output, run.calls.reverse,
          { after with indexes := p.change.apply e.indexes }⟩
      | .error halt => ⟨.error halt, run.calls.reverse, after⟩ := by
  rw [← runWith_fst outage _ e.patterns]
  rfl

theorem perform_of_failed {e : Engine} {outage : Outage} {st : Statement} {halt : Halt}
    {s : Store} {calls : List StoreCall}
    (ran : (statement e.bounds st).run outage e.store [] = ⟨.error halt, s, calls⟩) :
    e.perform outage st = ⟨.error halt, calls.reverse,
      { e with store := s, patterns := e.patternsAfter outage st }⟩ := by
  simp only [perform_eq, ran]

theorem perform_of_done {e : Engine} {outage : Outage} {st : Statement} {p : Plan} {s : Store}
    {calls : List StoreCall}
    (ran : (statement e.bounds st).run outage e.store [] = ⟨.ok p, s, calls⟩) :
    e.perform outage st = ⟨.ok p.output, calls.reverse,
      { e with store := s, patterns := e.patternsAfter outage st
               indexes := p.change.apply e.indexes }⟩ := by
  simp only [perform_eq, ran]

theorem perform_of_passed {e : Engine} (passed : e.deadline.passed = true) (outage : Outage)
    (st : Statement) : e.perform outage st = ⟨.error e.deadline.failure, [], e⟩ := by
  have passed : e.bounds.deadline.passed = true := passed
  rw [perform, statement_eq, plan_of_passed passed]
  rfl

section

variable (e : Engine) (outage : Outage) (now : Nat) (caller sql : String)

theorem execute_result : (e.execute outage now caller sql).result =
    .ofResult (e.attempt outage now caller sql).result := rfl

theorem execute_calls : (e.execute outage now caller sql).calls =
    (e.attempt outage now caller sql).calls := rfl

theorem execute_store : (e.execute outage now caller sql).engine.store =
    (e.attempt outage now caller sql).engine.store := rfl

theorem execute_indexes : (e.execute outage now caller sql).engine.indexes =
    (e.attempt outage now caller sql).engine.indexes := rfl

theorem execute_configuration :
    (e.execute outage now caller sql).engine.configuration = e.configuration := by
  show (e.attempt outage now caller sql).engine.configuration = _
  cases admission : (e.limiter.chargeThrough e.remote caller now).1 with
  | error failure => rw [attempt_of_refused admission]; rfl
  | ok admitted =>
    cases read : Statement.ofText sql with
    | error failure => rw [attempt_of_unread admission read]; rfl
    | ok st =>
      rw [attempt_of_spelled admission read]
      simp only [perform_eq]
      split <;> rfl

theorem executed (hs : e.store.Numbered) :
    Executed e sql (e.execute outage now caller sql).result
      (e.execute outage now caller sql).engine := by
  have unchanged {failure : Failure} (turned : e.attempt outage now caller sql =
      ⟨.error failure, [], e.afterAdmission now caller⟩) :
      Executed e sql (e.execute outage now caller sql).result
        (e.execute outage now caller sql).engine :=
    .turnedAway (by rw [execute_result, turned]; rfl) (by rw [execute_store, turned]; rfl)
      (by rw [execute_indexes, turned]; rfl)
  cases admission : (e.limiter.chargeThrough e.remote caller now).1 with
  | error failure => exact unchanged (attempt_of_refused admission outage sql)
  | ok admitted =>
    cases read : Statement.ofText sql with
    | error failure => exact unchanged (attempt_of_unread admission read outage)
    | ok st =>
      have attempted := attempt_of_spelled admission read outage
      have ends := ran outage hs e.bounds st []
      rcases run : (statement e.bounds st).run outage e.store [] with ⟨_ | p, s, calls⟩
      · rw [run] at ends
        rw [perform_of_failed (e := e.afterAdmission now caller) run] at attempted
        exact .failed read (by rw [execute_store, attempted]; exact ends)
          (by rw [execute_result, attempted]; rfl) (by rw [execute_indexes, attempted]; rfl)
      · rw [run] at ends
        rw [perform_of_done (e := e.afterAdmission now caller) run] at attempted
        exact .done read (by rw [execute_store, attempted]; exact ends)
          (by rw [execute_result, attempted]; rfl) (by rw [execute_indexes, attempted]; rfl)

/-- A text that succeeds was admitted in time, and the statement that it spells has done what it
settled on. -/
theorem planned_of_success (hs : e.store.Numbered) {st : Statement}
    (spelled : Statement.ofText sql = .ok st)
    (succeeded : (e.execute outage now caller sql).result.success = true) :
    ((e.limiter.chargeThrough e.remote caller now).1 = .ok () ∧ e.deadline.passed = false) ∧
    ∃ p, (plan e.bounds st).eval e.store = .ok p ∧
      (e.execute outage now caller sql).result = .ofOutput p.output ∧
      (e.execute outage now caller sql).engine.store = e.store.afterCalls p.writes := by
  rw [execute_result] at succeeded ⊢
  rw [execute_store]
  cases admission : (e.limiter.chargeThrough e.remote caller now).1 with
  | error failure =>
    rw [attempt_of_refused admission] at succeeded
    cases succeeded
  | ok admitted =>
    have attempted := attempt_of_spelled admission spelled outage
    rcases run : (statement e.bounds st).run outage e.store [] with ⟨_ | p, after, calls⟩
    · rw [attempted, perform_of_failed (e := e.afterAdmission now caller) run] at succeeded
      simp [Response.ofResult] at succeeded
    · obtain ⟨opened, planned, rfl⟩ := planned_of_run outage hs run
      rw [attempted, perform_of_done (e := e.afterAdmission now caller) run]
      exact ⟨⟨rfl, opened⟩, p, planned, rfl, rfl⟩

end

section

variable {e : Engine} {now : Nat} {caller sql : String} {st : Statement}
  (admitted : (e.limiter.chargeThrough e.remote caller now).1 = .ok ())
  (spelled : Statement.ofText sql = .ok st)
include admitted spelled

theorem execute_of_refused {halt : Halt}
    (refused : (plan e.bounds st).eval e.store = .error halt) :
    (e.execute noOutage now caller sql).result = .ofHalt halt ∧
      (e.execute noOutage now caller sql).engine.store = e.store := by
  have attempted := attempt_of_spelled admitted spelled noOutage
  cases passed : e.deadline.passed with
  | true =>
    have late : e.bounds.deadline.passed = true := passed
    rw [plan_of_passed late, eval_fail] at refused
    cases refused
    rw [perform_of_passed (e := e.afterAdmission now caller) passed] at attempted
    rw [execute_result, execute_store, attempted]
    exact ⟨rfl, rfl⟩
  | false =>
    have read := reads_plan (s := e.store) (b := e.bounds) passed st
    obtain ⟨calls, result⟩ := statement_of_refused (b := e.bounds) passed refused
    have ran := run_noOutage (statement e.bounds st) e.store []
    rw [calls, result, read.afterCalls] at ran
    rw [perform_of_failed (e := e.afterAdmission now caller) ran] at attempted
    rw [execute_result, execute_store, attempted]
    exact ⟨rfl, rfl⟩

/-- A statement that settles on a plan does all of it. -/
theorem execute_of_settled (hs : e.store.Numbered) {p : Plan}
    (settled : (plan e.bounds st).eval e.store = .ok p) :
    (e.execute noOutage now caller sql).result = .ofOutput p.output ∧
      (e.execute noOutage now caller sql).engine.store = e.store.afterCalls p.writes := by
  cases passed : e.bounds.deadline.passed with
  | true =>
    rw [plan_of_passed passed, eval_fail] at settled
    cases settled
  | false =>
    have attempted := attempt_of_spelled admitted spelled noOutage
    have ran := run_of_settled passed hs settled []
    rw [perform_of_done (e := e.afterAdmission now caller) ran] at attempted
    rw [execute_result, execute_store, attempted]
    exact ⟨rfl, rfl⟩

end

end SqlEngine.Engine

import SqlEngine.Proofs.Engine.Reachable

/-! What a statement leaves behind that fails. A refusal of its own comes before the first write; a
failure of the store stops it where it stands. -/

namespace SqlEngine.Engine

open Dialect Execution Script Store

variable {e : Engine}

/-- A failure that is neither one of the store nor a timeout leaves the store and the indexes as
they were. -/
theorem Reachable.unchanged_of_refused (h : Reachable e) (outage : Outage) (now : Nat)
    (caller sql : String) {kind : FailureKind}
    (failed : (e.execute outage now caller sql).result.failure = some kind)
    (notStore : kind ≠ .store) (notTimeout : kind ≠ .timeout) :
    (e.execute outage now caller sql).engine.store = e.store ∧
      (e.execute outage now caller sql).engine.indexes = e.indexes := by
  cases executed e outage now caller sql h.numbered with
  | turnedAway result store indexes => exact ⟨store, indexes⟩
  | @failed st halt spelled ran result indexes =>
    rw [result] at failed
    cases halt with
    | broken => cases failed
    | failed failure =>
      obtain rfl : failure.kind = kind := Option.some.inj failed
      exact ⟨ran.unchanged notStore notTimeout, indexes⟩
  | @done st p spelled ran result indexes => simp [result] at failed

/-- The third row repeats the key of the first. -/
theorem unchanged_of_refused_repeatedKey :
    let e := (ofConfiguration .testing noRemoteLimiter).afterTexts
      ["CREATE TABLE t (id INTEGER PRIMARY KEY)"]
    let step := e.execute noOutage 0 "ann" "INSERT INTO t VALUES (1), (2), (1)"
    step.result.failure = some .constraint ∧
      step.engine.store = e.store ∧ step.engine.indexes = e.indexes := by
  intro e step
  have failed : step.result.failure = some .constraint := by decide +kernel
  have reachable : Reachable e := (Reachable.start _ _).afterTexts _
  exact ⟨failed, reachable.unchanged_of_refused noOutage 0 "ann" _ failed (by decide) (by decide)⟩

theorem perform_noOutage_calls (st : Statement) :
    (e.perform noOutage st).calls = (statement e.bounds st).trace e.store := by
  have run := run_noOutage (statement e.bounds st) e.store []
  rw [List.append_nil] at run
  cases result : (statement e.bounds st).outcome e.store with
  | error failure =>
    rw [result] at run
    rw [perform_of_failed run, List.reverse_reverse]
  | ok p =>
    rw [result] at run
    rw [perform_of_done run, List.reverse_reverse]

/-- The statement stops at the call that fails. What it has written before stays. -/
theorem perform_failingCall (st : Statement) {k : Nat} (positive : 0 < k)
    (within : k ≤ ((statement e.bounds st).trace e.store).length) (f : StoreFault) :
    e.perform (failingCall k f) st =
      ⟨.error (.failed (.store f)), ((statement e.bounds st).trace e.store).take k, { e with
        store := e.store.afterCalls (((statement e.bounds st).trace e.store).take (k - 1))
        patterns := e.patternsAfter (failingCall k f) st }⟩ := by
  have run := run_failingCall (statement e.bounds st) e.store [] f (k - 1) (by omega)
  have number : ([] : List StoreCall).length + (k - 1) + 1 = k := by
    simp only [List.length_nil]
    omega
  have kth : k - 1 + 1 = k := by omega
  rw [number, kth, List.append_nil] at run
  rw [perform_of_failed run, List.reverse_reverse]

section

variable {now : Nat} {caller sql : String}
  (admitted : (e.limiter.chargeThrough e.remote caller now).1 = .ok ())
include admitted

theorem calls_of_unread {failure : Failure} (unread : Statement.ofText sql = .error failure)
    (outage : Outage) : (e.execute outage now caller sql).calls = [] := by
  rw [execute_calls, attempt_of_unread admitted unread]

theorem calls_noOutage_of_spelled {st : Statement} (spelled : Statement.ofText sql = .ok st) :
    (e.execute noOutage now caller sql).calls = (statement e.bounds st).trace e.store := by
  rw [execute_calls, attempt_of_spelled admitted spelled, perform_noOutage_calls]
  rfl

theorem calls_noOutage_accepted (hs : e.store.Numbered) :
    e.store.Accepts (e.execute noOutage now caller sql).calls := by
  cases read : Statement.ofText sql with
  | error failure =>
    rw [calls_of_unread admitted read]
    trivial
  | ok st =>
    rw [calls_noOutage_of_spelled admitted read]
    exact statement_accepted hs e.bounds st

theorem execute_stops {k : Nat} (positive : 0 < k)
    (within : k ≤ (e.execute noOutage now caller sql).calls.length) (f : StoreFault) :
    let step := e.execute (failingCall k f) now caller sql
    step.calls = (e.execute noOutage now caller sql).calls.take k ∧
    step.result = .ofFailure (.store f) ∧
    step.engine.store =
      e.store.afterCalls ((e.execute noOutage now caller sql).calls.take (k - 1)) ∧
    step.engine.indexes = e.indexes := by
  intro step
  cases read : Statement.ofText sql with
  | error failure =>
    rw [calls_of_unread admitted read, List.length_nil] at within
    omega
  | ok st =>
    rw [calls_noOutage_of_spelled admitted read] at within ⊢
    have attempted := attempt_of_spelled admitted read (failingCall k f)
    rw [perform_failingCall (e := e.afterAdmission now caller) st positive within f] at attempted
    simp only [step, execute_calls, execute_result, execute_store, execute_indexes, attempted]
    exact ⟨rfl, rfl, rfl, rfl⟩

theorem execute_of_passed (passed : e.deadline.passed = true) (outage : Outage) :
    (e.execute outage now caller sql).calls = [] ∧
    ∀ st, Statement.ofText sql = .ok st →
      (e.execute outage now caller sql).result = .ofFailure e.deadline.failure := by
  cases read : Statement.ofText sql with
  | error failure => exact ⟨calls_of_unread admitted read outage, nofun⟩
  | ok st =>
    have attempted := attempt_of_spelled admitted read outage
    rw [perform_of_passed (e := e.afterAdmission now caller) passed outage st] at attempted
    rw [execute_calls, execute_result, attempted]
    exact ⟨rfl, fun _ _ => rfl⟩

end

/-- Let `calls` be the store calls of an admitted text when none fails. Then the store refuses none
of them; if the `k`-th one fails, exactly the first `k` are made, the failure is reported, and the
store is as the calls before have left it. After the deadline no call is made. -/
theorem Reachable.execute_failingCall (h : Reachable e) (now : Nat) (caller sql : String)
    (admitted : (e.limiter.chargeThrough e.remote caller now).1 = .ok ()) :
    let calls := (e.execute noOutage now caller sql).calls
    e.store.Accepts calls ∧
    (∀ k f, 0 < k → k ≤ calls.length →
      let step := e.execute (failingCall k f) now caller sql
      step.calls = calls.take k ∧
      step.result = .ofFailure (.store f) ∧
      step.engine.store = e.store.afterCalls (calls.take (k - 1)) ∧
      step.engine.indexes = e.indexes) ∧
    (e.deadline.passed = true → ∀ outage,
      (e.execute outage now caller sql).calls = [] ∧
      ∀ st, Statement.ofText sql = .ok st →
        (e.execute outage now caller sql).result = .ofFailure e.deadline.failure) := by
  intro calls
  refine ⟨calls_noOutage_accepted admitted h.numbered, ?_, ?_⟩
  · intro k f positive within
    exact execute_stops admitted positive within f
  · intro passed outage
    exact execute_of_passed admitted passed outage

def withTable : Engine := (ofConfiguration .testing noRemoteLimiter).afterTexts [
  "CREATE TABLE t (id INTEGER PRIMARY KEY)"]

def withoutTime : Engine :=
  ofConfiguration { Configuration.testing with timeoutMilliseconds := 0 } noRemoteLimiter

theorem execute_failingCall_secondRow :
    (let calls := (withTable.execute noOutage 0 "ann" "INSERT INTO t VALUES (1), (2)").calls
    let step := withTable.execute (failingCall 4 (.backend "full")) 0 "ann"
      "INSERT INTO t VALUES (1), (2)"
    calls.length = 4 ∧ step.calls = calls.take 4 ∧
      step.result = .ofFailure (.store (.backend "full")) ∧
      step.engine.store = withTable.store.afterCalls (calls.take 3) ∧
      step.engine.indexes = withTable.indexes) ∧
    withoutTime.deadline.passed = true ∧
      (withoutTime.execute noOutage 0 "ann" "SHOW TABLES").calls = [] := by
  have reachable : Reachable withTable := (Reachable.start _ _).afterTexts _
  have number : (withTable.execute noOutage 0 "ann" "INSERT INTO t VALUES (1), (2)").calls.length =
      4 := by decide +kernel
  have stopped := (reachable.execute_failingCall 0 "ann" "INSERT INTO t VALUES (1), (2)"
    (by decide +kernel)).2.1 4 (.backend "full") (by decide) (by omega)
  have fresh : Reachable withoutTime := .start _ _
  have late := (fresh.execute_failingCall 0 "ann" "SHOW TABLES" (by decide +kernel)).2.2
  exact ⟨⟨number, stopped⟩, rfl, (late rfl noOutage).1⟩

end SqlEngine.Engine

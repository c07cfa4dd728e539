import SqlEngine.Proofs.Execution.Change

/-! The run of a statement. It reads what it needs and settles on a plan, then it makes the writes
of the plan. A call that fails ends it, with no write made or with some first part of them. -/

namespace SqlEngine.Execution

open Dialect Script Store

variable {b : Bounds} {s : Store} {st : Statement}

theorem statement_eq (b : Bounds) (st : Statement) :
    statement b st = (plan b st).bind fun p =>
      (askAll b.deadline p.writes).bind fun _ => .done (.ok p) := rfl

theorem statement_of_refused (opened : b.deadline.passed = false) {h : Halt}
    (refused : (plan b st).eval s = .error h) :
    (statement b st).trace s = (plan b st).trace s ∧ (statement b st).outcome s = .error h := by
  have ended : (plan b st).outcome s = .error h := by rw [(reads_plan opened st).outcome, refused]
  rw [statement_eq, trace_bind, outcome_bind, ended]
  exact ⟨List.append_nil _, rfl⟩

theorem statement_of_settled (opened : b.deadline.passed = false) (hs : s.Numbered) {p : Plan}
    (ok : (plan b st).eval s = .ok p) :
    (statement b st).trace s = (plan b st).trace s ++ p.writes ∧
      (statement b st).outcome s = .ok p := by
  have read := reads_plan (s := s) opened st
  have ended : (plan b st).outcome s = .ok p := by rw [read.outcome, ok]
  obtain ⟨writes, finished⟩ := askAll_of_accepts opened ((settled_plan opened ok).accepts hs)
  rw [statement_eq, trace_bind, outcome_bind, ended, read.afterCalls]
  simp only [trace_bind, outcome_bind, writes, finished]
  exact ⟨by simp [trace], rfl⟩

theorem run_of_settled (opened : b.deadline.passed = false) (hs : s.Numbered) {p : Plan}
    (ok : (plan b st).eval s = .ok p) (past : List StoreCall) :
    (statement b st).run noOutage s past =
      ⟨.ok p, s.afterCalls p.writes, ((plan b st).trace s ++ p.writes).reverse ++ past⟩ := by
  obtain ⟨calls, result⟩ := statement_of_settled opened hs ok
  rw [run_noOutage, calls, result, afterCalls_append, (reads_plan opened st).afterCalls]

theorem statement_accepted (hs : s.Numbered) (b : Bounds) (st : Statement) :
    s.Accepts ((statement b st).trace s) := by
  cases passed : b.deadline.passed with
  | true =>
    rw [statement_eq, plan_of_passed passed]
    trivial
  | false =>
    have read := reads_plan (s := s) passed st
    have reading : s.Accepts ((plan b st).trace s) := accepts_of_observes read
    cases answered : (plan b st).eval s with
    | error e => rwa [(statement_of_refused passed answered).1]
    | ok p =>
      rw [(statement_of_settled passed hs answered).1]
      refine reading.append ?_
      rw [read.afterCalls]
      exact (settled_plan passed answered).accepts hs

/-- How a statement ends, and the store that it leaves. -/
inductive Ran (b : Bounds) (s : Store) (st : Statement) : Except Halt Plan → Store → Prop where
  | refused {h : Halt} (why : (plan b st).eval s = .error h) : Ran b s st (.error h) s
  | complete {p : Plan} (settled : Settled b s st p) : Ran b s st (.ok p) (s.afterCalls p.writes)
  /-- A call fails before the first write. -/
  | unread (f : CallFailure) : Ran b s st (.error f.failure) s
  /-- The call that fails is one of the writes. -/
  | cut (f : CallFailure) {p : Plan} (settled : Settled b s st p) {n : Nat}
      (short : n < p.writes.length) :
      Ran b s st (.error f.failure) (s.afterCalls (p.writes.take n))

theorem afterCalls_first {m : Script Plan} (read : m.Reads s) (writes : List StoreCall) (k : Nat) :
    s.afterCalls ((m.trace s ++ writes).take k) =
      s.afterCalls (writes.take (k - (m.trace s).length)) := by
  have reading : s.afterCalls ((m.trace s).take k) = s :=
    afterCalls_of_observes fun c hc => read c (List.mem_of_mem_take hc)
  rw [List.take_append, afterCalls_append, reading]

theorem ran (outage : Outage) (hs : s.Numbered) (b : Bounds) (st : Statement)
    (past : List StoreCall) :
    Ran b s st ((statement b st).run outage s past).result
      ((statement b st).run outage s past).store := by
  cases passed : b.deadline.passed with
  | true =>
    have refused : (plan b st).eval s = .error b.deadline.failure := by
      rw [plan_of_passed passed, eval_fail]
    rw [statement_eq, plan_of_passed passed]
    exact .refused refused
  | false =>
    have read := reads_plan (s := s) passed st
    rcases run_eq_or_cut outage (statement b st) s past with
      same | ⟨before, c, after, f, split, -, stopped⟩
    · rw [same, run_noOutage]
      cases answered : (plan b st).eval s with
      | error e =>
        obtain ⟨calls, result⟩ := statement_of_refused passed answered
        simp only [calls, result, read.afterCalls]
        exact .refused answered
      | ok p =>
        have run := run_of_settled passed hs answered past
        rw [run_noOutage] at run
        rw [run]
        exact .complete (settled_plan passed answered)
    · -- The calls before the one that failed are a first part of the reads and writes.
      rw [stopped]
      have first : before = ((statement b st).trace s).take before.length := by
        rw [split, List.take_left]
      cases answered : (plan b st).eval s with
      | error e =>
        rw [(statement_of_refused passed answered).1, ← List.append_nil (trace _ _)] at first
        rw [first, afterCalls_first read, List.take_nil]
        exact .unread f
      | ok p =>
        rw [(statement_of_settled passed hs answered).1] at first split
        rw [first, afterCalls_first read]
        by_cases early : before.length < ((plan b st).trace s).length
        · rw [Nat.sub_eq_zero_of_le (Nat.le_of_lt early), List.take_zero]
          exact .unread f
        · have total := congrArg List.length split
          simp only [List.length_append, List.length_cons] at total
          exact .cut f (settled_plan passed answered) (by omega)

theorem planned_of_run (outage : Outage) (hs : s.Numbered) {past calls : List StoreCall} {p : Plan}
    {after : Store} (run : (statement b st).run outage s past = ⟨.ok p, after, calls⟩) :
    b.deadline.passed = false ∧ (plan b st).eval s = .ok p ∧ after = s.afterCalls p.writes := by
  cases passed : b.deadline.passed with
  | true =>
    rw [statement_eq, plan_of_passed passed] at run
    cases run
  | false =>
    rcases run_eq_or_cut outage (statement b st) s past with same | ⟨_, _, _, f, -, -, stopped⟩
    · rw [same] at run
      cases answered : (plan b st).eval s with
      | error e =>
        obtain ⟨-, result⟩ := statement_of_refused passed answered
        rw [run_noOutage, result] at run
        cases run
      | ok q =>
        rw [run_of_settled passed hs answered] at run
        cases run
        exact ⟨rfl, rfl, rfl⟩
    · rw [stopped] at run
      cases run

theorem kind_of_callFailure (f : CallFailure) :
    f.failure.kind = .store ∨ f.failure.kind = .timeout := by
  cases f with
  | fault cause => exact .inl rfl
  | late milliseconds => exact .inr rfl

/-- A statement that fails for another reason than its calls has written nothing. -/
theorem Ran.unchanged {e : Failure} {after : Store} (h : Ran b s st (.error e) after)
    (notStore : e.kind ≠ .store) (notTimeout : e.kind ≠ .timeout) : after = s := by
  cases h with
  | refused why => rfl
  | unread f => rfl
  | cut f settled short => exact absurd (kind_of_callFailure f) (by simp [notStore, notTimeout])

theorem Ran.settled {p : Plan} {after : Store} (h : Ran b s st (.ok p) after) :
    Settled b s st p ∧ after = s.afterCalls p.writes := by
  cases h with
  | complete settled => exact ⟨settled, rfl⟩

theorem Ran.exists_calls {r : Except Halt Plan} {after : Store} (h : Ran b s st r after) :
    ∃ calls, after = s.afterCalls calls := by
  cases h with
  | refused why => exact ⟨[], rfl⟩
  | complete settled => exact ⟨_, rfl⟩
  | unread f => exact ⟨[], rfl⟩
  | cut f settled short => exact ⟨_, rfl⟩

theorem Ran.numbered {r : Except Halt Plan} {after : Store} (h : Ran b s st r after)
    (hs : s.Numbered) : after.Numbered := by
  obtain ⟨calls, rfl⟩ := h.exists_calls
  exact hs.afterCalls calls

theorem Ran.change {r : Except Halt Plan} {after : Store} (h : Ran b s st r after)
    (hs : s.Numbered) : Change s st after := by
  cases h with
  | refused why => exact .same
  | unread f => exact .same
  | cut f settled short => exact settled.change hs _
  | @complete p settled =>
    have whole := settled.change hs p.writes.length
    rwa [List.take_length] at whole

theorem Ran.tables_of_error {halt : Halt} {after : Store} (h : Ran b s st (.error halt) after)
    (hs : s.Numbered) : after.tables = s.tables := by
  cases h with
  | refused why => rfl
  | unread f => rfl
  | @cut f p settled n short =>
    have change := settled.change hs n
    cases settled with
    | nothing => exact absurd short (Nat.not_lt_zero n)
    | createTable | dropTable | createIndex =>
      rw [Nat.lt_one_iff.mp short, List.take_zero, afterCalls_nil]
    | insert | update | delete => exact change.tables_eq nofun nofun nofun

end SqlEngine.Execution

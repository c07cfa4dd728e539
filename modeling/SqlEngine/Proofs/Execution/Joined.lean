import SqlEngine.Proofs.Execution.Answer
import SqlEngine.Proofs.Execution.Steady

/-! The rows of a query before its condition, from the tables of the store, and how a SELECT that
names only what there is comes to them. -/

namespace SqlEngine

open Dialect Script

def Store.data (s : Store) (t : Table) : List Row := (s.rowsOf t.id).map (·.data)

namespace Query

def joinPlan (q : Query) (before : List (Join × Table)) (j : Join) (t : Table) : JoinPlan :=
  .ofJoin j q.scope (q.keysAfter before) t.columnNames

def joinAll (q : Query) (data : Table → List Row) :
    (before rest : List (Join × Table)) → List Row → List Row
  | _, [], rows => rows
  | before, (j, t) :: rest, rows =>
    q.joinAll data (before ++ [(j, t)]) rest ((q.joinPlan before j t).rows rows (data t))

theorem joinAll_append (q : Query) (data : Table → List Row)
    (before first second : List (Join × Table)) (rows : List Row) :
    q.joinAll data before (first ++ second) rows =
      q.joinAll data (before ++ first) second (q.joinAll data before first rows) := by
  induction first generalizing before rows with
  | nil => rw [List.append_nil]; rfl
  | cons entry first ih =>
    obtain ⟨j, t⟩ := entry
    rw [List.cons_append, joinAll, joinAll, ih, List.append_assoc, List.singleton_append]

structure Over (q : Query) (s : Store) : Prop where
  base : q.base ∈ s.tables
  source : q.base.name = q.select.source.name
  joins : q.joined.map (·.1) = q.select.joins
  joined : ∀ e ∈ q.joined, e.2 ∈ s.tables ∧ e.2.name = e.1.table.name

/-- The query names tables that the store has and columns that these have. -/
structure Accepted (q : Query) (s : Store) : Prop extends q.Over s where
  checked : q.check = .ok ()

end Query

namespace Store

/-- The merged rows of a query after some of its joins. -/
def joinedAfter (s : Store) (q : Query) (joins : List (Join × Table)) : List Row :=
  q.joinAll s.data [] joins (s.data q.base)

/-- The merged rows of a query, before its condition. -/
def joined (s : Store) (q : Query) : List Row := s.joinedAfter q q.joined

theorem joinedAfter_concat (s : Store) (q : Query) (before : List (Join × Table)) (j : Join)
    (t : Table) : s.joinedAfter q (before ++ [(j, t)]) =
      (q.joinPlan before j t).rows (s.joinedAfter q before) (s.data t) := by
  rw [joinedAfter, Query.joinAll_append, List.nil_append]
  rfl

end Store

namespace Execution

variable {b : Bounds} {s : Store} (opened : b.deadline.passed = false)
include opened

theorem eval_joinRows (q : Query) {before rest : List (Join × Table)}
    (there : ∀ e ∈ rest, e.2 ∈ s.tables) (rows : List Row) :
    (joinRows b q before rest rows).eval s = .ok (q.joinAll s.data before rest rows) := by
  induction rest generalizing before rows with
  | nil => rfl
  | cons entry rest ih =>
    obtain ⟨j, t⟩ := entry
    rw [List.forall_mem_cons] at there
    simp only [joinRows, eval_bind, b.eval_rows opened there.1, eval_ofExcept]
    show (Halt.lift ((JoinPlan.ofJoin j q.scope (q.keysAfter before) t.columnNames).run b.deadline
      rows (s.data t)) >>= _) = _
    rw [JoinPlan.run_of_open _ opened]
    exact ih there.2 _

theorem named_of_joinedTables {joins : List Join} {joined : List (Join × Table)}
    (found : (joinedTables b joins).eval s = .ok joined) :
    joined.map (·.1) = joins ∧ ∀ e ∈ joined, e.2 ∈ s.tables ∧ e.2.name = e.1.table.name := by
  induction joins generalizing joined with
  | nil =>
    cases found
    simp
  | cons j rest ih =>
    simp only [joinedTables, eval_bind, b.eval_table opened, Success.bind_eq_ok, eval_pure] at found
    obtain ⟨t, named, others, others', last⟩ := found
    cases last
    obtain ⟨joins, tables⟩ := ih others'
    refine ⟨congrArg (j :: ·) joins, List.forall_mem_cons.mpr ⟨?_, tables⟩⟩
    exact Store.mem_of_tableNamed? (Store.named_eq_ok.mp named)

theorem over_of_named {stmt : Select} {base : Table} {joined : List (Join × Table)}
    (named : (b.table stmt.source.name).eval s = .ok base)
    (found : (joinedTables b stmt.joins).eval s = .ok joined) :
    Query.Over ⟨stmt, base, joined⟩ s := by
  rw [b.eval_table opened] at named
  obtain ⟨joins, tables⟩ := named_of_joinedTables opened found
  obtain ⟨listed, source⟩ := Store.mem_of_tableNamed? (Store.named_eq_ok.mp named)
  exact ⟨listed, source, joins, tables⟩

variable (hs : s.Numbered)
include hs

theorem eval_joinedTables {joined : List (Join × Table)}
    (there : ∀ e ∈ joined, e.2 ∈ s.tables ∧ e.2.name = e.1.table.name) :
    (joinedTables b (joined.map (·.1))).eval s = .ok joined := by
  induction joined with
  | nil => rfl
  | cons entry rest ih =>
    obtain ⟨j, t⟩ := entry
    rw [List.forall_mem_cons] at there
    have found : s.named j.table.name = .ok t := there.1.2 ▸ hs.named there.1.1
    simp only [List.map_cons, joinedTables, eval_bind, b.eval_table opened, found, ih there.2,
      eval_pure]
    rfl

theorem eval_select {q : Query} (named : q.Over s) :
    (select b q.select).eval s =
      (Halt.lift q.check >>= fun _ => q.finish (s.joined q)).map fun output => { output } := by
  have found : s.named q.select.source.name = .ok q.base := named.source ▸ hs.named named.base
  have joined := eval_joinedTables opened hs named.joined
  rw [named.joins] at joined
  simp only [select, eval_bind, b.eval_table opened, found, joined, eval_ofExcept]
  show (Halt.lift q.check >>= _) = _
  cases q.check with
  | error failure => rfl
  | ok passed =>
    show ((b.rows q.base).eval s >>= _) = _
    rw [b.eval_rows opened named.base]
    show ((joinRows b q [] q.joined (s.data q.base)).eval s >>= _) = _
    rw [eval_joinRows opened q fun e he => (named.joined e he).1]
    show (((q.answer (s.joined q)).eval s) >>= _) = (q.finish (s.joined q)).map _
    rw [Query.eval_answer]
    cases q.finish (s.joined q) <;> rfl

/-- What settles a SELECT is a query over the tables that it names. -/
theorem accepted_of_select {stmt : Select} {p : Plan} (settled : (select b stmt).eval s = .ok p) :
    ∃ q : Query, q.select = stmt ∧ q.Accepted s ∧ q.finish (s.joined q) = .ok p.output := by
  have found := settled
  simp only [select, eval_bind, Success.bind_eq_ok] at found
  obtain ⟨base, named, joined, found, -⟩ := found
  have there := over_of_named opened named found
  have planned := eval_select opened hs there
  rw [settled, eq_comm, Success.map_eq_ok] at planned
  obtain ⟨output, finished, rfl⟩ := planned
  obtain ⟨_, checked, finished⟩ := Success.bind_eq_ok.mp finished
  exact ⟨⟨stmt, base, joined⟩, rfl, ⟨there, Halt.lift_eq_ok.mp checked⟩, finished⟩

theorem accepted_of_broken {stmt : Select} (broken : (select b stmt).eval s = .error .broken) :
    ∃ q : Query, q.select = stmt ∧ q.Accepted s ∧ q.finish (s.joined q) = .error .broken := by
  have found := broken
  obtain ⟨base, named, found⟩ := (b.steady_table stmt.source.name).eval_bind found
  obtain ⟨joined, found, -⟩ := (steady_joinedTables b stmt.joins).eval_bind found
  have there := over_of_named opened named found
  have ended := eval_select opened hs there
  rw [broken, eq_comm, Success.map_eq_error, Halt.lift_bind_eq_broken] at ended
  obtain ⟨_, checked, finished⟩ := ended
  exact ⟨⟨stmt, base, joined⟩, rfl, ⟨there, checked⟩, finished⟩

end Execution
end SqlEngine

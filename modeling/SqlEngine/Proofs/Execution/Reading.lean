import SqlEngine.Execution.Statement
import SqlEngine.Proofs.Script.Reading
import SqlEngine.Proofs.Store.Numbering
import SqlEngine.Proofs.Success

/-! Before its writes a statement only reads. While the deadline has not passed, everything that it
asks for is there: a table is looked up by its name before its rows are. -/

namespace SqlEngine

open Dialect Script

/-- The table of a name, or the failure that lists the names there are. -/
def Store.named (s : Store) (name : String) : Except Halt Table :=
  match s.tableNamed? name with
  | some t => .ok t
  | none => .error (Failure.noTable name s.tableNames)

theorem Store.named_eq_ok {s : Store} {name : String} {t : Table} :
    s.named name = .ok t ↔ s.tableNamed? name = some t := by
  unfold named
  split <;> simp_all

theorem Store.mem_of_named {s : Store} {name : String} {t : Table} (h : s.named name = .ok t) :
    t ∈ s.tables :=
  (mem_of_tableNamed? (named_eq_ok.mp h)).1

theorem Store.Numbered.named {s : Store} (hs : s.Numbered) {t : Table} (h : t ∈ s.tables) :
    s.named t.name = .ok t := by
  rw [Store.named_eq_ok]
  cases found : s.tableNamed? t.name with
  | none => exact absurd rfl (tableNamed?_eq_none.mp found t h)
  | some u =>
    obtain ⟨hu, same⟩ := mem_of_tableNamed? found
    rw [hs.table_ext_name hu h same]

theorem Store.selectRows_of_mem {s : Store} {t : Table} (h : t ∈ s.tables) :
    s.answer (.selectRows t.id) = .ok (s.rowsOf t.id, s) := by
  simp [answer, selectRows, hasTable_of_mem h, Except.map]

variable {b : Bounds} {s : Store}

namespace Bounds

theorem eval_findTable (opened : b.deadline.passed = false) (name : String) :
    (b.findTable name).eval s = .ok (s.tableNamed? name) :=
  eval_ask opened rfl

theorem reads_findTable (opened : b.deadline.passed = false) (name : String) :
    (b.findTable name).Reads s :=
  .ask opened ⟨_, rfl⟩

theorem eval_unknownTable {α : Type} (opened : b.deadline.passed = false) (name : String) :
    (b.unknownTable name : Script α).eval s = .error (Failure.noTable name s.tableNames) := by
  rw [unknownTable, eval_bind, ask, eval_ask opened rfl]
  rfl

theorem reads_unknownTable {α : Type} (opened : b.deadline.passed = false) (name : String) :
    (b.unknownTable name : Script α).Reads s :=
  .bind (.ask opened ⟨_, rfl⟩) fun _ _ => .done _

theorem eval_table (opened : b.deadline.passed = false) (name : String) :
    (b.table name).eval s = s.named name := by
  rw [table, eval_bind, eval_findTable opened]
  show (match s.tableNamed? name with
    | some t => pure t
    | none => b.unknownTable name : Script Table).eval s = _
  unfold Store.named
  cases s.tableNamed? name with
  | some t => rfl
  | none => exact eval_unknownTable opened name

theorem reads_table (opened : b.deadline.passed = false) (name : String) :
    (b.table name).Reads s := by
  refine .bind (reads_findTable opened name) fun found _ => ?_
  cases found with
  | some t => exact .done _
  | none => exact reads_unknownTable opened name

theorem eval_rows (opened : b.deadline.passed = false) {t : Table} (h : t ∈ s.tables) :
    (b.rows t).eval s = .ok (s.rowsOf t.id) :=
  eval_ask opened (Store.selectRows_of_mem h)

theorem reads_rows (opened : b.deadline.passed = false) {t : Table} (h : t ∈ s.tables) :
    (b.rows t).Reads s :=
  .ask opened ⟨_, Store.selectRows_of_mem h⟩

end Bounds

namespace Execution

theorem reads_answer (q : Query) (rows : List Row) : (q.answer rows).Reads s := by
  refine .bind (.sift _ _ _ _) fun parts _ => ?_
  cases q.isGrouped with
  | false => exact .bind (.done _) fun page _ => .done _
  | true =>
    simp only [↓reduceIte]
    split
    · refine .bind (.done _) fun groups _ => .bind (.sift _ _ _ _) fun kept _ => ?_
      exact .bind (.done _) fun page _ => .done _
    · exact .done _

section

variable (opened : b.deadline.passed = false)
include opened

theorem reads_createTable (c : CreateTable) : (createTable b c).Reads s := by
  refine .bind (b.reads_findTable opened c.table) fun found _ => ?_
  split
  · split <;> exact .done _
  · refine .bind (.done _) fun columns _ => ?_
    refine .bind (.ask opened ⟨_, rfl⟩) fun present _ => ?_
    exact .bind (.done _) fun _ _ => .done _

theorem reads_dropTable (d : DropTable) : (dropTable b d).Reads s := by
  refine .bind (b.reads_findTable opened d.table) fun found _ => ?_
  cases found with
  | some t => exact .done _
  | none =>
    simp only
    split
    · exact .done _
    · exact b.reads_unknownTable opened d.table

theorem reads_createIndex (c : CreateIndex) : (createIndex b c).Reads s := by
  refine .bind (b.reads_table opened c.table) fun t ht => ?_
  rw [b.eval_table opened] at ht
  refine .bind (.done _) fun _ _ => ?_
  refine .bind (b.reads_rows opened (s.mem_of_named ht)) fun rows _ => ?_
  exact .bind (.done _) fun tree _ => .done _

theorem reads_insert (i : Insert) : (insert b i).Reads s := by
  refine .bind (b.reads_table opened i.table) fun t ht => ?_
  rw [b.eval_table opened] at ht
  refine .bind (.done _) fun columns _ => ?_
  refine .bind (b.reads_rows opened (s.mem_of_named ht)) fun existing _ => ?_
  refine .bind (.done _) fun _ _ => ?_
  exact .bind (.done _) fun rows _ => .done _

theorem reads_update (u : Update) : (update b u).Reads s := by
  refine .bind (b.reads_table opened u.table) fun t ht => ?_
  rw [b.eval_table opened] at ht
  refine .bind (.done _) fun changes _ => ?_
  refine .bind (.done _) fun _ _ => ?_
  refine .bind (b.reads_rows opened (s.mem_of_named ht)) fun rows _ => ?_
  refine .bind (.sift _ _ _ _) fun parts _ => ?_
  exact .bind (.done _) fun staged _ => .done _

theorem reads_delete (d : Delete) : (delete b d).Reads s := by
  refine .bind (b.reads_table opened d.table) fun t ht => ?_
  rw [b.eval_table opened] at ht
  refine .bind (.done _) fun _ _ => ?_
  refine .bind (b.reads_rows opened (s.mem_of_named ht)) fun rows _ => ?_
  exact .bind (.sift _ _ _ _) fun parts _ => .done _

theorem reads_joinedTables (joins : List Join) : (joinedTables b joins).Reads s := by
  induction joins with
  | nil => exact .done _
  | cons j rest ih =>
    refine .bind (b.reads_table opened j.table.name) fun t _ => ?_
    exact .bind ih fun joined _ => .done _

theorem mem_of_joinedTables {joins : List Join} {joined : List (Join × Table)}
    (found : (joinedTables b joins).eval s = .ok joined) : ∀ e ∈ joined, e.2 ∈ s.tables := by
  induction joins generalizing joined with
  | nil =>
    cases found
    simp
  | cons j rest ih =>
    simp only [joinedTables, eval_bind, b.eval_table opened, Success.bind_eq_ok, eval_pure] at found
    obtain ⟨t, ht, others, hothers, last⟩ := found
    cases last
    simp only [List.forall_mem_cons]
    exact ⟨s.mem_of_named ht, ih hothers⟩

theorem reads_joinRows (q : Query) {before rest : List (Join × Table)}
    (there : ∀ e ∈ rest, e.2 ∈ s.tables) (rows : List Row) :
    (joinRows b q before rest rows).Reads s := by
  induction rest generalizing before rows with
  | nil => exact .done _
  | cons entry rest ih =>
    obtain ⟨j, t⟩ := entry
    rw [List.forall_mem_cons] at there
    refine .bind (b.reads_rows opened there.1) fun rights _ => ?_
    exact .bind (.done _) fun merged _ => ih there.2 merged

theorem reads_select (q : Select) : (select b q).Reads s := by
  refine .bind (b.reads_table opened q.source.name) fun base hbase => ?_
  rw [b.eval_table opened] at hbase
  refine .bind (reads_joinedTables opened q.joins) fun joined hjoined => ?_
  have there := mem_of_joinedTables opened hjoined
  refine .bind (.done _) fun _ _ => ?_
  refine .bind (b.reads_rows opened (s.mem_of_named hbase)) fun rows _ => ?_
  refine .bind (reads_joinRows opened _ there _) fun merged _ => ?_
  exact .bind (reads_answer _ _) fun output _ => .done _

theorem reads_plan (st : Statement) : (plan b st).Reads s := by
  cases st with
  | select q => exact reads_select opened q
  | insert i => exact reads_insert opened i
  | update u => exact reads_update opened u
  | delete d => exact reads_delete opened d
  | createTable c => exact reads_createTable opened c
  | createIndex c => exact reads_createIndex opened c
  | dropTable d => exact reads_dropTable opened d
  | showTables => exact .bind (.ask opened ⟨_, rfl⟩) fun _ _ => .done _
  | describe name => exact .bind (b.reads_table opened name) fun _ _ => .done _

end

/-- Every statement begins with a call, before which it looks at the deadline. -/
theorem plan_of_passed (passed : b.deadline.passed = true) (st : Statement) :
    plan b st = .fail b.deadline.failure := by
  cases st <;>
    simp [plan, select, insert, update, delete, createTable, createIndex, dropTable, showTables,
      describe, Bounds.table, Bounds.findTable, Bounds.ask, ask_of_passed passed, Bind.bind,
      Script.bind, fail]

end Execution
end SqlEngine

import SqlEngine.Proofs.Execution.Reading
import SqlEngine.Proofs.Store.Writes

/-! The plan that a statement settles on, by kind of statement, with the checks that it has passed.
A store accepts all writes of such a plan one after the other. -/

namespace SqlEngine.Execution

open Dialect Script

variable {b : Bounds} {s : Store}

def partitionRows (scope : Scope) (condition : Option Condition) (rows : List StoredRow) :
    List StoredRow × List StoredRow :=
  rows.partition fun row => satisfies scope condition row.data

theorem eval_siftRows (scope : Scope) (condition : Option Condition) (rows : List StoredRow) :
    (sift scope condition StoredRow.data rows).eval s =
      .ok (partitionRows scope condition rows) :=
  eval_sift s scope condition StoredRow.data rows

inductive Settled (b : Bounds) (s : Store) : Statement → Plan → Prop where
  /-- The statement lists something, or finds that there is nothing to do. -/
  | nothing {st : Statement} {output : Output} : Settled b s st { output }
  | createTable {c : CreateTable} {columns : List Column} {output : Output}
      (absent : s.tableNamed? c.table = none)
      (settled : settleColumns c.columns = .ok columns)
      (quota : b.quotas.checkTables s.tableCount = .ok ()) :
      Settled b s (.createTable c) { writes := [.createTable c.table columns []], output }
  | dropTable {d : DropTable} {t : Table} {output : Output}
      (named : s.named d.table = .ok t) :
      Settled b s (.dropTable d) { writes := [.dropTable t.id], output, change := .evict t.name }
  | createIndex {c : CreateIndex} {t : Table} {tree : Index.RowIndex} {output : Output}
      (named : s.named c.table = .ok t)
      (allowed : checkIndex t c.index = .ok ())
      (built : Index.RowIndex.build c.index (s.rowsOf t.id) = .ok tree) :
      Settled b s (.createIndex c) {
        writes := [.setIndexes t.id (t.indexes ++ [c.index])], output,
        change := .put t.name c.index.name tree }
  | insert {i : Insert} {t : Table} {columns : List Column} {rows : List Row}
      (named : s.named i.table = .ok t)
      (received : targets t i.columns i.values = .ok columns)
      (quota : b.quotas.checkRows t.name (s.rowsOf t.id).length i.values.length = .ok ())
      (staged : insertedRows t columns ((s.rowsOf t.id).map (·.data)) i.values = .ok rows) :
      Settled b s (.insert i) {
        writes := rows.map (.insertRow t.id)
        output := .modification rows.length
          (changedMessage rows.length "inserted into" t.name) none }
  | update {u : Update} {t : Table} {changes : List (Column × Value)} {staged : List (Nat × Row)}
      (named : s.named u.table = .ok t)
      (converted : conversions t u.assignments = .ok changes)
      (readable : checkCondition t (.ofTable t.name none) u.condition = .ok ())
      (passed : updatedRows t changes
        (partitionRows (.ofTable t.name none) u.condition (s.rowsOf t.id)).1
        (partitionRows (.ofTable t.name none) u.condition (s.rowsOf t.id)).2 = .ok staged) :
      Settled b s (.update u) {
        writes := staged.map fun entry => .updateRow entry.1 entry.2
        output := .modification staged.length (changedMessage staged.length "updated in" t.name)
          (everyRowWarning u.condition "UPDATE without WHERE modified" t.name) }
  | delete {d : Delete} {t : Table} {meant : List StoredRow}
      (named : s.named d.table = .ok t)
      (readable : checkCondition t (.ofTable t.name none) d.condition = .ok ())
      (chosen : (partitionRows (.ofTable t.name none) d.condition (s.rowsOf t.id)).1 = meant) :
      Settled b s (.delete d) {
        writes := meant.map fun row => .deleteRow row.id
        output := .modification meant.length (changedMessage meant.length "deleted from" t.name)
          (everyRowWarning d.condition "DELETE without WHERE removed" t.name) }

section

variable (opened : b.deadline.passed = false) {p : Plan}
include opened

theorem settled_createTable {c : CreateTable} (ok : (createTable b c).eval s = .ok p) :
    Settled b s (.createTable c) p := by
  simp only [createTable, eval_bind, b.eval_findTable opened, Success.bind_eq_ok] at ok
  obtain ⟨found, hfound, ok⟩ := ok
  cases hfound
  split at ok
  · split at ok <;> cases ok
    exact .nothing
  · next absent =>
    simp only [eval_bind, eval_ofExcept, Halt.lift_eq_ok, eval_pure, Success.bind_eq_ok, Bounds.ask,
      eval_ask opened (rfl : s.answer .tableCount = .ok (s.tableCount, s))] at ok
    obtain ⟨columns, settled, present, counted, ⟨⟩, quota, ok⟩ := ok
    cases counted
    cases ok
    exact .createTable (by simpa using absent) settled quota

theorem settled_dropTable {d : DropTable} (ok : (dropTable b d).eval s = .ok p) :
    Settled b s (.dropTable d) p := by
  simp only [dropTable, eval_bind, b.eval_findTable opened, Success.bind_eq_ok] at ok
  obtain ⟨found, hfound, ok⟩ := ok
  cases hfound
  split at ok
  · next t named =>
    cases ok
    exact .dropTable (Store.named_eq_ok.mpr named)
  · split at ok
    · cases ok
      exact .nothing
    · rw [b.eval_unknownTable opened] at ok
      cases ok

theorem settled_createIndex {c : CreateIndex} (ok : (createIndex b c).eval s = .ok p) :
    Settled b s (.createIndex c) p := by
  simp only [createIndex, eval_bind, b.eval_table opened, eval_ofExcept, Halt.lift_eq_ok, eval_pure,
    Success.bind_eq_ok] at ok
  obtain ⟨t, named, ⟨⟩, allowed, rows, read, tree, built, ok⟩ := ok
  rw [b.eval_rows opened (s.mem_of_named named)] at read
  cases read
  cases ok
  exact .createIndex named allowed built

theorem eval_insert_eq_ok {i : Insert} : (insert b i).eval s = .ok p ↔
    ∃ t, s.named i.table = .ok t ∧ ∃ columns, targets t i.columns i.values = .ok columns ∧
      b.quotas.checkRows t.name (s.rowsOf t.id).length i.values.length = .ok () ∧
      ∃ rows, insertedRows t columns ((s.rowsOf t.id).map (·.data)) i.values = .ok rows ∧
        p = {
          writes := rows.map (.insertRow t.id)
          output := .modification rows.length
            (changedMessage rows.length "inserted into" t.name) none } := by
  simp only [insert, eval_bind, b.eval_table opened, eval_ofExcept, Halt.lift_eq_ok, eval_pure, Success.bind_eq_ok]
  constructor
  · rintro ⟨t, named, columns, received, existing, read, ⟨⟩, quota, rows, staged, ok⟩
    rw [b.eval_rows opened (s.mem_of_named named)] at read
    cases read
    cases ok
    exact ⟨t, named, columns, received, quota, rows, staged, rfl⟩
  · rintro ⟨t, named, columns, received, quota, rows, staged, rfl⟩
    exact ⟨t, named, columns, received, _, b.eval_rows opened (s.mem_of_named named), (), quota,
      rows, staged, rfl⟩

theorem settled_insert {i : Insert} (ok : (insert b i).eval s = .ok p) :
    Settled b s (.insert i) p := by
  obtain ⟨t, named, columns, received, quota, rows, staged, rfl⟩ := (eval_insert_eq_ok opened).mp ok
  exact .insert named received quota staged

theorem settled_update {u : Update} (ok : (update b u).eval s = .ok p) :
    Settled b s (.update u) p := by
  simp only [update, eval_bind, b.eval_table opened, eval_ofExcept, Halt.lift_eq_ok, eval_pure,
    eval_siftRows, Success.bind_eq_ok] at ok
  obtain ⟨t, named, changes, converted, ⟨⟩, readable, rows, read, _, ⟨⟩, staged, passed, ok⟩ := ok
  rw [b.eval_rows opened (s.mem_of_named named)] at read
  cases read
  cases ok
  exact .update named converted readable passed

theorem eval_update {u : Update} {t : Table} {changes : List (Column × Value)}
    {staged : List (Nat × Row)} (named : s.named u.table = .ok t)
    (converted : conversions t u.assignments = .ok changes)
    (readable : checkCondition t (.ofTable t.name none) u.condition = .ok ())
    (passed : updatedRows t changes
      (partitionRows (.ofTable t.name none) u.condition (s.rowsOf t.id)).1
      (partitionRows (.ofTable t.name none) u.condition (s.rowsOf t.id)).2 = .ok staged) :
    (update b u).eval s = .ok {
      writes := staged.map fun entry => .updateRow entry.1 entry.2
      output := .modification staged.length (changedMessage staged.length "updated in" t.name)
        (everyRowWarning u.condition "UPDATE without WHERE modified" t.name) } := by
  simp only [update, eval_bind, b.eval_table opened, eval_ofExcept, Halt.lift_eq_ok, eval_pure, Success.bind_eq_ok]
  exact ⟨t, named, changes, converted, (), readable, _, b.eval_rows opened (s.mem_of_named named),
    _, eval_siftRows .., staged, passed, rfl⟩

theorem settled_delete {d : Delete} (ok : (delete b d).eval s = .ok p) :
    Settled b s (.delete d) p := by
  simp only [delete, eval_bind, b.eval_table opened, eval_ofExcept, Halt.lift_eq_ok, eval_pure,
    eval_siftRows, Success.bind_eq_ok] at ok
  obtain ⟨t, named, ⟨⟩, readable, rows, read, _, ⟨⟩, ok⟩ := ok
  rw [b.eval_rows opened (s.mem_of_named named)] at read
  cases read
  cases ok
  exact .delete named readable rfl

theorem settled_plan {st : Statement} (ok : (plan b st).eval s = .ok p) : Settled b s st p := by
  cases st with
  | select q =>
    simp only [plan, select, eval_bind, eval_pure, Success.bind_eq_ok] at ok
    obtain ⟨_, _, _, _, _, _, _, _, _, _, output, _, ok⟩ := ok
    cases ok
    exact .nothing
  | insert i => exact settled_insert opened ok
  | update u => exact settled_update opened ok
  | delete d => exact settled_delete opened ok
  | createTable c => exact settled_createTable opened ok
  | createIndex c => exact settled_createIndex opened ok
  | dropTable d => exact settled_dropTable opened ok
  | showTables =>
    simp only [plan, showTables, eval_bind, eval_pure, Success.bind_eq_ok] at ok
    obtain ⟨names, _, ok⟩ := ok
    cases ok
    exact .nothing
  | describe name =>
    simp only [plan, describe, eval_bind, eval_pure, Success.bind_eq_ok] at ok
    obtain ⟨t, _, ok⟩ := ok
    cases ok
    exact .nothing

end
end SqlEngine.Execution

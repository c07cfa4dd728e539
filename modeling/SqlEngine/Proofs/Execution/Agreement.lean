import SqlEngine.Proofs.Execution.Frame
import SqlEngine.Proofs.Execution.Settled
import SqlEngine.Proofs.Execution.Twins

/-! Over two stores that agree in the tables of a statement, the statement fails in the same way or
settles on plans that come to the same. -/

namespace SqlEngine

open Dialect Execution Script Store

/-- Whether a statement is about the rows, the columns and the indexes of tables that are there. -/
def Dialect.Statement.isLocal : Statement → Bool
  | createTable _ => false
  | dropTable _ => false
  | showTables => false
  | _ => true

/-- Plans over two stores that answer the same, and whose writes leave the tables of some names in
agreement. -/
structure Plan.Agree (s s' : Store) (names : List String) (p p' : Plan) : Prop where
  output : p.output = p'.output
  after : ∀ name ∈ names, (s.afterCalls p.writes).Agree (s'.afterCalls p'.writes) name

namespace Execution

variable {b : Bounds} {s s' : Store} (opened : b.deadline.passed = false)
include opened

theorem rows_alike {t u : Table} (h : s.Twins s' t u) :
    Alike (fun rows rows' => rows = s.rowsOf t.id ∧ rows' = s'.rowsOf u.id)
      ((b.rows t).eval s) ((b.rows u).eval s') := by
  rw [b.eval_rows opened h.left, b.eval_rows opened h.right]
  exact .ok ⟨rfl, rfl⟩

theorem joinRows_alike {q q' : Query} (alike : q.Alike q')
    {before before' rest rest' : List (Join × Table)}
    (passed : List.Forall₂ Query.JoinAlike before before')
    (left : List.Forall₂ (fun a c => a.1 = c.1 ∧ s.Twins s' a.2 c.2) rest rest')
    (rows : List Row) :
    Alike Eq ((joinRows b q before rest rows).eval s)
      ((joinRows b q' before' rest' rows).eval s') := by
  induction left generalizing before before' rows with
  | nil => exact .ok rfl
  | @cons a c _ _ head _ ih =>
    obtain ⟨j, t⟩ := a
    obtain ⟨k, u⟩ := c
    obtain ⟨rfl, twins⟩ : j = k ∧ s.Twins s' t u := head
    have same : Query.JoinAlike (j, t) (j, u) := ⟨rfl, twins.alike⟩
    simp only [joinRows, eval_bind, eval_ofExcept, alike.scope, alike.keysAfter passed,
      twins.alike.columnNames]
    refine (rows_alike opened twins).bind fun rights rights' read _ _ => ?_
    rw [read.1, read.2, twins.data]
    exact .step rfl fun merged _ => ih (List.rel_append passed (.cons same .nil)) merged

variable (hs : s.Numbered) (hs' : s'.Numbered)
include hs hs'

theorem joinedTables_alike {joins : List Join} (agree : ∀ j ∈ joins, s.Agree s' j.table.name) :
    Alike (List.Forall₂ fun a c => a.1 = c.1 ∧ s.Twins s' a.2 c.2)
      ((joinedTables b joins).eval s) ((joinedTables b joins).eval s') := by
  induction joins with
  | nil => exact .ok .nil
  | cons j rest ih =>
    rw [List.forall_mem_cons] at agree
    simp only [joinedTables, eval_bind, b.eval_table opened, eval_pure]
    refine (agree.1.named hs hs').bind fun t u twins _ _ => ?_
    exact (ih agree.2).bind fun joined joined' found _ _ => .ok (.cons ⟨rfl, twins⟩ found)

theorem select_agrees {q : Select}
    (agree : ∀ name ∈ (Statement.select q).tables, s.Agree s' name) :
    Alike (Plan.Agree s s' (Statement.select q).tables) ((select b q).eval s)
      ((select b q).eval s') := by
  have parts := agree
  simp only [Statement.tables, List.forall_mem_cons, List.forall_mem_map] at parts
  simp only [select, eval_bind, b.eval_table opened, eval_ofExcept, eval_pure]
  refine (parts.1.named hs hs').bind fun base base' twins _ _ => ?_
  refine (joinedTables_alike opened hs hs' parts.2).bind fun joined joined' found _ _ => ?_
  have alike : Query.Alike ⟨q, base, joined⟩ ⟨q, base', joined'⟩ :=
    ⟨rfl, twins.alike, found.imp fun _ _ same => ⟨same.1, same.2.alike⟩⟩
  refine .check alike.check fun _ _ => ?_
  refine (rows_alike opened twins).bind fun rows rows' read _ _ => ?_
  rw [read.1, read.2, twins.data]
  refine (joinRows_alike opened alike .nil found _).bind fun merged merged' same _ _ => ?_
  subst same
  rw [Query.eval_answer, Query.eval_answer]
  exact .step (alike.finish merged) fun output _ => .ok ⟨rfl, agree⟩

theorem describe_agrees {name : String} (agree : s.Agree s' name) :
    Alike (Plan.Agree s s' [name]) ((describe b name).eval s) ((describe b name).eval s') := by
  simp only [describe, eval_bind, b.eval_table opened, eval_pure]
  refine (agree.named hs hs').bind fun t u twins _ _ => ?_
  rw [twins.alike.columns]
  exact .ok ⟨rfl, List.forall_mem_singleton.mpr agree⟩

theorem createIndex_agrees {c : CreateIndex} (agree : s.Agree s' c.table) :
    Alike (Plan.Agree s s' [c.table]) ((createIndex b c).eval s) ((createIndex b c).eval s') := by
  simp only [createIndex, eval_bind, b.eval_table opened, eval_ofExcept, eval_pure]
  refine (agree.named hs hs').bind fun t u twins named _ => ?_
  refine .check (twins.alike.checkIndex c.index) fun _ _ => ?_
  refine (rows_alike opened twins).bind fun rows rows' read _ _ => ?_
  rw [read.1, read.2]
  -- One index may hold other numbers of rows than the other, but neither plan tells.
  obtain ⟨σ, renamed⟩ := Index.RowIndex.build_alike c.index (hs.rowsOf_ids t.id)
    (hs'.rowsOf_ids u.id) twins.data
  rw [renamed]
  cases Index.RowIndex.build c.index (s.rowsOf t.id) with
  | error e => exact .error (Halt.failed e)
  | ok tree =>
    refine .ok ⟨by rw [twins.alike.name], List.forall_mem_singleton.mpr ?_⟩
    rw [← twins.alike.indexes]
    exact ⟨_, _, twins.reindexed _, (mem_of_tableNamed? (named_eq_ok.mp named)).2⟩

theorem insert_agrees {i : Insert} (agree : s.Agree s' i.table) :
    Alike (Plan.Agree s s' [i.table]) ((insert b i).eval s) ((insert b i).eval s') := by
  simp only [insert, eval_bind, b.eval_table opened, eval_ofExcept, eval_pure]
  refine (agree.named hs hs').bind fun t u twins named _ => ?_
  refine .check (twins.alike.targets i.columns i.values) fun columns _ => ?_
  refine (rows_alike opened twins).bind fun rows rows' read _ _ => ?_
  rw [read.1, read.2, twins.data]
  refine .check (by rw [twins.alike.name, twins.length]) fun _ _ => ?_
  refine .check (twins.alike.insertedRows columns _ i.values) fun staged _ => ?_
  refine .ok ⟨by rw [twins.alike.name], List.forall_mem_singleton.mpr ?_⟩
  exact ⟨t, u, twins.inserted staged, (mem_of_tableNamed? (named_eq_ok.mp named)).2⟩

theorem update_agrees {c : Update} (agree : s.Agree s' c.table) :
    Alike (Plan.Agree s s' [c.table]) ((update b c).eval s) ((update b c).eval s') := by
  simp only [update, eval_bind, b.eval_table opened, eval_ofExcept, eval_pure]
  refine (agree.named hs hs').bind fun t u twins named _ => ?_
  rw [← twins.alike.name]
  refine .check (twins.alike.conversions c.assignments) fun changes _ => ?_
  refine .check (twins.alike.checkCondition _ c.condition) fun _ _ => ?_
  refine (rows_alike opened twins).bind fun rows rows' read _ _ => ?_
  rw [read.1, read.2, eval_siftRows, eval_siftRows]
  refine (twins.alike.updatedRows changes ?_ ?_).lift.bind fun staged staged' same ok ok' => ?_
  · rw [map_data_meant, map_data_meant, twins.data]
  · rw [map_data_others, map_data_others, twins.data]
  have length : staged.length = staged'.length := by simpa using congrArg List.length same
  refine .ok ⟨by rw [length], List.forall_mem_singleton.mpr ?_⟩
  exact ⟨t, u, twins.updated hs hs' (Halt.lift_eq_ok.mp ok)
    (Halt.lift_eq_ok.mp ok') same, (mem_of_tableNamed? (named_eq_ok.mp named)).2⟩

theorem delete_agrees {d : Delete} (agree : s.Agree s' d.table) :
    Alike (Plan.Agree s s' [d.table]) ((delete b d).eval s) ((delete b d).eval s') := by
  simp only [delete, eval_bind, b.eval_table opened, eval_ofExcept, eval_pure]
  refine (agree.named hs hs').bind fun t u twins named _ => ?_
  rw [← twins.alike.name]
  refine .check (twins.alike.checkCondition _ d.condition) fun _ _ => ?_
  refine (rows_alike opened twins).bind fun rows rows' read _ _ => ?_
  rw [read.1, read.2, eval_siftRows, eval_siftRows]
  have length := congrArg List.length
    (map_data_meant (.ofTable t.name none) d.condition (s.rowsOf t.id))
  rw [twins.data, ← map_data_meant, List.length_map, List.length_map] at length
  refine .ok ⟨by simp only [length], List.forall_mem_singleton.mpr ?_⟩
  exact ⟨t, u, twins.deleted hs hs', (mem_of_tableNamed? (named_eq_ok.mp named)).2⟩

omit opened in
theorem plan_agrees {st : Statement} (isLocal : st.isLocal = true)
    (agree : ∀ name ∈ st.tables, s.Agree s' name) :
    Alike (Plan.Agree s s' st.tables) ((plan b st).eval s) ((plan b st).eval s') := by
  cases passed : b.deadline.passed with
  | true =>
    rw [plan_of_passed passed]
    exact .error _
  | false =>
    cases st with
    | select q => exact select_agrees passed hs hs' agree
    | insert i => exact insert_agrees passed hs hs' (List.forall_mem_singleton.mp agree)
    | update c => exact update_agrees passed hs hs' (List.forall_mem_singleton.mp agree)
    | delete d => exact delete_agrees passed hs hs' (List.forall_mem_singleton.mp agree)
    | createIndex c => exact createIndex_agrees passed hs hs' (List.forall_mem_singleton.mp agree)
    | describe name => exact describe_agrees passed hs hs' (List.forall_mem_singleton.mp agree)
    | createTable | dropTable | showTables => cases isLocal

end Execution
end SqlEngine

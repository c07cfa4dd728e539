import SqlEngine.Proofs.Alike
import SqlEngine.Proofs.Execution.Answer

/-! The checks and computations of a statement read the name, the columns and the indexes of a
table, and never the number that the store has given to it. -/

namespace SqlEngine

open Dialect Execution

structure Table.Alike (t u : Table) : Prop where
  name : t.name = u.name
  columns : t.columns = u.columns
  indexes : t.indexes = u.indexes

namespace Table.Alike

variable {t u : Table} (h : t.Alike u)
include h

theorem columnNames : t.columnNames = u.columnNames := by
  rw [Table.columnNames, h.columns, Table.columnNames]

theorem column? : t.column? = u.column? := by
  funext name
  rw [Table.column?, h.columns, Table.column?]

theorem hasColumn : t.hasColumn = u.hasColumn := by
  funext name
  rw [Table.hasColumn, h.column?, Table.hasColumn]

theorem unknownColumn : t.unknownColumn = u.unknownColumn := by
  funext column
  rw [Table.unknownColumn, h.name, h.columnNames, Table.unknownColumn]

theorem columnNamed : t.columnNamed = u.columnNamed := by
  funext name
  simp only [Table.columnNamed, h.column?, h.unknownColumn]

theorem checkIndex (d : IndexDefinition) : checkIndex t d = Execution.checkIndex u d := by
  simp only [Execution.checkIndex, Table.index?, h.indexes, h.name, h.hasColumn, h.unknownColumn]
  rfl

theorem checkCondition (scope : Scope) (condition : Option Condition) :
    checkCondition t scope condition = Execution.checkCondition u scope condition := by
  simp only [Execution.checkCondition, h.columnNames, h.unknownColumn]

theorem listedColumns (seen names : List String) :
    listedColumns t seen names = Execution.listedColumns u seen names := by
  induction names generalizing seen with
  | nil => rfl
  | cons name rest ih => simp only [Execution.listedColumns, h.columnNamed, ih]

theorem targets (names : Option (List String)) (values : List (List Value)) :
    targets t names values = Execution.targets u names values := by
  simp only [Execution.targets, h.columns, h.listedColumns]

theorem checkUnique : checkUnique t = Execution.checkUnique u := by
  funext others row
  simp only [Execution.checkUnique, Table.uniqueColumns, h.columns, h.name]

theorem newRow : newRow t = Execution.newRow u := by
  funext given next
  simp only [Execution.newRow, h.columns]

theorem autoIncrement? : t.autoIncrement? = u.autoIncrement? := by
  rw [Table.autoIncrement?, h.columns, Table.autoIncrement?]

theorem stageRows (columns : List Column) (existing : List Row) (number : Nat)
    (next : Option Int64) (staged : List Row) (values : List (List Value)) :
    stageRows t columns existing number next staged values =
      Execution.stageRows u columns existing number next staged values := by
  induction values generalizing number next staged with
  | nil => rfl
  | cons given rest ih =>
    simp only [Execution.stageRows, h.newRow, h.checkUnique, h.autoIncrement?, ih]

theorem insertedRows (columns : List Column) (existing : List Row) (values : List (List Value)) :
    insertedRows t columns existing values = Execution.insertedRows u columns existing values := by
  simp only [Execution.insertedRows, h.autoIncrement?, h.stageRows]

theorem conversions (assignments : List (String × Value)) :
    conversions t assignments = Execution.conversions u assignments := by
  simp only [Execution.conversions, h.columnNamed]

theorem checkStaged (staying before rows : List Row) :
    checkStaged t staying before rows = Execution.checkStaged u staying before rows := by
  induction rows generalizing before with
  | nil => rfl
  | cons row rest ih => simp only [Execution.checkStaged, h.checkUnique, ih]

theorem updatedRows (changes : List (Column × Value)) {meant meant' others others' : List StoredRow}
    (same : meant.map (·.data) = meant'.map (·.data))
    (rest : others.map (·.data) = others'.map (·.data)) :
    SqlEngine.Alike (fun staged staged' => staged.map (·.2) = staged'.map (·.2))
      (updatedRows t changes meant others) (Execution.updatedRows u changes meant' others') := by
  have pairs : List.Forall₂ (fun r q : StoredRow => r.data = q.data) meant meant' := by
    rwa [← List.forall₂_eq_eq_eq, List.forall₂_map_left_iff, List.forall₂_map_right_iff] at same
  have made := SqlEngine.Alike.mapM pairs fun r q equal =>
    show SqlEngine.Alike (fun e e' : Nat × Row => e.2 = e'.2)
      (do return (r.id, ← assignAll changes r.data)) (do return (q.id, ← assignAll changes q.data))
    from .step (by rw [equal]) fun row _ => .ok rfl
  refine made.bind fun staged staged' listed _ _ => ?_
  have data : staged.map (·.2) = staged'.map (·.2) := by
    rwa [← List.forall₂_eq_eq_eq, List.forall₂_map_left_iff, List.forall₂_map_right_iff]
  exact .step (by rw [h.checkStaged, rest, data]) fun _ _ => .ok data

end Table.Alike

namespace Query

def JoinAlike (a b : Join × Table) : Prop := a.1 = b.1 ∧ a.2.Alike b.2

structure Alike (q p : Query) : Prop where
  select : q.select = p.select
  base : q.base.Alike p.base
  joined : List.Forall₂ JoinAlike q.joined p.joined

theorem JoinAlike.find? {xs ys : List (Join × Table)} (h : List.Forall₂ JoinAlike xs ys)
    (meant : Join → Bool) :
    Option.Rel JoinAlike (xs.find? fun a => meant a.1) (ys.find? fun b => meant b.1) := by
  induction h with
  | nil => exact .none
  | @cons a b _ _ head _ ih =>
    rw [List.find?_cons, List.find?_cons, head.1]
    cases meant b.1 with
    | true => exact .some head
    | false => exact ih

namespace Alike

variable {q p : Query} (h : q.Alike p)
include h

theorem scope : q.scope = p.scope := by
  rw [Query.scope, h.base.name, h.select, Query.scope]

theorem keysAfter {before before' : List (Join × Table)}
    (same : List.Forall₂ JoinAlike before before') : q.keysAfter before = p.keysAfter before' := by
  have keys : (before.flatMap fun a => boundColumns a.1 a.2) =
      before'.flatMap fun b => boundColumns b.1 b.2 := by
    induction same with
    | nil => rfl
    | cons head _ ih =>
      rw [List.flatMap_cons, List.flatMap_cons, ih, boundColumns, boundColumns, head.1,
        head.2.columnNames]
  rw [Query.keysAfter, Query.keysAfter, keys, h.base.columnNames]

theorem available : q.available = p.available := h.keysAfter h.joined

theorem isGrouped : q.isGrouped = p.isGrouped := by
  rw [Query.isGrouped, h.select, Query.isGrouped]

theorem unknownColumn : q.unknownColumn = p.unknownColumn := by
  funext name available
  simp only [Query.unknownColumn, h.base.name]
  cases Scope.splitQualifier name with
  | none => rfl
  | some parts =>
    have found := JoinAlike.find? h.joined fun j => j.table.isNamed parts.1
    simp only [Option.bind_some]
    revert found
    generalize q.joined.find? _ = a
    generalize p.joined.find? _ = b
    intro found
    cases found with
    | none => rfl
    | some same => exact congrFun same.2.unknownColumn name

theorem checkNameAmong : q.checkNameAmong = p.checkNameAmong := by
  funext available name
  simp only [Query.checkNameAmong, h.scope, h.unknownColumn]

theorem checkName : q.checkName = p.checkName := by
  funext name
  simp only [Query.checkName, h.checkNameAmong, h.available]

theorem checkJoins {before before' rest rest' : List (Join × Table)}
    (passed : List.Forall₂ JoinAlike before before') (left : List.Forall₂ JoinAlike rest rest') :
    q.checkJoins before rest = p.checkJoins before' rest' := by
  induction left generalizing before before' with
  | nil => rfl
  | @cons a b _ _ head _ ih =>
    have next := ih (List.rel_append passed (.cons head .nil))
    obtain ⟨j, t⟩ := a
    obtain ⟨k, u⟩ := b
    obtain ⟨rfl, same⟩ : j = k ∧ t.Alike u := head
    simp only [Query.checkJoins, Query.checkJoin, h.scope, same.hasColumn, same.unknownColumn,
      h.checkNameAmong, h.keysAfter passed, next]

theorem check : q.check = p.check := by
  have items : q.checkItem = p.checkItem := by
    funext item
    simp only [Query.checkItem, h.checkName]
  have having : q.checkHavingName = p.checkHavingName := by
    funext name
    simp only [Query.checkHavingName, h.checkName, h.select]
  have order : q.checkOrderName = p.checkOrderName := by
    funext name
    simp only [Query.checkOrderName, h.checkName, h.select, h.isGrouped]
  simp only [Query.check, h.checkJoins .nil h.joined, Query.checkItems, h.select, h.isGrouped, items,
    having, order, h.checkName]

theorem finish (rows : List Row) : q.finish rows = p.finish rows := by
  have projected : q.project = p.project := by
    funext row
    simp only [Query.project, h.select, h.available, h.scope]
  have grouped : q.groupedPage = p.groupedPage := by
    funext kept
    simp only [Query.groupedPage, Query.groupedSortNames, h.select, h.scope]
  simp only [Query.finish, Query.groupedRows, Query.keptGroups, Query.plainRows,
    Query.plainColumns, Query.plainSortNames, h.isGrouped, h.select, h.scope, h.available,
    projected, grouped]

end Alike
end Query
end SqlEngine

import SqlEngine.Proofs.Engine.Selection
import SqlEngine.Proofs.Execution.Twins
import SqlEngine.Proofs.Relation.Names

/-! A condition means the same rows of a table in a SELECT, in a DELETE and in an UPDATE, and all
three refuse the same conditions. -/

namespace SqlEngine

open Dialect Execution Script Store

/-- Every column that the condition reads is one of the table. -/
def Dialect.Condition.Known (c : Condition) (t : Table) : Prop :=
  ∀ name ∈ c.columns, ∃ key ∈ t.columnNames, (Scope.ofTable t.name none).Means name key

namespace Execution

variable {t : Table} {c : Condition}

theorem checkCondition_some (t : Table) (c : Condition) :
    checkCondition t (.ofTable t.name none) (some c) =
      match c.columns.find? fun name =>
          ((Scope.ofTable t.name none).key? t.columnNames name).isNone with
      | some name => .error (t.unknownColumn name)
      | none => .ok () := rfl

theorem checkCondition_of_known (known : c.Known t) :
    checkCondition t (.ofTable t.name none) (some c) = .ok () := by
  have found : c.columns.find? (fun name =>
      ((Scope.ofTable t.name none).key? t.columnNames name).isNone) = none := by
    rw [List.find?_eq_none]
    intro name hname missing
    obtain ⟨key, listed, means⟩ := known name hname
    exact Scope.key?_isNone.mp missing key listed means
  rw [checkCondition_some, found]

theorem checkCondition_of_unknown (unknown : ¬c.Known t) :
    ∃ name ∈ c.columns, (∀ key ∈ t.columnNames, ¬(Scope.ofTable t.name none).Means name key) ∧
      checkCondition t (.ofTable t.name none) (some c) = .error (t.unknownColumn name) := by
  rw [checkCondition_some]
  cases found : c.columns.find? fun name =>
      ((Scope.ofTable t.name none).key? t.columnNames name).isNone with
  | none =>
    rw [List.find?_eq_none] at found
    refine absurd (fun name hname => ?_) unknown
    by_contra missing
    exact found name hname (Scope.key?_isNone.mpr fun key listed means =>
      missing ⟨key, listed, means⟩)
  | some name =>
    have missing := List.find?_some (p := fun name =>
      ((Scope.ofTable t.name none).key? t.columnNames name).isNone) found
    exact ⟨name, List.mem_of_find?_eq_some found, Scope.key?_isNone.mp missing, rfl⟩

end Execution

/-- All columns of the rows of one table that meet a condition. -/
def Dialect.Select.everything (table : String) (condition : Condition) : Select where
  distinct := false
  items := none
  source := ⟨table, none⟩
  joins := []
  condition := some condition
  groupBy := []
  having := none
  orderBy := []
  limit := none
  offset := none

namespace Query

theorem sortBy_nil (scope : Scope) (rows : List Row) : sortBy scope [] id rows = .ok rows := by
  have order : Sorting.OrderOn (fun a b => compareRows scope [] a b == .lt) (· ∈ rows) :=
    .of_cmp (compareRows_trans (by simp))
  obtain ⟨sorted, answered, sorts⟩ := Sorting.sort_sorts order fun _ h => h
  have same : sorted = rows := sorts.unique order (fun _ h => h) (.of_ordered
    (List.pairwise_of_forall fun _ _ => rfl))
  exact sortBy_eq_ok.mpr (same ▸ answered)

def everything (t : Table) (c : Condition) : Query := ⟨.everything t.name c, t, []⟩

variable {t : Table}

theorem everything_over {s : Store} (ht : t ∈ s.tables) (c : Condition) :
    (everything t c).Over s :=
  ⟨ht, rfl, rfl, by simp [everything]⟩

theorem everything_available (c : Condition) : (everything t c).available = t.columnNames :=
  List.append_nil _

theorem everything_checkName (c : Condition) (name : String) :
    (everything t c).checkName name =
      if ((Scope.ofTable t.name none).key? t.columnNames name).isSome then .ok ()
      else .error (t.unknownColumn name) := by
  have failure : (everything t c).unknownColumn name t.columnNames = t.unknownColumn name := by
    unfold unknownColumn
    cases Scope.splitQualifier name <;> rfl
  rw [checkName, everything_available, checkNameAmong, failure]
  rfl

theorem everything_check (c : Condition) :
    (everything t c).check = checkCondition t (.ofTable t.name none) (some c) := by
  have names : (everything t c).check =
      (c.columns.forM (everything t c).checkName >>= fun _ => Except.ok ()) := rfl
  rw [names, checkCondition_some, funext (everything_checkName c), Success.forM_check]
  simp only [Option.not_isSome]
  cases c.columns.find? fun name =>
    ((Scope.ofTable t.name none).key? t.columnNames name).isNone <;> rfl

theorem everything_finish (distinct : t.columnNames.Nodup) (c : Condition) {rows : List Row}
    (names : ∀ row ∈ rows, row.names = t.columnNames) :
    (everything t c).finish rows =
      .ok (.rows t.columnNames (rows.filter (c.holds (.ofTable t.name none)))) := by
  have plain : (everything t c).isGrouped = false := rfl
  rw [finish_of_plain plain, plainRows_eq]
  have sorted : sortBy (everything t c).scope (everything t c).plainSortNames id
      (rows.filter (satisfies (everything t c).scope (everything t c).select.condition)) =
        .ok (rows.filter (c.holds (.ofTable t.name none))) := sortBy_nil _ _
  rw [sorted]
  have projected : (rows.filter (c.holds (.ofTable t.name none))).map (everything t c).project =
      rows.filter (c.holds (.ofTable t.name none)) := by
    refine (List.map_congr_left fun row hrow => ?_).trans (List.map_id _)
    have own := names row (List.mem_of_mem_filter hrow)
    show Row.ofEntries ((everything t c).available.map fun key => (key, row.get key)) = row
    rw [everything_available, ← own]
    exact Row.ofEntries_get (own ▸ distinct)
  show Except.ok (Output.rows (everything t c).available
    ((rows.filter (c.holds (.ofTable t.name none))).map (everything t c).project)) = _
  rw [projected, everything_available]

end Query

namespace Execution

variable {b : Bounds} {s : Store} (opened : b.deadline.passed = false) {t : Table}
include opened

theorem eval_delete {d : Delete} (named : s.named d.table = .ok t) :
    (delete b d).eval s =
      Halt.lift ((checkCondition t (.ofTable t.name none) d.condition).map fun _ =>
        let meant := (partitionRows (.ofTable t.name none) d.condition (s.rowsOf t.id)).1
        { writes := meant.map fun row => .deleteRow row.id
          output := .modification meant.length (changedMessage meant.length "deleted from" t.name)
            (everyRowWarning d.condition "DELETE without WHERE removed" t.name) }) := by
  simp only [delete, eval_bind, b.eval_table opened, named, eval_ofExcept, eval_pure]
  show (Halt.lift (checkCondition t (.ofTable t.name none) d.condition) >>= _) = _
  cases checkCondition t (.ofTable t.name none) d.condition with
  | error failure => rfl
  | ok u =>
    simp only [Halt.lift_ok, Success.ok_bind, b.eval_rows opened (s.mem_of_named named),
      eval_siftRows]
    rfl

/-- The values of an UPDATE are converted before its condition is looked at. -/
theorem eval_update_of_named {u : Update} (named : s.named u.table = .ok t) :
    (update b u).eval s = Halt.lift (conversions t u.assignments >>= fun changes =>
      checkCondition t (.ofTable t.name none) u.condition >>= fun _ =>
        let (meant, others) :=
          partitionRows (.ofTable t.name none) u.condition (s.rowsOf t.id)
        (updatedRows t changes meant others).map fun staged => {
          writes := staged.map fun entry => .updateRow entry.1 entry.2
          output := .modification staged.length (changedMessage staged.length "updated in" t.name)
            (everyRowWarning u.condition "UPDATE without WHERE modified" t.name) }) := by
  simp only [update, eval_bind, b.eval_table opened, named, eval_ofExcept, eval_pure,
    Halt.lift_bind, Success.ok_bind]
  congr 1
  funext changes
  congr 1
  funext passed
  simp only [b.eval_rows opened (s.mem_of_named named), Success.ok_bind, eval_siftRows]
  cases updatedRows t changes _ _ <;> rfl

omit opened

theorem columnNamed_name {name : String} {c : Column} (named : t.columnNamed name = .ok c) :
    c.name = name := by
  unfold Table.columnNamed Table.column? at named
  split at named
  · next found =>
    cases named
    simpa using List.find?_some found
  · cases named

theorem filled_names {assignments : List (String × Value)} {changes : List (Column × Value)}
    {entries : List (String × Value)} (converted : conversions t assignments = .ok changes)
    (settled : filled changes = .ok entries) : entries.map (·.1) = assignments.map (·.1) := by
  have assigned : changes.map (·.1.name) = assignments.map (·.1) := by
    rw [← List.forall₂_eq_eq_eq, List.forall₂_map_left_iff, List.forall₂_map_right_iff]
    refine (Success.mapM_eq_ok.mp converted).flip.imp ?_
    rintro change ⟨name, v⟩ made
    simp only [Success.bind_eq_ok, Success.pure_eq_ok] at made
    obtain ⟨c, named, w, -, rfl⟩ := made
    exact columnNamed_name named
  rw [← assigned, ← List.forall₂_eq_eq_eq, List.forall₂_map_left_iff, List.forall₂_map_right_iff]
  refine (Success.mapM_eq_ok.mp settled).flip.imp ?_
  rintro entry ⟨c, v⟩ made
  simp only [Success.bind_eq_ok, Success.pure_eq_ok] at made
  obtain ⟨w, -, rfl⟩ := made
  rfl

/-- The rows of a table after an UPDATE: those that it means have the same entries put into them,
the others are as they were. -/
theorem rowsOf_updated (hs : s.Numbered) {scope : Scope} {condition : Option Condition}
    {assignments : List (String × Value)} {changes : List (Column × Value)}
    {staged : List (Nat × Row)} (converted : conversions t assignments = .ok changes)
    (passed : updatedRows t changes (partitionRows scope condition (s.rowsOf t.id)).1
      (partitionRows scope condition (s.rowsOf t.id)).2 = .ok staged) :
    ∃ entries, entries.map (·.1) = assignments.map (·.1) ∧
      (s.afterCalls (staged.map fun e => .updateRow e.1 e.2)).rowsOf t.id =
        (s.rowsOf t.id).map fun r =>
          if satisfies scope condition r.data then { r with data := r.data.putAll entries }
          else r := by
  rw [afterCalls_updateRows hs passed, rowsOf_updateRows]
  obtain ⟨⟨entries, settled, rfl⟩, -⟩ := updatedRows_ok passed
  rw [partitionRows_fst] at settled ⊢
  rw [map_putStaged_filter (hs.rowsOf_ids t.id)]
  by_cases found : (s.rowsOf t.id).filter (fun r => satisfies scope condition r.data) = []
  · -- If no row is meant, any entries will do.
    refine ⟨assignments, rfl, List.map_congr_left fun r hr => ?_⟩
    have unmeant := List.filter_eq_nil_iff.mp found r hr
    rw [if_neg unmeant, if_neg unmeant]
  · exact ⟨entries, filled_names converted (settled found), rfl⟩

end Execution

namespace Engine

variable {e : Engine} {t : Table}

/-- What holds of every undisturbed run of a statement, by whatever text and for whatever caller
that is admitted. -/
def OnEveryRun (e : Engine) (st : Statement) (P : Step Response → Prop) : Prop :=
  ∀ now caller sql, (e.limiter.chargeThrough e.remote caller now).1 = .ok () →
    Statement.ofText sql = .ok st → P (e.execute noOutage now caller sql)

section

variable (h : Reachable e) (opened : e.deadline.passed = false) (ht : t ∈ e.store.tables)
include h opened ht

theorem Reachable.select_everything (c : Condition) :
    e.OnEveryRun (.select (.everything t.name c)) fun step =>
      step.result =
        .ofResult (Halt.lift ((checkCondition t (.ofTable t.name none) (some c)).map fun _ =>
          .rows t.columnNames (((e.store.rowsOf t.id).filter fun r =>
            c.holds (.ofTable t.name none) r.data).map (·.data)))) := by
  intro now caller sql admitted spelled
  have result := execute_query h.numbered opened admitted spelled (Query.everything_over ht c)
  rw [result, Query.everything_check]
  cases checkCondition t (.ofTable t.name none) (some c) with
  | error failure => rfl
  | ok u =>
    have finished := Query.everything_finish (h.declared ht).names c (h.data_names ht)
    rw [Store.data, List.filter_map] at finished
    exact congrArg Response.ofResult finished

theorem Reachable.delete_meant (c : Condition) :
    e.OnEveryRun (.delete ⟨t.name, some c⟩) fun step =>
      match checkCondition t (.ofTable t.name none) (some c) with
      | .error failure => step.result = .ofFailure failure
      | .ok _ => step.result.success = true ∧
          step.result.rowCount = some ((e.store.rowsOf t.id).filter fun r =>
            c.holds (.ofTable t.name none) r.data).length ∧
          step.engine.store.rowsOf t.id = (e.store.rowsOf t.id).filter fun r =>
            !c.holds (.ofTable t.name none) r.data := by
  intro now caller sql admitted spelled
  have planned : (plan e.bounds (.delete ⟨t.name, some c⟩)).eval e.store = _ :=
    eval_delete (b := e.bounds) opened (h.numbered.named ht)
  dsimp only at planned
  cases readable : checkCondition t (.ofTable t.name none) (some c) with
  | error failure =>
    rw [readable] at planned
    exact (execute_of_refused admitted spelled planned).1
  | ok u =>
    rw [readable] at planned
    obtain ⟨result, store⟩ := execute_of_settled admitted spelled h.numbered planned
    rw [result, store, afterCalls_deleteRows h.numbered, rowsOf_filter, partitionRows_fst,
      filter_not_doomed (h.numbered.rowsOf_ids t.id)]
    exact ⟨rfl, rfl, rfl⟩

theorem Reachable.update_meant (c : Condition) (assignments : List (String × Value)) :
    e.OnEveryRun (.update ⟨t.name, assignments, some c⟩) fun step =>
      match checkCondition t (.ofTable t.name none) (some c) with
      | .error failure => step.result = .ofFailure (match conversions t assignments with
          | .ok _ => failure
          | .error other => other)
      | .ok _ => step.result.success = true →
          step.result.rowCount = some ((e.store.rowsOf t.id).filter fun r =>
            c.holds (.ofTable t.name none) r.data).length ∧
          ∃ entries, entries.map (·.1) = assignments.map (·.1) ∧
            step.engine.store.rowsOf t.id = (e.store.rowsOf t.id).map fun r =>
              if c.holds (.ofTable t.name none) r.data then
                { r with data := r.data.putAll entries }
              else r := by
  intro now caller sql admitted spelled
  have planned : (plan e.bounds (.update ⟨t.name, assignments, some c⟩)).eval e.store = _ :=
    eval_update_of_named (b := e.bounds) opened (h.numbered.named ht)
  dsimp only at planned
  cases readable : checkCondition t (.ofTable t.name none) (some c) with
  | error failure =>
    rw [readable] at planned
    cases converted : conversions t assignments with
    | error other =>
      rw [converted] at planned
      exact (execute_of_refused admitted spelled planned).1
    | ok changes =>
      rw [converted] at planned
      exact (execute_of_refused admitted spelled planned).1
  | ok u =>
    intro succeeded
    cases settled : (plan e.bounds (.update ⟨t.name, assignments, some c⟩)).eval e.store with
    | error failure =>
      simp [(execute_of_refused admitted spelled settled).1] at succeeded
    | ok p =>
      obtain ⟨result, store⟩ := execute_of_settled admitted spelled h.numbered settled
      rw [settled, eq_comm, Halt.lift_eq_ok, Success.bind_eq_ok] at planned
      obtain ⟨changes, converted, planned⟩ := planned
      rw [readable] at planned
      obtain ⟨staged, passed, rfl⟩ := Success.map_eq_ok.mp planned
      have ids := congrArg List.length (staged_ids passed)
      rw [List.length_map, List.length_map, partitionRows_fst] at ids
      rw [result, store]
      exact ⟨congrArg some ids, rowsOf_updated h.numbered converted passed⟩

end

/-- If all columns of a condition are there, a SELECT under it returns the data of the rows that it
means and one under its negation that of the others. A DELETE leaves exactly the others, as they
were and in their order, and an UPDATE that succeeds puts the same values into the assigned columns
of the rows that it means and leaves everything else where and as it was; both report how many rows
are meant. If a column is not there all four fail for it, but an UPDATE whose values cannot be
assigned fails for that first. -/
theorem Reachable.same_rows_meant (h : Reachable e) (opened : e.deadline.passed = false)
    (ht : t ∈ e.store.tables) (c : Condition) (assignments : List (String × Value)) :
    let rows := e.store.rowsOf t.id
    let meant := fun r : StoredRow => c.holds (.ofTable t.name none) r.data
    (c.Known t →
      e.OnEveryRun (.select (.everything t.name c)) (fun step =>
        step.result =
          .ofOutput (.rows t.columnNames ((rows.filter meant).map (·.data)))) ∧
      e.OnEveryRun (.select (.everything t.name (.negation c))) (fun step =>
        step.result =
          .ofOutput (.rows t.columnNames ((rows.filter (!meant ·)).map (·.data)))) ∧
      e.OnEveryRun (.delete ⟨t.name, some c⟩) (fun step =>
        step.result.success = true ∧ step.result.rowCount = some (rows.filter meant).length ∧
          step.engine.store.rowsOf t.id = rows.filter (!meant ·)) ∧
      e.OnEveryRun (.update ⟨t.name, assignments, some c⟩) (fun step =>
        step.result.success = true →
          step.result.rowCount = some (rows.filter meant).length ∧
          ∃ entries, entries.map (·.1) = assignments.map (·.1) ∧
            step.engine.store.rowsOf t.id = rows.map fun r =>
              if meant r then { r with data := r.data.putAll entries } else r)) ∧
    (¬c.Known t → ∃ name ∈ c.columns,
      (∀ key ∈ t.columnNames, ¬(Scope.ofTable t.name none).Means name key) ∧
      e.OnEveryRun (.select (.everything t.name c)) (fun step =>
        step.result = .ofFailure (t.unknownColumn name)) ∧
      e.OnEveryRun (.select (.everything t.name (.negation c))) (fun step =>
        step.result = .ofFailure (t.unknownColumn name)) ∧
      e.OnEveryRun (.delete ⟨t.name, some c⟩) (fun step =>
        step.result = .ofFailure (t.unknownColumn name)) ∧
      e.OnEveryRun (.update ⟨t.name, assignments, some c⟩) (fun step =>
        step.result = .ofFailure (match conversions t assignments with
          | .ok _ => t.unknownColumn name
          | .error other => other))) := by
  intro rows meant
  have selected := h.select_everything opened ht c
  have others := h.select_everything opened ht (.negation c)
  have deleted := h.delete_meant opened ht c
  have updated := h.update_meant opened ht c assignments
  -- A condition and its negation read the same columns.
  have same : checkCondition t (.ofTable t.name none) (some (.negation c)) =
      checkCondition t (.ofTable t.name none) (some c) := rfl
  rw [same] at others
  refine ⟨fun known => ?_, fun unknown => ?_⟩
  · have readable := checkCondition_of_known known
    rw [readable] at selected others deleted updated
    exact ⟨selected, others, deleted, updated⟩
  · obtain ⟨name, listed, missing, refused⟩ := checkCondition_of_unknown unknown
    rw [refused] at selected others deleted updated
    exact ⟨name, listed, missing, selected, others, deleted, updated⟩

def withNulls : Engine := (ofConfiguration .testing noRemoteLimiter).afterTexts [
  "CREATE TABLE t (id INTEGER PRIMARY KEY, a INTEGER)",
  "INSERT INTO t VALUES (1, 5), (2, NULL), (3, 7), (4, 1)"]

def nullsTable : Table := keyed 1 "t" [{ name := "a", type := .integer }]

def nullsRow (id : Nat) (key : Int64) (a : Value) : StoredRow :=
  ⟨id, 1, ⟨[("id", .integer key), ("a", a)]⟩⟩

def nullsCondition : Condition :=
  .either (.test "t.a" (.compare .greater (.integer 4))) (.test "id" (.compare .equal (.integer 4)))

theorem withNulls_holds :
    withNulls.deadline.passed = false ∧ nullsTable ∈ withNulls.store.tables ∧
    (withNulls.limiter.chargeThrough withNulls.remote "ann" 0).1 = .ok () ∧
    (let meets (r : StoredRow) := nullsCondition.holds (Scope.ofTable "t" none) r.data
    (withNulls.store.rowsOf 1).filter meets = [nullsRow 1 1 (.integer 5),
        nullsRow 3 3 (.integer 7), nullsRow 4 4 (.integer 1)] ∧
      (withNulls.store.rowsOf 1).filter (!meets ·) = [nullsRow 2 2 .null]) ∧
    Statement.ofText "SELECT * FROM t WHERE NOT (t.a > 4 OR id = 4)" =
      .ok (.select (.everything "t" (.negation nullsCondition))) ∧
    Statement.ofText "DELETE FROM t WHERE t.a > 4 OR id = 4" =
      .ok (.delete ⟨"t", some nullsCondition⟩) := by
  decide +kernel

theorem nullsCondition_known : nullsCondition.Known nullsTable := by
  have split : Scope.splitQualifier "t.a" = some ("t", "a") := by rfl
  exact List.forall_mem_cons.mpr ⟨⟨"a", by decide, .base split (by decide)⟩,
    List.forall_mem_singleton.mpr ⟨"id", by decide, .exact⟩⟩

theorem same_rows_meant_withNulls :
    (withNulls.execute noOutage 0 "ann"
        "SELECT * FROM t WHERE NOT (t.a > 4 OR id = 4)").result =
      .ofOutput (.rows ["id", "a"] [(nullsRow 2 2 .null).data]) ∧
    (withNulls.execute noOutage 0 "ann" "DELETE FROM t WHERE t.a > 4 OR id = 4").result.rowCount =
      some 3 ∧
    (withNulls.execute noOutage 0 "ann"
        "DELETE FROM t WHERE t.a > 4 OR id = 4").engine.store.rowsOf 1 =
      [nullsRow 2 2 .null] := by
  obtain ⟨opened, there, admitted, ⟨met, unmet⟩, selects, deletes⟩ := withNulls_holds
  have reachable : Reachable withNulls := (Reachable.start _ _).afterTexts _
  have meant := reachable.same_rows_meant opened there nullsCondition []
  obtain ⟨-, others, deleted, -⟩ := meant.1 nullsCondition_known
  have others := others 0 "ann" _ admitted selects
  obtain ⟨-, count, left⟩ := deleted 0 "ann" _ admitted deletes
  refine ⟨others.trans ?_, count.trans ?_, left.trans unmet⟩
  · exact congrArg (fun rows : List StoredRow =>
      Response.ofOutput (.rows ["id", "a"] (rows.map (·.data)))) unmet
  · exact congrArg (fun rows : List StoredRow => some rows.length) met

end Engine
end SqlEngine

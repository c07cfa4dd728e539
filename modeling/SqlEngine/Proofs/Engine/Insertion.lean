import SqlEngine.Proofs.Engine.Selection
import SqlEngine.Proofs.Execution.Insertion

/-! What an INSERT does to its table. -/

namespace SqlEngine.Engine

open Dialect Execution Script Store

variable {e : Engine}

theorem rowsOf_inserted {s : Store} {t : Table} (ht : t ∈ s.tables) (rows : List Row) :
    (s.afterCalls (rows.map (.insertRow t.id))).rowsOf t.id =
      s.rowsOf t.id ++ Store.numbered t.id s.nextRow rows := by
  rw [(insertRows (hasTable_of_mem ht) rows).2, rowsOf_insertRows, if_pos rfl]

theorem data_inserted {s : Store} {t : Table} (ht : t ∈ s.tables) (rows : List Row) :
    (s.afterCalls (rows.map (.insertRow t.id))).data t = s.data t ++ rows := by
  rw [Store.data, rowsOf_inserted ht, List.map_append, map_data_numbered]
  rfl

theorem tables_inserted {s : Store} {t : Table} (ht : t ∈ s.tables) (rows : List Row) :
    (s.afterCalls (rows.map (.insertRow t.id))).tables = s.tables := by
  rw [(insertRows (hasTable_of_mem ht) rows).2]

theorem plan_insert_eq_ok {b : Bounds} {s : Store} {t : Table} {i : Insert} {p : Plan}
    (opened : b.deadline.passed = false) (named : s.named i.table = .ok t)
    (distinct : t.columnNames.Nodup) : (plan b (.insert i)).eval s = .ok p ↔
    ∃ columns, Receives t i.columns i.values columns ∧
      b.quotas.checkRows t.name (s.rowsOf t.id).length i.values.length = .ok () ∧
      ∃ rows, Stages t columns (s.data t) [] i.values rows ∧
        p = {
          writes := rows.map (.insertRow t.id)
          output := .modification rows.length
            (changedMessage rows.length "inserted into" t.name) none } := by
  have planned : (plan b (.insert i)).eval s = .ok p ↔ _ := eval_insert_eq_ok opened
  rw [planned]
  constructor
  · rintro ⟨u, found, columns, received, quota, rows, staged, is⟩
    obtain rfl : t = u := by rwa [named, Except.ok.injEq] at found
    rw [targets_eq_ok distinct] at received
    rw [insertedRows_eq_ok distinct received.mem (received.distinct distinct)] at staged
    exact ⟨columns, received, quota, rows, staged, is⟩
  · rintro ⟨columns, received, quota, rows, staged, is⟩
    rw [← insertedRows_eq_ok distinct received.mem (received.distinct distinct)] at staged
    rw [← targets_eq_ok distinct] at received
    exact ⟨t, named, columns, received, quota, rows, staged, is⟩

/-- An INSERT that succeeds, whichever calls may fail, leaves the rows of its table as they are and
puts one new row behind them for each row of values, in their order. In a new row each column has
taken its value: what a given value other than null is coerced to, else a generated number, the
default, or null. -/
theorem Reachable.insert_appends (h : Reachable e) (outage : Outage) (now : Nat)
    (caller : String) {sql : String} {i : Insert} (spelled : Statement.ofText sql = .ok (.insert i))
    (succeeded : (e.execute outage now caller sql).result.success = true) :
    ∃ t ∈ e.store.tables, t.name = i.table ∧
      ∃ columns, Receives t i.columns i.values columns ∧
        ∃ new : List StoredRow,
          (e.execute outage now caller sql).engine.store.rowsOf t.id = e.store.rowsOf t.id ++ new ∧
          (e.execute outage now caller sql).result.rowCount = some new.length ∧
          List.Forall₂ (fun values r => values.length = columns.length ∧
            ∃ next, Made t columns values next r.data) i.values new := by
  obtain ⟨⟨-, opened⟩, p, planned, result, store⟩ :=
    planned_of_success e outage now caller sql h.numbered spelled succeeded
  have inserted : (insert e.bounds i).eval e.store = .ok p := planned
  obtain ⟨t, named, -⟩ := (eval_insert_eq_ok opened).mp inserted
  obtain ⟨ht, same⟩ := mem_of_tableNamed? (named_eq_ok.mp named)
  obtain ⟨columns, received, -, rows, stages, rfl⟩ :=
    (plan_insert_eq_ok opened named (h.declared ht).names).mp planned
  refine ⟨t, ht, same, columns, received, Store.numbered t.id e.store.nextRow rows, ?_, ?_, ?_⟩
  · rw [store, rowsOf_inserted ht]
  · have length := congrArg List.length (map_data_numbered t.id e.store.nextRow rows)
    rw [List.length_map] at length
    rw [result, length]
    rfl
  · have each := stages.forall₂
    rw [← map_data_numbered t.id e.store.nextRow rows, List.forall₂_map_right_iff] at each
    exact each

theorem Reachable.execute_stages (h : Reachable e) {t : Table} (ht : t ∈ e.store.tables)
    (opened : e.deadline.passed = false) {now : Nat} {caller sql : String}
    (admitted : (e.limiter.chargeThrough e.remote caller now).1 = .ok ())
    {names : Option (List String)} {values : List (List Value)}
    (spelled : Statement.ofText sql = .ok (.insert ⟨t.name, names, values⟩)) {columns : List Column}
    (received : Receives t names values columns)
    (quota : e.bounds.quotas.checkRows t.name (e.store.rowsOf t.id).length values.length = .ok ())
    {rows : List Row} (stages : Stages t columns (e.store.data t) [] values rows) :
    (e.execute noOutage now caller sql).result =
        .ofOutput (.modification rows.length
          (changedMessage rows.length "inserted into" t.name) none) ∧
      (e.execute noOutage now caller sql).engine.store =
        e.store.afterCalls (rows.map (.insertRow t.id)) := by
  have planned := (plan_insert_eq_ok (b := e.bounds) (i := ⟨t.name, names, values⟩) opened
    (h.numbered.named ht) (h.declared ht).names).mpr ⟨columns, received, quota, rows, stages, rfl⟩
  exact execute_of_settled admitted spelled h.numbered planned

def withDefaults : Engine := (ofConfiguration .testing noRemoteLimiter).afterTexts [
  "CREATE TABLE t (id INTEGER PRIMARY KEY AUTO_INCREMENT, name TEXT NOT NULL DEFAULT 'x', " ++
    "score REAL DEFAULT 2, note TEXT)",
  "INSERT INTO t (name) VALUES ('old')"]

def defaultsTable : Table :=
  ⟨1, "t", [.asPrimaryKey { name := "id", type := .integer, autoIncrement := true },
    { name := "name", type := .text, notNull := true, default? := some (.text "x") },
    { name := "score", type := .real, default? := some (.real (.ofNat 2)) },
    { name := "note", type := .text }], []⟩

def mixedInsert : String :=
  "INSERT INTO t (note, name, id) VALUES (5, NULL, 10), (NULL, TRUE, NULL)"

def mixedValues : Insert :=
  ⟨"t", some ["note", "name", "id"],
    [[.integer 5, .null, .integer 10], [.null, .boolean true, .null]]⟩

theorem withDefaults_holds :
    Statement.ofText mixedInsert = .ok (.insert mixedValues) ∧
    (withDefaults.execute noOutage 0 "ann" mixedInsert).result.success = true ∧
    withDefaults.store.tables = [defaultsTable] := by
  decide +kernel

theorem insert_appends_withDefaults :
    ∃ columns, Receives defaultsTable mixedValues.columns mixedValues.values columns ∧
      ∃ new : List StoredRow,
        (withDefaults.execute noOutage 0 "ann" mixedInsert).engine.store.rowsOf 1 =
          withDefaults.store.rowsOf 1 ++ new ∧
        (withDefaults.execute noOutage 0 "ann" mixedInsert).result.rowCount = some new.length ∧
        List.Forall₂ (fun values r => values.length = columns.length ∧
          ∃ next, Made defaultsTable columns values next r.data) mixedValues.values new := by
  obtain ⟨spelled, succeeded, tables⟩ := withDefaults_holds
  have reachable : Reachable withDefaults := (Reachable.start _ _).afterTexts _
  obtain ⟨t, ht, -, done⟩ := reachable.insert_appends noOutage 0 "ann" spelled succeeded
  rw [tables, List.mem_singleton] at ht
  subst ht
  exact done

end SqlEngine.Engine

import SqlEngine.Proofs.Constraint.Unique
import SqlEngine.Proofs.Execution.Values

/-! Columns that are declared NOT NULL. The default of such a column is taken before null is
refused, so a null in it can only be its default. -/

namespace SqlEngine

open Dialect Execution Script Store

namespace Execution

theorem fillMissing_eq_null {c : Column} (notNull : c.notNull = true) (omitted : Bool) {v : Value} :
    fillMissing c omitted v = .ok .null ↔ v = .null ∧ c.default? = some .null := by
  cases v with
  | null =>
    simp only [fillMissing, Value.isNull, notNull, Bool.or_true, if_true]
    cases c.default? <;> simp
  | _ => simp [fillMissing, Value.isNull]

theorem default_of_passes_null {c : Column} (notNull : c.notNull = true) (h : Passes c .null) :
    c.default? = some .null := by
  obtain ⟨omitted, v, -, ok⟩ := h
  exact ((fillMissing_eq_null notNull omitted).mp ok).2

theorem apart_of_null {t : Table} {rows : List StoredRow} {name : String}
    (separated : ∀ d ∈ t.uniqueColumns, d.Separates rows) :
    (rows.map fun r => r.data.putAll [(name, .null)]).Pairwise t.Apart := by
  rw [List.pairwise_map]
  refine (apart_of_separates separated).imp fun before d hd => ?_
  by_cases same : d.name = name
  · rw [same]
    simp [Row.putAll, Row.get, Row.get?_put, Value.equals_null_left]
  · have untouched : d.name ∉ [(name, Value.null)].map (·.1) := by simpa using same
    rw [Row.get_putAll_of_not_mem untouched, Row.get_putAll_of_not_mem untouched]
    exact before d hd

theorem plan_update_null {b : Bounds} {s : Store} (opened : b.deadline.passed = false)
    (hs : s.Numbered) {t : Table} (ht : t ∈ s.tables) (names : (t.columns.map (·.name)).Nodup)
    {c : Column} (hc : c ∈ t.columns) (free : fillMissing c false .null = .ok .null)
    (separated : ∀ d ∈ t.uniqueColumns, d.Separates (s.rowsOf t.id)) :
    ∃ p, (plan b (.update ⟨t.name, [(c.name, .null)], none⟩)).eval s = .ok p ∧
      p.writes = ((s.rowsOf t.id).map fun r => (r.id, r.data.putAll [(c.name, .null)])).map
        fun e => .updateRow e.1 e.2 := by
  have converted : conversions t [(c.name, .null)] = .ok [(c, .null)] := by
    simp only [conversions, List.mapM_cons, columnNamed_of_mem names hc, Column.coerce_null]
    rfl
  have settled : filled [(c, .null)] = .ok [(c.name, .null)] := by
    simp only [filled, List.mapM_cons, free]
    rfl
  have all : partitionRows (.ofTable t.name none) none (s.rowsOf t.id) = (s.rowsOf t.id, []) := by
    simp [partitionRows, satisfies]
  refine ⟨_, eval_update opened (hs.named ht) converted rfl ?_, rfl⟩
  rw [all]
  exact updatedRows_of_apart settled (by simp) (apart_of_null separated)

end Execution

namespace Engine

theorem Reachable.default_of_null {e : Engine} (h : Reachable e) {t : Table}
    (ht : t ∈ e.store.tables) {c : Column} (hc : c ∈ t.columns) (notNull : c.notNull = true) :
    ∀ r ∈ e.store.rowsOf t.id, r.data.get c.name = .null → c.default? = some .null := by
  refine h.rows_induction (P := fun columns rows => c ∈ columns →
    ∀ r ∈ rows, r.data.get c.name = .null → c.default? = some .null) ?_ ?_ ht hc
  · intro columns _ _ r hr
    cases hr
  · intro t rows rows' declared ids step before hc r' hr' isNull
    rcases step.values declared.names ids hc r' hr' with ⟨r, hr, same⟩ | passes
    · exact before hc r hr (same ▸ isNull)
    · rw [isNull] at passes
      exact default_of_passes_null notNull passes

theorem Reachable.null_of_update {e : Engine} (h : Reachable e) {t : Table}
    (ht : t ∈ e.store.tables) {c : Column} (hc : c ∈ t.columns)
    (free : fillMissing c false .null = .ok .null) (opened : e.deadline.passed = false) {now : Nat}
    {caller sql : String} (admitted : (e.limiter.chargeThrough e.remote caller now).1 = .ok ())
    (spelled : Statement.ofText sql = .ok (.update ⟨t.name, [(c.name, .null)], none⟩)) :
    ((e.execute noOutage now caller sql).engine.store.rowsOf t.id) =
      (e.store.rowsOf t.id).map fun r => { r with data := r.data.putAll [(c.name, .null)] } := by
  have separated : ∀ d ∈ t.uniqueColumns, d.Separates (e.store.rowsOf t.id) := by
    intro d hd
    rw [Table.mem_uniqueColumns] at hd
    exact h.separates ht hd.1 hd.2
  have ids := h.numbered.rowsOf_ids t.id
  obtain ⟨p, planned, writes⟩ := plan_update_null (b := e.bounds) opened h.numbered ht
    (h.declared ht).names hc free separated
  have ran := run_of_settled (b := e.bounds) opened h.numbered planned []
  have there : ∀ entry ∈ (e.store.rowsOf t.id).map fun r =>
      (r.id, r.data.putAll [(c.name, .null)]), ∃ r ∈ e.store.rows, r.id = entry.1 := by
    intro entry hentry
    obtain ⟨r, hr, rfl⟩ := List.mem_map.mp hentry
    exact ⟨r, (mem_rowsOf.mp hr).1, rfl⟩
  have stored := (updateRows (by simpa [Function.comp_def] using ids) there).2
  rw [execute_store, attempt_of_spelled admitted spelled,
    perform_of_done (e := e.afterAdmission now caller) ran, writes, stored, rowsOf_updateRows,
    map_putStaged_all ids]

/-- In no reachable state a row holds null in a PRIMARY KEY or NOT NULL column whose default is not
null. Where the default is null, an UPDATE without a condition that assigns null to the column puts
null into every row. -/
theorem Reachable.notNull_unless_default {e : Engine} (h : Reachable e) {t : Table}
    (ht : t ∈ e.store.tables) {c : Column} (hc : c ∈ t.columns)
    (notNull : c.primaryKey = true ∨ c.notNull = true) :
    (c.default? ≠ some .null → ∀ r ∈ e.store.rowsOf t.id, r.data.get c.name ≠ .null) ∧
    (c.default? = some .null → e.deadline.passed = false → ∀ now caller sql,
      (e.limiter.chargeThrough e.remote caller now).1 = .ok () →
      Statement.ofText sql = .ok (.update ⟨t.name, [(c.name, .null)], none⟩) →
      let after := (e.execute noOutage now caller sql).engine.store
      (after.rowsOf t.id).map (·.id) = (e.store.rowsOf t.id).map (·.id) ∧
        ∀ r ∈ after.rowsOf t.id, r.data.get c.name = .null) := by
  have marked := (h.declared ht).keyMarked c hc
  have notNull : c.notNull = true := notNull.elim (fun key => (marked key).2) id
  constructor
  · intro notDefault r hr isNull
    exact notDefault (h.default_of_null ht hc notNull r hr isNull)
  · intro isDefault opened now caller sql admitted spelled
    have free := (fillMissing_eq_null notNull false).mpr ⟨rfl, isDefault⟩
    simp only [h.null_of_update ht hc free opened admitted spelled, List.map_map]
    refine ⟨rfl, fun r hr => ?_⟩
    obtain ⟨q, -, rfl⟩ := List.mem_map.mp hr
    simp [Row.putAll, Row.get]

def nullByDefault : Column :=
  { name := "a", type := .integer, notNull := true, default? := some .null }

def nullByDefaultTable : Table :=
  ⟨1, "t", [.asPrimaryKey { name := "id", type := .integer }, nullByDefault], []⟩

def withNullDefault : Engine := (ofConfiguration .testing noRemoteLimiter).afterTexts [
  "CREATE TABLE t (id INTEGER PRIMARY KEY, a INTEGER NOT NULL DEFAULT NULL)",
  "INSERT INTO t (id) VALUES (1)"]

theorem withNullDefault_reachable : Reachable withNullDefault := (Reachable.start _ _).afterTexts _

theorem withNullDefault_store : withNullDefault.store = {
    tables := [nullByDefaultTable]
    rows := [⟨1, 1, .ofEntries [("id", .integer 1), ("a", .null)]⟩]
    nextTable := 2
    nextRow := 2 } := by
  decide +kernel

theorem notNull_unless_default_withNullDefault :
    (∀ r ∈ withNullDefault.store.rowsOf 1, r.data.get "id" ≠ .null) ∧
      ∀ r ∈ (withNullDefault.execute noOutage 0 "ann" "UPDATE t SET a = NULL").engine.store.rowsOf 1,
        r.data.get "a" = .null := by
  have there : nullByDefaultTable ∈ withNullDefault.store.tables := by
    rw [withNullDefault_store]
    exact List.mem_singleton_self _
  have key := withNullDefault_reachable.notNull_unless_default there
    (c := .asPrimaryKey { name := "id", type := .integer }) (by decide) (.inl rfl)
  have column := withNullDefault_reachable.notNull_unless_default there
    (c := nullByDefault) (by decide) (.inr rfl)
  have opened : withNullDefault.deadline.passed = false := by decide +kernel
  refine ⟨key.1 (by decide), (column.2 rfl opened 0 "ann" _ ?_ ?_).2⟩
  · decide +kernel
  · decide +kernel

theorem null_withNullDefault :
    ∃ e, Reachable e ∧ ∃ t ∈ e.store.tables, ∃ c ∈ t.columns, c.notNull = true ∧
      ∃ r ∈ e.store.rowsOf t.id, r.data.get c.name = .null := by
  refine ⟨withNullDefault, withNullDefault_reachable, ?_⟩
  rw [withNullDefault_store]
  exact ⟨_, List.mem_singleton_self _, nullByDefault, by decide, rfl, _, List.mem_singleton_self _,
    by decide⟩

end Engine
end SqlEngine

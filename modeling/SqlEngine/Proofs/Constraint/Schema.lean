import SqlEngine.Proofs.Constraint.Typed

/-! The definitions of tables. They are right when a table is created, whichever way it comes to its
primary key, and later only indexes are added to them. -/

namespace SqlEngine

open Dialect Execution Script Store

/-- What holds of the definition of a table. A default that is null suits every type. -/
structure Table.WellFormed (t : Table) : Prop where
  names : t.columnNames.Nodup
  key : ∃ key, t.columns.filter (·.primaryKey) = [key] ∧ key.unique = true ∧ key.notNull = true
  autoIncrements : (t.columns.filter (·.autoIncrement)).length ≤ 1
  integers : ∀ c ∈ t.columns, c.autoIncrement = true → c.type = .integer
  defaults : ∀ c ∈ t.columns, ∀ v, c.default? = some v → c.type.admits v = true
  indexNames : (t.indexes.map (·.name)).Nodup
  indexColumns : ∀ d ∈ t.indexes, ∀ name ∈ d.columns, name ∈ t.columnNames

namespace Engine

variable {e : Engine} {t : Table}

theorem Declared.key {columns : List Column} (h : Declared columns) :
    ∃ key, columns.filter (·.primaryKey) = [key] ∧ key.unique = true ∧ key.notNull = true := by
  have marked := h.keyMarked
  obtain ⟨sql, c, -, settled⟩ := h
  obtain ⟨key, alone⟩ := settleColumns_key settled
  have listed : key ∈ columns.filter (·.primaryKey) := alone ▸ List.mem_singleton_self key
  rw [List.mem_filter] at listed
  exact ⟨key, alone, marked key listed.1 listed.2⟩

theorem Declared.autoIncrements {columns : List Column} (h : Declared columns) :
    (columns.filter (·.autoIncrement)).length ≤ 1 := by
  obtain ⟨sql, c, -, settled⟩ := h
  exact settleColumns_autoIncrements settled

/-- An index is only added under a new name and over columns that are there. -/
theorem Reachable.indexed (h : Reachable e) (ht : t ∈ e.store.tables) :
    (t.indexes.map (·.name)).Nodup ∧
      ∀ d ∈ t.indexes, ∀ name ∈ d.columns, name ∈ t.columnNames := by
  induction h generalizing t with
  | start c remote => cases ht
  | surrounded _ _ _ ih => exact ih ht
  | execute h outage now caller sql ih =>
    rcases (executed _ outage now caller sql h.numbered).change h.numbered with
      same | ⟨st, -, change⟩
    · rw [same] at ht
      exact ih ht
    · rcases change.table h.numbered ht with was | none | ⟨u, hu, d, allowed, rfl⟩
      · exact ih was
      · simp [none]
      · obtain ⟨distinct, there⟩ := ih hu
        obtain ⟨fresh, columns⟩ := checkIndex_eq_ok.mp allowed
        refine ⟨?_, List.forall_mem_append.mpr ⟨there, List.forall_mem_singleton.mpr columns⟩⟩
        rw [List.map_append, List.nodup_append_comm]
        exact List.nodup_cons.mpr ⟨fresh, distinct⟩

/-- In every reachable state the definition of each table is well-formed. -/
theorem Reachable.table_wellFormed (h : Reachable e) (ht : t ∈ e.store.tables) :
    t.WellFormed where
  names := (h.declared ht).names
  key := (h.declared ht).key
  autoIncrements := (h.declared ht).autoIncrements
  integers c hc := ((h.declared ht).wellTyped c hc).generated
  defaults c hc := ((h.declared ht).wellTyped c hc).default
  indexNames := (h.indexed ht).1
  indexColumns := (h.indexed ht).2

def withThreeKeys : Engine := (ofConfiguration .testing noRemoteLimiter).afterTexts [
  "CREATE TABLE plain (note TEXT DEFAULT 7)",
  "CREATE TABLE named (note TEXT, Id INTEGER)",
  "CREATE TABLE keyed (a INTEGER AUTO_INCREMENT, b DATE DEFAULT NULL, PRIMARY KEY (b), UNIQUE (a))",
  "CREATE INDEX i ON keyed (b, a)"]

def keyedTable : Table :=
  ⟨3, "keyed", [{ name := "a", type := .integer, unique := true, autoIncrement := true },
    .asPrimaryKey { name := "b", type := .date, default? := some .null }],
    [⟨"i", ["b", "a"], false⟩]⟩

theorem withThreeKeys_tables : withThreeKeys.store.tables = [
    ⟨1, "plain", [.implicitId, { name := "note", type := .text, default? := some (.text "7") }], []⟩,
    ⟨2, "named", [{ name := "note", type := .text },
      .asPrimaryKey { name := "Id", type := .integer, autoIncrement := true }], []⟩,
    keyedTable] := by
  decide +kernel

theorem table_wellFormed_withThreeKeys :
    keyedTable ∈ withThreeKeys.store.tables ∧ keyedTable.WellFormed := by
  have reachable : Reachable withThreeKeys := (Reachable.start _ _).afterTexts _
  have there : keyedTable ∈ withThreeKeys.store.tables := by
    rw [withThreeKeys_tables]
    simp
  exact ⟨there, reachable.table_wellFormed there⟩

end Engine
end SqlEngine

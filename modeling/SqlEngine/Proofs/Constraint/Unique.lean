import Mathlib.Data.List.Pairwise
import SqlEngine.Proofs.Engine.Reachable

/-! Unique columns. Whatever part of the writes of a statement is made, no two rows of a table share
a value of such a column. -/

namespace SqlEngine

open Dialect Execution Script Store

def Column.Separates (c : Column) (rows : List StoredRow) : Prop :=
  rows.Pairwise fun r q => (r.data.get c.name).equals (q.data.get c.name) = false

namespace Execution

variable {t : Table} {c : Column} {rows meant others : List StoredRow}

theorem separates_of_apart (hc : c ∈ t.uniqueColumns)
    (apart : (rows.map (·.data)).Pairwise t.Apart) : c.Separates rows :=
  (List.pairwise_map.mp apart).imp fun h => h c hc

theorem apart_of_separates (h : ∀ c ∈ t.uniqueColumns, c.Separates rows) :
    rows.Pairwise fun r q => t.Apart r.data q.data := by
  rw [List.pairwise_iff_getElem]
  intro i j hi hj less c hc
  exact List.pairwise_iff_getElem.mp (h c hc) i j hi hj less

theorem separates_insertedRows (hc : c ∈ t.uniqueColumns) (h : c.Separates rows)
    {columns : List Column} {values : List (List Value)} {staged : List Row}
    (passed : insertedRows t columns (rows.map (·.data)) values = .ok staged) (next n : Nat) :
    c.Separates (rows ++ numbered t.id next (staged.take n)) := by
  obtain ⟨-, fromExisting, apart⟩ := insertedRows_ok passed
  have among : (staged.take n).Pairwise t.Apart := apart.sublist (List.take_sublist n staged)
  refine List.pairwise_append.mpr ⟨h, separates_of_apart hc (by simpa using among), ?_⟩
  intro r hr q hq
  have new : q.data ∈ staged.take n := by
    rw [← map_data_numbered t.id next (staged.take n)]
    exact List.mem_map_of_mem hq
  exact fromExisting q.data (List.mem_of_mem_take new) r.data (List.mem_map_of_mem hr) c hc

/-- A value that an UPDATE gives to a unique column of a row differs from the value of every other
row, and from itself if the column of another row receives it as well. -/
theorem assigned_differs (hc : c ∈ t.uniqueColumns) {entries : List (String × Value)} {v : Value}
    (fixed : ∀ row : Row, (row.putAll entries).get c.name = v)
    (fromOthers : ∀ r ∈ meant, ∀ q ∈ others, t.Apart q.data (r.data.putAll entries))
    (among : (meant.map fun r => r.data.putAll entries).Pairwise t.Apart)
    {r q : StoredRow} (hr : r ∈ meant) (hq : q ∈ meant ∨ q ∈ others) (differ : r ≠ q) :
    v.equals (q.data.get c.name) = false ∧ (q ∈ meant → v.equals v = false) := by
  have twice : q ∈ meant → v.equals v = false := by
    intro hq
    have symmetric : Std.Symm fun a b : StoredRow =>
        t.Apart (a.data.putAll entries) (b.data.putAll entries) := ⟨fun _ _ h => h.symm⟩
    have apart := (List.pairwise_map.mp among).forall hr hq differ
    simpa only [fixed] using apart c hc
  refine ⟨?_, twice⟩
  rcases hq with hq | hq
  · exact Value.equals_of_self (twice hq) _
  · have apart := (fromOthers r hr q hq).symm c hc
    rwa [fixed] at apart

theorem separates_updatedRows (hc : c ∈ t.uniqueColumns) (distinct : (rows.map (·.id)).Nodup)
    (among : ∀ q ∈ meant, q ∈ rows) (every : ∀ q ∈ rows, q ∈ meant ∨ q ∈ others)
    (h : c.Separates rows) {changes : List (Column × Value)} {staged : List (Nat × Row)}
    (passed : updatedRows t changes meant others = .ok staged) (n : Nat) :
    c.Separates (rows.map (putStaged (staged.take n))) := by
  obtain ⟨⟨entries, -, rfl⟩, fromOthers, apart⟩ := updatedRows_ok passed
  refine List.pairwise_map.mpr ?_
  -- All rows that are meant receive the same value, so two of them can only be staged together
  -- when that value differs from itself.
  by_cases assigned : c.name ∈ entries.map (·.1)
  · obtain ⟨v, -, fixed⟩ := Row.exists_get_putAll assigned
    have differs : ∀ {r q : StoredRow}, r ∈ meant → q ∈ rows → r ≠ q →
        v.equals (q.data.get c.name) = false ∧ (q ∈ meant → v.equals v = false) := by
      intro r q hr hq differ
      refine assigned_differs hc fixed ?_ (by simpa [Function.comp_def] using apart) hr
        (every q hq) differ
      intro r hr q hq
      exact fromOthers _ (List.mem_map_of_mem hr) q hq
    have either := putStaged_meant distinct among entries n
    refine (h.and (List.pairwise_map.mp distinct)).imp_of_mem ?_
    intro r q hr hq ⟨before, ids⟩
    have differ : r ≠ q := fun same => ids (congrArg StoredRow.id same)
    -- The writes may have stopped between the two rows.
    rcases either r hr with sameR | ⟨hr', changedR⟩ <;>
      rcases either q hq with sameQ | ⟨hq', changedQ⟩
    · rw [sameR, sameQ]
      exact before
    · rw [sameR, changedQ, fixed, Value.equals_comm]
      exact (differs hq' hr differ.symm).1
    · rw [changedR, sameQ, fixed]
      exact (differs hr' hq differ).1
    · rw [changedR, changedQ, fixed, fixed]
      exact (differs hr' hq differ).2 hq'
  · refine h.imp_of_mem ?_
    intro r q hr hq before
    rwa [get_putStaged_meant distinct among n assigned hr,
      get_putStaged_meant distinct among n assigned hq]

theorem RowsStep.separates {rows' : List StoredRow} (step : RowsStep t rows rows')
    (hc : c ∈ t.uniqueColumns) (distinct : (rows.map (·.id)).Nodup) (h : c.Separates rows) :
    c.Separates rows' := by
  cases step with
  | same => exact h
  | inserted next n passed => exact separates_insertedRows hc h passed next n
  | updated n converted passed =>
    exact separates_updatedRows hc distinct (fun _ => mem_meant) (fun _ => mem_partitionRows) h
      passed n
  | deleted kept => exact h.sublist kept

end Execution

namespace Engine

theorem Reachable.separates {e : Engine} (h : Reachable e) {t : Table} (ht : t ∈ e.store.tables)
    {c : Column} (hc : c ∈ t.columns) (unique : c.isUnique = true) :
    c.Separates (e.store.rowsOf t.id) := by
  refine h.rows_induction (P := fun columns rows => c ∈ columns → c.Separates rows) ?_ ?_ ht hc
  · intro columns _ _
    exact .nil
  · intro t rows rows' _ distinct step before hc
    exact step.separates (Table.mem_uniqueColumns.mpr ⟨hc, unique⟩) distinct (before hc)

/-- In no reachable state two different rows of a table have equal values in a PRIMARY KEY or UNIQUE
column. Null equals nothing. -/
theorem Reachable.unique_values {e : Engine} (h : Reachable e) {t : Table}
    (ht : t ∈ e.store.tables) {c : Column} (hc : c ∈ t.columns)
    (unique : c.primaryKey = true ∨ c.unique = true) {r q : StoredRow}
    (hr : r ∈ e.store.rowsOf t.id) (hq : q ∈ e.store.rowsOf t.id) (differ : r ≠ q) :
    (r.data.get c.name).equals (q.data.get c.name) = false := by
  have symmetric : Std.Symm fun r q : StoredRow =>
      (r.data.get c.name).equals (q.data.get c.name) = false :=
    ⟨fun _ _ apart => by rwa [Value.equals_comm]⟩
  have separated := h.separates ht hc (by simpa [Column.isUnique] using unique)
  exact List.Pairwise.forall separated hr hq differ

def withTwoNames : Engine := (ofConfiguration .testing noRemoteLimiter).afterTexts [
  "CREATE TABLE people (id INTEGER PRIMARY KEY, name TEXT UNIQUE)",
  "INSERT INTO people VALUES (1, 'ann'), (2, 'bob')"]

theorem withTwoNames_store : withTwoNames.store = {
    tables := [⟨1, "people", [.asPrimaryKey { name := "id", type := .integer },
      { name := "name", type := .text, unique := true }], []⟩]
    rows := [⟨1, 1, .ofEntries [("id", .integer 1), ("name", .text "ann")]⟩,
      ⟨2, 1, .ofEntries [("id", .integer 2), ("name", .text "bob")]⟩]
    nextTable := 2
    nextRow := 3 } := by
  decide +kernel

theorem unique_values_withTwoNames :
    ∃ r ∈ withTwoNames.store.rowsOf 1, ∃ q ∈ withTwoNames.store.rowsOf 1, r ≠ q ∧
      (r.data.get "name").equals (q.data.get "name") = false := by
  have reachable : Reachable withTwoNames := (Reachable.start _ _).afterTexts _
  let ann : StoredRow := ⟨1, 1, .ofEntries [("id", .integer 1), ("name", .text "ann")]⟩
  let bob : StoredRow := ⟨2, 1, .ofEntries [("id", .integer 2), ("name", .text "bob")]⟩
  have first : ann ∈ withTwoNames.store.rowsOf 1 := by
    rw [withTwoNames_store]
    decide
  have second : bob ∈ withTwoNames.store.rowsOf 1 := by
    rw [withTwoNames_store]
    decide
  have differ : ann ≠ bob := by decide
  refine ⟨ann, first, bob, second, differ, ?_⟩
  exact reachable.unique_values
    (t := ⟨1, "people", [.asPrimaryKey { name := "id", type := .integer },
      { name := "name", type := .text, unique := true }], []⟩)
    (by rw [withTwoNames_store]; decide)
    (c := { name := "name", type := .text, unique := true }) (by decide) (.inr rfl)
    first second differ

end Engine
end SqlEngine

import SqlEngine.Proofs.Engine.Selection
import SqlEngine.Proofs.Relation.Distinct

/-! Which stored rows are told apart by GROUP BY, DISTINCT and COUNT(DISTINCT). -/

namespace SqlEngine

open Dialect Execution Script Store

def Table.columnTypes (t : Table) : List (String × ColumnType) :=
  t.columns.map fun c => (c.name, c.type)

theorem Engine.Reachable.fits {e : Engine} (h : Reachable e) {t : Table}
    (ht : t ∈ e.store.tables) : ∀ row ∈ e.store.data t, row.Fits t.columnTypes := by
  refine List.forall_mem_map.mpr fun r hr => ⟨Row.hasKeys_of_names ?_, ?_⟩
  · rw [h.names ht r hr, Table.columnTypes, List.map_map]
    rfl
  · intro column listed
    obtain ⟨c, hc, rfl⟩ := List.mem_map.mp listed
    exact h.admits ht hc r hr

namespace Query

/-- All rows of a table have values of the types of its columns. Among rows of the same typed
columns those of one group have the same values, null or not, in the columns of GROUP BY, and those
whose tuples DISTINCT takes for one have the same values in all output columns. COUNT(DISTINCT) is
the number of different values other than null. All this is said of values that are neither
infinite nor NaN. -/
theorem rows_told_apart (q : Query) :
    (∀ e, Engine.Reachable e → ∀ t ∈ e.store.tables, ∀ row ∈ e.store.data t,
      row.Fits t.columnTypes) ∧
    ∀ (types : List (String × ColumnType)) (rows : List Row), (∀ row ∈ rows, row.Fits types) →
      (∀ groupBy, ∀ group ∈ groupRows q.scope groupBy rows, ∀ a ∈ group, ∀ b ∈ group,
        ∀ name ∈ groupBy, (q.scope.value a name.text).IsFinite →
          (q.scope.value b name.text).IsFinite →
            q.scope.value a name.text = q.scope.value b name.text) ∧
      (∀ a ∈ rows, ∀ b ∈ rows,
        tupleText q.plainColumns (q.project a) = tupleText q.plainColumns (q.project b) →
          ∀ column ∈ q.plainColumns, ((q.project a).get column).IsFinite →
            ((q.project b).get column).IsFinite →
              (q.project a).get column = (q.project b).get column) ∧
      ∀ column : ColumnName, (∀ row ∈ rows, (q.scope.value row column.text).IsFinite) →
        AggregateCall.evaluate ⟨.count, some column, true⟩ q.scope rows = .ok (.integer (.ofNat
          ((rows.map (q.scope.value · column.text)).toFinset.erase .null).card)) := by
  refine ⟨fun e reachable t ht => reachable.fits ht, fun types rows fits => ⟨?_, ?_, ?_⟩⟩
  · intro groupBy group made a ha b hb name listed
    exact eq_of_mem_group fits made ha hb listed
  · intro a ha b hb same column listed
    have texts := Value.jsonTuple_inj same column listed
    exact (oneType_project (fits a ha) (fits b hb) column).eq texts
  · exact fun column => evaluate_countDistinct fits

end Query

namespace Engine

def withMeasures : Engine := (ofConfiguration .testing noRemoteLimiter).afterTexts [
  "CREATE TABLE t (id INTEGER PRIMARY KEY, x REAL, s TEXT)",
  "INSERT INTO t VALUES (1, 0.5, 'a'), (2, NULL, 'null'), (3, 0.5, '0.5'), (4, NULL, NULL)"]

def measuresQuery : Query where
  select := {
    distinct := true
    items := some [.column (.bare "s") none, .column (.bare "x") none]
    source := ⟨"t", none⟩
    joins := []
    condition := none
    groupBy := []
    having := none
    orderBy := []
    limit := none
    offset := none }
  base := keyed 1 "t" [{ name := "x", type := .real }, { name := "s", type := .text }]
  joined := []

theorem withMeasures_finite :
    let rows := withMeasures.store.data measuresQuery.base
    measuresQuery.base ∈ withMeasures.store.tables ∧
      (∀ row ∈ rows, (measuresQuery.scope.value row "x").IsFinite) ∧
      (∀ row ∈ rows, ((measuresQuery.project row).get "s").IsFinite) ∧
      ((rows.map (measuresQuery.scope.value · "x")).toFinset.erase .null).card = 1 := by
  decide +kernel

theorem rows_told_apart_withMeasures :
    let rows := withMeasures.store.data measuresQuery.base
    (∀ group ∈ groupRows measuresQuery.scope [.bare "x"] rows, ∀ a ∈ group, ∀ b ∈ group,
      measuresQuery.scope.value a "x" = measuresQuery.scope.value b "x") ∧
    (∀ a ∈ rows, ∀ b ∈ rows,
      Query.tupleText ["s", "x"] (measuresQuery.project a) =
          Query.tupleText ["s", "x"] (measuresQuery.project b) →
        (measuresQuery.project a).get "s" = (measuresQuery.project b).get "s") ∧
    AggregateCall.evaluate ⟨.count, some (.bare "x"), true⟩ measuresQuery.scope rows =
      .ok (.integer 1) := by
  intro rows
  obtain ⟨listed, reals, texts, different⟩ := withMeasures_finite
  have reachable : Reachable withMeasures := (Reachable.start _ _).afterTexts _
  obtain ⟨fits, apart⟩ := measuresQuery.rows_told_apart
  obtain ⟨groups, tuples, counted⟩ := apart _ rows (fits _ reachable _ listed)
  refine ⟨fun group made a ha b hb => ?_, fun a ha b hb same => ?_, ?_⟩
  · obtain ⟨_, partitioned⟩ := groupRows_partitioned measuresQuery.scope [.bare "x"] rows
    exact groups _ group made a ha b hb (.bare "x") List.mem_cons_self
      (reals a (partitioned.mem_of_mem_group made ha))
      (reals b (partitioned.mem_of_mem_group made hb))
  · exact tuples a ha b hb same "s" (by decide) (texts a ha) (texts b hb)
  · exact (counted (.bare "x") reals).trans
      (congrArg (fun n => Except.ok (Value.integer (.ofNat n))) different)

def boundless : List Value := [.real (.infinity false), .null, .real (.infinity true)]

/-- The three rows are one group and one tuple, and the infinities are counted once. -/
theorem infinities_astray :
    let scope := Scope.ofTable "t" none
    let rows := boundless.map fun v => Row.ofEntries [("x", v)]
    Decimal.read? ('1' :: List.replicate 309 '0') = some (.infinity false) ∧
    (∀ v ∈ boundless, ColumnType.real.admits v = true) ∧
    groupRows scope [.bare "x"] rows = [rows] ∧
    firsts (Query.tupleText ["x"]) rows = rows.take 1 ∧
    AggregateCall.evaluate ⟨.count, some (.bare "x"), true⟩ scope rows = .ok (.integer 1) := by
  decide +kernel

end Engine
end SqlEngine

import Mathlib.Data.List.Induction
import SqlEngine.Proofs.Engine.Selection
import SqlEngine.Proofs.Relation.Check

/-! The merged rows of a query have the keys that its names were checked against, so every name that
is read from them is found. -/

namespace SqlEngine

open Dialect Execution Script Store

namespace JoinPlan

variable {p : JoinPlan} {lefts rights : List Row} {row : Row}

theorem exists_of_mem_ofLeft {left : Row} (h : row ∈ p.ofLeft rights left) :
    ∃ right, row = p.merge left right ∧ (right ∈ rights ∨ right = .nulls p.rightColumns) := by
  simp only [ofLeft] at h
  split at h
  · exact ⟨_, List.mem_singleton.mp h, .inr rfl⟩
  · obtain ⟨right, hr, rfl⟩ := List.mem_map.mp h
    exact ⟨right, rfl, .inl (List.mem_of_mem_filter hr)⟩

theorem exists_of_mem_ofRight {right : Row} (h : row ∈ p.ofRight lefts right) :
    ∃ left, row = p.merge left right ∧ (left ∈ lefts ∨ left = .nulls p.leftColumns) := by
  simp only [ofRight] at h
  split at h
  · exact ⟨_, List.mem_singleton.mp h, .inr rfl⟩
  · obtain ⟨left, hl, rfl⟩ := List.mem_map.mp h
    exact ⟨left, rfl, .inl (List.mem_of_mem_filter hl)⟩

theorem exists_of_mem_rows (h : row ∈ p.rows lefts rights) :
    ∃ left right, row = p.merge left right ∧ (left ∈ lefts ∨ left = .nulls p.leftColumns) ∧
      (right ∈ rights ∨ right = .nulls p.rightColumns) := by
  unfold rows at h
  split at h
  · obtain ⟨right, hr, h⟩ := List.mem_flatMap.mp h
    obtain ⟨left, same, origin⟩ := exists_of_mem_ofRight h
    exact ⟨left, right, same, origin, .inl hr⟩
  · obtain ⟨left, hl, h⟩ := List.mem_flatMap.mp h
    obtain ⟨right, same, origin⟩ := exists_of_mem_ofLeft h
    exact ⟨left, right, same, .inl hl, origin⟩

end JoinPlan

theorem Query.keysAfter_concat (q : Query) (before : List (Join × Table)) (j : Join) (t : Table) :
    q.keysAfter (before ++ [(j, t)]) =
      q.keysAfter before ++ t.columnNames.map (boundName j.table.binding) := by
  simp [keysAfter, boundColumns]

/-- If the rows of all tables have the keys of their columns, merged rows have those of the joined
tables one after the other. -/
theorem Store.hasKeys_joinedAfter {s : Store} {q : Query}
    (base : ∀ row ∈ s.data q.base, row.HasKeys q.base.columnNames) {joins : List (Join × Table)}
    (each : ∀ entry ∈ joins, ∀ row ∈ s.data entry.2, row.HasKeys entry.2.columnNames) :
    ∀ row ∈ s.joinedAfter q joins, row.HasKeys (q.keysAfter joins) := by
  induction joins using List.reverseRecOn with
  | nil => simpa [joinedAfter, Query.joinAll, Query.keysAfter] using base
  | append_singleton before entry ih =>
    obtain ⟨j, t⟩ := entry
    simp only [List.forall_mem_append, List.forall_mem_singleton] at each
    intro row h
    rw [joinedAfter_concat] at h
    obtain ⟨left, right, rfl, isLeft, isRight⟩ := JoinPlan.exists_of_mem_rows h
    rw [q.keysAfter_concat]
    refine Row.HasKeys.merge ?_ ?_ j.table.binding
    · rcases isLeft with hl | rfl
      · exact ih each.1 left hl
      · exact Row.hasKeys_nulls _
    · rcases isRight with hr | rfl
      · exact each.2 right hr
      · exact Row.hasKeys_nulls _

namespace Engine

variable {e : Engine} {q : Query}

theorem Reachable.hasKeys (h : Reachable e) {t : Table} (ht : t ∈ e.store.tables) :
    ∀ row ∈ e.store.data t, row.HasKeys t.columnNames :=
  fun row hrow => Row.hasKeys_of_names (h.data_names ht row hrow)

/-- The merged rows from which the result of a query comes have the keys that the query was checked
against, after each of its joins. Each ON equality finds its names in the rows that it compares,
and every name that the query reads from merged rows later on is found in each of them. -/
theorem Reachable.names_found (h : Reachable e) (accepted : q.Accepted e.store) :
    (e.deadline.passed = false → ∀ now caller sql,
      (e.limiter.chargeThrough e.remote caller now).1 = .ok () →
      Statement.ofText sql = .ok (.select q.select) →
      (e.execute noOutage now caller sql).result = .ofResult (q.finish (e.store.joined q))) ∧
    (∀ before after, q.joined = before ++ after →
      ∀ row ∈ e.store.joinedAfter q before, row.HasKeys (q.keysAfter before)) ∧
    (∀ before j t after, q.joined = before ++ (j, t) :: after →
      (∀ left ∈ e.store.joinedAfter q before,
        q.scope.Finds left (JoinKeys.ofJoin j q.scope).outer.text) ∧
      ∀ right ∈ e.store.data t, (JoinKeys.ofJoin j q.scope).inner ∈ right.names) ∧
    (∀ row ∈ e.store.joined q, ∀ name ∈ q.namesRead, q.scope.Finds row name) := by
  have keys : ∀ before after, q.joined = before ++ after →
      ∀ row ∈ e.store.joinedAfter q before, row.HasKeys (q.keysAfter before) := by
    intro before after split
    refine Store.hasKeys_joinedAfter (h.hasKeys accepted.base) fun entry hentry => ?_
    have among : entry ∈ q.joined := split ▸ List.mem_append_left _ hentry
    exact h.hasKeys (accepted.joined entry among).1
  have checked := accepted.checked
  refine ⟨fun opened now caller sql admitted spelled =>
      execute_accepted h.numbered opened admitted spelled accepted, keys,
    fun before j t after split => ?_, fun row hrow name hname => ?_⟩
  · have joins : q.checkJoins [] q.joined = .ok () := by
      simp only [Query.check, Success.bind_eq_ok] at checked
      obtain ⟨_, joins, -⟩ := checked
      exact joins
    have joins := Query.checkJoin_eq_ok.mp (Query.checkJoins_eq_ok.mp joins before j t after split)
    refine ⟨fun left hl => Scope.finds_of_key? (keys before _ split left hl) joins.2, ?_⟩
    intro right hr
    have among : (j, t) ∈ q.joined := split ▸ List.mem_append_right _ List.mem_cons_self
    exact (h.hasKeys (accepted.joined _ among).1 right hr _).mpr joins.1
  · exact Scope.finds_of_key? (keys q.joined [] (List.append_nil _).symm row hrow)
      (Query.checkName_eq_ok.mp (Query.checkName_of_check checked name hname))

def withGaps : Engine := (ofConfiguration .testing noRemoteLimiter).afterTexts [
  "CREATE TABLE t (id INTEGER PRIMARY KEY, a INTEGER)",
  "CREATE TABLE u (id INTEGER PRIMARY KEY, b INTEGER)",
  "CREATE TABLE v (id INTEGER PRIMARY KEY, c INTEGER)",
  "INSERT INTO t VALUES (1, 1), (2, 5)",
  "INSERT INTO u VALUES (1, 7)",
  "INSERT INTO v VALUES (7, 3), (8, 4)"]

def gapsQuery : Query :=
  let joins : List Join := [⟨.left, ⟨"u", none⟩, ⟨some "t", "a"⟩, ⟨some "u", "id"⟩⟩,
    ⟨.right, ⟨"v", some "w"⟩, .bare "b", ⟨some "w", "id"⟩⟩]
  { select := {
      distinct := false
      items := some [.column ⟨some "t", "a"⟩ (some "k"), .column (.bare "c") none]
      source := ⟨"t", none⟩
      joins
      condition := some (.test "w.c" (.compare .greater (.integer 0)))
      groupBy := []
      having := none
      orderBy := [⟨.bare "k", true⟩]
      limit := none
      offset := none }
    base := keyed 1 "t" [{ name := "a", type := .integer }]
    joined := joins.zip [keyed 2 "u" [{ name := "b", type := .integer }],
      keyed 3 "v" [{ name := "c", type := .integer }]] }

theorem withGaps_holds :
    gapsQuery.base ∈ withGaps.store.tables ∧
      (∀ entry ∈ gapsQuery.joined,
        entry.2 ∈ withGaps.store.tables ∧ entry.2.name = entry.1.table.name) ∧
      gapsQuery.check = .ok () ∧ (withGaps.store.joined gapsQuery).length = 2 := by
  decide +kernel

theorem names_found_withGaps :
    (withGaps.store.joined gapsQuery).length = 2 ∧
    ∀ row ∈ withGaps.store.joined gapsQuery,
      row.HasKeys ["id", "a", "u.id", "u.b", "w.id", "w.c"] ∧
      ∀ name ∈ ["w.c", "t.a", "c", "t.a"], gapsQuery.scope.Finds row name := by
  obtain ⟨base, joined, checked, rows⟩ := withGaps_holds
  have reachable : Reachable withGaps := (Reachable.start _ _).afterTexts _
  have found := reachable.names_found (q := gapsQuery) ⟨⟨base, rfl, rfl, joined⟩, checked⟩
  obtain ⟨-, keys, -, names⟩ := found
  exact ⟨rows, fun row hrow => ⟨keys gapsQuery.joined [] rfl row hrow, names row hrow⟩⟩

end Engine
end SqlEngine

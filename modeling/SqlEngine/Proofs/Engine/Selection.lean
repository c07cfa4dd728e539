import SqlEngine.Proofs.Constraint.Typed
import SqlEngine.Proofs.Execution.Joined
import SqlEngine.Proofs.Relation.Plain

/-! The results of queries. -/

namespace SqlEngine

open Dialect Execution Script Store

namespace Query

/-- The query with another choice of repetitions and another page. -/
def repaged (q : Query) (distinct : Bool) (limit offset : Option Nat) : Query :=
  { q with select := { q.select with distinct, limit, offset } }

section

variable (q : Query) (distinct : Bool) (limit offset : Option Nat)

theorem repaged_checkJoins (before rest : List (Join × Table)) :
    (q.repaged distinct limit offset).checkJoins before rest = q.checkJoins before rest := by
  induction rest generalizing before with
  | nil => rfl
  | cons entry rest ih =>
    rw [checkJoins, checkJoins, ih]
    rfl

theorem repaged_check : (q.repaged distinct limit offset).check = q.check := by
  rw [check, repaged_checkJoins]
  rfl

theorem repaged_joinAll (data : Table → List Row) (before rest : List (Join × Table))
    (rows : List Row) :
    (q.repaged distinct limit offset).joinAll data before rest rows =
      q.joinAll data before rest rows := by
  induction rest generalizing before rows with
  | nil => rfl
  | cons entry rest ih => exact ih _ _

theorem repaged_joined (s : Store) : s.joined (q.repaged distinct limit offset) = s.joined q :=
  repaged_joinAll q distinct limit offset _ _ _ _

end

theorem Accepted.repaged {q : Query} {s : Store} (h : q.Accepted s) (distinct : Bool)
    (limit offset : Option Nat) : (q.repaged distinct limit offset).Accepted s :=
  ⟨⟨h.base, h.source, h.joins, h.joined⟩,
    (q.repaged_check distinct limit offset).trans h.checked⟩

end Query

namespace Engine

variable {e : Engine} {q : Query}

theorem Reachable.data_names (h : Reachable e) {t : Table} (ht : t ∈ e.store.tables) :
    ∀ row ∈ e.store.data t, row.names = t.columnNames :=
  List.forall_mem_map.mpr (h.names ht)

section

variable (hs : e.store.Numbered) (opened : e.deadline.passed = false) {now : Nat}
  {caller sql : String} (admitted : (e.limiter.chargeThrough e.remote caller now).1 = .ok ())
  (spelled : Statement.ofText sql = .ok (.select q.select))
include hs opened admitted spelled

theorem execute_query (named : q.Over e.store) : (e.execute noOutage now caller sql).result =
    .ofResult (Halt.lift q.check >>= fun _ => q.finish (e.store.joined q)) := by
  have planned : (plan e.bounds (.select q.select)).eval e.store = _ :=
    eval_select (b := e.bounds) opened hs named
  cases finished : Halt.lift q.check >>= fun _ => q.finish (e.store.joined q) with
  | error failure =>
    rw [finished] at planned
    exact (execute_of_refused admitted spelled planned).1
  | ok output =>
    rw [finished] at planned
    exact (execute_of_settled admitted spelled hs planned).1

/-- The result of a query that names only what there is. -/
theorem execute_accepted (accepted : q.Accepted e.store) :
    (e.execute noOutage now caller sql).result = .ofResult (q.finish (e.store.joined q)) := by
  rw [execute_query hs opened admitted spelled accepted.toOver, accepted.checked]
  rfl

end

/-- A query without groups whose sort values are totally ordered. There is one order of the rows
that meet its condition such that the result, with DISTINCT or without, on all pages, is cut from
the rows in that order: they are sorted by the keys of ORDER BY, aliases standing for their columns,
and otherwise stand as they stood; of the rows of one output tuple DISTINCT keeps the first; and
consecutive pages make up the whole. -/
theorem Reachable.select_sorted (h : Reachable e) (opened : e.deadline.passed = false)
    (accepted : q.Accepted e.store) (plain : q.isGrouped = false)
    (total : ∀ key ∈ q.plainSortNames, Value.TotallyOrdered
      (((e.store.joined q).filter (satisfies q.scope q.select.condition)).map
        (q.scope.value · key.1))) :
    List.Forall₂ (fun key entry =>
        Query.StandsFor (q.select.items.getD []) key.column.text entry.1 ∧
          entry.2 = key.ascending) q.select.orderBy q.plainSortNames ∧
    ∃ sorted, Query.SortedBy q.scope q.plainSortNames
        ((e.store.joined q).filter (satisfies q.scope q.select.condition)) sorted ∧
      ∀ distinct,
        let whole := if distinct then
            unrepeated (Query.tupleText q.plainColumns) (sorted.map q.project)
          else sorted.map q.project
        (∀ limit offset now caller sql,
          (e.limiter.chargeThrough e.remote caller now).1 = .ok () →
          Statement.ofText sql =
            .ok (.select { q.select with distinct := distinct, limit, offset }) →
          (e.execute noOutage now caller sql).result =
            .ofOutput (.rows q.plainColumns (Query.page offset limit whole))) ∧
        ∀ length count,
          (List.range count).flatMap (fun i =>
            Query.page (some (i * length)) (some length) whole) = whole.take (count * length) := by
  obtain ⟨sorted, answered, isSorted⟩ := Query.sortBy_sorted total
  refine ⟨q.plainSortNames_standFor, sorted, isSorted, fun distinct => ⟨?_, ?_⟩⟩
  · intro limit offset now caller sql admitted spelled
    have plain' : (q.repaged distinct limit offset).isGrouped = false := plain
    have answered' : Query.sortBy (q.repaged distinct limit offset).scope
        (q.repaged distinct limit offset).plainSortNames id ((e.store.joined q).filter (satisfies
          (q.repaged distinct limit offset).scope
          (q.repaged distinct limit offset).select.condition)) = .ok sorted := answered
    rw [execute_accepted h.numbered opened admitted spelled
        (accepted.repaged distinct limit offset), Query.repaged_joined,
      Query.finish_of_plain plain', Query.plainRows_eq, answered']
    rfl
  · exact Query.flatMap_page _

def keyed (id : Nat) (name : String) (columns : List Column) : Table :=
  ⟨id, name, .asPrimaryKey { name := "id", type := .integer } :: columns, []⟩

def withTies : Engine := (ofConfiguration .testing noRemoteLimiter).afterTexts [
  "CREATE TABLE t (id INTEGER PRIMARY KEY, a INTEGER, r INTEGER)",
  "CREATE TABLE u (id INTEGER PRIMARY KEY, c TEXT)",
  "INSERT INTO t VALUES (1, 9, 1), (2, 5, 2), (3, 7, 1), (4, 5, 2), (5, 7, 2), (6, 5, 1)",
  "INSERT INTO u VALUES (1, 'x'), (2, 'y')"]

def tiesQuery : Query where
  select := {
    distinct := false
    items := some [.column (.bare "c") (some "n"), .column (.bare "a") (some "k")]
    source := ⟨"t", none⟩
    joins := [⟨.inner, ⟨"u", none⟩, ⟨some "t", "r"⟩, ⟨some "u", "id"⟩⟩]
    condition := some (.test "t.id" (.compare .greater (.integer 1)))
    groupBy := []
    having := none
    orderBy := [⟨.bare "k", false⟩]
    limit := none
    offset := none }
  base := keyed 1 "t" [{ name := "a", type := .integer }, { name := "r", type := .integer }]
  joined := [(⟨.inner, ⟨"u", none⟩, ⟨some "t", "r"⟩, ⟨some "u", "id"⟩⟩,
    keyed 2 "u" [{ name := "c", type := .text }])]

theorem withTies_holds :
    (withTies.deadline.passed = false ∧
      (withTies.limiter.chargeThrough withTies.remote "ann" 0).1 = .ok ()) ∧
    (tiesQuery.base ∈ withTies.store.tables ∧
      (∀ entry ∈ tiesQuery.joined,
        entry.2 ∈ withTies.store.tables ∧ entry.2.name = entry.1.table.name) ∧
      tiesQuery.check = .ok ()) ∧
    (∀ key ∈ tiesQuery.plainSortNames, Value.TotallyOrdered
      (((withTies.store.joined tiesQuery).filter
        (satisfies tiesQuery.scope tiesQuery.select.condition)).map
          (tiesQuery.scope.value · key.1))) ∧
    Statement.ofText ("SELECT DISTINCT c AS n, a AS k FROM t JOIN u ON t.r = u.id " ++
        "WHERE t.id > 1 ORDER BY k DESC LIMIT 2 OFFSET 2") =
      .ok (.select { tiesQuery.select with distinct := true, limit := some 2, offset := some 2 }) := by
  decide +kernel

theorem select_sorted_withTies :
    ∃ sorted, Query.SortedBy tiesQuery.scope [("a", false)]
        ((withTies.store.joined tiesQuery).filter
          (satisfies tiesQuery.scope tiesQuery.select.condition)) sorted ∧
      (withTies.execute noOutage 0 "ann"
          ("SELECT DISTINCT c AS n, a AS k FROM t JOIN u ON t.r = u.id " ++
            "WHERE t.id > 1 ORDER BY k DESC LIMIT 2 OFFSET 2")).result =
        .ofOutput (.rows ["n", "k"] (Query.page (some 2) (some 2)
          (unrepeated (Query.tupleText ["n", "k"]) (sorted.map tiesQuery.project)))) := by
  obtain ⟨⟨opened, admitted⟩, ⟨base, joined, checked⟩, total, spelled⟩ := withTies_holds
  have reachable : Reachable withTies := (Reachable.start _ _).afterTexts _
  obtain ⟨-, sorted, isSorted, results⟩ := reachable.select_sorted opened (q := tiesQuery)
    ⟨⟨base, rfl, rfl, joined⟩, checked⟩ rfl total
  exact ⟨sorted, isSorted, (results true).1 (some 2) (some 2) 0 "ann" _ admitted spelled⟩

end Engine
end SqlEngine

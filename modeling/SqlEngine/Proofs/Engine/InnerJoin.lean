import SqlEngine.Proofs.Engine.Selection
import SqlEngine.Proofs.Execution.Tuples

/-! The merged rows of inner joins are the tuples of stored rows that satisfy the ON equalities, in
the order of the store. The columns of a joined table are read from them under its binding, unless
two joined tables have a key in common. -/

namespace SqlEngine

open Dialect Execution Script Store

theorem Scope.value_of_get? {s : Scope} {row : Row} {name : String} {v : Value}
    (found : row.get? name = some v) : s.value row name = v := by
  rw [value, found]

namespace Query

variable {q : Query}

/-- No key of the merged rows comes from two joined tables. -/
def Apart (q : Query) : Prop := (q.joined.flatMap fun (j, t) => boundColumns j t).Nodup

theorem get?_merge_later {key : String} {entries : List ((Join × Table) × StoredRow)}
    (other : ∀ entry ∈ entries,
      key ∉ entry.2.data.names.map (boundName entry.1.1.table.binding)) (row : Row) :
    (entries.foldl (fun row entry => mergeRows entry.1.1.table.binding row entry.2.data)
      row).get? key = row.get? key := by
  induction entries generalizing row with
  | nil => rfl
  | cons entry rest ih =>
    rw [List.forall_mem_cons] at other
    rw [List.foldl_cons, ih other.2, get?_mergeRows_of_not_mem other.1]

/-- Each column of a joined table is read from a merged row under the binding of that table. -/
theorem value_merged (apart : q.Apart) {base : StoredRow} {rest : List StoredRow}
    (fits : List.Forall₂ (fun entry r => r.data.names = entry.2.columnNames ∧ r.data.names.Nodup)
      q.joined rest) {i : Nat} {j : Join} {t : Table} {r : StoredRow}
    (joined : q.joined[i]? = some (j, t)) (listed : rest[i]? = some r) {column : String}
    (hc : column ∈ t.columnNames) :
    q.scope.value (q.merged (base :: rest)) (boundName j.table.binding column) =
      r.data.get column := by
  obtain ⟨split, length⟩ := Lists.eq_take_append_cons_drop joined
  obtain ⟨split', length'⟩ := Lists.eq_take_append_cons_drop listed
  have pairs : q.joined.zip rest = (q.joined.take i).zip (rest.take i) ++
      ((j, t), r) :: (q.joined.drop (i + 1)).zip (rest.drop (i + 1)) := by
    conv_lhs => rw [split, split']
    rw [List.zip_append (length.trans length'.symm), List.zip_cons_cons]
  have own : r.data.names = t.columnNames ∧ r.data.names.Nodup := by
    have there : ((j, t), r) ∈ q.joined.zip rest := by
      rw [pairs]
      exact List.mem_append_right _ List.mem_cons_self
    exact List.forall₂_zip fits there
  have later : ∀ entry ∈ (q.joined.drop (i + 1)).zip (rest.drop (i + 1)),
      boundName j.table.binding column ∉
        entry.2.data.names.map (boundName entry.1.1.table.binding) := by
    rintro ⟨⟨k, u⟩, r'⟩ hentry
    have there : ((k, u), r') ∈ q.joined.zip rest := by
      rw [pairs]
      exact List.mem_append_right _ (List.mem_cons_of_mem _ hentry)
    rw [(List.forall₂_zip fits there).1]
    intro clash
    rw [Apart, split, List.flatMap_append, List.flatMap_cons, List.nodup_append] at apart
    have disjoint := (List.nodup_append.mp apart.2.1).2.2
    refine disjoint _ (List.mem_map_of_mem hc) _ (List.mem_flatMap.mpr ⟨(k, u), ?_, clash⟩) rfl
    exact (List.of_mem_zip hentry).1
  have found : (q.merged (base :: rest)).get? (boundName j.table.binding column) =
      some (r.data.get column) := by
    rw [merged, pairs, List.foldl_append, List.foldl_cons, get?_merge_later later]
    exact get?_mergeRows_of_mem own.2 (own.1 ▸ hc)
  exact Scope.value_of_get? found

end Query

namespace Engine

variable {e : Engine} {q : Query}

/-- The merged rows from which the result of a query with inner joins comes are those of all tuples
of one stored row for each table that satisfy the ON equalities, each tuple once and in
lexicographic order of the store. From the row of a tuple each column of a joined table is read
under the binding of that table, whatever else is joined. Each ON equality has to have a column of
its joined table in it, and no key may come from two joined tables. -/
theorem Reachable.inner_join_tuples (h : Reachable e) (accepted : q.Accepted e.store)
    (inner : ∀ entry ∈ q.joined, entry.1.kind = .inner)
    (crosses : ∀ entry ∈ q.joined, entry.1.Crosses q.scope) (apart : q.Apart) :
    (e.deadline.passed = false → ∀ now caller sql,
      (e.limiter.chargeThrough e.remote caller now).1 = .ok () →
      Statement.ofText sql = .ok (.select q.select) →
      (e.execute noOutage now caller sql).result = .ofResult (q.finish (e.store.joined q))) ∧
    ∃ tuples : List (List StoredRow), e.store.joined q = tuples.map q.merged ∧
      tuples.Nodup ∧ tuples.Pairwise (List.Lex e.store.Before) ∧
      (∀ tuple, tuple ∈ tuples ↔
        List.Forall₂ (fun t r => r ∈ e.store.rowsOf t.id) (q.base :: q.joined.map (·.2)) tuple ∧
          q.Satisfies tuple) ∧
      ∀ tuple ∈ tuples, ∀ i j t r, q.joined[i]? = some (j, t) → tuple[i + 1]? = some r →
        ∀ column ∈ t.columnNames,
          q.scope.value (q.merged tuple) (boundName j.table.binding column) =
            r.data.get column := by
  have whole : q.joined = q.joined ++ [] := (List.append_nil _).symm
  refine ⟨fun opened now caller sql admitted spelled =>
      execute_accepted h.numbered opened admitted spelled accepted,
    e.store.tuples q q.joined, joinedAfter_eq_map_merged whole inner crosses,
    h.numbered.tuples_nodup q q.joined, e.store.tuples_ordered q q.joined,
    fun tuple => mem_tuples whole, fun tuple htuple i j t r joined listed column hc => ?_⟩
  obtain ⟨each, -⟩ := (mem_tuples whole).mp htuple
  cases each with
  | @cons _ base _ rest _ each =>
    rw [List.forall₂_map_left_iff] at each
    have fits : List.Forall₂ (fun entry r =>
        r.data.names = entry.2.columnNames ∧ r.data.names.Nodup) q.joined rest := by
      rw [List.forall₂_iff_zip] at each ⊢
      refine ⟨each.1, fun {entry r} there => ?_⟩
      have ht := (accepted.joined entry (List.of_mem_zip there).1).1
      have names := h.names ht r (each.2 there)
      exact ⟨names, names ▸ (h.declared ht).names⟩
    exact Query.value_merged apart fits joined listed hc

def joinSelect (source : TableName) (joins : List Join) : Select where
  distinct := false
  items := none
  source := source
  joins := joins
  condition := none
  groupBy := []
  having := none
  orderBy := []
  limit := none
  offset := none

def withBosses : Engine := (ofConfiguration .testing noRemoteLimiter).afterTexts [
  "CREATE TABLE t (id INTEGER PRIMARY KEY, boss INTEGER)",
  "INSERT INTO t VALUES (1, NULL), (2, 1), (3, 2), (4, 2)"]

def bossesQuery : Query :=
  let t := keyed 1 "t" [{ name := "boss", type := .integer }]
  let joins : List Join := [⟨.inner, ⟨"t", some "m"⟩, ⟨some "m", "id"⟩, ⟨some "t", "boss"⟩⟩,
    ⟨.inner, ⟨"t", some "n"⟩, ⟨some "m", "boss"⟩, .bare "id"⟩]
  ⟨joinSelect ⟨"t", none⟩ joins, t, joins.map fun j => (j, t)⟩

theorem withBosses_holds :
    bossesQuery.base ∈ withBosses.store.tables ∧
    (∀ entry ∈ bossesQuery.joined,
      entry.2 ∈ withBosses.store.tables ∧ entry.2.name = entry.1.table.name) ∧
    bossesQuery.check = .ok () ∧
    (bossesQuery.joined.flatMap fun (j, t) => Query.boundColumns j t).Nodup ∧
    (∀ entry ∈ bossesQuery.joined, entry.1.kind = .inner ∧
      (entry.1.owns bossesQuery.scope entry.1.left = true ∨
        entry.1.owns bossesQuery.scope entry.1.right = true ∨
        entry.1.right.qualifier = none)) ∧
    (withBosses.store.joined bossesQuery).length = 2 := by
  decide +kernel

theorem inner_join_tuples_withBosses :
    ∃ tuples : List (List StoredRow), tuples.length = 2 ∧
      withBosses.store.joined bossesQuery = tuples.map bossesQuery.merged ∧
      tuples.Pairwise (List.Lex withBosses.store.Before) ∧
      ∀ tuple ∈ tuples, ∀ r, tuple[2]? = some r →
        bossesQuery.scope.value (bossesQuery.merged tuple) "n.boss" = r.data.get "boss" := by
  obtain ⟨base, joined, checked, apart, each, count⟩ := withBosses_holds
  have reachable : Reachable withBosses := (Reachable.start _ _).afterTexts _
  have accepted : bossesQuery.Accepted withBosses.store := ⟨⟨base, rfl, rfl, joined⟩, checked⟩
  have all := reachable.inner_join_tuples accepted (fun entry h => (each entry h).1)
    (fun entry h => (each entry h).2) apart
  obtain ⟨-, tuples, same, -, ordered, -, values⟩ := all
  refine ⟨tuples, by simpa [same] using count, same, ordered, fun tuple htuple r listed => ?_⟩
  exact values tuple htuple 1 _ _ r rfl listed "boss" (by decide)

def withNamesakes : Engine := (ofConfiguration .testing noRemoteLimiter).afterTexts [
  "CREATE TABLE t (id INTEGER PRIMARY KEY, a INTEGER, b INTEGER)",
  "CREATE TABLE u (id INTEGER PRIMARY KEY, c TEXT)",
  "INSERT INTO t VALUES (1, 1, 2)",
  "INSERT INTO u VALUES (1, 'x'), (2, 'y')"]

def namesakesQuery : Query :=
  let u := keyed 2 "u" [{ name := "c", type := .text }]
  let joins : List Join := [⟨.inner, ⟨"u", none⟩, ⟨some "t", "a"⟩, ⟨some "u", "id"⟩⟩,
    ⟨.inner, ⟨"u", none⟩, ⟨some "t", "b"⟩, ⟨some "u", "id"⟩⟩]
  ⟨joinSelect ⟨"t", none⟩ joins, keyed 1 "t" [{ name := "a", type := .integer },
    { name := "b", type := .integer }], joins.map fun j => (j, u)⟩

def namesakesTuple : List StoredRow := [
  ⟨1, 1, ⟨[("id", .integer 1), ("a", .integer 1), ("b", .integer 2)]⟩⟩,
  ⟨2, 2, ⟨[("id", .integer 1), ("c", .text "x")]⟩⟩,
  ⟨3, 2, ⟨[("id", .integer 2), ("c", .text "y")]⟩⟩]

def withStrays : Engine := (ofConfiguration .testing noRemoteLimiter).afterTexts [
  "CREATE TABLE t (id INTEGER PRIMARY KEY)",
  "CREATE TABLE u (id INTEGER PRIMARY KEY)",
  "CREATE TABLE v (id INTEGER PRIMARY KEY)",
  "INSERT INTO t VALUES (1)",
  "INSERT INTO u VALUES (1)",
  "INSERT INTO v VALUES (7)"]

def straysQuery : Query :=
  let joins : List Join := [⟨.inner, ⟨"u", none⟩, ⟨some "u", "id"⟩, ⟨some "t", "id"⟩⟩,
    ⟨.inner, ⟨"v", none⟩, ⟨some "u", "id"⟩, ⟨some "t", "id"⟩⟩]
  ⟨joinSelect ⟨"t", none⟩ joins, keyed 1 "t" [], joins.zip [keyed 2 "u" [], keyed 3 "v" []]⟩

def straysTuple : List StoredRow := [⟨1, 1, ⟨[("id", .integer 1)]⟩⟩,
  ⟨2, 2, ⟨[("id", .integer 1)]⟩⟩, ⟨3, 3, ⟨[("id", .integer 7)]⟩⟩]

/-- Both queries pass their checks. In the first one the columns of the table that is joined first
are not read as its own, since those of its namesake have taken their keys. In the second one a
tuple that satisfies both ON equalities is missing: the right operand of the second equality is
read from the table that it does not name. -/
theorem joins_astray :
    (namesakesQuery.Accepted withNamesakes.store ∧
      withNamesakes.store.joined namesakesQuery = [namesakesQuery.merged namesakesTuple] ∧
      ∃ r, namesakesTuple[1]? = some r ∧
        namesakesQuery.scope.value (namesakesQuery.merged namesakesTuple) "u.c" ≠
          r.data.get "c") ∧
    (straysQuery.Accepted withStrays.store ∧
      List.Forall₂ (fun t r => r ∈ withStrays.store.rowsOf t.id)
        (straysQuery.base :: straysQuery.joined.map (·.2)) straysTuple ∧
      straysQuery.Satisfies straysTuple ∧ withStrays.store.joined straysQuery = []) := by
  have first : (namesakesQuery.base ∈ withNamesakes.store.tables ∧
      (∀ entry ∈ namesakesQuery.joined,
        entry.2 ∈ withNamesakes.store.tables ∧ entry.2.name = entry.1.table.name) ∧
      namesakesQuery.check = .ok ()) ∧
      withNamesakes.store.joined namesakesQuery = [namesakesQuery.merged namesakesTuple] ∧
      namesakesQuery.scope.value (namesakesQuery.merged namesakesTuple) "u.c" ≠ .text "x" := by
    decide +kernel
  have second : (straysQuery.base ∈ withStrays.store.tables ∧
      (∀ entry ∈ straysQuery.joined,
        entry.2 ∈ withStrays.store.tables ∧ entry.2.name = entry.1.table.name) ∧
      straysQuery.check = .ok ()) ∧
      straysTuple ∈ withStrays.store.tuples straysQuery straysQuery.joined ∧
      withStrays.store.joined straysQuery = [] := by
    decide +kernel
  obtain ⟨⟨base, joined, checked⟩, rows, misread⟩ := first
  obtain ⟨⟨base', joined', checked'⟩, listed, missing⟩ := second
  have tuple := (mem_tuples (List.append_nil straysQuery.joined).symm).mp listed
  exact ⟨⟨⟨⟨base, rfl, rfl, joined⟩, checked⟩, rows, _, rfl, misread⟩,
    ⟨⟨base', rfl, rfl, joined'⟩, checked'⟩, tuple.1, tuple.2, missing⟩

end Engine
end SqlEngine

import SqlEngine.Proofs.Constraint.Typed
import SqlEngine.Proofs.Constraint.Unique
import SqlEngine.Proofs.Engine.Meant

/-! Statements that are executed twice in a row. An UPDATE that has succeeded assigns values that
its rows already have, and a DELETE finds no more rows. -/

namespace SqlEngine

open Dialect Execution Script Store

theorem Row.putAll_putAll {r : Row} {entries : List (String × Value)} (distinct : r.names.Nodup)
    (known : ∀ entry ∈ entries, entry.1 ∈ r.names) :
    (r.putAll entries).putAll entries = r.putAll entries := by
  have once : (r.putAll entries).names = r.names := names_putAll_of_subset known
  have twice : ((r.putAll entries).putAll entries).names = (r.putAll entries).names :=
    names_putAll_of_subset (once ▸ known)
  refine eq_of_get? twice (by rwa [twice, once]) fun name => ?_
  rw [get?_putAll, get?_putAll, ← Option.or_assoc, Option.or_self]

namespace Execution

variable {t : Table} {scope : Scope} {condition : Option Condition}
  {entries : List (String × Value)}

def assigned (scope : Scope) (condition : Option Condition) (entries : List (String × Value))
    (r : StoredRow) : StoredRow :=
  if satisfies scope condition r.data then { r with data := r.data.putAll entries } else r

@[simp] theorem assigned_id (r : StoredRow) : (assigned scope condition entries r).id = r.id := by
  unfold assigned
  split <;> rfl

/-- A row that is meant afterwards was meant before, and has the values that are assigned. -/
theorem assigned_again {r : StoredRow} (distinct : r.data.names.Nodup)
    (known : satisfies scope condition r.data = true → ∀ entry ∈ entries, entry.1 ∈ r.data.names)
    (again : satisfies scope condition (assigned scope condition entries r).data = true) :
    satisfies scope condition r.data = true ∧
      (assigned scope condition entries r).data.putAll entries =
        (assigned scope condition entries r).data := by
  by_cases meant : satisfies scope condition r.data = true
  · refine ⟨meant, ?_⟩
    rw [assigned, if_pos meant]
    exact Row.putAll_putAll distinct (known meant)
  · rw [assigned, if_neg meant] at again
    exact absurd again meant

theorem exists_assigned {rows : List StoredRow} (ids : (rows.map (·.id)).Nodup)
    (distinct : t.columnNames.Nodup) (names : ∀ r ∈ rows, r.data.names = t.columnNames)
    {assignments : List (String × Value)} {changes : List (Column × Value)}
    {staged : List (Nat × Row)} (converted : conversions t assignments = .ok changes)
    (passed : updatedRows t changes (partitionRows scope condition rows).1
      (partitionRows scope condition rows).2 = .ok staged) :
    ∃ entries, ((partitionRows scope condition rows).1 ≠ [] → filled changes = .ok entries) ∧
      rows.map (putStaged staged) = rows.map (assigned scope condition entries) ∧
      ∀ r ∈ rows, satisfies scope condition (assigned scope condition entries r).data = true →
        satisfies scope condition r.data = true ∧
          (assigned scope condition entries r).data.putAll entries =
            (assigned scope condition entries r).data := by
  obtain ⟨⟨entries, settled, rfl⟩, -⟩ := updatedRows_ok passed
  refine ⟨entries, settled, ?_, fun r hr again => ?_⟩
  · rw [partitionRows_fst, map_putStaged_filter ids]
    rfl
  · refine assigned_again (names r hr ▸ distinct) (fun meant entry hentry => ?_) again
    have some : r ∈ (partitionRows scope condition rows).1 := by
      rw [partitionRows_fst]
      exact List.mem_filter.mpr ⟨hr, meant⟩
    obtain ⟨change, hchange, name, -⟩ :=
      filled_ok (settled (List.ne_nil_of_mem some)) entry hentry
    rw [names r hr, name]
    exact List.mem_map_of_mem (conversions_ok converted change hchange).1

theorem meant_ids_sublist {rows : List StoredRow} {change : StoredRow → StoredRow}
    (kept : ∀ r, (change r).id = r.id)
    (again : ∀ r ∈ rows, satisfies scope condition (change r).data = true →
      satisfies scope condition r.data = true) :
    ((partitionRows scope condition (rows.map change)).1.map (·.id)).Sublist
      ((partitionRows scope condition rows).1.map (·.id)) := by
  have both : rows.filter (fun r => satisfies scope condition (change r).data) =
      (rows.filter fun r => satisfies scope condition r.data).filter
        fun r => satisfies scope condition (change r).data := by
    rw [List.filter_filter]
    refine List.filter_congr fun r hr => ?_
    cases meant : satisfies scope condition (change r).data with
    | false => rfl
    | true => rw [again r hr meant, Bool.and_self]
  rw [partitionRows_fst, partitionRows_fst, List.filter_map, List.map_map]
  simp only [Function.comp_def, kept]
  rw [both]
  exact List.filter_sublist.map _

theorem updatedRows_nil {changes : List (Column × Value)} (others : List StoredRow) :
    updatedRows t changes [] others = .ok [] := rfl

theorem updatedRows_unchanged {rows : List StoredRow} {changes : List (Column × Value)}
    (apart : rows.Pairwise fun r q => t.Apart r.data q.data)
    (settled : (partitionRows scope condition rows).1 ≠ [] → filled changes = .ok entries)
    (same : ∀ r ∈ (partitionRows scope condition rows).1, r.data.putAll entries = r.data) :
    updatedRows t changes (partitionRows scope condition rows).1
        (partitionRows scope condition rows).2 =
      .ok ((partitionRows scope condition rows).1.map fun r => (r.id, r.data)) := by
  by_cases some : (partitionRows scope condition rows).1 = []
  · rw [some, updatedRows_nil, List.map_nil]
  have symmetric : Std.Symm fun r q : StoredRow => t.Apart r.data q.data :=
    ⟨fun _ _ apart => apart.symm⟩
  have kept : (partitionRows scope condition rows).1.map (fun r => r.data.putAll entries) =
      (partitionRows scope condition rows).1.map (·.data) := List.map_congr_left same
  have fromOthers : ∀ r ∈ (partitionRows scope condition rows).1,
      ∀ q ∈ (partitionRows scope condition rows).2, t.Apart q.data (r.data.putAll entries) := by
    intro r hr q hq
    rw [same r hr]
    rw [partitionRows_fst, List.mem_filter] at hr
    rw [partitionRows_snd, List.mem_filter] at hq
    refine apart.forall hq.1 hr.1 ?_
    rintro rfl
    simp [hr.2] at hq
  have among : ((partitionRows scope condition rows).1.map
      fun r => r.data.putAll entries).Pairwise t.Apart := by
    rw [kept, partitionRows_fst, List.pairwise_map]
    exact apart.sublist List.filter_sublist
  rw [updatedRows_of_apart (settled some) fromOthers among]
  exact congrArg Except.ok (List.map_congr_left fun r hr => by rw [same r hr])

theorem afterCalls_unchanged {s : Store} (hs : s.Numbered) (scope : Scope)
    (condition : Option Condition) :
    s.afterCalls (((partitionRows scope condition (s.rowsOf t.id)).1.map
      fun r => (r.id, r.data)).map fun e => .updateRow e.1 e.2) = s := by
  have ids : ((partitionRows scope condition (s.rowsOf t.id)).1.map fun r => (r.id, r.data)).map
      (·.1) = (partitionRows scope condition (s.rowsOf t.id)).1.map (·.id) := by
    simp [Function.comp_def]
  rw [(updateRows (ids ▸ meant_ids (hs.rowsOf_ids t.id)) ?_).2]
  · rw [partitionRows_fst, rowsOf, List.filter_filter, map_putStaged_filter hs.rowIds]
    simp
  · intro e he
    obtain ⟨r, hr, rfl⟩ := List.mem_map.mp he
    exact ⟨r, (mem_rowsOf.mp (mem_meant hr)).1, rfl⟩

end Execution

namespace Execution

variable {b : Bounds} {s : Store} {p : Plan} (opened : b.deadline.passed = false)
include opened

theorem eval_update_eq_ok {u : Update} : (update b u).eval s = .ok p ↔
    ∃ t, s.named u.table = .ok t ∧ ∃ changes, conversions t u.assignments = .ok changes ∧
      checkCondition t (.ofTable t.name none) u.condition = .ok () ∧
      ∃ staged, updatedRows t changes
        (partitionRows (.ofTable t.name none) u.condition (s.rowsOf t.id)).1
        (partitionRows (.ofTable t.name none) u.condition (s.rowsOf t.id)).2 = .ok staged ∧
        p = {
          writes := staged.map fun entry => .updateRow entry.1 entry.2
          output := .modification staged.length (changedMessage staged.length "updated in" t.name)
            (everyRowWarning u.condition "UPDATE without WHERE modified" t.name) } := by
  constructor
  · intro ok
    cases named : s.named u.table with
    | error failure =>
      simp only [update, eval_bind, b.eval_table opened, named] at ok
      cases ok
    | ok t =>
      rw [eval_update_of_named opened named, Halt.lift_eq_ok, Success.bind_eq_ok] at ok
      obtain ⟨changes, converted, ok⟩ := ok
      obtain ⟨⟨⟩, readable, ok⟩ := Success.bind_eq_ok.mp ok
      obtain ⟨staged, passed, rfl⟩ := Success.map_eq_ok.mp ok
      exact ⟨t, rfl, changes, converted, readable, staged, passed, rfl⟩
  · rintro ⟨t, named, changes, converted, readable, staged, passed, rfl⟩
    exact eval_update opened named converted readable passed

theorem eval_delete_eq_ok {d : Delete} : (delete b d).eval s = .ok p ↔
    ∃ t, s.named d.table = .ok t ∧
      checkCondition t (.ofTable t.name none) d.condition = .ok () ∧
      p = {
        writes := (partitionRows (.ofTable t.name none) d.condition (s.rowsOf t.id)).1.map
          fun row => .deleteRow row.id
        output := .modification
          (partitionRows (.ofTable t.name none) d.condition (s.rowsOf t.id)).1.length
          (changedMessage
            (partitionRows (.ofTable t.name none) d.condition (s.rowsOf t.id)).1.length
            "deleted from" t.name)
          (everyRowWarning d.condition "DELETE without WHERE removed" t.name) } := by
  constructor
  · intro ok
    cases named : s.named d.table with
    | error failure =>
      simp only [delete, eval_bind, b.eval_table opened, named] at ok
      cases ok
    | ok t =>
      rw [eval_delete opened named, Halt.lift_eq_ok] at ok
      obtain ⟨⟨⟩, readable, rfl⟩ := Success.map_eq_ok.mp ok
      exact ⟨t, rfl, readable, rfl⟩
  · rintro ⟨t, named, readable, rfl⟩
    rw [eval_delete opened named, readable]
    rfl

end Execution

/-- The numbers of the rows of a table that a condition means, in their order. -/
def Store.meant (s : Store) (t : Table) (condition : Option Condition) : List Nat :=
  (partitionRows (.ofTable t.name none) condition (s.rowsOf t.id)).1.map (·.id)

namespace Engine

variable {e : Engine}

theorem execute_bounds (e : Engine) (outage : Outage) (now : Nat) (caller sql : String) :
    (e.execute outage now caller sql).engine.bounds = e.bounds := by
  rw [bounds, deadline, execute_configuration, bounds, deadline]

section

variable (h : Reachable e) (outage : Outage) (now : Nat) (caller : String) {sql : String}
include h

/-- The UPDATE is planned anew over its own result. It means some of the rows that it has meant and
writes the data that they have. -/
theorem Reachable.update_planned_again {u : Update}
    (spelled : Statement.ofText sql = .ok (.update u))
    (succeeded : (e.execute outage now caller sql).result.success = true) :
    let after := (e.execute outage now caller sql).engine
    ∃ t, e.store.named u.table = .ok t ∧
      (e.execute outage now caller sql).result.rowCount =
        some (e.store.meant t u.condition).length ∧
      (after.store.meant t u.condition).Sublist (e.store.meant t u.condition) ∧
      ∃ p, (plan after.bounds (.update u)).eval after.store = .ok p ∧
        (Response.ofOutput p.output).success = true ∧
        (Response.ofOutput p.output).rowCount = some (after.store.meant t u.condition).length ∧
        after.store.afterCalls p.writes = after.store := by
  intro after
  have reachable : Reachable after := h.execute outage now caller sql
  obtain ⟨⟨-, opened⟩, p, planned, result, store⟩ :=
    planned_of_success e outage now caller sql h.numbered spelled succeeded
  obtain ⟨t, named, changes, converted, readable, staged, passed, rfl⟩ :=
    (eval_update_eq_ok (b := e.bounds) opened).mp planned
  have ht := e.store.mem_of_named named
  change after.store = _ at store
  rw [afterCalls_updateRows h.numbered passed] at store
  have tables : after.store.tables = e.store.tables := by rw [store]
  have namedAgain : after.store.named u.table = .ok t := by rw [store]; exact named
  obtain ⟨entries, settled, rows, again⟩ := exists_assigned (h.numbered.rowsOf_ids t.id)
    (h.declared ht).names (h.names ht) converted passed
  rw [← rowsOf_updateRows, ← store] at rows
  have apart : (after.store.rowsOf t.id).Pairwise fun r q => t.Apart r.data q.data :=
    apart_of_separates fun c hc => reachable.separates (tables ▸ ht)
      (Table.mem_uniqueColumns.mp hc).1 (Table.mem_uniqueColumns.mp hc).2
  have sublist : (after.store.meant t u.condition).Sublist (e.store.meant t u.condition) := by
    rw [Store.meant, rows]
    exact meant_ids_sublist assigned_id fun r hr meant => (again r hr meant).1
  have same : ∀ r ∈ (partitionRows (.ofTable t.name none) u.condition
      (after.store.rowsOf t.id)).1, r.data.putAll entries = r.data := by
    intro r hr
    rw [partitionRows_fst, rows, List.mem_filter] at hr
    obtain ⟨q, hq, rfl⟩ := List.mem_map.mp hr.1
    exact (again q hq hr.2).2
  have settledAgain : (partitionRows (.ofTable t.name none) u.condition
      (after.store.rowsOf t.id)).1 ≠ [] → filled changes = .ok entries := by
    refine fun some => settled fun none => some ?_
    rw [Store.meant, Store.meant, none, List.map_nil, List.sublist_nil] at sublist
    exact List.map_eq_nil_iff.mp sublist
  have openedAgain : after.bounds.deadline.passed = false := by
    rw [execute_bounds]
    exact opened
  refine ⟨t, named, ?_, sublist, _, eval_update openedAgain namedAgain converted readable
    (updatedRows_unchanged apart settledAgain same), rfl, ?_,
    afterCalls_unchanged reachable.numbered _ _⟩
  · rw [result, Store.meant, ← staged_ids passed, List.length_map]
    rfl
  · simp only [Store.meant, List.length_map]
    rfl

theorem Reachable.delete_planned_again {d : Delete}
    (spelled : Statement.ofText sql = .ok (.delete d))
    (succeeded : (e.execute outage now caller sql).result.success = true) :
    let after := (e.execute outage now caller sql).engine
    ∃ p, (plan after.bounds (.delete d)).eval after.store = .ok p ∧ p.writes = [] ∧
      (Response.ofOutput p.output).success = true ∧ (Response.ofOutput p.output).rowCount = some 0 := by
  intro after
  obtain ⟨⟨-, opened⟩, p, planned, result, store⟩ :=
    planned_of_success e outage now caller sql h.numbered spelled succeeded
  obtain ⟨t, named, readable, rfl⟩ := (eval_delete_eq_ok (b := e.bounds) opened).mp planned
  change after.store = _ at store
  rw [afterCalls_deleteRows h.numbered] at store
  have namedAgain : after.store.named d.table = .ok t := by
    rw [store]
    exact named
  have none : (partitionRows (.ofTable t.name none) d.condition (after.store.rowsOf t.id)).1 =
      [] := by
    rw [store, rowsOf_filter, partitionRows_fst, partitionRows_fst,
      filter_not_doomed (h.numbered.rowsOf_ids t.id), List.filter_filter]
    simp
  have openedAgain : after.bounds.deadline.passed = false := by
    rw [execute_bounds]
    exact opened
  refine ⟨_, (eval_delete_eq_ok openedAgain).mpr ⟨t, namedAgain, readable, rfl⟩, ?_, rfl, ?_⟩
  · rw [none, List.map_nil]
  · rw [none]
    rfl

end

/-- An UPDATE or a DELETE that has succeeded, even while other calls of the store would have failed,
succeeds when the same statement is executed again at once by a caller who is admitted and while the
store answers, and it leaves the store exactly as it is. The second UPDATE means some of the rows
that the first one has meant and no others; the second DELETE means none. -/
theorem Reachable.repeated (h : Reachable e) (outage : Outage) (now : Nat) (caller : String)
    {sql : String} (succeeded : (e.execute outage now caller sql).result.success = true)
    (now' : Nat) (caller' : String) {sql' : String}
    (same : Statement.ofText sql' = Statement.ofText sql) :
    let first := e.execute outage now caller sql
    let second := first.engine.execute noOutage now' caller' sql'
    (first.engine.limiter.chargeThrough first.engine.remote caller' now').1 = .ok () →
    (∀ u, Statement.ofText sql = .ok (.update u) →
      second.result.success = true ∧ second.engine.store = first.engine.store ∧
      ∃ t, e.store.named u.table = .ok t ∧
        first.result.rowCount = some (e.store.meant t u.condition).length ∧
        second.result.rowCount = some (first.engine.store.meant t u.condition).length ∧
        (first.engine.store.meant t u.condition).Sublist (e.store.meant t u.condition)) ∧
    (∀ d, Statement.ofText sql = .ok (.delete d) →
      second.result.success = true ∧ second.engine.store = first.engine.store ∧
        second.result.rowCount = some 0) := by
  intro first second admitted
  have numbered : first.engine.store.Numbered := (h.execute outage now caller sql).numbered
  refine ⟨fun u spelled => ?_, fun d spelled => ?_⟩
  · obtain ⟨t, named, count, sublist, p, planned, success, countAgain, unchanged⟩ :=
      h.update_planned_again outage now caller spelled succeeded
    obtain ⟨result, store⟩ :=
      execute_of_settled admitted (same.trans spelled) numbered planned
    refine ⟨?_, store.trans unchanged, t, named, count, ?_, sublist⟩
    · exact (congrArg Response.success result).trans success
    · exact (congrArg Response.rowCount result).trans countAgain
  · obtain ⟨p, planned, writes, success, count⟩ :=
      h.delete_planned_again outage now caller spelled succeeded
    obtain ⟨result, store⟩ :=
      execute_of_settled admitted (same.trans spelled) numbered planned
    rw [writes] at store
    exact ⟨(congrArg Response.success result).trans success, store,
      (congrArg Response.rowCount result).trans count⟩

def renamingText : String := "UPDATE people SET name = 'cyd' WHERE name < 'b' OR id = 1"

def renamed : Step Response := withTwoNames.execute noOutage 0 "ann" renamingText

def emptied : Step Response := renamed.engine.execute noOutage 0 "ann" "DELETE FROM people"

theorem renamed_holds :
    renamed.result.success = true ∧ emptied.result.success = true ∧
    (renamed.engine.limiter.chargeThrough renamed.engine.remote "bob" 1).1 = .ok () ∧
    (emptied.engine.limiter.chargeThrough emptied.engine.remote "bob" 1).1 = .ok () ∧
    Statement.ofText renamingText = .ok (.update ⟨"people", [("name", .text "cyd")],
      some (.either (.test "name" (.compare .less (.text "b")))
        (.test "id" (.compare .equal (.integer 1))))⟩) ∧
    Statement.ofText "DELETE FROM people" = .ok (.delete ⟨"people", none⟩) := by
  decide +kernel

theorem repeated_withTwoNames :
    ((renamed.engine.execute noOutage 1 "bob" renamingText).result.success = true ∧
      (renamed.engine.execute noOutage 1 "bob" renamingText).engine.store = renamed.engine.store) ∧
    ((emptied.engine.execute noOutage 1 "bob" "DELETE FROM people").result.success = true ∧
      (emptied.engine.execute noOutage 1 "bob" "DELETE FROM people").result.rowCount = some 0) := by
  obtain ⟨succeeded, emptiedSucceeded, admitted, admittedEmptied, updates, deletes⟩ := renamed_holds
  have reachable : Reachable withTwoNames := (Reachable.start _ _).afterTexts _
  have renamedReachable : Reachable renamed.engine := reachable.execute _ _ _ _
  obtain ⟨update, -⟩ := reachable.repeated noOutage 0 "ann" succeeded 1 "bob" rfl admitted
  obtain ⟨-, delete⟩ :=
    renamedReachable.repeated noOutage 0 "ann" emptiedSucceeded 1 "bob" rfl admittedEmptied
  obtain ⟨success, store, -⟩ := update _ updates
  obtain ⟨successAgain, -, count⟩ := delete _ deletes
  exact ⟨⟨success, store⟩, successAgain, count⟩

end Engine
end SqlEngine

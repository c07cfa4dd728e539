import SqlEngine.Proofs.Engine.Grouping
import SqlEngine.Proofs.Relation.Calls

/-! What a call in HAVING or ORDER BY stands for. It is carried only by its text, and the text is
looked up among the output values of a group and the values of its first row. Yet it is always the
value of the call that is found. -/

namespace SqlEngine

open Dialect Execution Script Store

/-- A name in HAVING or ORDER BY is read as a call. The call is an item without an alias, no other
item has its text for a name, and no key of the joined rows may be meant by it. Its value for the
rows of a group is what the name stands for in the row of that group. -/
structure Query.ReadsCall (q : Query) (items : List SelectItem) (group : List Row)
    (row : GroupedRow) (name : String) (call : AggregateCall) : Prop where
  written : call.IsWritten
  text : call.text = name
  selected : .aggregate call none ∈ items
  alone : ∀ item ∈ items, item.outputName = name → item = .aggregate call none
  unmeant : q.scope.key? q.available name = none
  value : call.evaluate q.scope group = .ok (q.scope.value row.context name)

def Query.ReadsCalls (q : Query) (items : List SelectItem) (group : List Row)
    (row : GroupedRow) : Prop :=
  ∀ name ∈ q.select.namesOfGroups, isCallText name = true →
    ∃ call, q.ReadsCall items group row name call

namespace Engine

theorem Declared.isName {columns : List Column} (h : Declared columns) :
    ∀ c ∈ columns, IsName c.name := by
  obtain ⟨sql, created, spelled, settled⟩ := h
  have given : ∀ c ∈ created.columns, IsName c.name := Statement.wellNamed_ofText spelled
  exact settleColumns_forall_name settled (by decide_cbv) given

variable {e : Engine} {q : Query}

theorem Reachable.columnNames_dotted (h : Reachable e) {t : Table} (ht : t ∈ e.store.tables) :
    ∀ name ∈ t.columnNames, IsDotted name :=
  List.forall_mem_map.mpr fun c listed => ((h.declared ht).isName c listed).isDotted

/-- The keys of the joined rows are words with at most a point between them. -/
theorem Reachable.available_dotted (h : Reachable e) (there : q.Over e.store)
    (named : q.select.WellNamed) : ∀ key ∈ q.available, IsDotted key := by
  refine List.forall_mem_append.mpr ⟨h.columnNames_dotted there.base, fun key listed => ?_⟩
  obtain ⟨⟨j, t⟩, joined, bound⟩ := List.mem_flatMap.mp listed
  obtain ⟨name, column, rfl⟩ := List.mem_map.mp bound
  have join : j ∈ q.select.joins := there.joins ▸ List.mem_map_of_mem (f := (·.1)) joined
  have table := (named.joins j join).table
  refine isDotted_boundName (IsName.isDotted ?_)
    (h.columnNames_dotted (there.joined _ joined).1 name column)
  cases aliased : j.table.alias? with
  | none => simpa [TableName.binding, aliased] using table.name
  | some a => simpa [TableName.binding, aliased] using table.alias? a aliased

theorem accepted_of_success (hs : e.store.Numbered) {outage : Outage} {now : Nat}
    {caller sql : String} {s : Select} (spelled : Statement.ofText sql = .ok (.select s))
    (succeeded : (e.execute outage now caller sql).result.success = true) :
    ∃ q : Query, q.select = s ∧ q.Accepted e.store ∧ ∃ output,
      q.finish (e.store.joined q) = .ok output ∧
        (e.execute outage now caller sql).result = .ofOutput output := by
  obtain ⟨⟨-, opened⟩, p, planned, result, -⟩ :=
    planned_of_success e outage now caller sql hs spelled succeeded
  obtain ⟨q, same, accepted, finished⟩ := accepted_of_select (b := e.bounds) opened hs planned
  exact ⟨q, same, accepted, p.output, finished, result⟩

theorem Reachable.readsCalls (h : Reachable e) (named : q.select.WellNamed)
    (accepted : q.Accepted e.store) {items : List SelectItem} (listed : q.select.items = some items)
    (group : List Row) : q.ReadsCalls items group (.ofGroup q.scope items group) := by
  intro name read isCall
  obtain ⟨call, known, rfl⟩ := (named.isOperand_of_mem name read).call isCall
  have dotted := h.available_dotted accepted.toOver named
  have alone (item : SelectItem) (among : item ∈ items) (same : item.outputName = call.text) :
      item = .aggregate call none :=
    (named.items items listed item among).eq_of_outputName known same
  have selected : .aggregate call none ∈ items := by
    by_contra unlisted
    have unselected := Query.not_mem_outputNames named known (by rwa [listed])
    exact Query.check_of_unselected unselected dotted read accepted.checked
  have value : q.scope.value (GroupedRow.ofGroup q.scope items group).context call.text =
      (SelectItem.aggregate call none).valueFor q.scope group :=
    GroupedRow.value_context ⟨_, selected, rfl⟩ fun item among same => by
      rw [alone item among same]
  exact ⟨call,
    { written := AggregateCall.isWritten_iff.mpr known
      text := rfl
      selected
      alone
      unmeant := Scope.key?_call dotted call
      value := by
        rw [value]
        exact AggregateCall.evaluate_eq known.supported none q.scope group }⟩

/-- Calls that are written with one text are one call. A query that succeeds reads a call in HAVING
or ORDER BY as its value for the rows of each group, by which it filters and sorts the rows of the
groups, and it fails if it does not select such a call without an alias. -/
theorem Reachable.calls_evaluated (h : Reachable e) {outage : Outage} {now : Nat}
    {caller sql : String} {s : Select} (spelled : Statement.ofText sql = .ok (.select s)) :
    (∀ c d : AggregateCall, c.IsWritten → d.IsWritten → c.text = d.text → c = d) ∧
    ((e.execute outage now caller sql).result.success = true →
      ∃ q : Query, q.select = s ∧ q.Over e.store ∧ (q.isGrouped = true →
        ∃ (items : List SelectItem) (rows sorted : List GroupedRow), s.items = some items ∧
          List.Forall₂ (fun group row =>
              groupedRow q.scope items group = .ok row ∧ q.ReadsCalls items group row)
            (groupsOf q.scope s.groupBy
              ((e.store.joined q).filter (satisfies q.scope s.condition))) rows ∧
          Query.sortBy q.scope q.groupedSortNames GroupedRow.context
            (rows.filter fun row => satisfies q.scope s.having row.context) = .ok sorted ∧
          (e.execute outage now caller sql).result =
            .ofOutput (.rows (items.map (·.outputName))
              (Query.page s.offset s.limit (sorted.map (·.values)))))) ∧
    ∀ call : AggregateCall, call.IsWritten → call.text ∈ s.namesOfGroups →
      .aggregate call none ∉ s.items.getD [] →
        (e.execute outage now caller sql).result.success = false := by
  have named : s.WellNamed := Statement.wellNamed_ofText spelled
  refine ⟨fun c d hc hd => ?_, fun succeeded => ?_, fun call written read unlisted => ?_⟩
  · exact (AggregateCall.isWritten_iff.mp hc).eq_of_text (AggregateCall.isWritten_iff.mp hd)
  · obtain ⟨q, rfl, accepted, output, finished, result⟩ :=
      accepted_of_success h.numbered spelled succeeded
    refine ⟨q, rfl, accepted.toOver, fun grouped => ?_⟩
    cases listed : q.select.items with
    | none => simp [Query.finish, grouped, listed] at finished
    | some items =>
      have supported : ∀ item ∈ items, item.IsSupported := fun item among =>
        (named.items items listed item among).isSupported
      rw [Query.finish_of_grouped grouped listed, Query.groupedRows_supported supported,
        Query.groupedPage, Success.map_eq_ok] at finished
      obtain ⟨_, finished, rfl⟩ := finished
      obtain ⟨sorted, answered, page⟩ := Success.bind_eq_ok.mp finished
      cases page
      refine ⟨items, _, sorted, rfl,
        List.forall₂_map_right_iff.mpr (List.forall₂_same.mpr fun group _ => ?_), answered, result⟩
      exact ⟨groupedRow_eq supported, h.readsCalls named accepted listed group⟩
  · by_contra succeeded
    obtain ⟨q, rfl, accepted, -⟩ :=
      accepted_of_success h.numbered spelled (eq_true_of_ne_false succeeded)
    have known := AggregateCall.isWritten_iff.mp written
    have unselected := Query.not_mem_outputNames named known unlisted
    exact Query.check_of_unselected unselected (h.available_dotted accepted.toOver named) read
      accepted.checked

def havingQuery : Select where
  distinct := false
  items := some [.column (.bare "a") none, .aggregate ⟨.count, none, false⟩ none]
  source := ⟨"t", none⟩
  joins := []
  condition := some (.test "id" (.compare .greater (.integer 1)))
  groupBy := [.bare "a"]
  having := some (.test "COUNT(*)" (.compare .greater (.integer 1)))
  orderBy := [⟨.bare "COUNT(*)", false⟩]
  limit := none
  offset := none

theorem withTies_having :
    Statement.ofText ("SELECT a, COUNT(*) FROM t WHERE id > 1 GROUP BY a " ++
      "HAVING count( * ) > 1 ORDER BY Count(*) DESC") = .ok (.select havingQuery) ∧
    (withTies.execute noOutage 0 "ann" ("SELECT a, COUNT(*) FROM t WHERE id > 1 GROUP BY a " ++
      "HAVING count( * ) > 1 ORDER BY Count(*) DESC")).result.success = true ∧
    Statement.ofText ("SELECT a, COUNT(*) AS n FROM t WHERE id > 1 GROUP BY a " ++
      "HAVING count( * ) > 1 ORDER BY Count(*) DESC") = .ok (.select { havingQuery with
        items := some [.column (.bare "a") none, .aggregate ⟨.count, none, false⟩ (some "n")] }) := by
  decide +kernel

theorem calls_evaluated_withTies :
    (∃ (q : Query) (rows : List GroupedRow), q.select = havingQuery ∧
      List.Forall₂ (fun group row =>
          q.scope.value row.context "COUNT(*)" = .integer (.ofNat group.length))
        (groupsOf q.scope [.bare "a"] ((withTies.store.joined q).filter
          (satisfies q.scope havingQuery.condition))) rows) ∧
    (withTies.execute noOutage 0 "ann" ("SELECT a, COUNT(*) AS n FROM t WHERE id > 1 GROUP BY a " ++
      "HAVING count( * ) > 1 ORDER BY Count(*) DESC")).result.success = false := by
  obtain ⟨spelled, succeeded, aliased⟩ := withTies_having
  have reachable : Reachable withTies := (Reachable.start _ _).afterTexts _
  obtain ⟨unique, evaluated, -⟩ := reachable.calls_evaluated spelled
  obtain ⟨-, -, refused⟩ := reachable.calls_evaluated aliased
  have written : AggregateCall.IsWritten ⟨.count, none, false⟩ :=
    AggregateCall.isWritten_iff.mpr ⟨rfl, by simp⟩
  obtain ⟨q, same, -, grouped⟩ := evaluated succeeded
  obtain ⟨items, rows, -, listed, each, -⟩ := grouped (by rw [Query.isGrouped, same]; rfl)
  refine ⟨⟨q, rows, same, each.imp fun group row read => ?_⟩, refused _ written ?_ ?_⟩
  · obtain ⟨call, isCall⟩ := read.2 "COUNT(*)" (by rw [same]; decide) (by decide)
    obtain rfl := unique call _ isCall.written written (isCall.text.trans (by decide))
    exact (Except.ok.inj isCall.value).symm
  · decide
  · decide

end Engine
end SqlEngine

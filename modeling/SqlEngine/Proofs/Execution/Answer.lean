import SqlEngine.Proofs.Execution.Reading
import SqlEngine.Proofs.Relation.Sorted

/-! What becomes of the joined rows of a query, told by the rows and groups that its conditions keep.
Nothing but the sort of a result can break off, and only if the values to sort by are not ordered. -/

namespace SqlEngine

open Dialect Script

namespace Query

variable (q : Query)

def keptGroups (items : List SelectItem) (rows : List Row) : Except Failure (List GroupedRow) :=
  (aggregateRows q.scope items q.select.groupBy rows).map
    (·.filter fun g => satisfies q.scope q.select.having g.context)

def groupedRows (items : List SelectItem) (rows : List Row) : Except Halt (List Row) :=
  Halt.lift (q.keptGroups items rows) >>= q.groupedPage

def finish (rows : List Row) : Except Halt Output :=
  let meant := rows.filter (satisfies q.scope q.select.condition)
  if q.isGrouped then
    match q.select.items with
    | some items => (q.groupedRows items meant).map (.rows (items.map (·.outputName)) ·)
    | none => .error (.failed (.semantic .starWithGroups))
  else (q.plainRows meant).map (.rows q.plainColumns ·)

theorem eval_answer (rows : List Row) (s : Store) : (q.answer rows).eval s = q.finish rows := by
  cases grouped : q.isGrouped with
  | false =>
    simp only [answer, finish, grouped, eval_bind, eval_sift, List.partition_eq_filter_filter,
      Success.ok_bind, Bool.false_eq_true, if_false, eval_done, id_eq]
    cases q.plainRows (rows.filter (satisfies q.scope q.select.condition)) <;> rfl
  | true =>
    cases listed : q.select.items with
    | none =>
      simp only [answer, finish, grouped, listed, eval_bind, eval_sift, Success.ok_bind, if_true,
        eval_fail]
    | some items =>
      simp only [answer, finish, grouped, listed, eval_bind, eval_sift, eval_ofExcept, groupedRows,
        keptGroups, List.partition_eq_filter_filter, Success.ok_bind, if_true, eval_done, id_eq]
      cases aggregateRows q.scope items q.select.groupBy
        (rows.filter (satisfies q.scope q.select.condition)) with
      | error failure => rfl
      | ok groups =>
        simp only [Halt.lift_ok, Success.ok_bind, Except.map]
        cases q.groupedPage (groups.filter fun g => satisfies q.scope q.select.having g.context) <;>
          rfl

variable {q}

theorem finish_of_plain (plain : q.isGrouped = false) (rows : List Row) : q.finish rows =
    (q.plainRows (rows.filter (satisfies q.scope q.select.condition))).map
      (.rows q.plainColumns ·) := by
  simp [finish, plain]

theorem finish_of_grouped (grouped : q.isGrouped = true) {items : List SelectItem}
    (listed : q.select.items = some items) (rows : List Row) : q.finish rows =
      (q.groupedRows items (rows.filter (satisfies q.scope q.select.condition))).map
        (.rows (items.map (·.outputName)) ·) := by
  simp [finish, grouped, listed]

/-- The query sorts groups, too many to be sorted by insertion, by values that are not ordered. -/
def Disordered (q : Query) (rows : List Row) : Prop :=
  q.isGrouped = true ∧ ∃ items kept, q.select.items = some items ∧
    q.keptGroups items (rows.filter (satisfies q.scope q.select.condition)) = .ok kept ∧
    20 < kept.length ∧ ∃ key ∈ q.groupedSortNames,
      ¬Value.TotallyOrdered ((kept.map GroupedRow.context).map (q.scope.value · key.1))

/-- A query with groups breaks off in the sort of the groups, if anywhere. -/
theorem disordered_of_broken (grouped : q.isGrouped = true) {rows : List Row}
    (broken : q.finish rows = .error .broken) : q.Disordered rows := by
  cases listed : q.select.items with
  | none => simp [finish, grouped, listed] at broken
  | some items =>
    rw [finish_of_grouped grouped listed, Success.map_eq_error, groupedRows,
      Halt.lift_bind_eq_broken] at broken
    obtain ⟨kept, made, broken⟩ := broken
    have unsorted (sorted : List GroupedRow) :
        sortBy q.scope q.groupedSortNames GroupedRow.context kept ≠ .ok sorted := by
      intro answered
      rw [groupedPage, answered] at broken
      cases broken
    refine ⟨grouped, items, kept, listed, made, ?_, ?_⟩
    · by_contra few
      obtain ⟨sorted, answered⟩ := sortBy_of_short (Nat.le_of_not_lt few)
      exact unsorted sorted answered
    · by_contra ordered
      push Not at ordered
      obtain ⟨sorted, answered, -⟩ := sortBy_sorts ordered
      exact unsorted sorted answered

end Query
end SqlEngine

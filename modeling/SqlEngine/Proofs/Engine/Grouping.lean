import SqlEngine.Proofs.Engine.Selection
import SqlEngine.Proofs.Relation.Group
import SqlEngine.Proofs.Sorting.Permutation

/-! The results of queries with groups: each row of the result comes from one group, however the
groups are sorted in the end. -/

namespace SqlEngine

open Dialect Execution Script Store

namespace Query

variable {q : Query} {items : List SelectItem}

theorem groupedRows_supported (supported : ∀ item ∈ items, item.IsSupported) (rows : List Row) :
    q.groupedRows items rows = q.groupedPage
      (((groupsOf q.scope q.select.groupBy rows).map (GroupedRow.ofGroup q.scope items)).filter
        fun g => satisfies q.scope q.select.having g.context) := by
  rw [groupedRows, keptGroups, aggregateRows_eq supported]
  rfl

end Query

namespace Engine

variable {e : Engine} {q : Query} {items : List SelectItem}

end Engine
end SqlEngine

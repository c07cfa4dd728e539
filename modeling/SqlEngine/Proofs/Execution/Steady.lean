import SqlEngine.Execution.Statement
import SqlEngine.Proofs.Script.Steady

/-! No statement breaks off, queries aside: all others fail with a failure or settle on a plan. -/

namespace SqlEngine

open Dialect Script

variable (b : Bounds)

namespace Bounds

theorem steady_unknownTable {α : Type} (name : String) : (b.unknownTable name : Script α).Steady :=
  .bind (.ask _ _) fun _ => .fail _

theorem steady_table (name : String) : (b.table name).Steady := by
  refine .bind (.ask _ _) fun found => ?_
  cases found with
  | some t => exact .ok t
  | none => exact b.steady_unknownTable name

theorem steady_rows (t : Table) : (b.rows t).Steady := .ask _ _

end Bounds

namespace Execution

theorem steady_createTable (c : CreateTable) : (createTable b c).Steady := by
  refine .bind (.ask _ _) fun found => ?_
  split
  · split
    · exact .ok _
    · exact .fail _
  · refine .bind (.ofExcept _) fun columns => .bind (.ask _ _) fun present => ?_
    exact .bind (.ofExcept _) fun _ => .ok _

theorem steady_dropTable (d : DropTable) : (dropTable b d).Steady := by
  refine .bind (.ask _ _) fun found => ?_
  cases found with
  | some t => exact .ok _
  | none =>
    simp only
    split
    · exact .ok _
    · exact b.steady_unknownTable d.table

theorem steady_createIndex (c : CreateIndex) : (createIndex b c).Steady := by
  refine .bind (b.steady_table c.table) fun t => .bind (.ofExcept _) fun _ => ?_
  refine .bind (b.steady_rows t) fun rows => ?_
  exact .bind (.ofExcept _) fun tree => .ok _

theorem steady_insert (i : Insert) : (insert b i).Steady := by
  refine .bind (b.steady_table i.table) fun t => .bind (.ofExcept _) fun columns => ?_
  refine .bind (b.steady_rows t) fun existing => .bind (.ofExcept _) fun _ => ?_
  exact .bind (.ofExcept _) fun rows => .ok _

theorem steady_update (u : Update) : (update b u).Steady := by
  refine .bind (b.steady_table u.table) fun t => .bind (.ofExcept _) fun changes => ?_
  refine .bind (.ofExcept _) fun _ => .bind (b.steady_rows t) fun rows => ?_
  refine .bind (.sift _ _ _ _) fun parts => ?_
  exact .bind (.ofExcept _) fun staged => .ok _

theorem steady_delete (d : Delete) : (delete b d).Steady := by
  refine .bind (b.steady_table d.table) fun t => .bind (.ofExcept _) fun _ => ?_
  refine .bind (b.steady_rows t) fun rows => ?_
  exact .bind (.sift _ _ _ _) fun parts => .ok _

theorem steady_joinedTables (joins : List Join) : (joinedTables b joins).Steady := by
  induction joins with
  | nil => exact .ok _
  | cons j rest ih =>
    exact .bind (b.steady_table j.table.name) fun t => .bind ih fun joined => .ok _

theorem select_of_broken {st : Statement} {s : Store}
    (broken : (plan b st).eval s = .error .broken) :
    ∃ q, st = .select q ∧ (select b q).eval s = .error .broken := by
  cases st with
  | select q => exact ⟨q, rfl, broken⟩
  | insert i => exact absurd broken ((steady_insert b i).eval_ne s)
  | update u => exact absurd broken ((steady_update b u).eval_ne s)
  | delete d => exact absurd broken ((steady_delete b d).eval_ne s)
  | createTable c => exact absurd broken ((steady_createTable b c).eval_ne s)
  | createIndex c => exact absurd broken ((steady_createIndex b c).eval_ne s)
  | dropTable d => exact absurd broken ((steady_dropTable b d).eval_ne s)
  | showTables => exact absurd broken (Steady.eval_ne (.bind (.ask _ _) fun _ => .ok _) s)
  | describe name =>
    exact absurd broken (Steady.eval_ne (.bind (b.steady_table name) fun _ => .ok _) s)

end Execution
end SqlEngine

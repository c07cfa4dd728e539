import SqlEngine.Execution.Definition
import SqlEngine.Execution.Modification
import SqlEngine.Execution.Selection

/-! The script of any statement. Everything is settled before the first write, so a failure of the
statement's own leaves the store as it was. -/

namespace SqlEngine.Execution

open Dialect

/-- Settles what a statement will do, by calls that only read. -/
def plan (b : Bounds) (s : Statement) : Script Plan :=
  match s with
  | .select s => select b s
  | .insert s => insert b s
  | .update s => update b s
  | .delete s => delete b s
  | .createTable s => createTable b s
  | .createIndex s => createIndex b s
  | .dropTable s => dropTable b s
  | .showTables => showTables b
  | .describe table => describe b table

/-- Makes the writes of the plan one by one. -/
def statement (b : Bounds) (s : Statement) : Script Plan := do
  let p ← plan b s
  .askAll b.deadline p.writes
  return p

end SqlEngine.Execution

import SqlEngine.Execution.Staging

/-! Statements that change rows. Each reads the rows of its table once and settles on one write for
every row that it means. -/

namespace SqlEngine.Execution

open Dialect

def checkCondition (t : Table) (scope : Scope) (condition : Option Condition) :
    Except Failure Unit :=
  let columns := (condition.map Condition.columns).getD []
  match columns.find? fun name => (scope.key? t.columnNames name).isNone with
  | some name => .error (t.unknownColumn name)
  | none => .ok ()

def changedMessage (count : Nat) (verb table : String) : String :=
  toString count ++ " row(s) " ++ verb ++ " '" ++ table ++ "'"

def everyRowWarning (condition : Option Condition) (text table : String) : Option String :=
  if condition.isNone then some (text ++ " every row of '" ++ table ++ "'") else none

def insert (b : Bounds) (s : Insert) : Script Plan := do
  let t ← b.table s.table
  let columns ← Script.ofExcept (targets t s.columns s.values)
  let existing ← b.rows t
  Script.ofExcept (b.quotas.checkRows t.name existing.length s.values.length)
  let rows ← Script.ofExcept (insertedRows t columns (existing.map (·.data)) s.values)
  return {
    writes := rows.map (.insertRow t.id)
    output := .modification rows.length (changedMessage rows.length "inserted into" t.name) none }

def updatedRows (t : Table) (changes : List (Column × Value)) (meant others : List StoredRow) :
    Except Failure (List (Nat × Row)) := do
  let staged ← meant.mapM fun row => return (row.id, ← assignAll changes row.data)
  checkStaged t (others.map (·.data)) [] (staged.map (·.2))
  return staged

def update (b : Bounds) (s : Update) : Script Plan := do
  let t ← b.table s.table
  let scope := Scope.ofTable t.name none
  let changes ← Script.ofExcept (conversions t s.assignments)
  Script.ofExcept (checkCondition t scope s.condition)
  let (meant, others) ← Script.sift scope s.condition StoredRow.data (← b.rows t)
  let staged ← Script.ofExcept (updatedRows t changes meant others)
  let warning := everyRowWarning s.condition "UPDATE without WHERE modified" t.name
  return {
    writes := staged.map fun entry => .updateRow entry.1 entry.2
    output :=
      .modification staged.length (changedMessage staged.length "updated in" t.name) warning }

def delete (b : Bounds) (s : Delete) : Script Plan := do
  let t ← b.table s.table
  let scope := Scope.ofTable t.name none
  Script.ofExcept (checkCondition t scope s.condition)
  let (meant, _) ← Script.sift scope s.condition StoredRow.data (← b.rows t)
  let warning := everyRowWarning s.condition "DELETE without WHERE removed" t.name
  return {
    writes := meant.map fun row => .deleteRow row.id
    output :=
      .modification meant.length (changedMessage meant.length "deleted from" t.name) warning }

end SqlEngine.Execution

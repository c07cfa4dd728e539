import SqlEngine.Execution.Output
import SqlEngine.Relation.Group
import SqlEngine.Relation.Join
import SqlEngine.Sorting.Sort

/-! SELECT statements: which columns a query may name, the joined rows, and what becomes of them by
grouping, sorting, projection and pagination. -/

namespace SqlEngine

open Dialect

/-- A query with the tables that it names. -/
structure Query where
  select : Select
  base : Table
  joined : List (Join × Table)

namespace Query

def scope (q : Query) : Scope := .ofTable q.base.name q.select.source.alias?

def boundColumns (j : Join) (t : Table) : List String :=
  t.columnNames.map (boundName j.table.binding)

/-- The keys of a row after some joins, base columns first. -/
def keysAfter (q : Query) (joins : List (Join × Table)) : List String :=
  q.base.columnNames ++ joins.flatMap fun (j, t) => boundColumns j t

def available (q : Query) : List String := q.keysAfter q.joined

def isGrouped (q : Query) : Bool := q.select.isAggregate || q.select.having.isSome

/-- An unknown column is reported for the joined table that its qualifier names, else for the base
table with all keys that could have been meant. -/
def unknownColumn (q : Query) (name : String) (available : List String) : Failure :=
  let owner := (Scope.splitQualifier name).bind fun (qualifier, _) =>
    q.joined.find? fun (j, _) => j.table.isNamed qualifier
  match owner with
  | some (_, t) => t.unknownColumn name
  | none => .unknownColumn name q.base.name available

def checkNameAmong (q : Query) (available : List String) (name : String) : Except Failure Unit :=
  if (q.scope.key? available name).isSome then .ok ()
  else .error (q.unknownColumn name available)

def checkName (q : Query) (name : String) : Except Failure Unit :=
  q.checkNameAmong q.available name

def checkJoin (q : Query) (before : List (Join × Table)) (j : Join) (t : Table) :
    Except Failure Unit := do
  let keys := JoinKeys.ofJoin j q.scope
  if !t.hasColumn keys.inner then throw (t.unknownColumn keys.inner)
  q.checkNameAmong (q.keysAfter before) keys.outer.text

def checkJoins (q : Query) : (before rest : List (Join × Table)) → Except Failure Unit
  | _, [] => .ok ()
  | before, (j, t) :: rest => do
    q.checkJoin before j t
    checkJoins q (before ++ [(j, t)]) rest

def checkItem (q : Query) (item : SelectItem) : Except Failure Unit :=
  match item with
  | .column name _ => q.checkName name.text
  | .aggregate call _ =>
    match call.argument with
    | some name => q.checkName name.text
    | none =>
      if call.isSupported then .ok () else .error (.semantic (.unsupportedCall call))

def checkItems (q : Query) : Except Failure Unit :=
  match q.select.items with
  | some items => items.forM q.checkItem
  | none => if q.isGrouped then .error (.semantic .starWithGroups) else .ok ()

def isCallText (name : String) : Bool := name.toList.contains '('

def checkHavingName (q : Query) (name : String) : Except Failure Unit :=
  if q.select.outputNames.contains name then .ok ()
  else if isCallText name then .error (.semantic (.havingNotSelected name))
  else q.checkName name

def checkOrderName (q : Query) (name : String) : Except Failure Unit :=
  if q.select.outputNames.contains name then .ok ()
  else if q.isGrouped && isCallText name then .error (.semantic (.orderNotSelected name))
  else q.checkName name

def conditionNames (condition : Option Condition) : List String :=
  (condition.map Condition.columns).getD []

/-- Whether every name of a query means something; the first that does not is reported. -/
def check (q : Query) : Except Failure Unit := do
  q.checkJoins [] q.joined
  q.checkItems
  (conditionNames q.select.condition).forM q.checkName
  q.select.groupBy.forM fun name => q.checkName name.text
  (conditionNames q.select.having).forM q.checkHavingName
  q.select.orderBy.forM fun key => q.checkOrderName key.column.text

abbrev SortNames := List (String × Bool)

def compareRows (scope : Scope) : SortNames → Row → Row → Ordering
  | [], _, _ => .eq
  | (name, ascending) :: rest, a, b =>
    let order := (scope.value a name).sortOrder (scope.value b name)
    (if ascending then order else order.swap).then (compareRows scope rest a b)

/-- Rows that compare equal stay in their order. The sort may break off where the comparison is no
order. -/
def sortBy {α : Type} (scope : Scope) (names : SortNames) (row : α → Row) (xs : List α) :
    Except Halt (List α) :=
  match Sorting.sort (fun a b => compareRows scope names (row a) (row b) == .lt) xs with
  | some sorted => .ok sorted
  | none => .error .broken

def page {α : Type} (offset limit : Option Nat) (xs : List α) : List α :=
  let rest := xs.drop (offset.getD 0)
  match limit with
  | some n => rest.take n
  | none => rest

def behindAlias (items : List SelectItem) (name : String) : String :=
  let found := items.findSome? fun
    | .column column alias? => if alias? = some name then some column.text else none
    | .aggregate _ _ => none
  found.getD name

def plainSortNames (q : Query) : SortNames :=
  q.select.orderBy.map fun key =>
    (behindAlias (q.select.items.getD []) key.column.text, key.ascending)

def plainColumns (q : Query) : List String :=
  match q.select.items with
  | some items => items.map (·.outputName)
  | none => q.available

def project (q : Query) (row : Row) : Row :=
  match q.select.items with
  | none => .ofEntries (q.available.map fun key => (key, row.get key))
  | some items => .ofEntries (items.filterMap fun
    | .column name alias? =>
      some ((SelectItem.column name alias?).outputName, q.scope.value row name.text)
    | .aggregate _ _ => none)

/-- The JSON text of the values of an output row, by which DISTINCT compares. -/
def tupleText (columns : List String) (row : Row) : String :=
  Value.jsonTuple (columns.map row.get)

def plainRows (q : Query) (rows : List Row) : Except Halt (List Row) := do
  let projected := (← sortBy q.scope q.plainSortNames id rows).map q.project
  let kept := if q.select.distinct then firsts (tupleText q.plainColumns) projected else projected
  return page q.select.offset q.select.limit kept

def groupedSortNames (q : Query) : SortNames :=
  q.select.orderBy.map fun key => (key.column.text, key.ascending)

def groupedPage (q : Query) (kept : List GroupedRow) : Except Halt (List Row) := do
  let sorted ← sortBy q.scope q.groupedSortNames GroupedRow.context kept
  return page q.select.offset q.select.limit (sorted.map (·.values))

def answer (q : Query) (rows : List Row) : Script Output := do
  let (meant, _) ← Script.sift q.scope q.select.condition id rows
  if q.isGrouped then
    match q.select.items with
    | some items =>
      let groups ← Script.ofExcept (aggregateRows q.scope items q.select.groupBy meant)
      let (kept, _) ← Script.sift q.scope q.select.having GroupedRow.context groups
      return .rows (items.map (·.outputName)) (← Script.done (q.groupedPage kept))
    | none => .fail (.semantic .starWithGroups)
  else return .rows q.plainColumns (← Script.done (q.plainRows meant))

end Query

namespace Execution

def joinedTables (b : Bounds) : List Join → Script (List (Join × Table))
  | [] => pure []
  | j :: rest => do
    let t ← b.table j.table.name
    return (j, t) :: (← joinedTables b rest)

def joinRows (b : Bounds) (q : Query) :
    (before rest : List (Join × Table)) → List Row → Script (List Row)
  | _, [], rows => pure rows
  | before, (j, t) :: rest, rows => do
    let rights ← b.rows t
    let plan := JoinPlan.ofJoin j q.scope (q.keysAfter before) t.columnNames
    let merged ← Script.ofExcept (plan.run b.deadline rows (rights.map (·.data)))
    joinRows b q (before ++ [(j, t)]) rest merged

def select (b : Bounds) (s : Select) : Script Plan := do
  let base ← b.table s.source.name
  let joined ← joinedTables b s.joins
  let q : Query := ⟨s, base, joined⟩
  Script.ofExcept q.check
  let rows ← b.rows base
  let merged ← joinRows b q [] joined (rows.map (·.data))
  return { output := ← q.answer merged }

end Execution
end SqlEngine

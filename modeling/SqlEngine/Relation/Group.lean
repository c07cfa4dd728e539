import SqlEngine.Relation.Aggregate

/-! Groups of rows and the rows that they become. -/

namespace SqlEngine

open Dialect

def groupKey (scope : Scope) (names : List String) (row : Row) : String :=
  Value.jsonTuple (names.map (scope.value row))

structure Grouping where
  places : List (String × Nat)
  groups : List (List Row)

namespace Grouping

def empty : Grouping := ⟨[], []⟩

def add (g : Grouping) (key : String) (row : Row) : Grouping :=
  match g.places.lookup key with
  | some place => { g with groups := g.groups.modify place (· ++ [row]) }
  | none => ⟨g.places ++ [(key, g.groups.length)], g.groups ++ [[row]]⟩

end Grouping

def groupRows (scope : Scope) (groupBy : List ColumnName) (rows : List Row) : List (List Row) :=
  let names := groupBy.map (·.text)
  (rows.foldl (fun (g : Grouping) row => g.add (groupKey scope names row) row) .empty).groups

/-- Without GROUP BY all rows are one group, even if there are none. -/
def groupsOf (scope : Scope) (groupBy : List ColumnName) (rows : List Row) : List (List Row) :=
  if groupBy.isEmpty then [rows] else groupRows scope groupBy rows

structure GroupedRow where
  values : Row
  first : Option Row
deriving DecidableEq

/-- The row that HAVING and ORDER BY see: the output values over those of the first row. -/
def GroupedRow.context (g : GroupedRow) : Row :=
  (g.first.getD .empty).putAll g.values.entries

def itemValue (scope : Scope) (group : List Row) (item : SelectItem) : Except Failure Value :=
  match item with
  | .column name _ =>
    .ok (match group with
      | first :: _ => scope.value first name.text
      | [] => .null)
  | .aggregate call _ => call.evaluate scope group

def groupedRow (scope : Scope) (items : List SelectItem) (group : List Row) :
    Except Failure GroupedRow := do
  let entries ← items.mapM fun item => return (item.outputName, ← itemValue scope group item)
  return ⟨.ofEntries entries, group.head?⟩

def aggregateRows (scope : Scope) (items : List SelectItem) (groupBy : List ColumnName)
    (rows : List Row) : Except Failure (List GroupedRow) :=
  (groupsOf scope groupBy rows).mapM (groupedRow scope items)

end SqlEngine

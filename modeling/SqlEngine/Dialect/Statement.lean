import SqlEngine.Schema

/-! Statements as trees, and the names under which their parts appear in results. -/

namespace SqlEngine.Dialect

structure ColumnName where
  qualifier : Option String
  column : String
deriving DecidableEq

namespace ColumnName

def bare (column : String) : ColumnName := ⟨none, column⟩

def text (c : ColumnName) : String :=
  match c.qualifier with
  | some q => q ++ "." ++ c.column
  | none => c.column

end ColumnName

inductive Comparison where
  | equal | notEqual | less | greater | lessEqual | greaterEqual
deriving DecidableEq

def Comparison.text : Comparison → String
  | equal => "="
  | notEqual => "!="
  | less => "<"
  | greater => ">"
  | lessEqual => "<="
  | greaterEqual => ">="

inductive Test where
  | compare (op : Comparison) (literal : Value)
  | like (pattern : String) (negated : Bool)
  | isNull (negated : Bool)
deriving DecidableEq

/-- The condition of a WHERE or HAVING clause. Columns stand there by their text. -/
inductive Condition where
  | both (left right : Condition)
  | either (left right : Condition)
  | negation (inner : Condition)
  | test (column : String) (test : Test)
deriving DecidableEq

def Condition.columns : Condition → List String
  | both left right => left.columns ++ right.columns
  | either left right => left.columns ++ right.columns
  | negation inner => inner.columns
  | test column _ => [column]

inductive Aggregate where
  | count | sum | avg | min | max
deriving DecidableEq

namespace Aggregate

def all : List Aggregate := [count, sum, avg, min, max]

def name : Aggregate → String
  | count => "COUNT"
  | sum => "SUM"
  | avg => "AVG"
  | min => "MIN"
  | max => "MAX"

def named? (word : String) : Option Aggregate := all.find? (·.name == Text.asciiUpper word)

theorem named?_name (f : Aggregate) : named? f.name = some f := by
  cases f <;> decide +kernel

end Aggregate

structure AggregateCall where
  function : Aggregate
  argument : Option ColumnName
  distinct : Bool
deriving DecidableEq

namespace AggregateCall

def text (c : AggregateCall) : String :=
  c.function.name ++ "(" ++ (if c.distinct then "DISTINCT " else "") ++
    (match c.argument with
      | some column => column.text
      | none => "*") ++ ")"

def isSupported (c : AggregateCall) : Bool :=
  c.argument.isSome || (c.function == .count && !c.distinct)

end AggregateCall

inductive SelectItem where
  | column (name : ColumnName) (alias? : Option String)
  | aggregate (call : AggregateCall) (alias? : Option String)
deriving DecidableEq

namespace SelectItem

def isAggregate : SelectItem → Bool
  | column .. => false
  | aggregate .. => true

/-- The name of the item's column in the result: its alias, else the item as written. -/
def outputName : SelectItem → String
  | column name alias? => alias?.getD name.text
  | aggregate call alias? => alias?.getD call.text

end SelectItem

structure TableName where
  name : String
  alias? : Option String
deriving DecidableEq

namespace TableName

def binding (t : TableName) : String := t.alias?.getD t.name

def isNamed (t : TableName) (qualifier : String) : Bool :=
  qualifier == t.name || t.alias? == some qualifier

end TableName

inductive JoinKind where
  | inner | left | right
deriving DecidableEq

structure Join where
  kind : JoinKind
  table : TableName
  left : ColumnName
  right : ColumnName
deriving DecidableEq

structure SortKey where
  column : ColumnName
  ascending : Bool
deriving DecidableEq

structure Select where
  distinct : Bool
  items : Option (List SelectItem)
  source : TableName
  joins : List Join
  condition : Option Condition
  groupBy : List ColumnName
  having : Option Condition
  orderBy : List SortKey
  limit : Option Nat
  offset : Option Nat
deriving DecidableEq

namespace Select

def isAggregate (s : Select) : Bool :=
  !s.groupBy.isEmpty || (s.items.getD []).any (·.isAggregate)

def outputNames (s : Select) : List String := (s.items.getD []).map (·.outputName)

end Select

structure Insert where
  table : String
  columns : Option (List String)
  values : List (List Value)
deriving DecidableEq

structure Update where
  table : String
  assignments : List (String × Value)
  condition : Option Condition
deriving DecidableEq

structure Delete where
  table : String
  condition : Option Condition
deriving DecidableEq

structure CreateTable where
  table : String
  ifNotExists : Bool
  columns : List Column
deriving DecidableEq

structure CreateIndex where
  index : IndexDefinition
  table : String
deriving DecidableEq

structure DropTable where
  table : String
  ifExists : Bool
deriving DecidableEq

inductive Statement where
  | select (s : Select)
  | insert (s : Insert)
  | update (s : Update)
  | delete (s : Delete)
  | createTable (s : CreateTable)
  | createIndex (s : CreateIndex)
  | dropTable (s : DropTable)
  | showTables
  | describe (table : String)
deriving DecidableEq

end SqlEngine.Dialect

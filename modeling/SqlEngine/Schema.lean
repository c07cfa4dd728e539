import SqlEngine.Row
import SqlEngine.Text.Lowercase

/-! Tables as they are declared: columns with their constraints, and secondary indexes. -/

namespace SqlEngine

inductive ColumnType where
  | integer
  | text
  | real
  | boolean
  | date
deriving DecidableEq, Repr

namespace ColumnType

def name : ColumnType → String
  | integer => "INTEGER"
  | text => "TEXT"
  | real => "REAL"
  | boolean => "BOOLEAN"
  | date => "DATE"

def spellings : List (ColumnType × List String) := [
  (integer, ["INTEGER", "INT", "BIGINT", "SMALLINT"]),
  (text, ["TEXT", "VARCHAR", "CHAR", "STRING"]),
  (real, ["REAL", "FLOAT", "DOUBLE", "NUMERIC", "DECIMAL"]),
  (boolean, ["BOOLEAN", "BOOL"]),
  (date, ["DATE", "DATETIME", "TIMESTAMP"])]

def named? (word : String) : Option ColumnType :=
  (spellings.find? fun s => s.2.contains (Text.asciiUpper word)).map (·.1)

def admits : ColumnType → Value → Bool
  | _, .null => true
  | integer, .integer _ => true
  | text, .text _ => true
  | real, .real _ => true
  | boolean, .boolean _ => true
  | date, .date _ => true
  | _, _ => false

end ColumnType

/-- A column without a default has `none`; a declared default may be null. -/
structure Column where
  name : String
  type : ColumnType
  primaryKey : Bool := false
  unique : Bool := false
  notNull : Bool := false
  autoIncrement : Bool := false
  default? : Option Value := none
deriving DecidableEq

namespace Column

def asPrimaryKey (c : Column) : Column :=
  { c with primaryKey := true, unique := true, notNull := true }

def implicitId : Column :=
  { name := "id", type := .integer, primaryKey := true, unique := true, notNull := true,
    autoIncrement := true }

def isUnique (c : Column) : Bool := c.primaryKey || c.unique

end Column

structure IndexDefinition where
  name : String
  columns : List String
  unique : Bool
deriving DecidableEq

structure Table where
  id : Nat
  name : String
  columns : List Column
  indexes : List IndexDefinition
deriving DecidableEq

namespace Table

def column? (t : Table) (name : String) : Option Column := t.columns.find? (·.name == name)

def hasColumn (t : Table) (name : String) : Bool := (t.column? name).isSome

def columnNames (t : Table) : List String := t.columns.map (·.name)

theorem hasColumn_iff {t : Table} {name : String} :
    t.hasColumn name = true ↔ name ∈ t.columnNames := by
  simp [hasColumn, column?, columnNames]

def primaryKey? (t : Table) : Option Column := t.columns.find? (·.primaryKey)

def autoIncrement? (t : Table) : Option Column := t.columns.find? (·.autoIncrement)

def index? (t : Table) (name : String) : Option IndexDefinition :=
  t.indexes.find? (·.name == name)

def uniqueColumns (t : Table) : List Column := t.columns.filter (·.isUnique)

end Table

structure StoredRow where
  id : Nat
  table : Nat
  data : Row
deriving DecidableEq

end SqlEngine

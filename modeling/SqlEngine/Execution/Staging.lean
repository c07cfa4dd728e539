import SqlEngine.Execution.Output
import SqlEngine.Relation.Aggregate
import SqlEngine.Schema.Coercion

/-! The rules for the rows that INSERT and UPDATE are about to write: defaults and NOT NULL, unique
columns, generated numbers, and which column each value of an INSERT belongs to. All rows of a
statement pass these rules before the first one is written. -/

namespace SqlEngine.Execution

def fillMissing (c : Column) (omitted : Bool) (v : Value) : Except Failure Value :=
  if !v.isNull then .ok v
  else match (if omitted || c.notNull then c.default? else none) with
    | some w => .ok w
    | none => if c.notNull then .error (.constraint (.notNull c.name)) else .ok .null

def collides (c : Column) (v : Value) (others : List Row) : Bool :=
  others.any fun other => (other.get c.name).equals v

def checkUnique (t : Table) (others : List Row) (row : Row) : Except Failure Unit :=
  match t.uniqueColumns.find? fun c => collides c (row.get c.name) others with
  | some c => .error (.constraint (.duplicateValue (row.get c.name) c.name t.name))
  | none => .ok ()

def successor (n : Int64) : Int64 := if n = Int64.maxValue then n else n + 1

/-- The number after the largest one in a column, one for a column without numbers. The numbers are
read as doubles. -/
def nextNumber (column : String) (rows : List Row) : Int64 :=
  match (rows.filterMap fun row => (row.get column).number?.map Binary64.toInt64).max? with
  | some n => successor n
  | none => 1

def advance (column : String) (next : Int64) (row : Row) : Int64 :=
  match row.get column with
  | .integer n => max next (successor n)
  | _ => next

def listedColumns (t : Table) : (seen names : List String) → Except Failure (List Column)
  | _, [] => .ok []
  | seen, name :: rest =>
    if seen.contains name then .error (.semantic (.listedTwice name))
    else do
      let c ← t.columnNamed name
      return c :: (← listedColumns t (name :: seen) rest)

/-- The columns that receive the values. Without a list these are all columns, or all but the
generated one where the first row has exactly as many values as that. -/
def targets (t : Table) (names : Option (List String)) (values : List (List Value)) :
    Except Failure (List Column) :=
  match names with
  | some names => listedColumns t [] names
  | none =>
    let writable := t.columns.filter fun c => !c.autoIncrement
    match values with
    | first :: _ =>
      if first.length ≠ t.columns.length ∧ first.length = writable.length then .ok writable
      else .ok t.columns
    | [] => .ok t.columns

def supplied? (given : List (String × Value)) (c : Column) : Option Value := Row.find? c.name given

/-- The value that a new row holds in a column. A generated column without one takes `next`. -/
def columnValue (given : List (String × Value)) (next : Option Int64) (c : Column) :
    Except Failure Value := do
  let supplied := supplied? given c
  let converted ← c.coerce (supplied.getD .null)
  let numbered := match next with
    | some n => if converted.isNull && c.autoIncrement then .integer n else converted
    | none => converted
  fillMissing c supplied.isNone numbered

def newRow (t : Table) (given : List (String × Value)) (next : Option Int64) :
    Except Failure Row := do
  let entries ← t.columns.mapM fun c => return (c.name, ← columnValue given next c)
  return .ofEntries entries

/-- Stages the rows of an INSERT one after the other behind those in `staged`; `number` is that of
the row in the statement, from one on. -/
def stageRows (t : Table) (columns : List Column) (existing : List Row) :
    (number : Nat) → (next : Option Int64) → (staged : List Row) → List (List Value) →
      Except Failure (List Row)
  | _, _, staged, [] => .ok staged
  | number, next, staged, values :: rest => do
    if values.length ≠ columns.length then
      throw (.semantic (.valueCount number values.length columns.length))
    let row ← newRow t ((columns.map (·.name)).zip values) next
    checkUnique t existing row
    checkUnique t staged row
    let next := match t.autoIncrement? with
      | some c => next.map fun n => advance c.name n row
      | none => next
    stageRows t columns existing (number + 1) next (staged ++ [row]) rest

def insertedRows (t : Table) (columns : List Column) (existing : List Row)
    (values : List (List Value)) : Except Failure (List Row) :=
  let next := t.autoIncrement?.map fun c => nextNumber c.name existing
  stageRows t columns existing 1 next [] values

def conversions (t : Table) (assignments : List (String × Value)) :
    Except Failure (List (Column × Value)) :=
  assignments.mapM fun (name, v) => do
    let c ← t.columnNamed name
    return (c, ← c.coerce v)

def assignAll (changes : List (Column × Value)) (row : Row) : Except Failure Row :=
  changes.foldlM (fun row (c, v) => do return row.put c.name (← fillMissing c false v)) row

def checkStaged (t : Table) (staying : List Row) : (before rows : List Row) → Except Failure Unit
  | _, [] => .ok ()
  | before, row :: rest => do
    checkUnique t staying row
    checkUnique t before row
    checkStaged t staying (before ++ [row]) rest

end SqlEngine.Execution

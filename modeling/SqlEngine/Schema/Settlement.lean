import SqlEngine.Schema.Coercion

/-! The columns of a new table as they are stored. Every table has one primary key: a declared one,
or else a column named `id`, or else a column of that name that is put in front. -/

namespace SqlEngine

def repeatedName? : (seen names : List String) → Option String
  | _, [] => none
  | seen, name :: rest =>
    if seen.contains name then some name else repeatedName? (name :: seen) rest

namespace Column

def settleDefault (c : Column) : Except Failure Column :=
  match c.default? with
  | none => .ok c
  | some v => (c.coerce v).map fun w => { c with default? := some w }

def isNamedId (c : Column) : Bool := Text.asciiLower c.name == "id"

end Column

def columnFault? (columns : List Column) : Option SemanticFault :=
  let autoIncrements := columns.filter (·.autoIncrement)
  if columns.isEmpty then some .noColumns
  else match repeatedName? [] (columns.map (·.name)) with
    | some name => some (.duplicateColumn name)
    | none =>
      if (columns.filter (·.primaryKey)).length > 1 then some .manyPrimaryKeys
      else if autoIncrements.length > 1 then some .manyAutoIncrements
      else match autoIncrements.find? (·.type != .integer) with
        | some c => some (.autoIncrementType c.name c.type)
        | none => none

/-- Columns without a primary key receive one. An AUTO_INCREMENT column would have to be it. -/
def withPrimaryKey (columns : List Column) : Except Failure (List Column) :=
  let autoIncrement? := (columns.find? (·.autoIncrement)).map (·.name)
  match columns.findIdx? (·.isNamedId), columns.find? (·.isNamedId) with
  | some i, some id =>
    if id.type ≠ .integer then .error (.semantic (.idType id.name id.type))
    else match autoIncrement?.filter (· != id.name) with
      | some other => .error (.semantic (.autoIncrementNotKey other))
      | none => .ok (columns.set i { id.asPrimaryKey with autoIncrement := true })
  | _, _ =>
    match autoIncrement? with
    | some other => .error (.semantic (.autoIncrementNotKey other))
    | none => .ok (.implicitId :: columns)

def settleColumns (columns : List Column) : Except Failure (List Column) :=
  match columnFault? columns with
  | some fault => .error (.semantic fault)
  | none => do
    let settled ← columns.mapM Column.settleDefault
    if settled.any (·.primaryKey) then return settled else withPrimaryKey settled

end SqlEngine

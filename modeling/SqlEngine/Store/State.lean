import SqlEngine.Failure

/-! The tables and rows that the engine works on. Numbers of tables and rows are handed out in
ascending order and never again, so both lists are ordered by number. -/

namespace SqlEngine

structure Store where
  tables : List Table
  rows : List StoredRow
  nextTable : Nat
  nextRow : Nat
deriving DecidableEq

namespace Store

def empty : Store := ⟨[], [], 1, 1⟩

def tableNamed? (s : Store) (name : String) : Option Table := s.tables.find? (·.name == name)

def table? (s : Store) (id : Nat) : Option Table := s.tables.find? (·.id == id)

def hasTable (s : Store) (id : Nat) : Bool := (s.table? id).isSome

def tableNames (s : Store) : List String :=
  (s.tables.map (·.name)).mergeSort fun a b => compare a b != .gt

def tableCount (s : Store) : Nat := s.tables.length

def rowsOf (s : Store) (table : Nat) : List StoredRow := s.rows.filter (·.table == table)

def createTable (s : Store) (name : String) (columns : List Column)
    (indexes : List IndexDefinition) : Except StoreFault (Nat × Store) :=
  if (s.tableNamed? name).isSome then .error (.tableExists name)
  else
    let table : Table := ⟨s.nextTable, name, columns, indexes⟩
    .ok (s.nextTable, { s with tables := s.tables ++ [table], nextTable := s.nextTable + 1 })

def dropTable (s : Store) (id : Nat) : Except StoreFault Store :=
  if s.hasTable id then
    .ok { s with tables := s.tables.filter (·.id != id), rows := s.rows.filter (·.table != id) }
  else .error (.tableNotFound id)

def insertRow (s : Store) (table : Nat) (data : Row) : Except StoreFault (Nat × Store) :=
  if s.hasTable table then
    .ok (s.nextRow,
      { s with rows := s.rows ++ [⟨s.nextRow, table, data⟩], nextRow := s.nextRow + 1 })
  else .error (.tableNotFound table)

def selectRows (s : Store) (table : Nat) : Except StoreFault (List StoredRow) :=
  if s.hasTable table then .ok (s.rowsOf table) else .error (.tableNotFound table)

def updateRow (s : Store) (id : Nat) (data : Row) : Except StoreFault Store :=
  if s.rows.any (·.id == id) then
    .ok { s with rows := s.rows.map fun r => if r.id = id then { r with data } else r }
  else .error (.rowNotFound id)

def deleteRow (s : Store) (id : Nat) : Except StoreFault Store :=
  if s.rows.any (·.id == id) then .ok { s with rows := s.rows.filter (·.id != id) }
  else .error (.rowNotFound id)

def setIndexes (s : Store) (table : Nat) (indexes : List IndexDefinition) :
    Except StoreFault Store :=
  if s.hasTable table then
    .ok { s with tables := s.tables.map fun t => if t.id = table then { t with indexes } else t }
  else .error (.tableNotFound table)

end Store
end SqlEngine

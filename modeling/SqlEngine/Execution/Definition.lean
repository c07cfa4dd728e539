import SqlEngine.Execution.Output
import SqlEngine.Schema.Settlement

/-! Statements that define tables and indexes, and those that list them. -/

namespace SqlEngine.Execution

open Dialect

def createTable (b : Bounds) (s : CreateTable) : Script Plan := do
  if (← b.findTable s.table).isSome then
    if s.ifNotExists then
      return { output := .definition ("Table '" ++ s.table ++ "' already exists, skipped") }
    else .fail (.semantic (.tableExists s.table))
  else
    let columns ← Script.ofExcept (settleColumns s.columns)
    let present ← b.ask .tableCount
    Script.ofExcept (b.quotas.checkTables present)
    return {
      writes := [.createTable s.table columns []]
      output := .definition ("Table '" ++ s.table ++ "' created") }

def dropTable (b : Bounds) (s : DropTable) : Script Plan := do
  match ← b.findTable s.table with
  | some t =>
    return {
      writes := [.dropTable t.id]
      output := .definition ("Table '" ++ t.name ++ "' dropped")
      change := .evict t.name }
  | none =>
    if s.ifExists then
      return { output := .definition ("Table '" ++ s.table ++ "' does not exist, skipped") }
    else b.unknownTable s.table

def checkIndex (t : Table) (d : IndexDefinition) : Except Failure Unit :=
  if (t.index? d.name).isSome then .error (.semantic (.indexExists d.name t.name))
  else match d.columns.find? fun c => !t.hasColumn c with
    | some c => .error (t.unknownColumn c)
    | none => .ok ()

def createIndex (b : Bounds) (s : CreateIndex) : Script Plan := do
  let t ← b.table s.table
  Script.ofExcept (checkIndex t s.index)
  let rows ← b.rows t
  let tree ← Script.ofExcept (Index.RowIndex.build s.index rows)
  let message :=
    "Index '" ++ s.index.name ++ "' created on " ++ t.name ++ "(" ++ listed s.index.columns ++ ")"
  return {
    writes := [.setIndexes t.id (t.indexes ++ [s.index])]
    output := .definition message
    change := .put t.name s.index.name tree }

def nameRow (name : String) : Row := .ofEntries [("table_name", .text name)]

def showTables (b : Bounds) : Script Plan := do
  let names ← b.ask .tableNames
  return { output := .rows ["table_name"] (names.map nameRow) }

def columnEntries (c : Column) : List (String × Value) := [
  ("column", .text c.name),
  ("type", .text c.type.name),
  ("primary_key", .boolean c.primaryKey),
  ("unique", .boolean c.isUnique),
  ("not_null", .boolean c.notNull),
  ("auto_increment", .boolean c.autoIncrement),
  ("default", c.default?.getD .null)]

def descriptionColumns : List String :=
  ["column", "type", "primary_key", "unique", "not_null", "auto_increment", "default"]

def describe (b : Bounds) (name : String) : Script Plan := do
  let t ← b.table name
  return { output := .rows descriptionColumns (t.columns.map fun c => .ofEntries (columnEntries c)) }

end SqlEngine.Execution

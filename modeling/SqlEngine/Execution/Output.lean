import SqlEngine.Index.Build
import SqlEngine.Limits.Configuration
import SqlEngine.Store.Script

/-! What a statement produces, and what all statements share: the limits they run under and the
look-up of a table by its name. -/

namespace SqlEngine

inductive Output where
  | rows (columns : List String) (rows : List Row)
  | modification (affected : Nat) (message : String) (warning : Option String)
  | definition (message : String)
deriving DecidableEq

inductive IndexChange where
  | keep
  | put (table index : String) (tree : Index.RowIndex)
  | evict (table : String)

def IndexChange.apply (change : IndexChange) (c : Index.Catalog) : Index.Catalog :=
  match change with
  | keep => c
  | put table index tree => c.put table index tree
  | evict table => c.evict table

/-- What a statement has settled on when it has read what it needs: the calls that change the store,
and what it answers once they are made. -/
structure Plan where
  writes : List StoreCall := []
  output : Output
  change : IndexChange := .keep

structure Bounds where
  deadline : Deadline
  quotas : Quotas

namespace Bounds

def ask (b : Bounds) (c : StoreCall) : Script c.Answer := .ask b.deadline c

def findTable (b : Bounds) (name : String) : Script (Option Table) := b.ask (.tableNamed name)

/-- An unknown table is reported with the names of the known ones. -/
def unknownTable {α : Type} (b : Bounds) (name : String) : Script α := do
  let known ← b.ask .tableNames
  .fail (.noTable name known)

def table (b : Bounds) (name : String) : Script Table := do
  match ← b.findTable name with
  | some t => return t
  | none => b.unknownTable name

def rows (b : Bounds) (t : Table) : Script (List StoredRow) := b.ask (.selectRows t.id)

end Bounds

def Table.unknownColumn (t : Table) (column : String) : Failure :=
  .unknownColumn column t.name t.columnNames

def Table.columnNamed (t : Table) (name : String) : Except Failure Column :=
  match t.column? name with
  | some c => .ok c
  | none => .error (t.unknownColumn name)

end SqlEngine

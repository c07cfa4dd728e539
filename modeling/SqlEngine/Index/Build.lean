import SqlEngine.Failure
import SqlEngine.Index.Tree

/-! Secondary indexes: trees from the values of some columns to the numbers of the rows that hold
them. -/

namespace SqlEngine.Index

abbrev Key := List Value

namespace Key

def order : Key → Key → Ordering
  | [], [] => .eq
  | [], _ :: _ => .lt
  | _ :: _, [] => .gt
  | a :: as, b :: bs => (a.sortOrder b).then (order as bs)

def ofRow (columns : List String) (row : Row) : Key := columns.map row.get

def hasNull (k : Key) : Bool := k.any Value.isNull

def text (k : Key) : String := "(" ++ listed (k.map Value.display) ++ ")"

end Key

abbrev RowIndex := Tree Key Nat

namespace RowIndex

def insert (t : RowIndex) (key : Key) (id : Nat) : Except Failure RowIndex :=
  match Tree.insert Key.order t key id with
  | (.ok (), grown) => .ok grown
  | (.error _, _) => .error (.constraint (.duplicateKey (Key.text key)))

def search (t : RowIndex) (key : Key) : List Nat := Tree.search Key.order t key

/-- The index of a definition with one more row. A unique index leaves out keys with a null. -/
def addRow (d : IndexDefinition) (t : RowIndex) (row : StoredRow) : Except Failure RowIndex :=
  let key := Key.ofRow d.columns row.data
  if d.unique && Key.hasNull key then .ok t
  else match Tree.insert Key.order t key row.id with
    | (.ok (), grown) => .ok grown
    | (.error _, _) => .error (.constraint (.uniqueIndex d.name (Key.text key)))

def build (d : IndexDefinition) (rows : List StoredRow) : Except Failure RowIndex :=
  rows.foldlM (addRow d) (.empty (.default d.unique))

end RowIndex

structure Catalog where
  entries : List ((String × String) × RowIndex)

namespace Catalog

def empty : Catalog := ⟨[]⟩

def get? (c : Catalog) (table index : String) : Option RowIndex :=
  (c.entries.find? (·.1 == (table, index))).map (·.2)

/-- An index of the same table and name is replaced. -/
def put (c : Catalog) (table index : String) (tree : RowIndex) : Catalog :=
  ⟨c.entries.filter (·.1 != (table, index)) ++ [((table, index), tree)]⟩

def lookup (c : Catalog) (table index : String) (key : Key) : Option (List Nat) :=
  (c.get? table index).map (·.search key)

def evict (c : Catalog) (table : String) : Catalog := ⟨c.entries.filter (·.1.1 != table)⟩

def size (c : Catalog) : Nat := c.entries.length

def isEmpty (c : Catalog) : Bool := c.entries.isEmpty

end Catalog
end SqlEngine.Index

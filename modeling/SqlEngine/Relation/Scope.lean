import SqlEngine.Row

/-! How the name of a column finds a key of a row. The columns of the base table stand in a row
under their bare names, and those of joined tables under `binding.column`. -/

namespace SqlEngine

/-- The names by which the base table may qualify its columns. -/
structure Scope where
  baseNames : List String
deriving DecidableEq

namespace Scope

def ofTable (table : String) (alias? : Option String) : Scope := ⟨table :: alias?.toList⟩

def unqualified : Scope := ⟨[]⟩

def namesBase (s : Scope) (qualifier : String) : Bool := s.baseNames.contains qualifier

def splitQualifier (name : String) : Option (String × String) :=
  match name.toList.span (· ≠ '.') with
  | (qualifier, _ :: column) => some (String.ofList qualifier, String.ofList column)
  | (_, []) => none

def isQualified (name key : String) : Bool := ('.' :: name.toList).isSuffixOf key.toList

/-- The key among `available` that a name means: the name itself, or without the qualifier of the
base table, or for a bare name the first that ends with it behind a dot. -/
def key? (s : Scope) (available : List String) (name : String) : Option String :=
  if available.contains name then some name
  else match splitQualifier name with
    | some (qualifier, column) =>
      if s.namesBase qualifier && available.contains column then some column else none
    | none => available.find? (isQualified name)

def leastKey? : List (String × Value) → Option (String × Value)
  | [] => none
  | entry :: rest =>
    match leastKey? rest with
    | some other => if compare other.1 entry.1 == .lt then some other else some entry
    | none => some entry

/-- The value that a name means in a row; a name that means none reads as null. Of several joined
columns of one bare name the one with the least key is read. -/
def value (s : Scope) (row : Row) (name : String) : Value :=
  match row.get? name with
  | some v => v
  | none =>
    match splitQualifier name with
    | some (qualifier, column) => if s.namesBase qualifier then row.get column else .null
    | none =>
      match leastKey? (row.entries.filter fun entry => isQualified name entry.1) with
      | some (_, v) => v
      | none => .null

end Scope
end SqlEngine

import SqlEngine.Number.Decimal
import SqlEngine.Number.Word
import SqlEngine.Text.Blank

/-! The scalar values of the engine and their three comparisons: the equality of conditions and
joins, the partial order of `<` and `>`, and the order that sorts rows and index keys. -/

namespace SqlEngine

/-- A date is held as the text of its instant. -/
inductive Value where
  | null
  | boolean (b : Bool)
  | integer (n : Int64)
  | real (x : Binary64)
  | text (s : String)
  | date (s : String)
deriving DecidableEq, Inhabited

namespace Value

def isNull : Value → Bool
  | null => true
  | _ => false

@[simp] theorem isNull_eq_true {v : Value} : v.isNull = true ↔ v = null := by
  cases v <;> simp [isNull]

def typeName : Value → String
  | null => "NULL"
  | boolean _ => "BOOLEAN"
  | integer _ => "INTEGER"
  | real _ => "REAL"
  | text _ => "TEXT"
  | date _ => "DATE"

def display : Value → String
  | null => "NULL"
  | boolean b => if b then "true" else "false"
  | integer n => toString n.toInt
  | real x => Decimal.text x
  | text s => s
  | date s => s

def ofWord (n : Int64) : Binary64 := .ofInt n.toInt

def numberOfText? (s : String) : Option Binary64 :=
  (Decimal.read? (Text.trim s).toList).filter Binary64.isFinite

/-- The numeric view of a value. Numeric texts have one; booleans and dates do not. -/
def number? : Value → Option Binary64
  | integer n => some (ofWord n)
  | real x => some x
  | text s => numberOfText? s
  | _ => none

def characters? : Value → Option String
  | text s => some s
  | date s => some s
  | _ => none

def equals : Value → Value → Bool
  | integer a, integer b => a == b
  | integer a, real b => (ofWord a).eq b
  | real a, integer b => a.eq (ofWord b)
  | real a, real b => a.eq b
  | boolean a, boolean b => a == b
  | a, b => match a.characters?, b.characters? with
    | some s, some t => s == t
    | _, _ => false

/-- Numeric when both sides have a numeric view, else by characters when both sides have them.
`none` means that the values are not comparable. -/
def order? (a b : Value) : Option Ordering :=
  match a.number?, b.number? with
  | some x, some y => x.compare? y
  | _, _ => match a.characters?, b.characters? with
    | some s, some t => some (compare s t)
    | _, _ => none

def sortRank : Value → Nat
  | null => 0
  | boolean _ => 1
  | integer _ => 2
  | real _ => 2
  | text _ => 3
  | date _ => 3

/-- Nulls first, then booleans, numbers, and texts and dates. -/
def sortOrder : Value → Value → Ordering
  | boolean a, boolean b => compare a b
  | integer a, integer b => compare a.toInt b.toInt
  | integer a, real b => (ofWord a).totalCompare b
  | real a, integer b => a.totalCompare (ofWord b)
  | real a, real b => a.totalCompare b
  | a, b => match a.characters?, b.characters? with
    | some s, some t => compare s t
    | _, _ => compare a.sortRank b.sortRank

theorem equals_null_left (v : Value) : equals null v = false := by
  cases v <;> rfl

end Value
end SqlEngine

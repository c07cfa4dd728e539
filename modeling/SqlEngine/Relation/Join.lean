import SqlEngine.Dialect.Statement
import SqlEngine.Limits.Deadline
import SqlEngine.Relation.Scope

/-! Joins of the rows so far with the rows of one more table, by nested loops over both. The columns
of the joined table enter the merged row as `binding.column`. -/

namespace SqlEngine

open Dialect

structure JoinKeys where
  outer : ColumnName
  inner : String
deriving DecidableEq

/-- Whether a name is qualified as a column of the joined table: by its alias, or by its table name
unless that names the base table too. -/
def Dialect.Join.owns (j : Join) (scope : Scope) (c : ColumnName) : Bool :=
  match c.qualifier with
  | none => false
  | some q => j.table.alias? == some q || (q == j.table.name && !scope.namesBase q)

/-- The sides are as written, unless only the left one is a column of the joined table. -/
def JoinKeys.ofJoin (j : Join) (scope : Scope) : JoinKeys :=
  if !j.owns scope j.right && j.owns scope j.left then ⟨j.right, j.left.column⟩
  else ⟨j.left, j.right.column⟩

def boundName (binding column : String) : String := binding ++ "." ++ column

def mergeRows (binding : String) (left right : Row) : Row :=
  left.putAll (right.entries.map fun entry => (boundName binding entry.1, entry.2))

/-- A join made ready: which rows belong together, how they are merged, and which columns an
unmatched row lacks. -/
structure JoinPlan where
  kind : JoinKind
  scope : Scope
  keys : JoinKeys
  binding : String
  leftColumns : List String
  rightColumns : List String

namespace JoinPlan

def ofJoin (j : Join) (scope : Scope) (leftColumns rightColumns : List String) : JoinPlan :=
  ⟨j.kind, scope, .ofJoin j scope, j.table.binding, leftColumns, rightColumns⟩

def agree (p : JoinPlan) (left right : Row) : Bool :=
  (p.scope.value left p.keys.outer.text).equals (right.get p.keys.inner)

def merge (p : JoinPlan) (left right : Row) : Row := mergeRows p.binding left right

def ofLeft (p : JoinPlan) (rights : List Row) (left : Row) : List Row :=
  let found := rights.filter (p.agree left)
  if found.isEmpty && p.kind == .left then [p.merge left (.nulls p.rightColumns)]
  else found.map (p.merge left)

def ofRight (p : JoinPlan) (lefts : List Row) (right : Row) : List Row :=
  let found := lefts.filter (p.agree · right)
  if found.isEmpty then [p.merge (.nulls p.leftColumns) right]
  else found.map (p.merge · right)

def rows (p : JoinPlan) (lefts rights : List Row) : List Row :=
  match p.kind with
  | .right => rights.flatMap (p.ofRight lefts)
  | _ => lefts.flatMap (p.ofLeft rights)

def driving (p : JoinPlan) (lefts rights : List Row) : List Row :=
  match p.kind with
  | .right => rights
  | _ => lefts

def run (p : JoinPlan) (deadline : Deadline) (lefts rights : List Row) :
    Except Failure (List Row) :=
  if (p.driving lefts rights).isEmpty then .ok []
  else deadline.check.map fun _ => p.rows lefts rights

theorem run_of_open (p : JoinPlan) {deadline : Deadline} (h : deadline.passed = false)
    (lefts rights : List Row) : p.run deadline lefts rights = .ok (p.rows lefts rights) := by
  unfold run
  split
  · next empty =>
    have : p.rows lefts rights = [] := by
      revert empty
      cases hk : p.kind <;> simp_all [driving, rows]
    rw [this]
  · simp [Deadline.check_of_open h, Except.map]

end JoinPlan
end SqlEngine

import SqlEngine.Dialect.Statement
import SqlEngine.Condition.Pattern
import SqlEngine.Relation.Scope

/-! When a row satisfies a condition. There are two truth values: a comparison or a pattern that
meets null is false, and a negation turns false into true. -/

namespace SqlEngine.Dialect

def Comparison.holds (op : Comparison) (left right : Value) : Bool :=
  match op with
  | equal => left.equals right
  | notEqual => !left.isNull && !right.isNull && !left.equals right
  | less => left.order? right == some .lt
  | greater => left.order? right == some .gt
  | lessEqual => left.order? right == some .lt || left.order? right == some .eq
  | greaterEqual => left.order? right == some .gt || left.order? right == some .eq

def Test.holds (t : Test) (v : Value) : Bool :=
  match t with
  | compare op literal => op.holds v literal
  | like pattern negated => !v.isNull && Pattern.like pattern v.display != negated
  | isNull negated => v.isNull != negated

def Condition.holds (scope : Scope) (row : Row) : Condition → Bool
  | both left right => left.holds scope row && right.holds scope row
  | either left right => left.holds scope row || right.holds scope row
  | negation inner => !inner.holds scope row
  | test column t => t.holds (scope.value row column)

def satisfies (scope : Scope) (condition : Option Condition) (row : Row) : Bool :=
  match condition with
  | some c => c.holds scope row
  | none => true

end SqlEngine.Dialect

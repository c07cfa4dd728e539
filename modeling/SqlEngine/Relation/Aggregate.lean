import SqlEngine.Failure
import SqlEngine.Json.Scalar
import SqlEngine.Relation.Distinct
import SqlEngine.Relation.Scope

/-! The aggregate functions over the values of one column in the rows of a group. -/

namespace SqlEngine

open Dialect

def addWords? (a b : Int64) : Option Int64 := signedWord? (a.toInt + b.toInt)

/-- The sum so far as a word, while every part was whole and every partial sum fitted, and as a
double. -/
structure RunningSum where
  exact : Option Int64
  real : Binary64

namespace RunningSum

def start : RunningSum := ⟨some 0, .zero⟩

/-- Values without a numeric view leave the sum as it is. Reals end its being exact, and so do
numeric texts that are not whole. -/
def add (s : RunningSum) (v : Value) : RunningSum :=
  match v with
  | .integer n => ⟨s.exact.bind (addWords? · n), s.real.add (Value.ofWord n)⟩
  | .real x => ⟨none, s.real.add x⟩
  | v =>
    match v.number? with
    | some x =>
      ⟨if x.isWhole then s.exact.bind (addWords? · x.toInt64) else none, s.real.add x⟩
    | none => s

def value (s : RunningSum) : Value :=
  match s.exact with
  | some n => .integer n
  | none => .real s.real

end RunningSum

def sumOf (values : List Value) : Value := (values.foldl RunningSum.add .start).value

def countOf (values : List Value) : Value :=
  .integer (.ofNat (values.filter fun v => !v.isNull).length)

def averageOf (values : List Value) : Value :=
  let numbers := values.filterMap Value.number?
  if numbers.isEmpty then .null
  else .real ((numbers.foldl Binary64.add .negativeZero).div (.ofNat numbers.length))

/-- The first value whose numeric view no other one beats, as it stands. -/
def extremeOf (beats : Binary64 → Binary64 → Bool) (values : List Value) : Value :=
  let best := values.foldl (fun (best : Option (Value × Binary64)) v =>
    match v.number?, best with
    | none, _ => best
    | some x, none => some (v, x)
    | some x, some (_, y) => if beats x y then some (v, x) else best) none
  match best with
  | some (v, _) => v
  | none => .null

def Dialect.Aggregate.ofValues (f : Aggregate) (values : List Value) : Value :=
  match f with
  | count => countOf values
  | sum => sumOf values
  | avg => averageOf values
  | min => extremeOf (fun x y => x.lt y) values
  | max => extremeOf (fun x y => y.lt x) values

def distinctValues (values : List Value) : List Value :=
  firsts Value.json (values.filter fun v => !v.isNull)

def argumentValues (scope : Scope) (column : ColumnName) (distinct : Bool) (rows : List Row) :
    List Value :=
  let values := rows.map (scope.value · column.text)
  if distinct then distinctValues values else values

def Dialect.AggregateCall.evaluate (call : AggregateCall) (scope : Scope) (rows : List Row) :
    Except Failure Value :=
  match call.argument with
  | some column => .ok (call.function.ofValues (argumentValues scope column call.distinct rows))
  | none =>
    if call.isSupported then .ok (.integer (.ofNat rows.length))
    else .error (.semantic (.unsupportedCall call))

end SqlEngine

import SqlEngine.Failure
import SqlEngine.Calendar.Spelling

/-! Coercion of a value to the declared type of a column. The answer is a value of that type, or
null for null, or the failure that names the value, the type and the column. -/

namespace SqlEngine

open Calendar

namespace ColumnType

def floorWord? (x : Binary64) : Option Int64 :=
  if x.isFinite then signedWord? x.floor else none

def toInteger? : Value → Option Value
  | .integer n => some (.integer n)
  | .boolean b => some (.integer (if b then 1 else 0))
  | .real x => (floorWord? x).map .integer
  | .text s => (Value.numberOfText? s).bind fun x => (floorWord? x).map .integer
  | _ => none

def toReal? : Value → Option Value
  | .boolean b => some (.real (.ofNat (if b then 1 else 0)))
  | v => v.number?.map .real

def booleanOfText? (s : String) : Option Bool :=
  let word := Text.asciiLower (Text.trim s)
  if word == "true" || word == "1" then some true
  else if word == "false" || word == "0" then some false
  else none

def toBoolean? : Value → Option Value
  | .boolean b => some (.boolean b)
  | .integer n =>
    if n = 1 then some (.boolean true) else if n = 0 then some (.boolean false) else none
  | .real x =>
    if x.eq (.ofNat 1) then some (.boolean true)
    else if x.eq .zero then some (.boolean false)
    else none
  | .text s => (booleanOfText? s).map .boolean
  | _ => none

def instantOf? : Value → Option Instant
  | .text s => Instant.ofText? s
  | .date s => Instant.ofText? s
  | .integer ms => Instant.ofMilliseconds? ms.toInt
  | .real ms => if ms.isFinite then Instant.ofMilliseconds? ms.toInt64.toInt else none
  | _ => none

def convert? (type : ColumnType) (v : Value) : Option Value :=
  match type with
  | integer => toInteger? v
  | real => toReal? v
  | text => some (.text v.display)
  | boolean => toBoolean? v
  | date => (instantOf? v).map fun i => .date i.text

end ColumnType

namespace Column

/-- Null is taken as it is; whether the column may hold it is settled elsewhere. -/
def coerce (c : Column) (v : Value) : Except Failure Value :=
  if v.isNull then .ok .null
  else match c.type.convert? v with
    | some w => .ok w
    | none => .error (.notConvertible v c.type c.name)

theorem coerce_null (c : Column) : c.coerce .null = .ok .null := rfl

end Column
end SqlEngine

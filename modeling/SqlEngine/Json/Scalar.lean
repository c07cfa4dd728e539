import SqlEngine.Json.Document
import SqlEngine.Value

/-! Values as JSON scalars. A date is written as a plain string, so it reads back as a text. -/

namespace SqlEngine

namespace Json

/-- Digits are kept while the number that they form fits an unsigned word. The answer holds that
number, how many digits were kept, and how many were dropped. -/
def keepDigits : (n : Nat) → List Char → Nat × Nat × Nat
  | n, [] => (n, 0, 0)
  | n, c :: rest =>
    let m := n * 10 + Decimal.digitValue c
    if m ≤ maxWord then
      let (last, kept, dropped) := keepDigits m rest
      (last, kept + 1, dropped)
    else (n, 0, rest.length + 1)

def powerOfTen (n : Nat) : Binary64 := .ofNat (Nat.pow 10 n)

/-- The significand times a power of ten in one step of double arithmetic. A power below that of
the least double takes further steps, of which `fuel` many are taken. -/
def scale? : (fuel : Nat) → Binary64 → Int → Option Binary64
  | fuel, x, exponent =>
    if exponent.natAbs ≤ 308 then
      if 0 ≤ exponent then
        let y := x.mul (powerOfTen exponent.toNat)
        if y.isInfinite then none else some y
      else some (x.div (powerOfTen exponent.natAbs))
    else if x.eq .zero then some x
    else if 0 ≤ exponent then none
    else match fuel with
      | 0 => some x
      | fuel + 1 => scale? fuel (x.div (powerOfTen 308)) (exponent + 308)

namespace Numeral

def exponentValue (n : Numeral) : Int :=
  match n.exponent with
  | some (true, ds) => -(Decimal.naturalOf ds : Int)
  | some (false, ds) => Decimal.naturalOf ds
  | none => 0

/-- The double that a numeral denotes, unless it is too large for one. Digits beyond those of an
unsigned word do not count; after four steps of scaling down nothing is left of them. -/
def real? (n : Numeral) : Option Binary64 :=
  let (whole, _, dropped) := keepDigits 0 n.whole
  let (significand, kept, _) := keepDigits whole (n.places.getD [])
  let exponent := n.exponentValue + dropped - kept
  (scale? 4 (.ofNat significand) exponent).map fun x => if n.negative then x.neg else x

def isInteger (n : Numeral) : Bool := n.places.isNone && n.exponent.isNone

def word? (limit : Nat) (n : Numeral) : Option Nat :=
  let m := Decimal.naturalOf n.whole
  if n.isInteger && !n.negative && m ≤ limit then some m else none

def signedWord? (n : Numeral) : Option Int64 :=
  let m := Decimal.naturalOf n.whole
  if !n.isInteger || (n.negative && m == 0) then none
  else SqlEngine.signedWord? (if n.negative then -(m : Int) else m)

def value? (n : Numeral) : Option Value :=
  match n.signedWord? with
  | some i => some (.integer i)
  | none => n.real?.map .real

end Numeral

def Document.value? : Document → Option Value
  | null => some .null
  | boolean b => some (.boolean b)
  | number n => n.value?
  | string s => s.map fun cs => .text (String.ofList cs)
  | array _ => none
  | object _ => none

end Json

namespace Value

def json : Value → String
  | null => "null"
  | boolean b => if b then "true" else "false"
  | integer n => toString n.toInt
  | real x => Json.realText x
  | text s => Json.quote s
  | date s => Json.quote s

def jsonTuple (values : List Value) : String :=
  "[" ++ ",".intercalate (values.map json) ++ "]"

end Value
end SqlEngine

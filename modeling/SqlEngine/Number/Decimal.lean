import SqlEngine.Number.Binary64

/-! Decimal text of doubles: the reading of a written number, the fewest digits that read back to
the same double, and the exact value at a fixed number of places. -/

namespace SqlEngine.Decimal

def digitValue (c : Char) : Nat := c.toNat - '0'.toNat

def naturalOf (digits : List Char) : Nat :=
  digits.foldl (fun n c => n * 10 + digitValue c) 0

def digitCount (n : Nat) : Nat := (Nat.toDigits 10 n).length

/-- The double nearest to `significand * 10 ^ exponent`. Far outside the range of doubles the
power is not formed. -/
def scaled (negative : Bool) (significand : Nat) (exponent : Int) : Binary64 :=
  let top := digitCount significand + exponent
  if significand = 0 then .ofMagnitude negative 0
  else if 400 < top then .infinity negative
  else if top < -400 then .ofMagnitude negative 0
  else if 0 ≤ exponent then .ofRatio negative (significand * Nat.pow 10 exponent.toNat) 1
  else .ofRatio negative significand (Nat.pow 10 exponent.natAbs)

def splitSign : List Char → Bool × List Char
  | '-' :: rest => (true, rest)
  | '+' :: rest => (false, rest)
  | rest => (false, rest)

def readExponent? : List Char → Option Int
  | [] => some 0
  | c :: rest =>
    if c = 'e' ∨ c = 'E' then
      let (negative, digits) := splitSign rest
      if digits ≠ [] ∧ digits.all Char.isDigit then
        some (if negative then -(naturalOf digits : Int) else naturalOf digits)
      else none
    else none

def readUnsigned? (negative : Bool) (cs : List Char) : Option Binary64 :=
  let (whole, afterWhole) := cs.span Char.isDigit
  let (places, rest) := match afterWhole with
    | '.' :: more => more.span Char.isDigit
    | _ => ([], afterWhole)
  if whole.isEmpty && places.isEmpty then none
  else (readExponent? rest).map fun exponent =>
    scaled negative (naturalOf (whole ++ places)) (exponent - places.length)

def read? (cs : List Char) : Option Binary64 :=
  let (negative, body) := splitSign cs
  let word := body.map Char.toLower
  if word = "inf".toList ∨ word = "infinity".toList then some (.infinity negative)
  else if word = "nan".toList then some (.quietNaN negative)
  else readUnsigned? negative body

structure Digits where
  digits : Nat
  exponent : Int
deriving DecidableEq, Repr

def scaleUp (num den : Nat) : (fuel start : Nat) → Nat
  | 0, n => n
  | fuel + 1, n => if den ≤ num * Nat.pow 10 n then n else scaleUp num den fuel (n + 1)

def leadingExponent (num den : Nat) : Int :=
  if den ≤ num then (digitCount (num / den) : Int) - 1
  else -(scaleUp num den 400 1 : Int)

def shiftRatio (num den : Nat) (n : Int) : Nat × Nat :=
  if 0 ≤ n then (num * Nat.pow 10 n.toNat, den) else (num, den * Nat.pow 10 n.natAbs)

/-- Whether `d * 10 ^ exponent` lies among the reals that round to the double of magnitude `m`.
The ends of that interval belong to it when the significand is even. -/
def readsBack (m d : Nat) (exponent : Int) : Bool :=
  let here := Binary64.magnitudeUnits m
  let low := here + Binary64.magnitudeUnits (m - 1)
  let high := here + Binary64.magnitudeUnits (m + 1)
  let (num, den) := shiftRatio (2 * d * Binary64.one) 1 exponent
  if m % 2 = 0 then low * den ≤ num && num ≤ high * den
  else low * den < num && num < high * den

/-- The point of the grid of step `10 ^ exponent` nearest to the double of magnitude `m`, if it
reads back; of two equally near points the upper one. -/
def nearestOnGrid? (m : Nat) (exponent : Int) : Option Nat :=
  let (num, den) := shiftRatio (Binary64.magnitudeUnits m) Binary64.one (-exponent)
  let below := num / den
  let above := below + 1
  let upper := den ≤ 2 * (num % den)
  match readsBack m below exponent, readsBack m above exponent with
  | true, true => some (if upper then above else below)
  | true, false => some below
  | false, true => some above
  | false, false => none

def shortestFrom (m : Nat) (top : Int) : (fuel count : Nat) → Digits
  | 0, _ => ⟨0, 0⟩
  | fuel + 1, count =>
    let exponent := top - count
    match nearestOnGrid? m exponent with
    | some d => if d % 10 = 0 then ⟨d / 10, exponent + 1⟩ else ⟨d, exponent⟩
    | none => shortestFrom m top fuel (count + 1)

def shortest (m : Nat) : Digits :=
  shortestFrom m (leadingExponent (Binary64.magnitudeUnits m) Binary64.one) 18 0

def pointed (digits : List Char) (places : Nat) : List Char :=
  let padded := List.replicate (places + 1 - digits.length) '0' ++ digits
  padded.take (padded.length - places) ++ '.' :: padded.drop (padded.length - places)

def Digits.positional (d : Digits) : List Char :=
  let digits := Nat.toDigits 10 d.digits
  if 0 ≤ d.exponent then digits ++ List.replicate d.exponent.toNat '0'
  else pointed digits d.exponent.natAbs

def signed (negative : Bool) (body : List Char) : String :=
  String.ofList (if negative then '-' :: body else body)

def special? (x : Binary64) : Option String :=
  if x.isNaN then some "NaN"
  else if x.isInfinite then some (if x.isNegative then "-inf" else "inf")
  else none

def text (x : Binary64) : String :=
  (special? x).getD <|
    if x.magnitude = 0 then signed x.isNegative ['0']
    else signed x.isNegative (shortest x.magnitude).positional

def fixed (places : Nat) (x : Binary64) : String :=
  (special? x).getD <|
    let scaledUp := Binary64.divideHalfEven (x.units.natAbs * Nat.pow 10 places) Binary64.one
    signed x.isNegative (pointed (Nat.toDigits 10 scaledUp) places)

end SqlEngine.Decimal

/-! Doubles as the sixty-four bits of the binary64 format.
Every finite double is a whole number of units of `2 ^ (-1074)`, so arithmetic is done exactly on
integers and one rounding function, to the nearest double and of two to the even one, leads back. -/

namespace SqlEngine

structure Binary64 where
  bits : UInt64
deriving DecidableEq, Inhabited, Repr

namespace Binary64

def signBit : Nat := 0x8000000000000000

def binade : Nat := 0x10000000000000

def magnitude (x : Binary64) : Nat := x.bits.toNat % signBit

def isNegative (x : Binary64) : Bool := signBit ≤ x.bits.toNat

def ofMagnitude (negative : Bool) (m : Nat) : Binary64 :=
  ⟨UInt64.ofNat (if negative then signBit + m else m)⟩

def infinityMagnitude : Nat := 0x7FF0000000000000

def isNaN (x : Binary64) : Bool := infinityMagnitude < x.magnitude

def isInfinite (x : Binary64) : Bool := x.magnitude == infinityMagnitude

def isFinite (x : Binary64) : Bool := x.magnitude < infinityMagnitude

def zero : Binary64 := ofMagnitude false 0

def negativeZero : Binary64 := ofMagnitude true 0

def infinity (negative : Bool) : Binary64 := ofMagnitude negative infinityMagnitude

def quietNaN (negative : Bool) : Binary64 := ofMagnitude negative (infinityMagnitude + binade / 2)

def invalid : Binary64 := quietNaN true

def neg (x : Binary64) : Binary64 := ofMagnitude (!x.isNegative) x.magnitude

def magnitudeUnits (m : Nat) : Nat :=
  let exponent := m / binade
  let fraction := m % binade
  if exponent = 0 then fraction else (binade + fraction) * Nat.pow 2 (exponent - 1)

def one : Nat := Nat.pow 2 1074

def units (x : Binary64) : Int :=
  if x.isNegative then -(magnitudeUnits x.magnitude : Int) else magnitudeUnits x.magnitude

def divideHalfEven (num den : Nat) : Nat :=
  let quotient := num / den
  let rest := num % den
  if 2 * rest < den then quotient
  else if den < 2 * rest then quotient + 1
  else quotient + quotient % 2

/-- The magnitude nearest to `num / den` units, or that of infinity. Above the binades that hold
every unit, a step of the significand is worth `2 ^ shift` units. -/
def roundUnits (num den : Nat) : Nat :=
  let shift := (num / den).log2 - 52
  min infinityMagnitude (shift * binade + divideHalfEven num (den * Nat.pow 2 shift))

def ofRatio (negative : Bool) (num den : Nat) : Binary64 :=
  ofMagnitude negative (roundUnits (num * one) den)

def ofInt (i : Int) : Binary64 := ofRatio (i < 0) i.natAbs 1

def ofNat (n : Nat) : Binary64 := ofRatio false n 1

def add (x y : Binary64) : Binary64 :=
  if x.isNaN then x
  else if y.isNaN then y
  else if x.isInfinite then
    if y.isInfinite && x.isNegative != y.isNegative then invalid else x
  else if y.isInfinite then y
  else
    let sum := x.units + y.units
    if sum = 0 then ofMagnitude (x.isNegative && y.isNegative) 0
    else ofMagnitude (sum < 0) (roundUnits sum.natAbs 1)

def mul (x y : Binary64) : Binary64 :=
  let negative := x.isNegative != y.isNegative
  if x.isNaN then x
  else if y.isNaN then y
  else if x.isInfinite || y.isInfinite then
    if x.magnitude == 0 || y.magnitude == 0 then invalid else infinity negative
  else ofMagnitude negative (roundUnits (x.units.natAbs * y.units.natAbs) one)

def div (x y : Binary64) : Binary64 :=
  let negative := x.isNegative != y.isNegative
  if x.isNaN then x
  else if y.isNaN then y
  else if x.isInfinite then
    if y.isInfinite then invalid else infinity negative
  else if y.isInfinite then ofMagnitude negative 0
  else if y.magnitude == 0 then
    if x.magnitude == 0 then invalid else infinity negative
  else ofRatio negative x.units.natAbs y.units.natAbs

def floor (x : Binary64) : Int := x.units / (one : Int)

def ceil (x : Binary64) : Int := -(-x.units / (one : Int))

def trunc (x : Binary64) : Int := x.units.tdiv (one : Int)

def isWhole (x : Binary64) : Bool := x.units % (one : Int) == 0

/-- The integer part within the signed words: out of range it is the nearest bound, and NaN is
zero. -/
def toInt64 (x : Binary64) : Int64 :=
  if x.isNaN then 0
  else if x.isInfinite then (if x.isNegative then Int64.minValue else Int64.maxValue)
  else
    let n := x.trunc
    if n < Int64.minValue.toInt then Int64.minValue
    else if Int64.maxValue.toInt < n then Int64.maxValue
    else Int64.ofInt n

def rank (x : Binary64) : Int :=
  if x.isNegative then -(x.magnitude : Int) else x.magnitude

def compare? (x y : Binary64) : Option Ordering :=
  if x.isNaN || y.isNaN then none else some (compare x.rank y.rank)

def eq (x y : Binary64) : Bool := x.compare? y == some .eq

def lt (x y : Binary64) : Bool := x.compare? y == some .lt

/-- An integer that orders all bit patterns: negative NaN, numbers with the negative zero below
the positive one, positive NaN. -/
def totalRank (x : Binary64) : Int :=
  if x.isNegative then -(x.magnitude : Int) - 1 else x.magnitude

def totalCompare (x y : Binary64) : Ordering := compare x.totalRank y.totalRank

end Binary64
end SqlEngine

import SqlEngine.Calendar.Date

/-! Instants in universal time and their text, which is exact to the millisecond. -/

namespace SqlEngine.Calendar

/-- A second of a day and nanoseconds within it. A leap second is the last second of a minute with
nanoseconds from a thousand million on. -/
structure Instant where
  day : Int
  second : Nat
  nanosecond : Nat
deriving DecidableEq, Repr

def secondsPerDay : Nat := 86400

def leap : Nat := 1000000000

namespace Instant

def ofMilliseconds? (ms : Int) : Option Instant :=
  let day := ms / (secondsPerDay * 1000 : Nat)
  let rest := (ms % (secondsPerDay * 1000 : Nat)).toNat
  if Date.firstDay ≤ day && day ≤ Date.lastDay then
    some ⟨day, rest / 1000, rest % 1000 * 1000000⟩
  else none

def aheadBy (i : Instant) (offset : Int) : Instant :=
  let seconds := i.day * secondsPerDay + i.second - offset
  { i with day := seconds / secondsPerDay, second := (seconds % secondsPerDay).toNat }

end Instant

def padded (width n : Nat) : String :=
  let digits := Nat.toDigits 10 n
  String.ofList (List.replicate (width - digits.length) '0' ++ digits)

def yearText (year : Int) : String :=
  if 0 ≤ year ∧ year ≤ 9999 then padded 4 year.toNat
  else (if year < 0 then "-" else "+") ++ padded 4 year.natAbs

def Instant.text (i : Instant) : String :=
  let date := Date.ofDays i.day
  let isLeap := leap ≤ i.nanosecond
  let second := i.second % 60 + (if isLeap then 1 else 0)
  let millisecond := (if isLeap then i.nanosecond - leap else i.nanosecond) / 1000000
  yearText date.year ++ "-" ++ padded 2 date.month ++ "-" ++ padded 2 date.day ++ "T" ++
    padded 2 (i.second / 3600) ++ ":" ++ padded 2 (i.second / 60 % 60) ++ ":" ++
    padded 2 second ++ "." ++ padded 3 millisecond ++ "Z"

end SqlEngine.Calendar

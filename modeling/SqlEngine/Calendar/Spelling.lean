import SqlEngine.Calendar.Instant
import SqlEngine.Number.Decimal
import SqlEngine.Text.Blank

/-! The accepted spellings of an instant. One is that of RFC 3339, with fixed widths and an offset
from universal time. The others are looser and have no offset: a date alone, or a date and a time
with a letter T or blanks between them, with short numbers, signed years and blanks before any
number. -/

namespace SqlEngine.Calendar

def digits? (least most : Nat) (cs : List Char) : Option (Nat × List Char) :=
  let digits := (cs.take most).takeWhile Char.isDigit
  if digits.length < least then none
  else some (Decimal.naturalOf digits, cs.drop digits.length)

def sign? (c : Char) : List Char → Option (List Char)
  | d :: rest => if d = c then some rest else none
  | [] => none

/-- Digits of a second after the point; those after the ninth are dropped. -/
def fraction? (cs : List Char) : Option (Nat × List Char) := do
  let (n, rest) ← digits? 1 9 cs
  let width := cs.length - rest.length
  return (n * Nat.pow 10 (9 - width), rest.dropWhile Char.isDigit)

def optionalFraction? : List Char → Option (Nat × List Char)
  | '.' :: rest => fraction? rest
  | rest => some (0, rest)

/-- The date and the time of day, if both exist. A sixtieth second is a leap second. -/
def instant? (date : Date) (hour minute second nanosecond : Nat) : Option Instant :=
  if !date.isValid || 24 ≤ hour || 60 ≤ minute || 60 < second then none
  else if second = 60 then some ⟨date.toDays, hour * 3600 + minute * 60 + 59, nanosecond + leap⟩
  else some ⟨date.toDays, hour * 3600 + minute * 60 + second, nanosecond⟩

def offset? : List Char → Option (Int × List Char)
  | [] => none
  | c :: rest =>
    if c = 'Z' ∨ c = 'z' then some (0, rest)
    else do
      let negative ←
        if c = '+' then some false else if c = '-' ∨ c = '\u2212' then some true else none
      let (hours, rest) ← digits? 2 2 rest
      let rest ← sign? ':' rest
      let (minutes, rest) ← digits? 2 2 rest
      if 24 ≤ hours || 60 ≤ minutes then none
      else
        let seconds : Int := ((hours * 60 + minutes) * 60 : Nat)
        some (if negative then -seconds else seconds, rest)

def dateTimeSign? : List Char → Option (List Char)
  | c :: rest => if c = 'T' ∨ c = 't' ∨ c = ' ' then some rest else none
  | [] => none

def withOffset? (cs : List Char) : Option Instant := do
  let (year, cs) ← digits? 4 4 cs
  let cs ← sign? '-' cs
  let (month, cs) ← digits? 2 2 cs
  let cs ← sign? '-' cs
  let (day, cs) ← digits? 2 2 cs
  let cs ← dateTimeSign? cs
  let (hour, cs) ← digits? 2 2 cs
  let cs ← sign? ':' cs
  let (minute, cs) ← digits? 2 2 cs
  let cs ← sign? ':' cs
  let (second, cs) ← digits? 2 2 cs
  let (nanosecond, cs) ← optionalFraction? cs
  let (offset, cs) ← offset? cs
  let local? ← instant? ⟨year, month, day⟩ hour minute second nanosecond
  if cs.isEmpty then some (local?.aheadBy offset) else none

def number? (most : Nat) (cs : List Char) : Option (Nat × List Char) :=
  digits? 1 most (Text.trimStart cs)

def year? (cs : List Char) : Option (Int × List Char) :=
  match Text.trimStart cs with
  | '-' :: rest => (digits? 1 rest.length rest).map fun (n, after) => (-(n : Int), after)
  | '+' :: rest => (digits? 1 rest.length rest).map fun (n, after) => ((n : Int), after)
  | rest => (digits? 1 4 rest).map fun (n, after) => ((n : Int), after)

def date? (cs : List Char) : Option (Date × List Char) := do
  let (year, cs) ← year? cs
  let cs ← sign? '-' cs
  let (month, cs) ← number? 2 cs
  let cs ← sign? '-' cs
  let (day, cs) ← number? 2 cs
  return (⟨year, month, day⟩, cs)

def timeOf? (date : Date) (cs : List Char) : Option Instant := do
  let (hour, cs) ← number? 2 cs
  let cs ← sign? ':' cs
  let (minute, cs) ← number? 2 cs
  let cs ← sign? ':' cs
  let (second, cs) ← number? 2 cs
  let (nanosecond, cs) ← optionalFraction? cs
  if cs.isEmpty then instant? date hour minute second nanosecond else none

def withoutOffset? (cs : List Char) : Option Instant := do
  let (date, rest) ← date? cs
  match rest with
  | [] => instant? date 0 0 0 0
  | 'T' :: time => timeOf? date time
  | time => timeOf? date time

def Instant.ofText? (s : String) : Option Instant :=
  let cs := (Text.trim s).toList
  withOffset? cs <|> withoutOffset? cs

end SqlEngine.Calendar

import SqlEngine.Number.Decimal

/-! JSON documents and their text. Numbers are kept as written, because a reader decides what range
it accepts, and strings are kept apart when their escapes spell no text. -/

namespace SqlEngine.Json

/-- A number as written: digits before the point, digits after it, and an exponent with its sign. -/
structure Numeral where
  negative : Bool
  whole : List Char
  places : Option (List Char)
  exponent : Option (Bool × List Char)
deriving DecidableEq

/-- A string whose escapes leave half of a surrogate pair alone is no text. -/
abbrev Characters := Option (List Char)

inductive Document where
  | null
  | boolean (b : Bool)
  | number (n : Numeral)
  | string (s : Characters)
  | array (items : List Document)
  | object (members : List (Characters × Document))

def isSpace (c : Char) : Bool := c == ' ' || c == '\t' || c == '\n' || c == '\r'

def skipSpace (cs : List Char) : List Char := cs.dropWhile isSpace

def after? : (word cs : List Char) → Option (List Char)
  | [], cs => some cs
  | c :: word, d :: cs => if c = d then after? word cs else none
  | _ :: _, [] => none

def hexDigit? (c : Char) : Option Nat :=
  if c.isDigit then some (c.toNat - '0'.toNat)
  else if 'a' ≤ c ∧ c ≤ 'f' then some (c.toNat - 'a'.toNat + 10)
  else if 'A' ≤ c ∧ c ≤ 'F' then some (c.toNat - 'A'.toNat + 10)
  else none

def simpleEscape? (c : Char) : Option Char :=
  if c = '"' ∨ c = '\\' ∨ c = '/' then some c
  else if c = 'b' then some '\x08'
  else if c = 'f' then some '\x0c'
  else if c = 'n' then some '\n'
  else if c = 'r' then some '\r'
  else if c = 't' then some '\t'
  else none

def readUnits? : List Char → Option (List Nat × List Char)
  | [] => none
  | '"' :: rest => some ([], rest)
  | '\\' :: 'u' :: a :: b :: c :: d :: rest => do
    let unit := (((← hexDigit? a) * 16 + (← hexDigit? b)) * 16 + (← hexDigit? c)) * 16 +
      (← hexDigit? d)
    let (units, after) ← readUnits? rest
    return (unit :: units, after)
  | '\\' :: c :: rest => do
    let e ← simpleEscape? c
    let (units, after) ← readUnits? rest
    return (e.toNat :: units, after)
  | c :: rest =>
    if c.toNat < 0x20 then none
    else (readUnits? rest).map fun (units, after) => (c.toNat :: units, after)

def isHighSurrogate (n : Nat) : Bool := 0xD800 ≤ n && n < 0xDC00

def isLowSurrogate (n : Nat) : Bool := 0xDC00 ≤ n && n < 0xE000

def charactersOf : List Nat → Characters
  | [] => some []
  | high :: low :: rest =>
    if isHighSurrogate high then
      if isLowSurrogate low then
        let c := Char.ofNat (0x10000 + (high - 0xD800) * 0x400 + (low - 0xDC00))
        (charactersOf rest).map (c :: ·)
      else none
    else if isLowSurrogate high then none
    else (charactersOf (low :: rest)).map (Char.ofNat high :: ·)
  | [unit] =>
    if isHighSurrogate unit || isLowSurrogate unit then none else some [Char.ofNat unit]

def readString? (cs : List Char) : Option (Characters × List Char) :=
  (readUnits? cs).map fun (units, after) => (charactersOf units, after)

def digits? (cs : List Char) : Option (List Char × List Char) :=
  let (digits, rest) := cs.span Char.isDigit
  if digits.isEmpty then none else some (digits, rest)

def places? : List Char → Option (Option (List Char) × List Char)
  | '.' :: rest => (digits? rest).map fun (ds, after) => (some ds, after)
  | rest => some (none, rest)

def exponent? : List Char → Option (Option (Bool × List Char) × List Char)
  | c :: rest =>
    if c = 'e' ∨ c = 'E' then
      let (negative, more) := Decimal.splitSign rest
      (digits? more).map fun (ds, after) => (some (negative, ds), after)
    else some (none, c :: rest)
  | [] => some (none, [])

def readNumber? (cs : List Char) : Option (Numeral × List Char) := do
  let (negative, rest) := match cs with
    | '-' :: rest => (true, rest)
    | rest => (false, rest)
  let (whole, rest) ← digits? rest
  if whole.length > 1 && whole.head? == some '0' then none
  else
    let (places, rest) ← places? rest
    let (exponent, rest) ← exponent? rest
    return (⟨negative, whole, places, exponent⟩, rest)

mutual

def readValue? : (fuel : Nat) → List Char → Option (Document × List Char)
  | 0, _ => none
  | fuel + 1, cs =>
    match skipSpace cs with
    | '\x7b' :: rest =>
      match skipSpace rest with
      | '\x7d' :: after => some (.object [], after)
      | rest => (readMembers? fuel rest).map fun (members, after) => (.object members, after)
    | '[' :: rest =>
      match skipSpace rest with
      | ']' :: after => some (.array [], after)
      | rest => (readItems? fuel rest).map fun (items, after) => (.array items, after)
    | '"' :: rest => (readString? rest).map fun (s, after) => (.string s, after)
    | 'n' :: rest => (after? "ull".toList rest).map fun after => (.null, after)
    | 't' :: rest => (after? "rue".toList rest).map fun after => (.boolean true, after)
    | 'f' :: rest => (after? "alse".toList rest).map fun after => (.boolean false, after)
    | rest => (readNumber? rest).map fun (n, after) => (.number n, after)

def readItems? : (fuel : Nat) → List Char → Option (List Document × List Char)
  | 0, _ => none
  | fuel + 1, cs => do
    let (item, rest) ← readValue? fuel cs
    match skipSpace rest with
    | ']' :: after => return ([item], after)
    | ',' :: rest =>
      let (items, after) ← readItems? fuel rest
      return (item :: items, after)
    | _ => none

def readMembers? : (fuel : Nat) → List Char → Option (List (Characters × Document) × List Char)
  | 0, _ => none
  | fuel + 1, cs =>
    match skipSpace cs with
    | '"' :: rest => do
      let (name, rest) ← readString? rest
      match skipSpace rest with
      | ':' :: rest =>
        let (value, rest) ← readValue? fuel rest
        match skipSpace rest with
        | '\x7d' :: after => return ([(name, value)], after)
        | ',' :: rest =>
          let (members, after) ← readMembers? fuel rest
          return ((name, value) :: members, after)
        | _ => none
      | _ => none
    | _ => none

end

def Document.ofText? (text : String) : Option Document :=
  let cs := text.toList
  match readValue? (cs.length + 1) cs with
  | some (document, rest) => if (skipSpace rest).isEmpty then some document else none
  | none => none

def escape (c : Char) : List Char :=
  if c = '"' then ['\\', '"']
  else if c = '\\' then ['\\', '\\']
  else if c = '\x08' then ['\\', 'b']
  else if c = '\x0c' then ['\\', 'f']
  else if c = '\n' then ['\\', 'n']
  else if c = '\r' then ['\\', 'r']
  else if c = '\t' then ['\\', 't']
  else if c.toNat < 0x20 then
    '\\' :: 'u' :: '0' :: '0' :: Nat.digitChar (c.toNat / 16) :: [Nat.digitChar (c.toNat % 16)]
  else [c]

def quoteChars (cs : List Char) : List Char := '"' :: cs.flatMap escape ++ ['"']

def quote (s : String) : String := String.ofList (quoteChars s.toList)

/-- The shortest digits, with an exponent for numbers from `10 ^ 16` on and below `10 ^ (-5)`, and
with a point in all others. -/
def realDigits (m : Nat) : List Char :=
  let d := Decimal.shortest m
  let digits := Nat.toDigits 10 d.digits
  let top := d.exponent + digits.length
  if 16 < top ∨ top ≤ -5 then
    let body := match digits with
      | [c] => [c]
      | c :: rest => c :: '.' :: rest
      | [] => []
    body ++ 'e' :: (toString (top - 1)).toList
  else if 0 ≤ d.exponent then
    digits ++ List.replicate d.exponent.toNat '0' ++ ['.', '0']
  else Decimal.pointed digits d.exponent.natAbs

/-- JSON has no infinity and no NaN, so these are written as null. -/
def realText (x : Binary64) : String :=
  if !x.isFinite then "null"
  else if x.magnitude = 0 then Decimal.signed x.isNegative ['0', '.', '0']
  else Decimal.signed x.isNegative (realDigits x.magnitude)

end SqlEngine.Json

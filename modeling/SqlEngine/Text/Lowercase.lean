import SqlEngine.Text.CaseTable

/-! Lowercasing by the full Unicode mapping. Two characters need more than the table: a dotted
capital I becomes two characters, and a capital sigma takes its final form at the end of a word. -/

namespace SqlEngine.Text

def inRanges (ranges : List (Nat × Nat)) (c : Char) : Bool :=
  ranges.any fun r => r.1 ≤ c.toNat && c.toNat ≤ r.2

def isCased (c : Char) : Bool := inRanges casedRanges c

def isCaseIgnorable (c : Char) : Bool := inRanges ignorableRanges c

def simpleLower (c : Char) : Char :=
  if c.toNat < 0x80 then c.toLower
  else match lowercaseRuns.find? (·.covers c.toNat) with
    | some run => Char.ofNat (c.toNat + run.shift).toNat
    | none => c

def meetsCased (cs : List Char) : Bool :=
  match cs.dropWhile isCaseIgnorable with
  | c :: _ => isCased c
  | [] => false

/-- A sigma is final when a cased character stands before it and none after it. -/
def sigma (before after : List Char) : Char :=
  if meetsCased before && !meetsCased after then 'ς' else 'σ'

def lowerFrom (before : List Char) : List Char → List Char
  | [] => []
  | c :: rest =>
    let here :=
      if c = 'Σ' then [sigma before rest]
      else if c = 'İ' then ['i', '\u0307']
      else [simpleLower c]
    here ++ lowerFrom (c :: before) rest

def lowerChars (cs : List Char) : List Char := lowerFrom [] cs

def lower (s : String) : String := String.ofList (lowerChars s.toList)

def asciiLower (s : String) : String := s.map Char.toLower

def asciiUpper (s : String) : String := s.map Char.toUpper

end SqlEngine.Text

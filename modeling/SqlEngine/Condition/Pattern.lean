import SqlEngine.Text.Lowercase

/-! Matching of LIKE patterns. A percent sign stands for any run of characters, an underscore for
any one character, and the case of letters does not count. The pieces between the percent signs are
looked for one after the other, each as far left as possible; the first has to begin the text and
the last has to end it. -/

namespace SqlEngine.Pattern

/-- The pieces of a pattern between its percent signs; there is always at least one. -/
def pieces : List Char → List Char × List (List Char)
  | [] => ([], [])
  | c :: rest =>
    let (first, more) := pieces rest
    if c = '%' then ([], first :: more) else (c :: first, more)

def afterPiece? : (piece text : List Char) → Option (List Char)
  | [], text => some text
  | p :: piece, c :: text => if p = '_' ∨ p = c then afterPiece? piece text else none
  | _ :: _, [] => none

def findPiece? (piece : List Char) : (text : List Char) → Option (List Char)
  | [] => afterPiece? piece []
  | c :: text =>
    match afterPiece? piece (c :: text) with
    | some rest => some rest
    | none => findPiece? piece text

def endsWith (piece text : List Char) : Bool :=
  piece.length ≤ text.length &&
    afterPiece? piece (text.drop (text.length - piece.length)) == some []

def matchesLoosely : List (List Char) → (text : List Char) → Bool
  | [], text => text.isEmpty
  | [last], text => endsWith last text
  | piece :: more, text =>
    match findPiece? piece text with
    | some rest => matchesLoosely more rest
    | none => false

def matchesExactly (pattern text : List Char) : Bool :=
  let (first, more) := pieces pattern
  match afterPiece? first text with
  | some rest => if more.isEmpty then rest.isEmpty else matchesLoosely more rest
  | none => false

def like (pattern text : String) : Bool :=
  matchesExactly (Text.lowerChars pattern.toList) (Text.lowerChars text.toList)

end SqlEngine.Pattern

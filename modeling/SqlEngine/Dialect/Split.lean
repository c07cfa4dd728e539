import SqlEngine.Dialect.Scan

/-! Cutting a script into the texts of its statements. The cuts are the semicolon tokens, so one
inside a string or a comment does not count. -/

namespace SqlEngine.Dialect

def Lexeme.endsStatement : Lexeme → Bool
  | symbol .semicolon => true
  | finish => true
  | _ => false

/-- The pieces of a source, from an offset on, before each token that ends a statement. -/
def piecesFrom (source : String) : (start : Nat) → List Token → List String
  | _, [] => []
  | start, t :: rest =>
    if t.lexeme.endsStatement then
      slice source start t.start :: piecesFrom source t.stop rest
    else piecesFrom source start rest

def statementTexts (script : String) : Except LexError (List String) :=
  (tokens script).map fun ts =>
    ((piecesFrom script 0 ts).map Text.trim).filter (· ≠ "")

end SqlEngine.Dialect
